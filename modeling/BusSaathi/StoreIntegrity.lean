import BusSaathi.ConcurrentStore
import BusSaathi.EventRuns
import BusSaathi.ProgramInterference
import BusSaathi.StoreHistory

/-! What the rows of the store refer to. A stop and a bus each name a route and no foreign key
holds them to it, so what keeps a name good is the order of the statements: of a call that is
killed, and of calls that run at the same time. -/
namespace StoreIntegrity

open EventRuns KeyedTable StatementPrograms StatementPrograms.Prog InterleavedPrograms
  ProgramInterference DartRuntime Models DatabaseService StoreHistory WriteFailures ConcurrentStore

variable {D T : Type}

def StoredRoute (db : Database D) (id : String) : Prop := ∃ row ∈ db.routes.rows, row.id = id

def StopsHaveRoutes (db : Database D) : Prop := ∀ stop ∈ db.stops.rows, StoredRoute db stop.routeId

def BusesHaveRoutes (db : Database D) : Prop := ∀ bus ∈ db.buses.rows, StoredRoute db bus.routeId

theorem storedRoute_replace {db : Database D} {id : String} (row : RouteRow D) :
    StoredRoute { db with routes := db.routes.replace row } id ↔
      row.id = id ∨ StoredRoute db id := by
  constructor
  · rintro ⟨stored, hstored, rfl⟩
    rcases Table.mem_replace.mp hstored with rfl | ⟨hmem, -⟩
    · exact Or.inl rfl
    · exact Or.inr ⟨stored, hmem, rfl⟩
  · rintro (rfl | ⟨stored, hstored, rfl⟩)
    · exact ⟨row, Table.mem_replace.mpr (Or.inl rfl), rfl⟩
    · by_cases hsame : stored.id = row.id
      · exact ⟨row, Table.mem_replace.mpr (Or.inl rfl), hsame.symm⟩
      · exact ⟨stored, Table.mem_replace.mpr (Or.inr ⟨hstored, hsame⟩), rfl⟩

theorem stopsHaveRoutes_write {db : Database D} (h : StopsHaveRoutes db) (row : RouteRow D)
    (stops : List (RouteStop D)) : StopsHaveRoutes { db with
      routes := db.routes.replace row
      stops := db.stops.replaceAll (stops.map (stopRow row.id)) } := by
  intro stop hstop
  have hold : StoredRoute { db with routes := db.routes.replace row } stop.routeId := by
    rw [storedRoute_replace]
    rcases Table.mem_replaceAll hstop with hnew | hstop
    · obtain ⟨_, -, rfl⟩ := List.mem_map.mp hnew
      exact Or.inl rfl
    · exact Or.inr (h stop hstop)
  exact hold

section CutCalls

/-- A call that is killed after so many of its statements, or has completed by then. -/
structure CutCall (D T : Type) where
  call : StoreCall D T
  statements : ℕ

variable [DartDouble D] [DartDateTime T]

def afterCut (db : Database D) (c : CutCall D T) : Database D :=
  cutAfter exec c.statements c.call.prog db

def afterCuts (history : List (CutCall D T)) : Database D := history.foldl afterCut emptyDatabase

def step (db : Database D) (c : CutCall D T) : Option (Database D) := some (afterCut db c)

theorem run_step (history : List (CutCall D T)) :
    run step emptyDatabase history = some (afterCuts history) := by
  induction history using List.reverseRecOn with
  | nil => rfl
  | append_singleton history c ih =>
    rw [afterCuts, List.foldl_concat, ← afterCuts]
    exact run_concat.mpr ⟨_, ih, rfl⟩

theorem afterCut_insertBus (db : Database D) (bus : Bus D T) (n : ℕ) :
    afterCut db ⟨.insertBus bus, n⟩ =
      if n = 0 then db else { db with buses := db.buses.replace (busRow bus) } := by
  have hprog : (StoreCall.insertBus bus).prog =
      (.stmt (.insertBus (busRow bus)) .done : DbProg D Unit) := by
    rw [StoreCall.prog, insertBus, ofColumns_toJson]
    rfl
  rw [afterCut, hprog]
  cases n with
  | zero => rfl
  | succ n => exact cutAfter_done exec n () _

theorem afterCut_insertRoute (db : Database D) (route : Route D) (n : ℕ) :
    afterCut db ⟨(.insertRoute route : StoreCall D T), n⟩ = db ∨
      ∃ row, ∃ stops : List (RouteStop D), row.id = route.id ∧
        afterCut db ⟨(.insertRoute route : StoreCall D T), n⟩ = { db with
          routes := db.routes.replace row
          stops := db.stops.replaceAll (stops.map (stopRow route.id)) } := by
  cases hrow : routeRow route with
  | error e => exact Or.inl (cutAfter_insertRoute_error hrow n db)
  | ok row =>
    have hcut :
        afterCut db ⟨(.insertRoute route : StoreCall D T), n⟩ = writePrefix route row db n :=
      cutAfter_insertRoute_ok hrow n db
    rw [hcut]
    cases n with
    | zero => exact Or.inl rfl
    | succ n => exact Or.inr ⟨row, route.stops.take n, (routeRow_fields hrow).1, rfl⟩

theorem afterCut_clearAllData (db : Database D) (n : ℕ) :
    (afterCut db ⟨(.clearAllData : StoreCall D T), n⟩).buses =
      (if n = 0 then db.buses else .empty) ∧
    (afterCut db ⟨(.clearAllData : StoreCall D T), n⟩).routes =
      (if n ≤ 1 then db.routes else .empty) ∧
    (afterCut db ⟨(.clearAllData : StoreCall D T), n⟩).stops =
      (if n ≤ 2 then db.stops else .empty) := by
  have hcut : afterCut db ⟨(.clearAllData : StoreCall D T), n⟩ =
    clearTables (clearOrder.take n) db := cutAfter_clearAllData n db
  rw [hcut]
  match n with
  | 0 | 1 | 2 | 3 | n + 4 => simp [clearTables, clearOrder, clearTable]

/-- A clear that is killed between its second and its third statement leaves stops behind. -/
theorem stopsHaveRoutes_afterCut {db : Database D} (h : StopsHaveRoutes db) (c : CutCall D T) :
    StopsHaveRoutes (afterCut db c) ↔ (c = ⟨.clearAllData, 2⟩ → db.stops.rows = []) := by
  obtain ⟨call, n⟩ := c
  cases call with
  | insertBus bus =>
    rw [afterCut_insertBus]
    refine iff_of_true ?_ nofun
    split <;> exact h
  | insertRoute route =>
    refine iff_of_true ?_ nofun
    rcases afterCut_insertRoute (T := T) db route n with heq | ⟨row, stops, hid, heq⟩
    · rw [heq]
      exact h
    · rw [heq, ← hid]
      exact stopsHaveRoutes_write h row stops
  | clearAllData =>
    obtain ⟨-, hroutes, hstops⟩ := afterCut_clearAllData (T := T) db n
    unfold StopsHaveRoutes StoredRoute
    rw [hroutes, hstops]
    by_cases hfew : n ≤ 1
    · rw [if_pos hfew, if_pos (by omega)]
      refine iff_of_true h ?_
      rintro ⟨⟩
      omega
    · by_cases htwo : n = 2
      · subst htwo
        constructor
        · intro hkept _
          rw [List.eq_nil_iff_forall_not_mem]
          intro stop hstop
          obtain ⟨row, hrow, -⟩ := hkept stop hstop
          cases hrow
        · intro hnone stop hstop
          rw [if_pos (le_refl 2), hnone rfl] at hstop
          cases hstop
      · rw [if_neg (show ¬ n ≤ 2 by omega)]
        refine iff_of_true nofun ?_
        rintro ⟨⟩
        exact absurd rfl htwo

/-- A clear deletes the buses first, so only a bus that is inserted without its route is left
without it. -/
theorem busesHaveRoutes_afterCut {db : Database D} (h : BusesHaveRoutes db) (c : CutCall D T) :
    BusesHaveRoutes (afterCut db c) ↔
      ∀ bus n, c = ⟨.insertBus bus, n + 1⟩ → StoredRoute db bus.routeId := by
  obtain ⟨call, n⟩ := c
  cases call with
  | insertBus bus =>
    rw [afterCut_insertBus]
    cases n with
    | zero => exact iff_of_true h nofun
    | succ n =>
      rw [if_neg (by omega)]
      constructor
      · rintro hkept bus' n' heq
        cases heq
        exact hkept (busRow bus) (Table.mem_replace.mpr (Or.inl rfl))
      · intro hstored row hrow
        rcases Table.mem_replace.mp hrow with rfl | ⟨hrow, -⟩
        · exact hstored bus n rfl
        · exact h row hrow
  | insertRoute route =>
    refine iff_of_true ?_ nofun
    rcases afterCut_insertRoute (T := T) db route n with heq | ⟨row, stops, hid, heq⟩
    · rw [heq]
      exact h
    · rw [heq]
      intro bus hbus
      have hold : StoredRoute { db with routes := db.routes.replace row } bus.routeId := by
        rw [storedRoute_replace]
        exact Or.inr (h bus hbus)
      exact hold
  | clearAllData =>
    obtain ⟨hbuses, hroutes, -⟩ := afterCut_clearAllData (T := T) db n
    unfold BusesHaveRoutes StoredRoute
    rw [hbuses, hroutes]
    refine iff_of_true ?_ nofun
    by_cases hn : n = 0
    · rw [if_pos hn, if_pos (by omega)]
      exact h
    · rw [if_neg hn]
      intro bus hbus
      cases hbus

theorem throughout_cuts (Q : Database D → Prop) (keeps : Database D → CutCall D T → Prop)
    (hempty : Q emptyDatabase) (hkeeps : ∀ db c, Q db → (Q (afterCut db c) ↔ keeps db c))
    (history : List (CutCall D T)) :
    Throughout step emptyDatabase (fun _ db => Q db) history ↔
      EachStep (fun before c => keeps (afterCuts before) c) history := by
  apply throughout_iff_eachStep (I := fun history db => db = afterCuts history) ⟨rfl, hempty⟩ ?_ ?_
    (run_step history)
  · rintro before db c db' rfl hstep -
    rw [afterCuts, List.foldl_concat]
    exact (Option.some.inj hstep).symm
  · rintro before db c db' rfl hQ hstep
    rw [← Option.some.inj hstep]
    exact hkeeps _ c hQ

/-- The databases of a history after every single statement of its calls. -/
def Passes (history : List (CutCall D T)) (db : Database D) : Prop :=
  db = emptyDatabase ∨ ∃ before c after k, history = before ++ c :: after ∧ k ≤ c.statements ∧
    db = afterCut (afterCuts before) { c with statements := k }

theorem forall_passes_iff (Q : Database D → Prop) (keeps : Database D → CutCall D T → Prop)
    (hempty : Q emptyDatabase)
    (hkeeps : ∀ db c, Q db →
      ((∀ k ≤ c.statements, Q (afterCut db { c with statements := k })) ↔ keeps db c))
    (history : List (CutCall D T)) : (∀ db, Passes history db → Q db) ↔
      EachStep (fun before c => keeps (afterCuts before) c) history := by
  have hpoints : (∀ db, Passes history db → Q db) ↔ EachStep (fun before c =>
      ∀ k ≤ c.statements, Q (afterCut (afterCuts before) { c with statements := k })) history := by
    constructor
    · intro hall before c after hsplit k hk
      exact hall _ (Or.inr ⟨before, c, after, k, hsplit, hk, rfl⟩)
    · rintro hall db (rfl | ⟨before, c, after, k, hsplit, hk, rfl⟩)
      · exact hempty
      · exact hall before c after hsplit k hk
  rw [hpoints]
  apply eachStep_congr (Q := fun history => Q (afterCuts history)) hempty
  · intro before c _ hpoint
    rw [afterCuts, List.foldl_concat]
    exact hpoint c.statements (le_refl _)
  · exact fun before c => hkeeps (afterCuts before) c

theorem stopsHaveRoutes_passes {db : Database D} (h : StopsHaveRoutes db) (c : CutCall D T) :
    (∀ k ≤ c.statements, StopsHaveRoutes (afterCut db { c with statements := k })) ↔
      (c.call = .clearAllData → 2 ≤ c.statements → db.stops.rows = []) := by
  obtain ⟨call, n⟩ := c
  simp only [stopsHaveRoutes_afterCut h]
  constructor
  · rintro hall rfl htwo
    exact hall 2 htwo rfl
  · rintro hclear k hk heq
    cases heq
    exact hclear rfl hk

theorem busesHaveRoutes_passes {db : Database D} (h : BusesHaveRoutes db) (c : CutCall D T) :
    (∀ k ≤ c.statements, BusesHaveRoutes (afterCut db { c with statements := k })) ↔
      ∀ bus n, c = ⟨.insertBus bus, n + 1⟩ → StoredRoute db bus.routeId := by
  obtain ⟨call, n⟩ := c
  simp only [busesHaveRoutes_afterCut h]
  constructor
  · intro hall bus n' heq
    exact hall n (le_refl n) bus n' heq
  · rintro hstored k hk bus n' heq
    cases heq
    obtain ⟨more, rfl⟩ := Nat.exists_eq_add_of_le hk
    exact hstored bus (n' + more) (by rw [Nat.add_right_comm])

/-- Along a history of calls that are killed anywhere, every stop has its route after every
statement exactly where no clear gets past the routes while stops are stored, and between the calls
exactly where none dies right there. Every bus has its route, at both, exactly where each bus that
is written finds it. -/
theorem integrity_throughout_iff (history : List (CutCall D T)) :
    (((∀ db, Passes history db → StopsHaveRoutes db) ↔
        EachStep (fun before c => c.call = .clearAllData → 2 ≤ c.statements →
          (afterCuts before).stops.rows = []) history) ∧
      (Throughout step emptyDatabase (fun _ db => StopsHaveRoutes db) history ↔
        EachStep (fun before c => c = ⟨.clearAllData, 2⟩ →
          (afterCuts before).stops.rows = []) history)) ∧
    ((∀ db, Passes history db → BusesHaveRoutes db) ↔
      EachStep (fun before c => ∀ bus n, c = ⟨.insertBus bus, n + 1⟩ →
        StoredRoute (afterCuts before) bus.routeId) history) ∧
    (Throughout step emptyDatabase (fun _ db => BusesHaveRoutes db) history ↔
      EachStep (fun before c => ∀ bus n, c = ⟨.insertBus bus, n + 1⟩ →
        StoredRoute (afterCuts before) bus.routeId) history) := by
  have hstops : StopsHaveRoutes (emptyDatabase : Database D) := by
    intro stop hstop
    cases hstop
  have hbuses : BusesHaveRoutes (emptyDatabase : Database D) := by
    intro bus hbus
    cases hbus
  refine ⟨⟨?_, ?_⟩, ?_, ?_⟩
  · apply forall_passes_iff StopsHaveRoutes (fun db c =>
      c.call = .clearAllData → 2 ≤ c.statements → db.stops.rows = []) hstops
    exact fun db c h => stopsHaveRoutes_passes h c
  · apply throughout_cuts StopsHaveRoutes (fun db c =>
      c = ⟨.clearAllData, 2⟩ → db.stops.rows = []) hstops
    exact fun db c h => stopsHaveRoutes_afterCut h c
  · apply forall_passes_iff BusesHaveRoutes (fun db c =>
      ∀ bus n, c = ⟨.insertBus bus, n + 1⟩ → StoredRoute db bus.routeId) hbuses
    exact fun db c h => busesHaveRoutes_passes h c
  · apply throughout_cuts BusesHaveRoutes (fun db c =>
      ∀ bus n, c = ⟨.insertBus bus, n + 1⟩ → StoredRoute db bus.routeId) hbuses
    exact fun db c h => busesHaveRoutes_afterCut h c

end CutCalls

def writtenThenCleared : List (CutCall ℚ IsoInstant) :=
  [⟨.insertRoute oneStopRoute, 2⟩, ⟨.clearAllData, 4⟩]

theorem clear_parts_stops_on_its_way :
    (¬ ∀ db, Passes writtenThenCleared db → StopsHaveRoutes db) ∧
      Throughout step emptyDatabase (fun _ db => StopsHaveRoutes db) writtenThenCleared := by
  obtain ⟨⟨hpoints, hcalls⟩, -⟩ := integrity_throughout_iff writtenThenCleared
  rw [hpoints, hcalls]
  constructor
  · intro hall
    have hnone := hall [⟨.insertRoute oneStopRoute, 2⟩] ⟨.clearAllData, 4⟩ [] rfl rfl (by decide)
    cases hnone
  · rintro before c after hsplit rfl
    have hmem : (⟨.clearAllData, 2⟩ : CutCall ℚ IsoInstant) ∈ writtenThenCleared := by
      rw [hsplit]
      simp
    simp [writtenThenCleared] at hmem

section Interleaved

/-- No route id is lost, and what has a route keeps it. -/
def keepingRoutes : Interference (Database D) where
  may := fun db db' => (∀ id, StoredRoute db id → StoredRoute db' id) ∧
    (StopsHaveRoutes db → StopsHaveRoutes db') ∧ (BusesHaveRoutes db → BusesHaveRoutes db')
  refl := fun _ => ⟨fun _ => id, id, id⟩
  trans := fun h k => ⟨fun id hid => k.1 id (h.1 id hid), k.2.1 ∘ h.2.1, k.2.2 ∘ h.2.2⟩

theorem may_insertStop {db : Database D} {row : StopRow D} (hroute : StoredRoute db row.routeId) :
    (keepingRoutes (D := D)).may db (exec (.insertStop row) db).2 := by
  refine ⟨fun _ => id, ?_, id⟩
  intro h stop hstop
  rcases Table.mem_replace.mp hstop with rfl | ⟨hstop, -⟩
  · exact hroute
  · exact h stop hstop

theorem may_insertRoute (db : Database D) (row : RouteRow D) :
    (keepingRoutes (D := D)).may db (exec (.insertRoute row) db).2 := by
  have hold (id : String) (h : StoredRoute db id) :
      StoredRoute (exec (.insertRoute row) db).2 id := (storedRoute_replace row).mpr (Or.inr h)
  refine ⟨hold, ?_, ?_⟩
  · intro h stop hstop
    exact hold _ (h stop hstop)
  · intro h bus hbus
    exact hold _ (h bus hbus)

theorem may_insertBus {db : Database D} {row : BusRow D} (hroute : StoredRoute db row.routeId) :
    (keepingRoutes (D := D)).may db (exec (.insertBus row) db).2 := by
  refine ⟨fun _ => id, id, ?_⟩
  intro h bus hbus
  rcases Table.mem_replace.mp hbus with rfl | ⟨hbus, -⟩
  · exact hroute
  · exact h bus hbus

theorem safe_insertStops {routeId : String} {db : Database D} (h : StoredRoute db routeId)
    (stops : List (RouteStop D)) :
    Safe exec keepingRoutes (fun _ _ => True) (insertStops routeId stops) db := by
  induction stops generalizing db with
  | nil => exact fun _ _ => trivial
  | cons stop stops ih =>
    intro db' hmay
    have hroute : StoredRoute db' routeId := hmay.1 routeId h
    exact ⟨may_insertStop hroute, ih hroute⟩

variable [DartDouble D] [DartDateTime T]

theorem safe_op (decoder : RouteDecoder D) {op : DbOp D T} {db : Database D}
    (hclear : op ≠ .clearAllData)
    (hbus : ∀ bus, op = .insertBus bus → StoredRoute db bus.routeId) :
    Safe exec keepingRoutes (fun _ _ => True) (op.prog decoder) db := by
  cases op with
  | clearAllData => exact absurd rfl hclear
  | insertRoute route =>
    apply Safe.bind
    unfold insertRoute
    cases hrow : routeRow route with
    | error e => exact fun _ _ => trivial
    | ok row =>
      intro db' _
      refine ⟨may_insertRoute db' row, ?_⟩
      have hstored : StoredRoute (exec (.insertRoute row) db').2 route.id :=
        (storedRoute_replace row).mpr (Or.inl (routeRow_fields hrow).1)
      apply (safe_insertStops hstored route.stops).mono
      rintro (e | _) _ _
      · trivial
      · exact fun _ _ => trivial
  | insertBus bus =>
    apply Safe.bind
    rw [insertBus, ofColumns_toJson]
    intro db' hmay
    refine ⟨may_insertBus (hmay.1 _ (hbus bus rfl)), ?_⟩
    exact fun _ _ => fun _ _ => trivial
  | getAllRoutes =>
    have hreads : (getAllRoutesWith decoder).Within
        fun s => ∀ db : Database D, (exec s db).2 = db :=
      getAllRoutesWith_within (fun _ => rfl) (fun _ _ => rfl) decoder
    apply safe_of_within hreads
    intro s db hs
    rw [hs db]
    exact keepingRoutes.refl db

/-- Inserts and reads that run at the same time, and are killed or not, never part a stop or a
bus from its route, where each bus that is inserted has one from the start. -/
theorem interleaved_inserts_keep_integrity (decoder : RouteDecoder D) {n : ℕ}
    (ops : Fin n → DbOp D T) (db : Database D) (hclear : ∀ i, ops i ≠ .clearAllData)
    (hbus : ∀ i bus, ops i = .insertBus bus → StoredRoute db bus.routeId) (w : List (Fin n)) :
    (StopsHaveRoutes db → StopsHaveRoutes (runSchedule exec w (issue decoder ops db)).store) ∧
    (BusesHaveRoutes db → BusesHaveRoutes (runSchedule exec w (issue decoder ops db)).store) := by
  have hsafe : ∀ i, Safe exec keepingRoutes (fun _ _ => True)
      ((issue decoder ops db).pool i) (issue decoder ops db).store :=
    fun i => safe_op decoder (hclear i) (hbus i)
  obtain ⟨-, hstops, hbuses⟩ := (safe_runSchedule hsafe w).1
  exact ⟨hstops, hbuses⟩

end Interleaved

def servedDatabase : Database ℚ :=
  { oneRouteDatabase with
    stops := Table.empty.replace ⟨"s", "r", "Amritsar Bus Stand", 31.634, 74.8723, 1⟩
    buses := Table.empty.replace (busRow (BusStore.sampleBus "a" "running")) }

theorem interleaved_ops_keep_integrity :
    StopsHaveRoutes (runSchedule exec [0, 1, 3, 2, 1, 2, 0]
      (issue decodingAside insertsAndRead servedDatabase)).store ∧
    BusesHaveRoutes (runSchedule exec [0, 1, 3, 2, 1, 2, 0]
      (issue decodingAside insertsAndRead servedDatabase)).store := by
  have hroute : StoredRoute servedDatabase "r" := ⟨oneRouteRow, List.mem_cons_self, rfl⟩
  have hkept := interleaved_inserts_keep_integrity decodingAside insertsAndRead servedDatabase
    (fun i => by match i with | 0 | 1 | 2 | 3 => nofun) (fun i bus hbus => ?_)
    [0, 1, 3, 2, 1, 2, 0]
  · refine ⟨hkept.1 ?_, hkept.2 ?_⟩
    · intro stop hstop
      rw [List.mem_singleton.mp hstop]
      exact hroute
    · intro bus hbus
      rw [List.mem_singleton.mp hbus]
      exact hroute
  · match i with
    | 0 | 1 | 2 => cases hbus
    | 3 =>
      cases hbus
      exact hroute

end StoreIntegrity
