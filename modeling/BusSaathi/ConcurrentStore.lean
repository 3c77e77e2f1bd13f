import BusSaathi.BusStore
import BusSaathi.InterleavedPrograms
import BusSaathi.WriteFailures
import Mathlib.Data.Fin.VecNotation
import Mathlib.Data.List.FinRange
import Mathlib.Data.List.Permutation

/-! `DatabaseService` operations in flight at the same time. Every awaited statement is one
atomic step and no operation runs in a transaction, so only interleavings without a cycle
of conflicting statements are serialisable. -/
namespace ConcurrentStore

open KeyedTable StatementPrograms StatementPrograms.Prog InterleavedPrograms DartRuntime Models
  DatabaseService WriteFailures

variable {D T : Type}

def stopsOf (db : Database D) (routeId : String) : List (StopRow D) :=
  db.stops.rows.filter (·.routeId = routeId)

/-- No statement can tell in which order the stops of different routes stand. -/
instance : Setoid (Database D) where
  r db db' := db.buses = db'.buses ∧ db.routes = db'.routes ∧ db.tripLogs = db'.tripLogs ∧
    ∀ routeId, stopsOf db routeId = stopsOf db' routeId
  iseqv :=
    { refl := fun _ => ⟨rfl, rfl, rfl, fun _ => rfl⟩
      symm := fun h => ⟨h.1.symm, h.2.1.symm, h.2.2.1.symm, fun r => (h.2.2.2 r).symm⟩
      trans := fun h k => ⟨h.1.trans k.1, h.2.1.trans k.2.1, h.2.2.1.trans k.2.2.1,
        fun r => (h.2.2.2 r).trans (k.2.2.2 r)⟩ }

theorem sameContents_of_equiv {db db' : Database D} (h : db ≈ db') : SameContents db db' := by
  obtain ⟨hb, hr, ht, hs⟩ := h
  refine ⟨hb ▸ .refl _, hr ▸ .refl _, fun row => ?_, ht ▸ .refl _⟩
  have hmem := congrArg (row ∈ ·) (hs row.routeId)
  simpa [stopsOf] using hmem

theorem stopsOf_insertStop (db : Database D) (row : StopRow D) (routeId : String) :
    stopsOf (exec (.insertStop row) db).2 routeId =
      (stopsOf db routeId).filter (fun r => r.id ≠ row.id) ++
        [row].filter (·.routeId = routeId) := by
  simp only [stopsOf, exec, Table.replace, List.filter_append, List.filter_filter]
  congr 2
  funext r
  exact Bool.and_comm _ _

theorem exec_respects :
    Respects (exec : (s : Statement D) → Database D → Reply D s × Database D) := by
  intro s db db' h
  have hkeep := h
  obtain ⟨hb, hr, ht, hs⟩ := h
  cases s with
  | insertBus row => exact ⟨rfl, congrArg (Table.replace · row) hb, hr, ht, hs⟩
  | insertRoute row => exact ⟨rfl, hb, congrArg (Table.replace · row) hr, ht, hs⟩
  | insertStop row =>
    refine ⟨rfl, hb, hr, ht, fun routeId => ?_⟩
    rw [stopsOf_insertStop, stopsOf_insertStop, hs]
  | queryBuses => exact ⟨congrArg Table.rows hb, hkeep⟩
  | queryBus id => exact ⟨by simp only [exec, hb], hkeep⟩
  | queryRoutes => exact ⟨congrArg Table.rows hr, hkeep⟩
  | queryStops routeId => exact ⟨congrArg orderBySequence (hs routeId), hkeep⟩
  | delete table =>
    cases table with
    | buses => exact ⟨rfl, rfl, hr, ht, hs⟩
    | routes => exact ⟨rfl, hb, rfl, ht, hs⟩
    | stops => exact ⟨rfl, hb, hr, ht, fun _ => rfl⟩
    | tripLogs => exact ⟨rfl, hb, hr, rfl, hs⟩

def table : Statement D → TableName
  | .insertBus _ | .queryBuses | .queryBus _ => .buses
  | .insertRoute _ | .queryRoutes => .routes
  | .insertStop _ | .queryStops _ => .stops
  | .delete name => name

def isQuery : Statement D → Bool
  | .queryBuses | .queryBus _ | .queryRoutes | .queryStops _ => true
  | _ => false

def isDelete : Statement D → Bool
  | .delete _ => true
  | _ => false

/-- Two inserted stops conflict over a stop id or within one route; other statements
conflict when they work on one table, unless both read it or both empty it. Ids do not part the
other statements: an inserted stop may take its id away from the route being read, and the lists
that `getAllRoutes` returns are in row order. -/
def Conflicting : Statement D → Statement D → Prop
  | .insertStop row, .insertStop row' => row.id = row'.id ∨ row.routeId = row'.routeId
  | s, t => table s = table t ∧ ¬ (isQuery s ∧ isQuery t) ∧ ¬ (isDelete s ∧ isDelete t)

theorem commutes_insertStop {row row' : StopRow D} (hid : row.id ≠ row'.id)
    (hroute : row.routeId ≠ row'.routeId) :
    Commutes exec (.insertStop row : Statement D) (.insertStop row') := by
  refine fun db => ⟨rfl, rfl, rfl, rfl, rfl, fun routeId => ?_⟩
  have hkeep : ∀ a b : StopRow D, a.id ≠ b.id →
      ([a].filter (·.routeId = routeId)).filter (fun r => r.id ≠ b.id) =
        [a].filter (·.routeId = routeId) := by
    intro a b hab
    rw [List.filter_eq_self]
    intro r hr
    rw [List.mem_singleton.mp (List.mem_filter.mp hr).1]
    simpa using hab
  have hone : [row].filter (·.routeId = routeId) = [] ∨
      [row'].filter (·.routeId = routeId) = [] := by
    by_cases hr : row.routeId = routeId
    · exact .inr (by simpa [← hr] using hroute.symm)
    · exact .inl (by simpa using hr)
  simp only [stopsOf_insertStop, List.filter_append, hkeep row row' hid, hkeep row' row hid.symm]
  rw [List.filter_comm]
  rcases hone with h | h <;> simp only [h, List.append_nil]

theorem commutes_of_table_ne {s t : Statement D} (h : table s ≠ table t) : Commutes exec s t := by
  intro db
  cases s with
  | delete a =>
    cases t with
    | delete b => cases a <;> cases b <;> exact ⟨rfl, rfl, Setoid.refl _⟩
    | _ => cases a <;> first | exact absurd rfl h | exact ⟨rfl, rfl, Setoid.refl _⟩
  | _ =>
    cases t with
    | delete b => cases b <;> first | exact absurd rfl h | exact ⟨rfl, rfl, Setoid.refl _⟩
    | _ => first | exact absurd rfl h | exact ⟨rfl, rfl, Setoid.refl _⟩

theorem exec_query {s : Statement D} (h : isQuery s) (db : Database D) : (exec s db).2 = db := by
  cases s with
  | queryBuses | queryBus | queryRoutes | queryStops => rfl
  | _ => cases h

theorem commutes_queries {s t : Statement D} (hs : isQuery s) (ht : isQuery t) :
    Commutes exec s t := by
  intro db
  simp only [exec_query hs, exec_query ht]
  exact ⟨trivial, trivial, Setoid.refl _⟩

theorem commutes_deletes {s t : Statement D} (hs : isDelete s) (ht : isDelete t) :
    Commutes exec s t := by
  intro db
  cases s with
  | delete a =>
    cases t with
    | delete b => cases a <;> cases b <;> exact ⟨rfl, rfl, Setoid.refl _⟩
    | _ => cases ht
  | _ => cases hs

theorem commutes_of_not_conflicting (s t : Statement D) (h : ¬ Conflicting s t) :
    Commutes exec s t := by
  by_cases htable : table s = table t
  · by_cases hq : isQuery s ∧ isQuery t
    · exact commutes_queries hq.1 hq.2
    · by_cases hd : isDelete s ∧ isDelete t
      · exact commutes_deletes hd.1 hd.2
      · unfold Conflicting at h
        split at h
        · exact commutes_insertStop (fun he => h (.inl he)) (fun he => h (.inr he))
        · exact absurd ⟨htable, hq, hd⟩ h
  · exact commutes_of_table_ne htable

/-- The operations that the app issues without waiting for one another. -/
inductive DbOp (D T : Type) where
  | insertRoute (route : Route D)
  | insertBus (bus : Bus D T)
  | clearAllData
  | getAllRoutes

section Operations

variable [DartDouble D] [DartDateTime T]

/-- Only `getAllRoutes` has a result. -/
def DbOp.prog (decoder : RouteDecoder D) : DbOp D T → DbProg D (List (Route D))
  | .insertRoute route => do DatabaseService.insertRoute route; return []
  | .insertBus bus => do DatabaseService.insertBus bus; return []
  | .clearAllData => do DatabaseService.clearAllData; return []
  | .getAllRoutes => getAllRoutesWith decoder

variable {n : ℕ}

abbrev Pool (D : Type) (n : ℕ) :=
  Config (Reply D) DartError (List (Route D)) (Database D) (Fin n)

def issue (decoder : RouteDecoder D) (ops : Fin n → DbOp D T) (db : Database D) : Pool D n :=
  ⟨fun i => (ops i).prog decoder, db⟩

def result (c : Pool D n) (i : Fin n) : Option (Except DartError (List (Route D))) :=
  match c.pool i with
  | .done routes => some (.ok routes)
  | .fail e => some (.error e)
  | .stmt _ _ => none

/-- Some serial order gives the tables and the results of the schedule. -/
def Serialisable (c : Pool D n) (w : List (Fin n)) : Prop :=
  ∃ order : List (Fin n), order.Perm (List.finRange n) ∧
    SameContents (runSchedule exec w c).store (runSerial exec order c).store ∧
    ∀ i, result (runSchedule exec w c) i = result (runSerial exec order c) i

/-- Where the conflicts of a schedule have no cycle, some serial order of the operations does what
the schedule does. -/
theorem acyclic_schedule_serialisable (decoder : RouteDecoder D) (ops : Fin n → DbOp D T)
    (db : Database D) (w : List (Fin n))
    (hdone : ∀ i, ((runSchedule exec w (issue decoder ops db)).pool i).Finished)
    (hacyclic : Acyclic Conflicting (trace exec w (issue decoder ops db))) :
    Serialisable (issue decoder ops db) w := by
  obtain ⟨order, hperm, hpool, hstore⟩ := exists_serial_order exec exec_respects
    commutes_of_not_conflicting (List.finRange n) w List.mem_finRange _ hacyclic hdone
  refine ⟨order, hperm, sameContents_of_equiv hstore, fun i => ?_⟩
  simp only [result, hpool]

end Operations

def routeWithStop (id stopId : String) : Route ℚ :=
  { oneStopRoute with id, stops := [⟨stopId, "Bus Stand", 31.634, 74.8723, 1⟩] }

def insertsAndRead : Fin 4 → DbOp ℚ IsoInstant :=
  ![.insertRoute (routeWithStop "p" "t"), .insertRoute (routeWithStop "q" "u"), .getAllRoutes,
    .insertBus (BusStore.sampleBus "b" "scheduled")]

theorem interleaved_read_serialisable :
    Serialisable (issue decodingAside insertsAndRead emptyDatabase) [0, 1, 1, 0, 2, 2, 3, 2] := by
  refine acyclic_schedule_serialisable decodingAside insertsAndRead emptyDatabase _ ?_ ?_
  · intro i
    match i with
    | 0 | 1 | 2 | 3 => trivial
  · have htrace : trace exec [0, 1, 1, 0, 2, 2, 3, 2]
          (issue decodingAside insertsAndRead emptyDatabase) =
        [(0, .insertRoute
           ⟨"p", "Amritsar - Ludhiana", "Amritsar", "Ludhiana", .array [], .object []⟩),
         (1, .insertRoute
           ⟨"q", "Amritsar - Ludhiana", "Amritsar", "Ludhiana", .array [], .object []⟩),
         (1, .insertStop ⟨"u", "q", "Bus Stand", 31.634, 74.8723, 1⟩),
         (0, .insertStop ⟨"t", "p", "Bus Stand", 31.634, 74.8723, 1⟩),
         (2, .queryRoutes), (2, .queryStops "p"),
         (3, .insertBus (busRow (BusStore.sampleBus "b" "scheduled"))),
         (2, .queryStops "q")] := rfl
    rw [htrace]
    refine acyclic_of_rank Fin.val ?_
    simp [Conflicting, table, isQuery]

/-- The read stands between the route row and the stop of an insert. -/
def tornRead : Fin 2 → DbOp ℚ IsoInstant := ![.getAllRoutes, .insertRoute oneStopRoute]

def stopCounts : Option (Except DartError (List (Route ℚ))) → List ℕ
  | some (.ok routes) => routes.map fun route => route.stops.length
  | _ => []

theorem torn_read_not_serialisable :
    ¬ ∀ (n : ℕ) (ops : Fin n → DbOp ℚ IsoInstant) (db : Database ℚ) (w : List (Fin n)),
      (∀ i, ((runSchedule exec w (issue decodingAside ops db)).pool i).Finished) →
        Serialisable (issue decodingAside ops db) w := by
  intro h
  have hdone : ∀ i, ((runSchedule exec [1, 0, 0, 1]
      (issue decodingAside tornRead emptyDatabase)).pool i).Finished := by
    intro i
    match i with
    | 0 | 1 => trivial
  obtain ⟨order, hperm, -, hres⟩ := h 2 tornRead emptyDatabase [1, 0, 0, 1] hdone
  have hcounts := congrArg stopCounts (hres 0)
  rcases List.perm_pair.mp hperm with rfl | rfl <;> exact absurd hcounts (by decide)

end ConcurrentStore
