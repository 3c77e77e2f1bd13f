import BusSaathi.EventRuns
import BusSaathi.OfflineService
import BusSaathi.WriteFailures

/-! First-run seeding under interruption. The guard of `loadSampleDataIfNeeded` looks at the
routes table alone, while a load writes the route row first and a clear deletes it second. -/
namespace SampleSeeding

open KeyedTable StatementPrograms StatementPrograms.Prog DartRuntime Models DatabaseService
  WriteFailures OfflineService
open EventRuns (foldl_invariant concat_eq_append_cons)

variable {D T : Type} [DartDouble D] [DartDateTime T]

/-- The whole sample data set is stored, whenever the bus was written. -/
structure WholeSample (T : Type) [DartDateTime T] (db : Database D) : Prop where
  route : ∃ row, routeRow sampleRoute = .ok row ∧ row ∈ db.routes.rows
  stops : ∀ stop ∈ (sampleRoute : Route D).stops,
    stopRow (sampleRoute : Route D).id stop ∈ db.stops.rows
  bus : ∃ now : T, busRow (sampleBus now) ∈ db.buses.rows

def DecodingSucceeds (decoder : RouteDecoder D) : Prop :=
  (∀ text, ∃ path, decoder.path text = .ok path) ∧
    ∀ text, ∃ schedule, decoder.schedule text = .ok schedule

theorem run_readRoutes {decoder : RouteDecoder D} (hd : DecodingSucceeds decoder)
    (rows : List (RouteRow D)) (db : Database D) :
    ∃ routes, run exec (readRoutes decoder rows) db = (.ok routes, db) ∧
      routes.length = rows.length := by
  induction rows with
  | nil => exact ⟨[], rfl, rfl⟩
  | cons row rows ih =>
    obtain ⟨routes, hrun, hlen⟩ := ih
    obtain ⟨path, hpath⟩ := hd.1 row.path
    obtain ⟨schedule, hschedule⟩ := hd.2 row.schedule
    rw [readRoutes, run_bind_ok exec (run_getStopsForRoute row.id db), hpath, ofExcept_ok,
      done_bind, hschedule, ofExcept_ok, done_bind, run_bind_ok exec hrun]
    exact ⟨_, rfl, by rw [List.length_cons, List.length_cons, hlen]⟩

theorem cutAfter_load_empty {decoder : RouteDecoder D} {db : Database D}
    (h : db.routes.rows = []) (now : T) (n : ℕ) :
    cutAfter exec (n + 1) (loadSampleDataIfNeeded decoder now) db =
      cutAfter exec n (loadSampleData now) db := by
  simp only [loadSampleDataIfNeeded, getAllRoutesWith, execute_bind, stmt_bind, cutAfter_stmt,
    exec, h]
  rfl

theorem cutAfter_load_stored (decoder : RouteDecoder D) {db : Database D}
    (h : db.routes.rows ≠ []) (now : T) (n : ℕ) :
    cutAfter exec n (loadSampleDataIfNeeded decoder now) db = db := by
  cases n with
  | zero => simp
  | succ n =>
    simp only [loadSampleDataIfNeeded, getAllRoutesWith, execute_bind, stmt_bind, cutAfter_stmt,
      exec]
    refine cutAfter_of_within exec (A := fun s => ∀ db, (exec s db).2 = db) ?_
      (fun s st hs => hs st) n db
    refine readRoutes_within (fun _ _ => rfl) decoder _ _ fun routes hlen => ?_
    have hne : routes.isEmpty = false := by
      rw [List.isEmpty_eq_false_iff]
      rintro rfl
      exact h (List.length_eq_zero_iff.mp hlen.symm)
    rw [hne]
    trivial

theorem run_load_stored {decoder : RouteDecoder D} (hd : DecodingSucceeds decoder)
    {db : Database D} (h : db.routes.rows ≠ []) (now : T) :
    run exec (loadSampleDataIfNeeded decoder now) db = (.ok (), db) := by
  obtain ⟨routes, hrun, hlen⟩ := run_readRoutes hd db.routes.rows db
  have hget : run exec (getAllRoutesWith decoder) db = (.ok routes, db) := hrun
  have hne : routes.isEmpty = false := by
    rw [List.isEmpty_eq_false_iff]
    rintro rfl
    exact h (List.length_eq_zero_iff.mp hlen.symm)
  rw [loadSampleDataIfNeeded, run_bind_ok exec hget, hne]
  rfl

def loaded (row : RouteRow D) (now : T) (db : Database D) : Database D :=
  { writePrefix sampleRoute row db 4 with buses := db.buses.replace (busRow (sampleBus now)) }

theorem loadSampleData_eq {row : RouteRow D} (hrow : routeRow sampleRoute = .ok row) (now : T) :
    (loadSampleData now : DbProg D Unit) = .stmt (.insertRoute row) fun _ =>
      insertStops (sampleRoute : Route D).id (sampleRoute : Route D).stops >>= fun _ =>
      .stmt (.insertBus (busRow (sampleBus now))) .done := by
  simp only [loadSampleData, insertRoute, insertBus, hrow, ofColumns_toJson, ofExcept_ok,
    done_bind, execute_bind]
  rfl

theorem load_within {A : Statement D → Prop} {now : T} (hroutes : A .queryRoutes)
    (hstops : ∀ r, A (.queryStops r))
    (hroute : ∀ row, routeRow sampleRoute = .ok row → A (.insertRoute row))
    (hstop : ∀ row, A (.insertStop row)) (hbus : A (.insertBus (busRow (sampleBus now))))
    (decoder : RouteDecoder D) : (loadSampleDataIfNeeded decoder now).Within A := by
  obtain ⟨row, hrow⟩ := sampleRoute_encodes (D := D)
  apply (getAllRoutesWith_within hroutes hstops decoder).bind
  intro routes
  split
  · rw [loadSampleData_eq hrow]
    refine ⟨hroute row hrow, fun _ => ?_⟩
    exact (insertStops_within hstop _ _).bind fun _ => ⟨hbus, fun _ => trivial⟩
  · trivial

theorem cutAfter_loadSampleData {row : RouteRow D} (hrow : routeRow sampleRoute = .ok row)
    (now : T) (n : ℕ) (db : Database D) : cutAfter exec n (loadSampleData now) db =
      if n ≤ 4 then writePrefix sampleRoute row db n else loaded row now db := by
  rw [loadSampleData_eq hrow]
  match n with
  | 0 | 1 | 2 | 3 | 4 => rfl
  | n + 5 =>
    rw [if_neg (by omega)]
    exact cutAfter_done exec n () _

theorem run_loadSampleData {row : RouteRow D} (hrow : routeRow sampleRoute = .ok row) (now : T)
    (db : Database D) : run exec (loadSampleData now) db = (.ok (), loaded row now db) := by
  rw [loadSampleData_eq hrow]
  rfl

theorem run_load_empty {decoder : RouteDecoder D} {row : RouteRow D}
    (hrow : routeRow sampleRoute = .ok row) {db : Database D} (h : db.routes.rows = []) (now : T) :
    run exec (loadSampleDataIfNeeded decoder now) db = (.ok (), loaded row now db) := by
  have hget : run exec (getAllRoutesWith decoder) db = (.ok [], db) := by
    simp only [getAllRoutesWith, execute_bind, run_stmt, exec, h]
    rfl
  rw [loadSampleDataIfNeeded, run_bind_ok exec hget]
  exact run_loadSampleData hrow now db

theorem wholeSample_loaded {row : RouteRow D} (hrow : routeRow sampleRoute = .ok row) (now : T)
    (db : Database D) : WholeSample T (loaded row now db) := by
  refine ⟨⟨row, hrow, Table.mem_replace.mpr (.inl rfl)⟩, fun stop hstop => ?_,
    ⟨now, Table.mem_replace.mpr (.inl rfl)⟩⟩
  have hn : (((sampleRoute : Route D).stops.map (stopRow (sampleRoute : Route D).id)).map
      StopRow.id).Nodup := by
    rw [List.map_map]
    exact sampleRoute_ids
  have hlook := db.stops.lookup_replaceAll ((sampleRoute : Route D).stops.map
    (stopRow (sampleRoute : Route D).id)) stop.id
  rw [show stop.id = (stopRow (sampleRoute : Route D).id stop).id from rfl,
    lastWith_of_nodup hn (List.mem_map_of_mem hstop), Option.some_or] at hlook
  exact Table.mem_iff_lookup.mpr hlook

/-- One of the two operations, cut off after some of its statements or run to its end. -/
inductive Session (T : Type) where
  | load (now : T) (statements : ℕ)
  | clear (statements : ℕ)

def cutSession (decoder : RouteDecoder D) (db : Database D) : Session T → Database D
  | .load now n => cutAfter exec n (loadSampleDataIfNeeded decoder now) db
  | .clear n => cutAfter exec n clearAllData db

def afterSessions (decoder : RouteDecoder D) (sessions : List (Session T)) : Database D :=
  sessions.foldl (cutSession decoder) emptyDatabase

inductive Phase where
  | fresh
  | whole
  | stuck
  deriving DecidableEq, Repr

/-- Six statements load a fresh database, and the second of a clear deletes the routes. -/
def Phase.after : Phase → Session T → Phase
  | .fresh, .load _ n => if n ≤ 1 then .fresh else if n ≤ 5 then .stuck else .whole
  | .whole, .clear 0 => .whole
  | .whole, .clear 1 => .stuck
  | .stuck, .clear 0 | .stuck, .clear 1 => .stuck
  | _, .clear _ => .fresh
  | phase, .load _ _ => phase

def phaseAfter (sessions : List (Session T)) : Phase := sessions.foldl Phase.after .fresh

def PhaseHolds (T : Type) [DartDateTime T] : Phase → Database D → Prop
  | .fresh, db => db.routes.rows = [] ∧ db.buses.rows = []
  | .whole, db => WholeSample T db
  | .stuck, db => db.routes.rows ≠ [] ∧ db.buses.rows = []

theorem WholeSample.stored {db : Database D} (h : WholeSample T db) : db.routes.rows ≠ [] := by
  obtain ⟨row, -, hmem⟩ := h.route
  exact List.ne_nil_of_mem hmem

theorem fresh_iff {phase : Phase} {db : Database D} (h : PhaseHolds T phase db) :
    db.routes.rows = [] ↔ phase = .fresh := by
  cases phase with
  | fresh => exact iff_of_true h.1 rfl
  | whole => exact iff_of_false (WholeSample.stored h) nofun
  | stuck => exact iff_of_false h.1 nofun

section Cleared

omit [DartDateTime T]

/-- Every load that came to write the route was followed by a clear that came to delete it. -/
def LoadsCleared (sessions : List (Session T)) : Prop :=
  ∀ before now n after, sessions = before ++ .load now n :: after → 2 ≤ n →
    ∃ m, 2 ≤ m ∧ .clear m ∈ after

theorem loadsCleared_concat_load {sessions : List (Session T)} {now : T} {n : ℕ} :
    LoadsCleared (sessions ++ [.load now n]) ↔ n < 2 ∧ LoadsCleared sessions := by
  constructor
  · intro h
    have hn : n < 2 := by
      by_contra hn
      obtain ⟨m, -, hmem⟩ := h sessions now n [] rfl (by omega)
      cases hmem
    refine ⟨hn, fun before now' n' after hsplit hn' => ?_⟩
    obtain ⟨m, hm, hmem⟩ := h before now' n' (after ++ [.load now n]) (by simp [hsplit]) hn'
    exact ⟨m, hm, by simpa using hmem⟩
  · rintro ⟨hn, h⟩ before now' n' after hsplit hn'
    rcases concat_eq_append_cons.mp hsplit with ⟨-, he, -⟩ | ⟨most, rfl, hearlier⟩
    · cases he
      omega
    · obtain ⟨m, hm, hmem⟩ := h _ _ _ _ hearlier hn'
      exact ⟨m, hm, List.mem_append_left _ hmem⟩

theorem loadsCleared_concat_clear {sessions : List (Session T)} {m : ℕ} :
    LoadsCleared (sessions ++ [.clear m]) ↔ 2 ≤ m ∨ LoadsCleared sessions := by
  constructor
  · intro h
    by_cases hm : 2 ≤ m
    · exact Or.inl hm
    · right
      intro before now n after hsplit hn
      obtain ⟨k, hk, hmem⟩ := h before now n (after ++ [.clear m]) (by simp [hsplit]) hn
      rcases List.mem_append.mp hmem with hmem | hmem
      · exact ⟨k, hk, hmem⟩
      · cases List.mem_singleton.mp hmem
        exact absurd hk hm
  · rintro h before now n after hsplit hn
    rcases concat_eq_append_cons.mp hsplit with ⟨-, he, -⟩ | ⟨most, rfl, hearlier⟩
    · cases he
    · rcases h with hm | h
      · exact ⟨m, hm, by simp⟩
      · obtain ⟨k, hk, hmem⟩ := h _ _ _ _ hearlier hn
        exact ⟨k, hk, List.mem_append_left _ hmem⟩

theorem after_load_fresh_iff {phase : Phase} {now : T} {n : ℕ} :
    phase.after (.load now n) = .fresh ↔ n < 2 ∧ phase = .fresh := by
  cases phase with
  | fresh =>
    rw [Phase.after]
    split_ifs <;> simp <;> omega
  | whole | stuck => simp [Phase.after]

theorem after_clear_fresh_iff {phase : Phase} {n : ℕ} :
    phase.after (.clear n : Session T) = .fresh ↔ 2 ≤ n ∨ phase = .fresh := by
  match n with
  | 0 | 1 | n + 2 => cases phase <;> simp [Phase.after]

theorem phaseAfter_fresh_iff {sessions : List (Session T)} :
    phaseAfter sessions = .fresh ↔ LoadsCleared sessions := by
  induction sessions using List.reverseRecOn with
  | nil =>
    refine iff_of_true rfl ?_
    intro before now n after hsplit
    simp at hsplit
  | append_singleton sessions session ih =>
    rw [phaseAfter, List.foldl_concat, ← phaseAfter]
    cases session with
    | load now n => rw [after_load_fresh_iff, loadsCleared_concat_load, ih]
    | clear n => rw [after_clear_fresh_iff, loadsCleared_concat_clear, ih]

end Cleared

theorem phaseHolds_load {decoder : RouteDecoder D} {phase : Phase} {db : Database D}
    (h : PhaseHolds T phase db) (now : T) (n : ℕ) :
    PhaseHolds T (phase.after (.load now n))
      (cutAfter exec n (loadSampleDataIfNeeded decoder now) db) := by
  cases phase with
  | whole => rwa [cutAfter_load_stored decoder (WholeSample.stored h)]
  | stuck => rwa [cutAfter_load_stored decoder h.1]
  | fresh =>
    obtain ⟨row, hrow⟩ := sampleRoute_encodes (D := D)
    cases n with
    | zero => rw [cutAfter_zero]; exact h
    | succ n =>
      rw [cutAfter_load_empty h.1, cutAfter_loadSampleData hrow, Phase.after]
      cases n with
      | zero => exact h
      | succ n =>
        rw [if_neg (by omega)]
        by_cases hn : n + 1 ≤ 4
        · rw [if_pos hn, if_pos (by omega)]
          exact ⟨List.ne_nil_of_mem (Table.mem_replace.mpr (.inl rfl)), h.2⟩
        · rw [if_neg hn, if_neg (by omega)]
          exact wholeSample_loaded hrow now db

theorem phaseHolds_clear {phase : Phase} {db : Database D} (h : PhaseHolds T phase db) (n : ℕ) :
    PhaseHolds T (phase.after (.clear n : Session T)) (cutAfter exec n clearAllData db) := by
  match n with
  | 0 => cases phase <;> exact h
  | 1 =>
    cases phase with
    | whole =>
      have hs : db.routes.rows ≠ [] := WholeSample.stored h
      exact ⟨hs, rfl⟩
    | fresh | stuck => exact ⟨h.1, rfl⟩
  | n + 2 =>
    have hfresh : phase.after (.clear (n + 2) : Session T) = .fresh := by cases phase <;> rfl
    rw [hfresh, cutAfter_clearAllData]
    match n with
    | 0 | 1 => exact ⟨rfl, rfl⟩
    | n + 2 =>
      rw [List.take_of_length_le (by simp [clearOrder])]
      exact ⟨rfl, rfl⟩

theorem phaseHolds_run (decoder : RouteDecoder D) (sessions : List (Session T)) :
    PhaseHolds T (phaseAfter sessions) (afterSessions decoder sessions) := by
  refine foldl_invariant (I := fun history db => PhaseHolds T (phaseAfter history) db)
    ⟨rfl, rfl⟩ (fun history db session ih => ?_) sessions
  rw [phaseAfter, List.foldl_concat]
  cases session with
  | load now n => exact phaseHolds_load ih now n
  | clear n => exact phaseHolds_clear ih n

/-- A load that is not interrupted makes the sample data whole exactly when the phase that
the earlier sessions left is not the stuck one. -/
theorem load_after_sessions {decoder : RouteDecoder D} (hd : DecodingSucceeds decoder)
    (sessions : List (Session T)) (now : T) :
    ∃ db, run exec (loadSampleDataIfNeeded decoder now) (afterSessions decoder sessions) =
      (.ok (), db) ∧ (WholeSample T db ↔ phaseAfter sessions ≠ .stuck) := by
  have hphase := phaseHolds_run decoder sessions
  obtain ⟨row, hrow⟩ := sampleRoute_encodes (D := D)
  cases hp : phaseAfter sessions with
  | fresh =>
    rw [hp] at hphase
    refine ⟨_, run_load_empty hrow hphase.1 now, ?_⟩
    exact iff_of_true (wholeSample_loaded hrow now _) (by decide)
  | whole =>
    rw [hp] at hphase
    refine ⟨_, run_load_stored hd (WholeSample.stored hphase) now, ?_⟩
    exact iff_of_true hphase (by decide)
  | stuck =>
    rw [hp] at hphase
    refine ⟨_, run_load_stored hd hphase.1 now, iff_of_false ?_ fun h => h rfl⟩
    intro hwhole
    obtain ⟨_, hbus⟩ := hwhole.bus
    rw [hphase.2] at hbus
    cases hbus

section Interleaved

/-- The app over its database, with whatever operations are in flight. -/
structure App (D : Type) where
  inFlight : List (DbProg D Unit)
  db : Database D

inductive Event (T : Type) where
  | load (now : T)
  | clear
  | step (i : ℕ)
  | kill

def handle (decoder : RouteDecoder D) (app : App D) : Event T → App D
  | .load now => { app with inFlight := app.inFlight ++ [loadSampleDataIfNeeded decoder now] }
  | .clear => { app with inFlight := app.inFlight ++ [clearAllData] }
  | .step i =>
    match app.inFlight[i]? with
    | some (.stmt s rest) =>
      ⟨app.inFlight.set i (rest (exec s app.db).1), (exec s app.db).2⟩
    | _ => app
  | .kill => { app with inFlight := [] }

def afterEvents (decoder : RouteDecoder D) (events : List (Event T)) : App D :=
  events.foldl (handle decoder) ⟨[], emptyDatabase⟩

/-- The only route row that is ever written is that of the sample route. -/
def WritesSample : Statement D → Prop
  | .insertRoute row => routeRow sampleRoute = .ok row
  | _ => True

structure SeedInvariant (app : App D) : Prop where
  inFlight : ∀ p ∈ app.inFlight, p.Within WritesSample
  routes : ∀ row ∈ app.db.routes.rows, routeRow sampleRoute = .ok row

theorem load_writesSample (decoder : RouteDecoder D) (now : T) :
    (loadSampleDataIfNeeded decoder now).Within WritesSample :=
  load_within trivial (fun _ => trivial) (fun _ => id) (fun _ => trivial) trivial decoder

theorem exec_writesSample {s : Statement D} (hs : WritesSample s) {db : Database D}
    (h : ∀ row ∈ db.routes.rows, routeRow sampleRoute = .ok row) :
    ∀ row ∈ (exec s db).2.routes.rows, routeRow sampleRoute = .ok row := by
  intro row hrow
  cases s with
  | insertRoute new =>
    rcases Table.mem_replace.mp hrow with rfl | ⟨hmem, -⟩
    · exact hs
    · exact h row hmem
  | delete table =>
    cases table with
    | routes => cases hrow
    | buses | stops | tripLogs => exact h row hrow
  | _ => exact h row hrow

theorem seedInvariant_start {app : App D} (h : SeedInvariant app) {p : DbProg D Unit}
    (hp : p.Within WritesSample) :
    SeedInvariant { app with inFlight := app.inFlight ++ [p] } := by
  constructor
  · intro q hq
    rcases List.mem_append.mp hq with hq | hq
    · exact h.inFlight q hq
    · rw [List.mem_singleton.mp hq]
      exact hp
  · exact h.routes

theorem seedInvariant_step (decoder : RouteDecoder D) {app : App D} (h : SeedInvariant app)
    (event : Event T) : SeedInvariant (handle decoder app event) := by
  cases event with
  | load now => exact seedInvariant_start h (load_writesSample decoder now)
  | clear => exact seedInvariant_start h (clearAllData_within fun _ => trivial)
  | kill => exact ⟨fun p hp => (by cases hp), h.routes⟩
  | step i =>
    simp only [handle]
    split
    case h_1 s rest hi =>
      have hwithin := h.inFlight _ (List.mem_of_getElem? hi)
      constructor
      · intro p hp
        rcases List.mem_or_eq_of_mem_set hp with hp | rfl
        · exact h.inFlight p hp
        · exact hwithin.2 _
      · exact exec_writesSample hwithin.1 h.routes
    case h_2 => exact h

theorem seedInvariant_run (decoder : RouteDecoder D) (events : List (Event T)) :
    SeedInvariant (afterEvents decoder events) :=
  foldl_invariant (I := fun _ app => SeedInvariant app)
    ⟨fun p hp => (by cases hp), fun row hrow => (by cases hrow)⟩
    (fun _ _ event ih => seedInvariant_step decoder ih event) events

/-- A session as events: the operation starts, runs so many steps and is killed. -/
def sessionEvents : Session T → List (Event T)
  | .load now n => .load now :: (List.replicate n (.step 0) ++ [.kill])
  | .clear n => .clear :: (List.replicate n (.step 0) ++ [.kill])

theorem steps_cutAfter (decoder : RouteDecoder D) (n : ℕ) (p : DbProg D Unit) (db : Database D) :
    ∃ q, (List.replicate n (.step 0 : Event T)).foldl (handle decoder) ⟨[p], db⟩ =
      ⟨[q], cutAfter exec n p db⟩ := by
  induction n generalizing p db with
  | zero => exact ⟨p, by simp⟩
  | succ n ih =>
    rw [List.replicate_succ, List.foldl_cons]
    cases p with
    | stmt s rest => exact ih _ _
    | done a =>
      obtain ⟨q, hq⟩ := ih (.done a) db
      exact ⟨q, by simpa [handle] using hq⟩
    | fail e =>
      obtain ⟨q, hq⟩ := ih (.fail e) db
      exact ⟨q, by simpa [handle] using hq⟩

theorem afterEvents_sessions (decoder : RouteDecoder D) (sessions : List (Session T)) :
    afterEvents decoder (sessions.flatMap sessionEvents) =
      ⟨[], afterSessions decoder sessions⟩ := by
  induction sessions using List.reverseRecOn with
  | nil => rfl
  | append_singleton sessions session ih =>
    rw [List.flatMap_append, List.flatMap_singleton, afterEvents, List.foldl_append]
    rw [afterEvents] at ih
    rw [ih, afterSessions, afterSessions, List.foldl_concat]
    cases session with
    | load now n =>
      obtain ⟨q, hq⟩ := steps_cutAfter (T := T) decoder n (loadSampleDataIfNeeded decoder now)
        (afterSessions decoder sessions)
      simp only [sessionEvents, List.foldl_cons, List.foldl_append, handle, List.nil_append]
      rw [← afterSessions, hq]
      rfl
    | clear n =>
      obtain ⟨q, hq⟩ := steps_cutAfter (T := T) decoder n clearAllData
        (afterSessions decoder sessions)
      simp only [sessionEvents, List.foldl_cons, List.foldl_append, handle, List.nil_append]
      rw [← afterSessions, hq]
      rfl

/-- No route is stored, or nothing that the route needs is missing. -/
def GuardSound (T : Type) [DartDateTime T] (db : Database D) : Prop :=
  db.routes.rows = [] ∨
    (∀ stop ∈ (sampleRoute : Route D).stops,
      stopRow (sampleRoute : Route D).id stop ∈ db.stops.rows) ∧
    ∃ now : T, busRow (sampleBus now) ∈ db.buses.rows

theorem load_after_events {decoder : RouteDecoder D} (hd : DecodingSucceeds decoder)
    (events : List (Event T)) (now : T) :
    ∃ db, run exec (loadSampleDataIfNeeded decoder now) (afterEvents decoder events).db =
      (.ok (), db) ∧ (WholeSample T db ↔ GuardSound T (afterEvents decoder events).db) := by
  have hinv := (seedInvariant_run decoder events).routes
  generalize (afterEvents decoder events).db = before at hinv ⊢
  obtain ⟨row, hrow⟩ := sampleRoute_encodes (D := D)
  by_cases h : before.routes.rows = []
  · exact ⟨_, run_load_empty hrow h now, iff_of_true (wholeSample_loaded hrow now _) (.inl h)⟩
  · refine ⟨before, run_load_stored hd h now, fun hw => .inr ⟨hw.stops, hw.bus⟩, fun hg => ?_⟩
    obtain ⟨hstops, hbus⟩ := hg.resolve_left h
    obtain ⟨first, hfirst⟩ := List.exists_mem_of_ne_nil _ h
    exact ⟨⟨first, hinv first hfirst, hfirst⟩, hstops, hbus⟩

end Interleaved

/-- Uninterrupted seeding completes; it leaves the whole sample after sequential sessions
exactly when they do not end stuck, and after any run exactly when the guard was sound. -/
theorem seeding_recovers_iff (decoder : RouteDecoder D) (hd : DecodingSucceeds decoder) :
    (∀ (sessions : List (Session T)) (now : T), ∃ db,
      run exec (loadSampleDataIfNeeded decoder now) (afterSessions decoder sessions) =
        (.ok (), db) ∧ (WholeSample T db ↔ phaseAfter sessions ≠ .stuck)) ∧
    (∀ (events : List (Event T)) (now : T), ∃ db,
      run exec (loadSampleDataIfNeeded decoder now) (afterEvents decoder events).db =
        (.ok (), db) ∧ (WholeSample T db ↔ GuardSound T (afterEvents decoder events).db)) :=
  ⟨load_after_sessions hd, load_after_events hd⟩

theorem decodingAside_succeeds : DecodingSucceeds (decodingAside : RouteDecoder ℚ) :=
  ⟨fun _ => ⟨_, rfl⟩, fun _ => ⟨_, rfl⟩⟩

def firstStart : IsoInstant := ⟨"2024-01-15T08:00:00.000"⟩

theorem cleared_seed_is_repeated :
    ∃ db : Database ℚ, run exec (loadSampleDataIfNeeded decodingAside firstStart)
      (afterSessions decodingAside [.load firstStart 6, .clear 3]) = (.ok (), db) ∧
        WholeSample IsoInstant db := by
  obtain ⟨db, hrun, hiff⟩ := (seeding_recovers_iff decodingAside decodingAside_succeeds).1
    [.load firstStart 6, .clear 3] firstStart
  exact ⟨db, hrun, hiff.mpr (by decide)⟩

theorem killed_seed_stays_partial :
    ¬ ∀ (decoder : RouteDecoder ℚ) (sessions : List (Session IsoInstant)) (now : IsoInstant)
      (db : Database ℚ), DecodingSucceeds decoder →
        run exec (loadSampleDataIfNeeded decoder now) (afterSessions decoder sessions) =
          (.ok (), db) → WholeSample IsoInstant db := by
  intro h
  have hwhole := h decodingAside [.load firstStart 2] firstStart _ decodingAside_succeeds rfl
  obtain ⟨now, hbus⟩ := hwhole.bus
  cases hbus

end SampleSeeding
