import BusSaathi.DatabaseService

/-! What a write that throws leaves behind. `insertRoute` and `clearAllData` issue their
statements without a transaction, so the statements before the throwing one stay. -/
namespace WriteFailures

open KeyedTable StatementPrograms.Prog DartRuntime Models DatabaseService

variable {D : Type}

/-- The four tables hold the same rows. -/
structure SameContents (db db' : Database D) : Prop where
  buses : db.buses.SameRows db'.buses
  routes : db.routes.SameRows db'.routes
  stops : db.stops.SameRows db'.stops
  tripLogs : db.tripLogs.SameRows db'.tripLogs

theorem SameContents.refl (db : Database D) : SameContents db db :=
  ⟨.refl _, .refl _, .refl _, .refl _⟩

theorem cutAfter_insertStops (routeId : String) (stops : List (RouteStop D)) (n : ℕ)
    (db : Database D) : cutAfter exec n (insertStops routeId stops) db =
      { db with stops := db.stops.replaceAll ((stops.take n).map (stopRow routeId)) } := by
  induction stops generalizing n db with
  | nil => simp [insertStops]
  | cons stop stops ih =>
    cases n with
    | zero => simp
    | succ n =>
      simp only [insertStops, execute_bind, cutAfter_stmt, exec, ih, List.take_succ_cons,
        List.map_cons, Table.replaceAll_cons]

/-- What the first `n` statements of an encodable `insertRoute` write. -/
def writePrefix (route : Route D) (row : RouteRow D) (db : Database D) : ℕ → Database D
  | 0 => db
  | k + 1 => { db with
      routes := db.routes.replace row
      stops := db.stops.replaceAll ((route.stops.take k).map (stopRow route.id)) }

def clearOrder : List TableName := [.buses, .routes, .stops, .tripLogs]

def clearTables (tables : List TableName) (db : Database D) : Database D :=
  tables.foldl clearTable db

def TableEmpty (db : Database D) : TableName → Prop
  | .buses => db.buses.rows = []
  | .routes => db.routes.rows = []
  | .stops => db.stops.rows = []
  | .tripLogs => db.tripLogs.rows = []

theorem cutAfter_clearAllData (n : ℕ) (db : Database D) :
    cutAfter exec n clearAllData db = clearTables (clearOrder.take n) db := by
  match n with
  | 0 | 1 | 2 | 3 | n + 4 => simp [clearAllData, execute, clearTables, clearOrder, exec]

theorem sameRows_empty_iff {R K : Type} {key : R → K} (t : Table key) :
    Table.empty.SameRows t ↔ t.rows = [] := by
  simp [Table.SameRows, List.eq_nil_iff_forall_not_mem]

theorem clearTables_sameContents_iff (n : ℕ) (db : Database D) :
    SameContents (clearTables (clearOrder.take n) db) db ↔
      ∀ table ∈ clearOrder.take n, TableEmpty db table := by
  have refl : ∀ {R K : Type} {key : R → K} (t : Table key), t.SameRows t := fun t => .refl t
  constructor
  · rintro ⟨hb, hr, hs, ht⟩ table htable
    match n with
    | 0 => cases htable
    | 1 | 2 | 3 | n + 4 =>
      simp [clearOrder, clearTables, clearTable, sameRows_empty_iff] at htable hb hr hs ht
      rcases htable with rfl | rfl | rfl | rfl <;> assumption
  · intro h
    match n with
    | 0 => exact .refl db
    | 1 | 2 | 3 | n + 4 =>
      simp [clearOrder, TableEmpty] at h
      constructor <;> simp [clearOrder, clearTables, clearTable, sameRows_empty_iff, h, refl]

section Routes

variable [DartDouble D]

theorem cutAfter_insertRoute_ok {route : Route D} {row : RouteRow D}
    (h : routeRow route = .ok row) (n : ℕ) (db : Database D) :
    cutAfter exec n (insertRoute route) db = writePrefix route row db n := by
  simp only [insertRoute, h, ofExcept_ok, done_bind, execute_bind]
  cases n with
  | zero => rfl
  | succ k => simp only [cutAfter_stmt, exec, cutAfter_insertStops, writePrefix]

theorem cutAfter_insertRoute_error {route : Route D} {e : DartError}
    (h : routeRow route = .error e) (n : ℕ) (db : Database D) :
    cutAfter exec n (insertRoute route) db = db := by
  simp only [insertRoute, h, ofExcept_error, fail_bind, cutAfter_fail]

/-- Whatever survives of the first `n` statements of `insertRoute` was stored before. -/
def PrefixStored (route : Route D) (n : ℕ) (db : Database D) : Prop :=
  ∀ row k, routeRow route = .ok row → n = k + 1 → row ∈ db.routes.rows ∧
    ∀ x stop, lastWith StopRow.id ((route.stops.take k).map (stopRow route.id)) x = some stop →
      stop ∈ db.stops.rows

theorem writePrefix_sameContents_iff {route : Route D} {row : RouteRow D}
    (h : routeRow route = .ok row) (n : ℕ) (db : Database D) :
    SameContents (writePrefix route row db n) db ↔ PrefixStored route n db := by
  cases n with
  | zero => exact iff_of_true (SameContents.refl db) fun _ _ _ hn => by cases hn
  | succ k =>
    constructor
    · rintro ⟨-, hr, hs, -⟩ row' k' hrow hk
      cases h.symm.trans hrow
      cases hk
      exact ⟨(hr row).mp (Table.mem_replace.mpr (.inl rfl)),
        (Table.sameRows_replaceAll_iff _ _).mp hs⟩
    · intro hp
      obtain ⟨hr, hs⟩ := hp row k h rfl
      refine ⟨.refl _, ?_, (Table.sameRows_replaceAll_iff _ _).mpr hs, .refl _⟩
      exact (Table.sameRows_replaceAll_iff _ [row]).mpr fun x r hl => by
        rw [List.mem_singleton.mp (lastWith_mem hl).1]; exact hr

/-- A write that ends with an error has run the statements before the throwing one and no
others; the tables are as before exactly when those changed nothing. -/
theorem failed_write_outcome (db db' : Database D) (n : ℕ) (thrown e : DartError) :
    (∀ route, runFailingAt exec thrown n (insertRoute route) db = (.error e, db') →
      db'.buses = db.buses ∧ db'.tripLogs = db.tripLogs ∧
      (∀ row, routeRow route = .ok row → db' = writePrefix route row db n) ∧
      (∀ unencodable, routeRow route = .error unencodable → db' = db) ∧
      (SameContents db' db ↔ PrefixStored route n db)) ∧
    (runFailingAt exec thrown n clearAllData db = (.error e, db') →
      db' = clearTables (clearOrder.take n) db ∧
      (SameContents db' db ↔ ∀ table ∈ clearOrder.take n, TableEmpty db table)) := by
  constructor
  · intro route hrun
    have hcut := runFailingAt_store exec thrown n (insertRoute route) db
    rw [hrun] at hcut
    cases hrow : routeRow route with
    | error unencodable =>
      rw [cutAfter_insertRoute_error hrow] at hcut
      obtain rfl : db' = db := hcut
      refine ⟨rfl, rfl, fun row h => (by cases h), fun _ _ => rfl, ?_⟩
      exact iff_of_true (.refl _) fun row k h => (by cases hrow.symm.trans h)
    | ok row =>
      rw [cutAfter_insertRoute_ok hrow] at hcut
      obtain rfl : db' = writePrefix route row db n := hcut
      refine ⟨?_, ?_, fun row' h => ?_, fun _ h => (by cases h),
        writePrefix_sameContents_iff hrow n db⟩
      · cases n <;> rfl
      · cases n <;> rfl
      · cases h; rfl
  · intro hrun
    have hcut := runFailingAt_store exec thrown n clearAllData db
    rw [hrun, cutAfter_clearAllData] at hcut
    obtain rfl : db' = clearTables (clearOrder.take n) db := hcut
    exact ⟨rfl, clearTables_sameContents_iff n db⟩

end Routes

def oneStopRoute : Route ℚ where
  id := "r"
  name := "Amritsar - Ludhiana"
  source := "Amritsar"
  destination := "Ludhiana"
  stops := [⟨"s", "Amritsar Bus Stand", 31.634, 74.8723, 1⟩]
  path := []
  schedule := .empty

def oneRouteRow : RouteRow ℚ :=
  ⟨"r", "Amritsar - Ludhiana", "Amritsar", "Ludhiana", .array [], .object []⟩

def oneRouteDatabase : Database ℚ :=
  { emptyDatabase with routes := Table.empty.replace oneRouteRow }

theorem failed_write_examples :
    (SameContents (writePrefix oneStopRoute oneRouteRow emptyDatabase 1) emptyDatabase ↔
      PrefixStored oneStopRoute 1 emptyDatabase) ∧
    (SameContents emptyDatabase oneRouteDatabase ↔
      ∀ table ∈ clearOrder.take 2, TableEmpty oneRouteDatabase table) :=
  ⟨((failed_write_outcome emptyDatabase _ 1 .databaseException _).1 oneStopRoute rfl).2.2.2.2,
    ((failed_write_outcome oneRouteDatabase emptyDatabase 2 .databaseException _).2 rfl).2⟩

theorem writes_not_atomic :
    (¬ ∀ (route : Route ℚ) (n : ℕ) (e : DartError) (db db' : Database ℚ),
      runFailingAt exec .databaseException n (insertRoute route) db = (.error e, db') →
        SameContents db' db) ∧
    (¬ ∀ (n : ℕ) (e : DartError) (db db' : Database ℚ),
      runFailingAt exec .databaseException n clearAllData db = (.error e, db') →
        SameContents db' db) := by
  constructor
  · intro atomic
    have hsame := atomic oneStopRoute 1 _ emptyDatabase _ rfl
    exact List.not_mem_nil ((hsame.routes oneRouteRow).mp List.mem_cons_self)
  · intro atomic
    have hsame := atomic 2 _ oneRouteDatabase _ rfl
    exact List.not_mem_nil ((hsame.routes oneRouteRow).mpr List.mem_cons_self)

end WriteFailures
