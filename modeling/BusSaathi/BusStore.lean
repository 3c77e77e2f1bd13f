import BusSaathi.StoreHistory

/-! The bus store over whole histories: it refines the finite map that takes each id to
the bus of its last insert since the last clear. -/
namespace BusStore

open KeyedTable StatementPrograms.Prog DartRuntime Models DatabaseService StoreHistory

variable {D T : Type}

/-- The abstract store: the buses themselves under last-write-wins. -/
def busTable (buses : List (Bus D T)) : Table (@Bus.id D T) := Table.empty.replaceAll buses

def lastBus (h : List (StoreCall D T)) (id : String) : Option (Bus D T) :=
  lastWith Bus.id (busesSinceClear h) id

def withoutRoutes (h : List (StoreCall D T)) : List (StoreCall D T) :=
  h.filter fun
    | .insertRoute _ => false
    | _ => true

theorem lookup_busTable (buses : List (Bus D T)) (id : String) :
    (busTable buses).lookup id = lastWith Bus.id buses id := by
  rw [busTable, Table.lookup_replaceAll, Table.lookup_empty, Option.or_none]

theorem mem_of_mem_busTable {buses : List (Bus D T)} {bus : Bus D T}
    (hb : bus ∈ (busTable buses).rows) : bus ∈ buses := by
  rw [Table.mem_iff_lookup, lookup_busTable] at hb
  exact (lastWith_mem hb).1

theorem busesSinceClear_withoutRoutes (h : List (StoreCall D T)) :
    busesSinceClear (withoutRoutes h) = busesSinceClear h := by
  induction h using List.reverseRecOn with
  | nil => rfl
  | append_singleton h call ih =>
    have happ : withoutRoutes (h ++ [call]) = withoutRoutes h ++ withoutRoutes [call] :=
      List.filter_append ..
    rw [happ, busesSinceClear_concat, ← ih]
    cases call with
    | insertRoute route => simp [withoutRoutes, noteBus]
    | insertBus bus => rw [← busesSinceClear_concat]; rfl
    | clearAllData => rw [← busesSinceClear_concat]; rfl

variable [DartDateTime T]

/-- The instants of the given buses survive their text form. -/
def InstantsRoundTrip (buses : List (Bus D T)) : Prop :=
  ∀ bus ∈ buses, DartDateTime.parse (DartDateTime.toIso8601String bus.lastUpdated) =
    some bus.lastUpdated

theorem fromJson_busRow {buses : List (Bus D T)} (hi : InstantsRoundTrip buses) {bus : Bus D T}
    (hb : bus ∈ buses) : Bus.fromJson (busRow bus).toColumns = .ok bus := by
  rw [busRow_toColumns]
  exact bus_fromJson_toJson bus (hi bus hb)

section Reads

variable {db : Database D} {buses : List (Bus D T)}

theorem run_getBus (hrows : db.buses.rows = (busTable buses).rows.map busRow)
    (hi : InstantsRoundTrip buses) (id : String) :
    (run exec (getBus id : DbProg D (Option (Bus D T))) db).1 = .ok (lastWith Bus.id buses id) := by
  have hlook := Table.lookup_map busRow busRow_id hrows id
  rw [lookup_busTable] at hlook
  have hquery := db.buses.filter_key id
  cases hl : lastWith Bus.id buses id with
  | none =>
    rw [hlook, hl] at hquery
    simp [getBus, exec, hquery]
  | some bus =>
    rw [hlook, hl] at hquery
    have hread := fromJson_busRow hi (lastWith_mem hl).1
    simp [getBus, exec, hquery, hread]

theorem run_getAllBuses (hrows : db.buses.rows = (busTable buses).rows.map busRow)
    (hi : InstantsRoundTrip buses) :
    (run exec (getAllBuses : DbProg D (List (Bus D T))) db).1 = .ok (busTable buses).rows := by
  have hread : ((busTable buses).rows.map busRow).mapM
      (fun row => (Bus.fromJson row.toColumns : Except DartError (Bus D T))) =
        .ok (busTable buses).rows :=
    mapM_map_ok fun bus hb => fromJson_busRow hi (mem_of_mem_busTable hb)
  simp [getAllBuses, exec, hrows, hread]

end Reads

variable [DartDouble D]

theorem buses_after_history {h : List (StoreCall D T)} {db : Database D}
    (hrun : runHistory h = some db) :
    db.buses.rows = (busTable (busesSinceClear h)).rows.map busRow := by
  rw [(historyInvariant_run hrun).buses]
  exact Table.rows_replaceAll_map busRow busRow_id rfl _

theorem runHistory_withoutRoutes (h : List (StoreCall D T)) :
    ∃ db, runHistory (withoutRoutes h) = some db := by
  suffices aux : ∀ db : Database D, ∃ db',
      runAll exec ((withoutRoutes h).map StoreCall.prog) db = some db' from aux emptyDatabase
  induction h with
  | nil => exact fun db => ⟨db, rfl⟩
  | cons call h ih =>
    intro db
    cases call with
    | insertRoute route => exact ih db
    | insertBus bus =>
      obtain ⟨db', hdb'⟩ := ih { db with buses := db.buses.replace (busRow bus) }
      have hcons : withoutRoutes (.insertBus bus :: h) = .insertBus bus :: withoutRoutes h := rfl
      refine ⟨db', ?_⟩
      simp only [hcons, List.map_cons, runAll, StoreCall.prog, run_insertBus]
      exact hdb'
    | clearAllData => exact ih emptyDatabase

/-- Reading a bus or all buses back after a history gives the abstract map, and the route
inserts of the history make no difference. -/
theorem bus_store_refines_map (h : List (StoreCall D T)) (db : Database D)
    (hinstants : ∀ bus, .insertBus bus ∈ h →
      DartDateTime.parse (DartDateTime.toIso8601String bus.lastUpdated) = some bus.lastUpdated)
    (hrun : runHistory h = some db) :
    (∀ id, (run exec (getBus id) db).1 = .ok (lastBus h id)) ∧
    (∃ buses : List (Bus D T), (run exec getAllBuses db).1 = .ok buses ∧
      (buses.map Bus.id).Nodup ∧ ∀ bus, bus ∈ buses ↔ lastBus h bus.id = some bus) ∧
    (∃ db', runHistory (withoutRoutes h) = some db' ∧
      (∀ id, (run exec (getBus id : DbProg D (Option (Bus D T))) db').1 =
        (run exec (getBus id) db).1) ∧
      (run exec (getAllBuses : DbProg D (List (Bus D T))) db').1 =
        (run exec getAllBuses db).1) := by
  have hi : InstantsRoundTrip (busesSinceClear h) :=
    fun bus hb => hinstants bus (mem_busesSinceClear hb)
  have hrows := buses_after_history hrun
  refine ⟨run_getBus hrows hi, ⟨_, run_getAllBuses hrows hi, Table.keys_nodup _, ?_⟩, ?_⟩
  · intro bus
    rw [Table.mem_iff_lookup, lookup_busTable]
    rfl
  · obtain ⟨db', hrun'⟩ := runHistory_withoutRoutes h
    have hrows' := buses_after_history hrun'
    rw [busesSinceClear_withoutRoutes] at hrows'
    refine ⟨db', hrun', fun id => ?_, ?_⟩
    · rw [run_getBus hrows' hi, run_getBus hrows hi]
    · rw [run_getAllBuses hrows' hi, run_getAllBuses hrows hi]

def sampleBus (id status : String) : Bus ℚ IsoInstant :=
  { id, number := id, routeId := "r", source := "Amritsar", destination := "Ludhiana",
    departureTime := "08:00", arrivalTime := "11:00", driverName := "Mr. Singh", status,
    currentLat := some 31.634, lastUpdated := ⟨"2024-01-15T08:00:00.000"⟩ }

def busHistory : List (StoreCall ℚ IsoInstant) :=
  [.insertBus (sampleBus "b0" "scheduled"), .clearAllData,
   .insertBus (sampleBus "b1" "scheduled"),
   .insertRoute ⟨"r", "Amritsar - Ludhiana", "Amritsar", "Ludhiana",
     [⟨"s", "Amritsar Bus Stand", 31.634, 74.8723, 1⟩], [], .empty⟩,
   .insertBus (sampleBus "b2" "running"), .insertBus (sampleBus "b1" "delayed")]

theorem bus_history_reads : ∃ db, runHistory busHistory = some db ∧
    (run exec (getBus "b1") db).1 = .ok (some (sampleBus "b1" "delayed")) ∧
    (run exec (getBus "b0" : DbProg ℚ (Option (Bus ℚ IsoInstant))) db).1 = .ok none ∧
    ∃ db', runHistory (withoutRoutes busHistory) = some db' ∧
      (run exec (getBus "b1") db').1 = .ok (some (sampleBus "b1" "delayed")) := by
  have hruns : ∃ db, runHistory busHistory = some db := ⟨_, rfl⟩
  obtain ⟨db, hrun⟩ := hruns
  obtain ⟨hget, -, db', hrun', hsame, -⟩ :=
    bus_store_refines_map busHistory db (fun _ _ => rfl) hrun
  refine ⟨db, hrun, hget "b1", hget "b0", db', hrun', ?_⟩
  rw [hsame]
  exact hget "b1"

end BusStore
