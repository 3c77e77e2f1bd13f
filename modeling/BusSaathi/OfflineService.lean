import BusSaathi.RouteCodec

/-! `OfflineService`: the next buses, the sample data and the guard that loads it. -/
namespace OfflineService

open LinkedMaps KeyedTable StatementPrograms StatementPrograms.Prog DartRuntime Models
  DatabaseService RouteCodec

variable {D T : Type}

/-- The schedule check in the filter of `getNextBuses`, for a bus with the given route and
departure time; `firstWhere` throws where no route has the id. -/
def runsToday (allRoutes : List (Route D)) (currentDay routeId departureTime : String) :
    Except DartError Bool :=
  match allRoutes.find? (·.id = routeId) with
  | none => .error .stateError
  | some route => .ok (((route.schedule.get? currentDay).getD []).contains departureTime)

theorem runsToday_of_mem {routes : List (Route D)} (hids : (routes.map (·.id)).Nodup)
    {route : Route D} (hr : route ∈ routes) (day departureTime : String) :
    runsToday routes day route.id departureTime =
      .ok (((route.schedule.get? day).getD []).contains departureTime) := by
  have hfind : routes.find? (·.id = route.id) = some route :=
    (find?_key_eq_some hids).mpr ⟨hr, rfl⟩
  simp only [runsToday, hfind]

def currentDay (weekday : ℤ) : String := if weekday < 6 then "weekday" else "weekend"

/-- What `getNextBuses` answers, given the outcome of each of its three awaited calls, the
weekday of `DateTime.now()`, and `List.sort` of the runtime. Whatever is thrown is caught. -/
def getNextBuses {P : Type} (sort : (Bus D T → Bus D T → ℤ) → List (Bus D T) → List (Bus D T))
    (position : Except DartError P) (allBuses : Except DartError (List (Bus D T)))
    (allRoutes : Except DartError (List (Route D))) (weekday : ℤ) (limit : ℤ := 5) :
    List (Bus D T) :=
  let answer : Except DartError (List (Bus D T)) := do
    let _ ← position
    let allBuses ← allBuses
    let allRoutes ← allRoutes
    let relevantBuses ← whereToList
      (fun bus => runsToday allRoutes (currentDay weekday) bus.routeId bus.departureTime) allBuses
    takeToList limit (sort (fun _ _ => 0) relevantBuses)
  match answer with
  | .ok buses => buses
  | .error _ => []

section Sample

variable [DartDouble D]

def sampleRoute : Route D where
  id := "amritsar-ludhiana"
  name := "Amritsar - Ludhiana"
  source := "Amritsar"
  destination := "Ludhiana"
  stops :=
    [⟨"stop1", "Amritsar Bus Stand", 31.6340, 74.8723, 1⟩,
     ⟨"stop2", "Jandiala", 31.5600, 75.0300, 2⟩,
     ⟨"stop3", "Ludhiana Bus Stand", 30.9010, 75.8573, 3⟩]
  path := [latLng 31.6340 74.8723, latLng 31.5600 75.0300, latLng 30.9010 75.8573]
  schedule :=
    ⟨[("weekday", ["08:00", "10:00", "14:00", "18:00"]),
      ("weekend", ["09:00", "13:00", "17:00"])], by decide⟩

def sampleBus (now : T) : Bus D T where
  id := "BUS-PN01-1234"
  number := "BUS-PN01-1234"
  routeId := "amritsar-ludhiana"
  source := "Amritsar"
  destination := "Ludhiana"
  departureTime := "08:00"
  arrivalTime := "11:00"
  driverName := "Mr. Singh"
  lastUpdated := now

variable [DartDateTime T]

def loadSampleData (now : T) : DbProg D Unit := do
  insertRoute sampleRoute
  insertBus (sampleBus now)

/-- `getAllRoutes` stands for the given way of decoding the JSON columns. -/
def loadSampleDataIfNeeded (decoder : RouteDecoder D) (now : T) : DbProg D Unit := do
  let routes ← getAllRoutesWith decoder
  if routes.isEmpty then loadSampleData now

theorem sampleRoute_ids : ((sampleRoute : Route D).stops.map (·.id)).Nodup := by
  simp [sampleRoute]

theorem sampleRoute_finite : FiniteCoordinates (sampleRoute : Route D) := by
  have hfin : ∀ m e, m < 2 ^ 53 →
      DartDouble.isFinite (OfScientific.ofScientific m true e : D) = true :=
    DartDouble.literal_finite
  constructor
  · intro stop hstop
    simp only [sampleRoute, List.mem_cons, List.not_mem_nil, or_false] at hstop
    rcases hstop with rfl | rfl | rfl <;> exact ⟨hfin _ _ (by decide), hfin _ _ (by decide)⟩
  · intro p hp e he
    simp only [sampleRoute, List.mem_cons, List.not_mem_nil, or_false] at hp
    rcases hp with rfl | rfl | rfl <;>
      simp only [latLng, List.mem_cons, List.not_mem_nil, or_false] at he <;>
      rcases he with rfl | rfl <;> exact hfin _ _ (by decide)

theorem sampleRoute_encodes : ∃ row, routeRow (sampleRoute : Route D) = .ok row := by
  obtain ⟨row, hrow, -, -⟩ := routeRow_decoded (sampleRoute_finite (D := D)).2
  exact ⟨row, hrow⟩

end Sample

end OfflineService
