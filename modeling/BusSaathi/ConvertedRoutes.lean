import BusSaathi.OfflineService
import BusSaathi.RouteConverter
import BusSaathi.StoreHistory

/-! The converter's output in the app: reading it as model objects, inserting its routes
and showing its buses. Route ids are numbered, stop ids are the same in every route. -/
namespace ConvertedRoutes

open LinkedMaps KeyedTable StatementPrograms.Prog DartRuntime DartText Models DatabaseService
  RouteCodec StoreHistory OfflineService RouteConverter

variable {D T : Type} [DartDouble D]

/-- The stops that `generateStops` writes out. -/
def generatedStops (source destination : String) : List (RouteStop D) :=
  let sourceCoords : Coordinates D := getCityCoordinates source
  let destCoords : Coordinates D := getCityCoordinates destination
  [⟨"stop-1", source ++ " Bus Stand", sourceCoords.lat + 0.005, sourceCoords.lng + 0.005, 1⟩,
   ⟨"stop-2", "Midway Stop", (sourceCoords.lat + destCoords.lat) / DartDouble.ofInt 2,
    (sourceCoords.lng + destCoords.lng) / DartDouble.ofInt 2, 2⟩,
   ⟨"stop-3", destination ++ " Bus Stand", destCoords.lat - 0.005, destCoords.lng - 0.005, 3⟩]

theorem generateStops_eq (source destination : String) :
    (generateStops source destination : List (JsonMap D)) =
      (generatedStops source destination).map RouteStop.toJson := rfl

/-- An output route read by the app without a detour through a file. -/
def appRoute (route : ConvertedRoute D) : Except DartError (Route D) := Route.fromJson route.toJson

/-- The app's route has the emitted id, stops, path and schedule. -/
structure Carries (route : ConvertedRoute D) (app : Route D) : Prop where
  id : app.id = route.id
  stops : app.stops.map RouteStop.toJson = route.stops
  stopIds : (app.stops.map (·.id)) = ["stop-1", "stop-2", "stop-3"]
  sequence : app.stops.Pairwise fun a b => a.sequence < b.sequence
  path : FinitePath app.path
  schedule : app.schedule = route.schedule

theorem getCityCoordinates_finite (city : String) :
    DartDouble.isFinite (getCityCoordinates (D := D) city).lat ∧
      DartDouble.isFinite (getCityCoordinates (D := D) city).lng := by
  have hall : ∀ e ∈ (cityCoordinates : List (String × Coordinates D)),
      DartDouble.isFinite e.2.lat ∧ DartDouble.isFinite e.2.lng := by
    simp only [cityCoordinates, List.forall_mem_cons, List.not_mem_nil, false_imp_iff,
      implies_true, and_true]
    refine ⟨?_, ?_, ?_, ?_, ?_, ?_, ?_, ?_, ?_, ?_, ?_, ?_, ?_⟩ <;>
      exact ⟨DartDouble.literal_finite _ _ (by decide), DartDouble.literal_finite _ _ (by decide)⟩
  unfold getCityCoordinates
  cases hl : (cityCoordinates : List (String × Coordinates D)).lookup city with
  | none =>
    exact ⟨DartDouble.literal_finite _ _ (by decide), DartDouble.literal_finite _ _ (by decide)⟩
  | some c =>
    obtain ⟨pre, post, htable, -⟩ := List.lookup_eq_some_iff.mp hl
    exact hall (city, c) (by simp [htable])

theorem generatePath_finite (source destination : String) :
    FinitePath (generatePath source destination : List (LinkedMap String D)) := by
  obtain ⟨hs, hs'⟩ := getCityCoordinates_finite (D := D) source
  obtain ⟨hd, hd'⟩ := getCityCoordinates_finite (D := D) destination
  simp only [FinitePath, generatePath, latLng, List.forall_mem_cons, List.not_mem_nil,
    false_imp_iff, implies_true, and_true]
  exact ⟨⟨hs, hs'⟩, hd, hd'⟩

theorem appRoute_carries {n : ℕ} {group : List (String × Value D)} {route : ConvertedRoute D}
    (h : ConvertedFrom n group route) : ∃ app, appRoute route = .ok app ∧ Carries route app := by
  obtain ⟨first, rest, -, hopen, -⟩ := h
  obtain ⟨source, destination, -, _, -, -, -, -, hroute⟩ := openRoute_ok hopen
  obtain ⟨_, _, _, _, _, _, schedule, buses⟩ := route
  cases hroute
  have hstops : ((generateStops source destination).map (Value.map .dynamic)).mapM
      (fun stop : Value D => do RouteStop.fromJson (← stop.asMap)) =
        .ok (generatedStops source destination) := by
    rw [generateStops_eq, List.map_map]
    exact mapM_map_ok fun _ _ => rfl
  refine ⟨⟨"route-" ++ toString n, source ++ " - " ++ destination, source, destination,
    generatedStops source destination, generatePath source destination, schedule⟩, ?_,
    rfl, rfl, rfl, ?_, generatePath_finite source destination, rfl⟩
  · unfold appRoute Route.fromJson
    change (do
      let stops ← ((generateStops source destination).map (Value.map .dynamic)).mapM
        (fun stop : Value D => do RouteStop.fromJson (← stop.asMap))
      let path ← pathFrom (pathValue (generatePath source destination))
      let schedule ← scheduleFrom (scheduleValue schedule : Value D)
      return (⟨"route-" ++ toString n, source ++ " - " ++ destination, source, destination, stops,
        path, schedule⟩ : Route D)) = _
    rw [hstops, pathFrom_pathValue, scheduleFrom_scheduleValue]
    rfl
  · simp [generatedStops]

section Output

variable {data : LinkedMap String (Value D)} {routes : List (ConvertedRoute D)}

theorem appRoutes_carry (h : convertData data = .ok routes) :
    ∃ apps, routes.mapM appRoute = .ok apps ∧ List.Forall₂ Carries routes apps :=
  mapM_forall₂ fun _ hr =>
    have ⟨_, _, hfrom⟩ := convertedFrom_of_mem h hr
    appRoute_carries hfrom

theorem convertedFrom_id {n : ℕ} {group : List (String × Value D)} {route : ConvertedRoute D}
    (h : ConvertedFrom n group route) : route.id = "route-" ++ toString n := by
  obtain ⟨first, rest, -, hopen, -⟩ := h
  obtain ⟨source, destination, -, schedule, -, -, -, -, hroute⟩ := openRoute_ok hopen
  exact congrArg ConvertedRoute.id hroute

theorem numberedId_inj {m n : ℕ} (h : "route-" ++ toString m = "route-" ++ toString n) : m = n := by
  have hlist := congrArg String.toList h
  rw [String.toList_append, String.toList_append] at hlist
  have hdigits : Nat.toDigits 10 m = Nat.toDigits 10 n := by
    simpa [Nat.toString_eq_ofList_toDigits] using List.append_cancel_left hlist
  rw [← Nat.ofDigitChars_ten_toDigits (n := m), hdigits, Nat.ofDigitChars_ten_toDigits]

theorem routeIds_nodup (h : convertData data = .ok routes) : (routes.map (·.id)).Nodup := by
  obtain ⟨keys, -, -, hroutes⟩ := convertData_routes h
  have hids : routes.map (·.id) =
      (List.range routes.length).map fun i => "route-" ++ toString (i + 1) := by
    refine List.ext_getElem (by simp) fun i hi _ => ?_
    have hi' : i < routes.length := by simpa using hi
    obtain ⟨key, -, hfrom⟩ := hroutes i routes[i] (List.getElem?_eq_getElem hi')
    simpa using convertedFrom_id hfrom
  rw [hids]
  exact List.nodup_range.map fun m n hmn => Nat.succ.inj (numberedId_inj hmn)

end Output

section Stops

variable {data : LinkedMap String (Value D)} {routes : List (ConvertedRoute D)}

/-- All buses have one `source-destination` text. -/
def OneRouteKey (data : LinkedMap String (Value D)) : Prop :=
  ∀ e ∈ data.entries, ∀ e' ∈ data.entries, keyOf e.2 = keyOf e'.2

theorem routes_le_one_of_oneKey (h : convertData data = .ok routes) (hone : OneRouteKey data) :
    routes.length ≤ 1 := by
  obtain ⟨keys, hkeys, hlen, hroutes⟩ := convertData_routes h
  rw [hlen, hkeys]
  cases hentries : data.entries with
  | nil => simp
  | cons e es =>
    have hrest : (es.map fun e => keyOf e.2).filter (fun k => !k == keyOf e.2) = [] := by
      rw [List.filter_eq_nil_iff]
      intro k hk
      obtain ⟨e', he', rfl⟩ := List.mem_map.mp hk
      simpa using hone e' (by simp [hentries, he']) e (by simp [hentries])
    rw [List.map_cons, List.eraseDups_cons, hrest]
    simp

theorem oneKey_of_routes_le_one (h : convertData data = .ok routes) (hlen : routes.length ≤ 1) :
    OneRouteKey data := by
  obtain ⟨keys, hkeys, hklen, -⟩ := convertData_routes h
  intro e he e' he'
  have hmem : ∀ e ∈ data.entries, keyOf e.2 ∈ keys := fun e he => by
    rw [hkeys, List.mem_eraseDups]
    exact List.mem_map_of_mem he
  have h1 := hmem e he
  have h2 := hmem e' he'
  match keys, hklen with
  | [], _ => cases h1
  | [k], _ => rw [List.mem_singleton.mp h1, List.mem_singleton.mp h2]
  | _ :: _ :: _, hk => simp only [List.length_cons] at hk; omega

variable [DartDateTime T]

theorem runHistory_insertRoutes (T : Type) [DartDateTime T] {apps : List (Route D)}
    (h : ∀ app ∈ apps, FinitePath app.path) :
    ∃ db, runHistory (apps.map StoreCall.insertRoute : List (StoreCall D T)) = some db := by
  suffices aux : ∀ db : Database D, ∃ db',
      runAll exec ((apps.map StoreCall.insertRoute : List (StoreCall D T)).map StoreCall.prog) db =
        some db' from aux emptyDatabase
  induction apps with
  | nil => exact fun db => ⟨db, rfl⟩
  | cons app apps ih =>
    intro db
    obtain ⟨row, hrow, -, -⟩ := routeRow_decoded (h app List.mem_cons_self)
    simp only [List.map_cons, runAll, StoreCall.prog, run_insertRoute_ok hrow]
    exact ih (fun a ha => h a (List.mem_cons_of_mem _ ha)) _

/-- Every output route reads back the stops that were emitted for it. -/
def StopsKept (routes : List (ConvertedRoute D)) (db : Database D) : Prop :=
  ∀ route ∈ routes, ∃ stops, (run exec (getStopsForRoute route.id) db).1 = .ok stops ∧
    stops.map RouteStop.toJson = route.stops

theorem stop1_row {db : Database D} (hkept : StopsKept routes db) {n : ℕ}
    {group : List (String × Value D)} {route : ConvertedRoute D} (hr : route ∈ routes)
    (hfrom : ConvertedFrom n group route) :
    ∃ row ∈ db.stops.rows, row.id = "stop-1" ∧ row.routeId = route.id := by
  obtain ⟨stops, hget, hstops⟩ := hkept route hr
  obtain ⟨app, -, hcarries⟩ := appRoute_carries hfrom
  have hsame : stops = app.stops :=
    routeStop_toJson_injective.list_map (hstops.trans hcarries.stops.symm)
  have hid : "stop-1" ∈ stops.map (·.id) := by
    rw [hsame, hcarries.stopIds]
    exact List.mem_cons_self
  obtain ⟨stop, hstop, hstopId⟩ := List.mem_map.mp hid
  rw [run_getStopsForRoute] at hget
  rw [← Except.ok.inj hget, storedStops_eq_inSequence, mem_inSequence] at hstop
  obtain ⟨row, hrow, rfl⟩ := List.mem_map.mp hstop
  obtain ⟨hrow, hroute⟩ := List.mem_filter.mp hrow
  exact ⟨row, hrow, hstopId, by simpa using hroute⟩

theorem routes_le_one_of_stopsKept (h : convertData data = .ok routes) {db : Database D}
    (hkept : StopsKept routes db) : routes.length ≤ 1 := by
  obtain ⟨keys, -, -, hroutes⟩ := convertData_routes h
  by_contra hlen
  have h0 : 0 < routes.length := by omega
  have h1 : 1 < routes.length := by omega
  obtain ⟨_, -, hfrom⟩ := hroutes 0 routes[0] (List.getElem?_eq_getElem h0)
  obtain ⟨_, -, hfrom'⟩ := hroutes 1 routes[1] (List.getElem?_eq_getElem h1)
  obtain ⟨row, hrow, hid, hroute⟩ := stop1_row hkept (List.getElem_mem h0) hfrom
  obtain ⟨row', hrow', hid', hroute'⟩ := stop1_row hkept (List.getElem_mem h1) hfrom'
  have hsame := Table.eq_of_key_eq hrow hrow' (hid.trans hid'.symm)
  rw [hsame, hroute', convertedFrom_id hfrom, convertedFrom_id hfrom'] at hroute
  exact absurd (numberedId_inj hroute) (by decide)

theorem stopsKept_of_routes_le_one {apps : List (Route D)} {db : Database D}
    (hcarries : List.Forall₂ Carries routes apps)
    (hrun : runHistory (apps.map StoreCall.insertRoute : List (StoreCall D T)) = some db)
    (hlen : routes.length ≤ 1) : StopsKept routes db := by
  match routes, hlen with
  | [], _ => exact fun _ hr => by cases hr
  | [route], _ =>
    obtain ⟨app, _, hc, hnil, rfl⟩ := List.forall₂_cons_left_iff.mp hcarries
    cases hnil
    obtain ⟨row, hrow, -, -⟩ := routeRow_decoded hc.path
    obtain ⟨db', hdb', -, hstops⟩ := run_insertRoute_empty hrow
      (by rw [hc.stopIds]; decide) hc.sequence
    simp only [runHistory, List.map_cons, List.map_nil, runAll, StoreCall.prog, hdb'] at hrun
    cases hrun
    intro r hr
    rw [List.mem_singleton.mp hr, ← hc.id, run_getStopsForRoute, hstops]
    exact ⟨_, rfl, hc.stops⟩

theorem output_inserts (T : Type) [DartDateTime T] (h : convertData data = .ok routes) :
    ∃ apps db, routes.mapM appRoute = .ok apps ∧ List.Forall₂ Carries routes apps ∧
      runHistory (apps.map StoreCall.insertRoute : List (StoreCall D T)) = some db := by
  obtain ⟨apps, hmap, hcarries⟩ := appRoutes_carry h
  have hpaths : ∀ app ∈ apps, FinitePath app.path := by
    intro app happ
    obtain ⟨route, -, hc⟩ := forall₂_exists_right (P := fun a r => Carries r a) hcarries.flip happ
    exact hc.path
  obtain ⟨db, hrun⟩ := runHistory_insertRoutes T hpaths
  exact ⟨apps, db, hmap, hcarries, hrun⟩

/-- Every output route keeps its stops in the store exactly when all buses share one
route key. -/
theorem converted_stops_kept_iff (T : Type) [DartDateTime T] (h : convertData data = .ok routes) :
    ∃ apps db, routes.mapM appRoute = .ok apps ∧
      runHistory (apps.map StoreCall.insertRoute : List (StoreCall D T)) = some db ∧
      (StopsKept routes db ↔ OneRouteKey data) := by
  obtain ⟨apps, db, hmap, hcarries, hrun⟩ := output_inserts T h
  refine ⟨apps, db, hmap, hrun, fun hkept => ?_, fun hone => ?_⟩
  · exact oneKey_of_routes_le_one h (routes_le_one_of_stopsKept h hkept)
  · exact stopsKept_of_routes_le_one hcarries hrun (routes_le_one_of_oneKey h hone)

end Stops

def busEntry (source destination departureTime : String) : Value ℚ :=
  .map .dynamic
    [("busNumber", .string "PB-02-1234"), ("source", .string source),
     ("destination", .string destination), ("departureTime", .string departureTime),
     ("arrivalTime", .string "11:00"), ("driverName", .string "Mr. Singh")]

def oneLine : LinkedMap String (Value ℚ) :=
  ⟨[("b1", busEntry "Amritsar" "Ludhiana" "08:00"),
    ("b2", busEntry "Amritsar" "Ludhiana" "12:00")], by decide⟩

def twoLines : LinkedMap String (Value ℚ) :=
  ⟨[("b1", busEntry "Amritsar" "Ludhiana" "08:00"),
    ("b2", busEntry "Moga" "Patiala" "09:30")], by decide⟩

theorem oneLine_converts : ∃ routes, convertData oneLine = .ok routes := ⟨_, rfl⟩

theorem twoLines_converts : ∃ routes, convertData twoLines = .ok routes := ⟨_, rfl⟩

theorem keyOf_busEntry (departureTime : String) :
    keyOf (busEntry "Amritsar" "Ludhiana" departureTime) = "Amritsar-Ludhiana" := rfl

theorem oneLine_keys : ∀ e ∈ oneLine.entries, keyOf e.2 = "Amritsar-Ludhiana" := by
  simp only [oneLine, List.forall_mem_cons]
  exact ⟨keyOf_busEntry _, keyOf_busEntry _, by simp⟩

theorem one_line_keeps_stops : ∃ routes apps db, convertData oneLine = .ok routes ∧
    routes.mapM appRoute = .ok apps ∧
    runHistory (apps.map StoreCall.insertRoute : List (StoreCall ℚ IsoInstant)) = some db ∧
    StopsKept routes db := by
  have hone : OneRouteKey oneLine := by
    intro e he e' he'
    rw [oneLine_keys e he, oneLine_keys e' he']
  obtain ⟨routes, h⟩ := oneLine_converts
  obtain ⟨apps, db, hmap, hrun, hiff⟩ := converted_stops_kept_iff IsoInstant h
  exact ⟨routes, apps, db, h, hmap, hrun, hiff.mpr hone⟩

theorem two_lines_lose_stops :
    ¬ ∀ (data : LinkedMap String (Value ℚ)) (routes : List (ConvertedRoute ℚ))
      (apps : List (Route ℚ)) (db : Database ℚ), convertData data = .ok routes →
        routes.mapM appRoute = .ok apps →
        runHistory (apps.map StoreCall.insertRoute : List (StoreCall ℚ IsoInstant)) = some db →
          StopsKept routes db := by
  intro h
  obtain ⟨routes, hdata⟩ := twoLines_converts
  obtain ⟨apps, db, hmap, -, hrun⟩ := output_inserts IsoInstant hdata
  have hkept := h twoLines routes apps db hdata hmap hrun
  have hone := oneKey_of_routes_le_one hdata (routes_le_one_of_stopsKept hdata hkept)
  have hkeys := hone _ List.mem_cons_self _ (List.mem_cons_of_mem _ List.mem_cons_self)
  exact absurd hkeys (by decide)

end ConvertedRoutes
