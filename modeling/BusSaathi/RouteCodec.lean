import BusSaathi.DatabaseService

/-! Routes through JSON and through the database. Decoded collections have `dynamic`
elements, while `Route.fromJson` and `getAllRoutes` check theirs against typed ones, so
only a route with an empty path and an empty schedule comes back. -/
namespace RouteCodec

open LinkedMaps KeyedTable StatementPrograms.Prog DartRuntime Models DatabaseService

variable {D : Type}

mutual

/-- The value with the element types of its collections forgotten. -/
def untyped : Value D → Value D
  | .list _ items => .list .dynamic (untypedItems items)
  | .map _ entries => .map .dynamic (untypedEntries entries)
  | v => v

def untypedItems : List (Value D) → List (Value D)
  | [] => []
  | v :: items => untyped v :: untypedItems items

def untypedEntries : JsonMap D → JsonMap D
  | [] => []
  | (k, v) :: entries => (k, untyped v) :: untypedEntries entries

end

@[simp] theorem untypedItems_eq_map (items : List (Value D)) :
    untypedItems items = items.map untyped := by
  induction items with
  | nil => rfl
  | cons v items ih => rw [untypedItems, ih, List.map_cons]

@[simp] theorem untypedEntries_eq_map (entries : JsonMap D) :
    untypedEntries entries = entries.map (fun e => (e.1, untyped e.2)) := by
  induction entries with
  | nil => rfl
  | cons e entries ih => rw [untypedEntries, ih, List.map_cons]

theorem pathFrom_untyped (path : List (LinkedMap String D)) :
    pathFrom (untyped (pathValue path)) = if path = [] then .ok [] else .error .typeError := by
  cases path with
  | nil => rfl
  | cons p path => rfl

theorem scheduleFrom_untyped (schedule : LinkedMap String (List String)) :
    scheduleFrom (untyped (scheduleValue schedule : Value D)) =
      if schedule = .empty then .ok .empty else .error .typeError := by
  obtain ⟨entries, hn⟩ := schedule
  cases entries with
  | nil => rfl
  | cons e entries => rfl

def readBack (route : Route D) : Except DartError (Route D) := do
  let path ← pathFrom (untyped (pathValue route.path))
  let schedule ← scheduleFrom (untyped (scheduleValue route.schedule : Value D))
  return { route with path, schedule }

theorem readBack_eq_ok_iff (route : Route D) :
    readBack route = .ok route ↔ route.path = [] ∧ route.schedule = .empty := by
  unfold readBack
  rw [pathFrom_untyped, scheduleFrom_untyped]
  by_cases hp : route.path = []
  · by_cases hs : route.schedule = .empty
    · rw [if_pos hp, if_pos hs]
      refine iff_of_true ?_ ⟨hp, hs⟩
      change Except.ok { route with path := [], schedule := .empty } = .ok route
      rw [← hp, ← hs]
    · rw [if_pos hp, if_neg hs]
      exact iff_of_false (fun h => by cases h) fun h => hs h.2
  · rw [if_neg hp]
    exact iff_of_false (fun h => by cases h) fun h => hp h.1

variable [DartDouble D]

mutual

/-- Every double inside the value is finite. -/
def AllFinite : Value D → Prop
  | .double d => DartDouble.isFinite d = true
  | .list _ items => AllFiniteItems items
  | .map _ entries => AllFiniteEntries entries
  | _ => True

def AllFiniteItems : List (Value D) → Prop
  | [] => True
  | v :: items => AllFinite v ∧ AllFiniteItems items

def AllFiniteEntries : JsonMap D → Prop
  | [] => True
  | (_, v) :: entries => AllFinite v ∧ AllFiniteEntries entries

end

mutual

/-- `json.decode` after `json.encode` keeps the value and forgets its element types. -/
theorem decode_encode (v : Value D) (h : AllFinite v) :
    ∃ j, jsonEncode v = .ok j ∧ jsonDecode j = untyped v := by
  cases v with
  | null => exact ⟨.null, rfl, rfl⟩
  | bool b => exact ⟨.bool b, rfl, rfl⟩
  | int n => exact ⟨.int n, rfl, rfl⟩
  | string s => exact ⟨.string s, rfl, rfl⟩
  | double d =>
    rw [AllFinite] at h
    exact ⟨.double d, by rw [jsonEncode, if_pos h], rfl⟩
  | list t items =>
    obtain ⟨js, he, hd⟩ := decode_encode_items items h
    exact ⟨.array js, by rw [jsonEncode, he]; rfl, by rw [jsonDecode, hd, untyped]⟩
  | map t entries =>
    obtain ⟨ms, he, hd⟩ := decode_encode_entries entries h
    exact ⟨.object ms, by rw [jsonEncode, he]; rfl, by rw [jsonDecode, hd, untyped]⟩

theorem decode_encode_items (items : List (Value D)) (h : AllFiniteItems items) :
    ∃ js, jsonEncodeItems items = .ok js ∧ jsonDecodeItems js = untypedItems items := by
  cases items with
  | nil => exact ⟨[], rfl, rfl⟩
  | cons v items =>
    obtain ⟨j, he, hd⟩ := decode_encode v h.1
    obtain ⟨js, hes, hds⟩ := decode_encode_items items h.2
    refine ⟨j :: js, ?_, ?_⟩
    · rw [jsonEncodeItems, he, hes]; rfl
    · rw [jsonDecodeItems, hd, hds, untypedItems]

theorem decode_encode_entries (entries : JsonMap D) (h : AllFiniteEntries entries) :
    ∃ ms, jsonEncodeMembers entries = .ok ms ∧ jsonDecodeMembers ms = untypedEntries entries := by
  cases entries with
  | nil => exact ⟨[], rfl, rfl⟩
  | cons e entries =>
    obtain ⟨k, v⟩ := e
    obtain ⟨j, he, hd⟩ := decode_encode v h.1
    obtain ⟨ms, hes, hds⟩ := decode_encode_entries entries h.2
    refine ⟨(k, j) :: ms, ?_, ?_⟩
    · rw [jsonEncodeMembers, he, hes]; rfl
    · rw [jsonDecodeMembers, hd, hds, untypedEntries]

end

theorem allFiniteItems_iff (items : List (Value D)) :
    AllFiniteItems items ↔ ∀ v ∈ items, AllFinite v := by
  induction items with
  | nil => simp [AllFiniteItems]
  | cons v items ih => simp [AllFiniteItems, ih]

theorem allFiniteEntries_iff (entries : JsonMap D) :
    AllFiniteEntries entries ↔ ∀ e ∈ entries, AllFinite e.2 := by
  induction entries with
  | nil => simp [AllFiniteEntries]
  | cons e entries ih => simp [AllFiniteEntries, ih]

def FinitePath (path : List (LinkedMap String D)) : Prop :=
  ∀ p ∈ path, ∀ e ∈ p.entries, DartDouble.isFinite e.2

def FiniteCoordinates (route : Route D) : Prop :=
  (∀ stop ∈ route.stops, DartDouble.isFinite stop.lat ∧ DartDouble.isFinite stop.lng) ∧
  FinitePath route.path

theorem pathValue_finite {path : List (LinkedMap String D)} (h : FinitePath path) :
    AllFinite (pathValue path) := by
  simp only [pathValue, AllFinite, allFiniteItems_iff, List.mem_map]
  rintro v ⟨p, hp, rfl⟩
  simp only [AllFinite, allFiniteEntries_iff, LinkedMap.mapValues, List.mem_map]
  rintro e ⟨e, he, rfl⟩
  exact h p hp e he

theorem scheduleValue_finite (schedule : LinkedMap String (List String)) :
    AllFinite (scheduleValue schedule : Value D) := by
  simp only [scheduleValue, AllFinite, allFiniteEntries_iff, LinkedMap.mapValues, List.mem_map]
  rintro e ⟨day, -, rfl⟩
  simp only [AllFinite, allFiniteItems_iff, List.mem_map]
  rintro v ⟨time, -, rfl⟩
  exact trivial

theorem toJson_finite {route : Route D} (h : FiniteCoordinates route) :
    AllFinite (.map .dynamic route.toJson) := by
  simp only [Route.toJson, AllFinite, AllFiniteEntries, pathValue_finite h.2,
    scheduleValue_finite, allFiniteItems_iff, List.mem_map, and_true, true_and]
  rintro v ⟨stop, hs, rfl⟩
  obtain ⟨hlat, hlng⟩ := h.1 stop hs
  simp only [RouteStop.toJson, AllFinite, AllFiniteEntries, hlat, hlng, and_true]

def stopValue (stop : RouteStop D) : Value D := .map .dynamic stop.toJson

theorem fromJson_untyped (route : Route D) :
    Route.fromJson (untypedEntries route.toJson) = readBack route := by
  have hstops : (untypedItems (route.stops.map stopValue)).mapM
      (fun stop : Value D => do RouteStop.fromJson (← stop.asMap)) = .ok route.stops := by
    rw [untypedItems_eq_map, List.map_map]
    exact mapM_map_ok fun _ _ => rfl
  unfold Route.fromJson
  change (do
    let stops ← (untypedItems (route.stops.map stopValue)).mapM
      (fun stop : Value D => do RouteStop.fromJson (← stop.asMap))
    let path ← pathFrom (untyped (pathValue route.path))
    let schedule ← scheduleFrom (untyped (scheduleValue route.schedule : Value D))
    return (⟨route.id, route.name, route.source, route.destination, stops, path, schedule⟩ :
      Route D)) = _
  rw [hstops]
  rfl

/-- `Route.fromJson(json.decode(json.encode(route.toJson())))` -/
def throughJson (route : Route D) : Except DartError (Route D) := do
  let text ← jsonEncode (.map .dynamic route.toJson)
  let json ← (jsonDecode text).asMap
  Route.fromJson json

/-- `insertRoute(route)` on an empty database, then `getAllRoutes()`. -/
def throughDatabase (route : Route D) : Except DartError (List (Route D)) :=
  (run exec (do insertRoute route; getAllRoutes) emptyDatabase).1

theorem throughJson_eq {route : Route D} (h : FiniteCoordinates route) :
    throughJson route = readBack route := by
  obtain ⟨text, he, hd⟩ := decode_encode _ (toJson_finite h)
  have hmap : (jsonDecode text).asMap = .ok (untypedEntries route.toJson) := by
    rw [hd, untyped, Value.asMap]
  unfold throughJson
  rw [he]
  change (do Route.fromJson (← (jsonDecode text).asMap)) = _
  rw [hmap]
  exact fromJson_untyped route

theorem run_insertRoute_empty {route : Route D} {row : RouteRow D} (hrow : routeRow route = .ok row)
    (hids : (route.stops.map (·.id)).Nodup)
    (hseq : route.stops.Pairwise fun a b => a.sequence < b.sequence) :
    ∃ db, run exec (insertRoute route) emptyDatabase = (.ok (), db) ∧ db.routes.rows = [row] ∧
      storedStops db route.id = route.stops := by
  refine ⟨_, run_insertRoute_ok hrow _, rfl, ?_⟩
  have hrows : ((Table.empty : Table (@StopRow.id D)).replaceAll
      (route.stops.map (stopRow route.id))).rows = route.stops.map (stopRow route.id) := by
    refine Table.rows_replaceAll_of_nodup _ _ ?_
    rw [Table.empty_rows, List.nil_append, List.map_map]
    exact hids
  have hall : (route.stops.map (stopRow route.id)).filter (·.routeId = route.id) =
      route.stops.map (stopRow route.id) := by
    rw [List.filter_eq_self]
    intro r hr
    obtain ⟨stop, -, rfl⟩ := List.mem_map.mp hr
    simp
  have hback : (stopOfRow ∘ stopRow route.id : RouteStop D → RouteStop D) = id := rfl
  rw [storedStops_eq_inSequence]
  simp only [emptyDatabase, hrows, hall, List.map_map, hback, List.map_id]
  exact (hseq.imp fun h => h.le).insertionSort_eq

theorem routeRow_decoded {route : Route D} (h : FinitePath route.path) :
    ∃ row, routeRow route = .ok row ∧ jsonDecode row.path = untyped (pathValue route.path) ∧
      jsonDecode row.schedule = untyped (scheduleValue route.schedule) := by
  obtain ⟨path, hpe, hpd⟩ := decode_encode _ (pathValue_finite h)
  obtain ⟨schedule, hse, hsd⟩ := decode_encode _ (scheduleValue_finite (D := D) route.schedule)
  refine ⟨⟨route.id, route.name, route.source, route.destination, path, schedule⟩, ?_, hpd, hsd⟩
  rw [routeRow, hpe, hse]
  rfl

theorem throughDatabase_eq {route : Route D} (h : FiniteCoordinates route)
    (hids : (route.stops.map (·.id)).Nodup)
    (hseq : route.stops.Pairwise fun a b => a.sequence < b.sequence) :
    throughDatabase route = (readBack route).map fun r => [r] := by
  obtain ⟨row, hrow, hpath, hschedule⟩ := routeRow_decoded h.2
  obtain ⟨hid, hname, hsource, hdest⟩ := routeRow_fields hrow
  obtain ⟨db, hrun, hroutes, hstops⟩ := run_insertRoute_empty hrow hids hseq
  have hget := run_getStopsForRoute row.id db
  rw [hid, hstops] at hget
  unfold throughDatabase
  rw [run_bind_ok exec hrun]
  simp only [getAllRoutes, getAllRoutesWith, execute_bind, run_stmt, exec, hroutes, readRoutes,
    hid, run_bind_ok exec hget, columnDecoder, hpath, hschedule]
  unfold readBack
  cases pathFrom (untyped (pathValue route.path)) with
  | error e => rfl
  | ok path =>
    cases scheduleFrom (untyped (scheduleValue route.schedule : Value D)) with
    | error e => rfl
    | ok schedule => simp only [ofExcept_ok, done_bind, hname, hsource, hdest]; rfl

/-- Both ways back work exactly for routes with an empty path and an empty schedule. -/
theorem route_comes_back_iff (route : Route D) (hids : (route.stops.map (·.id)).Nodup)
    (hseq : route.stops.Pairwise fun a b => a.sequence < b.sequence)
    (hfinite : FiniteCoordinates route) :
    (throughJson route = .ok route ↔ route.path = [] ∧ route.schedule = .empty) ∧
    (throughDatabase route = .ok [route] ↔ route.path = [] ∧ route.schedule = .empty) := by
  rw [throughJson_eq hfinite, throughDatabase_eq hfinite hids hseq]
  refine ⟨readBack_eq_ok_iff route, ?_⟩
  rw [← readBack_eq_ok_iff route]
  cases readBack route with
  | error e => simp [Except.map]
  | ok r => simp [Except.map]

def pathlessRoute : Route ℚ where
  id := "r"
  name := "Amritsar - Ludhiana"
  source := "Amritsar"
  destination := "Ludhiana"
  stops := [⟨"s1", "Amritsar Bus Stand", 31.634, 74.8723, 1⟩,
    ⟨"s2", "Ludhiana Bus Stand", 30.901, 75.8573, 2⟩]
  path := []
  schedule := .empty

theorem pathless_route_comes_back :
    throughJson pathlessRoute = .ok pathlessRoute ∧
      throughDatabase pathlessRoute = .ok [pathlessRoute] :=
  have h := route_comes_back_iff pathlessRoute (by decide) (by simp [pathlessRoute])
    ⟨fun _ _ => ⟨rfl, rfl⟩, fun _ _ _ _ => rfl⟩
  ⟨h.1.mpr ⟨rfl, rfl⟩, h.2.mpr ⟨rfl, rfl⟩⟩

def routeWithPath : Route ℚ :=
  { pathlessRoute with path := [⟨[("lat", 31.634), ("lng", 74.8723)], by decide⟩] }

theorem route_with_path_is_lost :
    ¬ ∀ route : Route ℚ, (route.stops.map (·.id)).Nodup →
      (route.stops.Pairwise fun a b => a.sequence < b.sequence) → FiniteCoordinates route →
        throughJson route = .ok route ∧ throughDatabase route = .ok [route] := by
  intro h
  have hback := (h routeWithPath (by decide) (by simp [routeWithPath, pathlessRoute])
    ⟨fun _ _ => ⟨rfl, rfl⟩, fun _ _ _ _ => rfl⟩).1
  cases hback

end RouteCodec
