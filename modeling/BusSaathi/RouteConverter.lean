import BusSaathi.DartText
import BusSaathi.Models
import Mathlib.Data.List.Induction

/-! `convert_to_app_format.dart`: buses are grouped into routes by the text of their source
and destination. The grouping loop is settled by what it makes of any processed prefix. -/
namespace RouteConverter

open LinkedMaps DartRuntime DartText Models

variable {D : Type}

structure Coordinates (D : Type) where
  lat : D
  lng : D

/-- An output route as a record; `toJson` gives the map that the source builds. -/
structure ConvertedRoute (D : Type) where
  id : String
  name : String
  source : Value D
  destination : Value D
  stops : List (JsonMap D)
  path : List (LinkedMap String D)
  schedule : LinkedMap String (List String)
  buses : List (JsonMap D)

def ConvertedRoute.toJson (route : ConvertedRoute D) : JsonMap D :=
  [("id", .string route.id),
   ("name", .string route.name),
   ("source", route.source),
   ("destination", route.destination),
   ("stops", .list (.map .dynamic) (route.stops.map (.map .dynamic))),
   ("path", pathValue route.path),
   ("schedule", scheduleValue route.schedule),
   ("buses", .list .dynamic (route.buses.map (.map .dynamic)))]

def addHours (time : String) (hours : ℤ) : Except DartError String := do
  let parts := split time ':'
  let hour := wrapInt64 ((← parseInt (← partAt parts 0)) + hours) % 24
  return padLeft (toString hour) 2 '0' ++ ":" ++ (← partAt parts 1)

def generateSchedule (departureTime : String) :
    Except DartError (LinkedMap String (List String)) := do
  let weekday := [departureTime, ← addHours departureTime 2, ← addHours departureTime 4]
  let weekend := [← addHours departureTime 1, ← addHours departureTime 3]
  return ⟨[("weekday", weekday), ("weekend", weekend)], by simp⟩

section Coordinates

variable [DartDouble D]

def cityCoordinates : List (String × Coordinates D) :=
  [("Amritsar", ⟨31.6340, 74.8723⟩),
   ("Ludhiana", ⟨30.9010, 75.8573⟩),
   ("Jalandhar", ⟨31.3260, 75.5762⟩),
   ("Patiala", ⟨30.3398, 76.3869⟩),
   ("Moga", ⟨30.8165, 75.1710⟩),
   ("Faridkot", ⟨30.6730, 74.7550⟩),
   ("Bathinda", ⟨30.2070, 74.9483⟩),
   ("Sangrur", ⟨30.2450, 75.8450⟩),
   ("Mohali", ⟨30.7046, 76.7179⟩),
   ("Ropar", ⟨30.9650, 76.5330⟩),
   ("Pathankot", ⟨32.2740, 75.6520⟩),
   ("Gurdaspur", ⟨32.0380, 75.4050⟩),
   ("Barnala", ⟨30.3740, 75.5460⟩)]

/-- Unknown cities get the coordinates of Amritsar. -/
def getCityCoordinates (city : String) : Coordinates D :=
  (cityCoordinates.lookup city).getD ⟨31.6340, 74.8723⟩

def generateStops (source destination : String) : List (JsonMap D) :=
  let sourceCoords : Coordinates D := getCityCoordinates source
  let destCoords : Coordinates D := getCityCoordinates destination
  [[("id", .string "stop-1"),
    ("name", .string (source ++ " Bus Stand")),
    ("lat", .double (sourceCoords.lat + 0.005)),
    ("lng", .double (sourceCoords.lng + 0.005)),
    ("sequence", .int 1)],
   [("id", .string "stop-2"),
    ("name", .string "Midway Stop"),
    ("lat", .double ((sourceCoords.lat + destCoords.lat) / DartDouble.ofInt 2)),
    ("lng", .double ((sourceCoords.lng + destCoords.lng) / DartDouble.ofInt 2)),
    ("sequence", .int 2)],
   [("id", .string "stop-3"),
    ("name", .string (destination ++ " Bus Stand")),
    ("lat", .double (destCoords.lat - 0.005)),
    ("lng", .double (destCoords.lng - 0.005)),
    ("sequence", .int 3)]]

def generatePath (source destination : String) : List (LinkedMap String D) :=
  let sourceCoords : Coordinates D := getCityCoordinates source
  let destCoords : Coordinates D := getCityCoordinates destination
  [latLng sourceCoords.lat sourceCoords.lng, latLng destCoords.lat destCoords.lng]

def routeKey (busData : Value D) : Except DartError String := do
  return (← busData.index "source").toText ++ "-" ++ (← busData.index "destination").toText

/-- The route that a bus opens, numbered `routeCount`, still without buses. -/
def openRoute (routeCount : ℕ) (busData : Value D) : Except DartError (ConvertedRoute D) := do
  let source ← busData.index "source"
  let destination ← busData.index "destination"
  let sourceName ← source.asString
  let destinationName ← destination.asString
  let schedule ← generateSchedule (← (← busData.index "departureTime").asString)
  return {
    id := "route-" ++ toString routeCount
    name := source.toText ++ " - " ++ destination.toText
    source
    destination
    stops := generateStops sourceName destinationName
    path := generatePath sourceName destinationName
    schedule
    buses := [] }

def busRecord (busId : String) (busData : Value D) : Except DartError (JsonMap D) := do
  return [("id", .string busId),
    ("number", ← busData.index "busNumber"),
    ("departureTime", ← busData.index "departureTime"),
    ("arrivalTime", ← busData.index "arrivalTime"),
    ("driverName", ← busData.index "driverName"),
    ("status", .string "scheduled")]

structure ConvertState (D : Type) where
  routes : LinkedMap String (ConvertedRoute D)
  routeCount : ℕ

def ConvertedRoute.addBus (bus : JsonMap D) (route : ConvertedRoute D) : ConvertedRoute D :=
  { route with buses := route.buses ++ [bus] }

/-- One round of `originalData.forEach`. -/
def convertStep (st : ConvertState D) (entry : String × Value D) :
    Except DartError (ConvertState D) := do
  let key ← routeKey entry.2
  if st.routes.containsKey key then
    let bus ← busRecord entry.1 entry.2
    return { st with routes := st.routes.update key (·.addBus bus) }
  else
    let routeCount := st.routeCount + 1
    let route ← openRoute routeCount entry.2
    let bus ← busRecord entry.1 entry.2
    return ⟨(st.routes.set key route).update key (·.addBus bus), routeCount⟩

def convertData (originalData : LinkedMap String (Value D)) :
    Except DartError (List (ConvertedRoute D)) := do
  let st ← originalData.entries.foldlM convertStep ⟨.empty, 0⟩
  return st.routes.values

end Coordinates

/-- The hours are added as 64-bit integers. -/
theorem addHours_text (t : ClockTime) (k : ℤ) :
    addHours t.text k = .ok (t.shift (wrapInt64 (t.hour + k) - t.hour)).text := by
  have hhour := t.hour_lt
  have hmod : wrapInt64 (t.hour + k) % 24 =
      ((t.shift (wrapInt64 (t.hour + k) - t.hour)).hour : ℤ) := by
    simp only [ClockTime.shift]
    omega
  unfold addHours
  rw [ClockTime.split_text]
  refine bind_eq_ok.mpr ⟨twoDigits t.hour, rfl, bind_eq_ok.mpr ⟨t.hour, ?_, ?_⟩⟩
  · exact parseInt_twoDigits (by omega)
  · rw [hmod]
    exact bind_eq_ok.mpr ⟨twoDigits t.minute, rfl, rfl⟩

theorem addHours_text_of_small (t : ClockTime) {k : ℤ} (hl : -2 ^ 63 ≤ t.hour + k)
    (hu : t.hour + k < 2 ^ 63) : addHours t.text k = .ok (t.shift k).text := by
  have hk : (t.hour + k - t.hour : ℤ) = k := by omega
  rw [addHours_text, wrapInt64_of_small hl hu, hk]

theorem openRoute_ok [DartDouble D] {n : ℕ} {busData : Value D} {route : ConvertedRoute D}
    (h : openRoute n busData = .ok route) :
    ∃ source destination departureTime schedule,
      busData.index "source" = .ok (.string source) ∧
      busData.index "destination" = .ok (.string destination) ∧
      busData.index "departureTime" = .ok (.string departureTime) ∧
      generateSchedule departureTime = .ok schedule ∧
      route = {
        id := "route-" ++ toString n
        name := source ++ " - " ++ destination
        source := .string source
        destination := .string destination
        stops := generateStops source destination
        path := generatePath source destination
        schedule
        buses := [] } := by
  obtain ⟨sourceValue, hsource, h⟩ := bind_eq_ok.mp h
  obtain ⟨destinationValue, hdestination, h⟩ := bind_eq_ok.mp h
  obtain ⟨source, hs, h⟩ := bind_eq_ok.mp h
  obtain ⟨destination, hd, h⟩ := bind_eq_ok.mp h
  obtain ⟨timeValue, htime, h⟩ := bind_eq_ok.mp h
  obtain ⟨time, ht, h⟩ := bind_eq_ok.mp h
  obtain ⟨schedule, hschedule, h⟩ := bind_eq_ok.mp h
  cases h
  obtain rfl := Value.asString_eq_ok.mp hs
  obtain rfl := Value.asString_eq_ok.mp hd
  obtain rfl := Value.asString_eq_ok.mp ht
  exact ⟨source, destination, time, schedule, hsource, hdestination, htime, hschedule, rfl⟩

theorem busRecord_ok {busId : String} {busData : Value D} {bus : JsonMap D}
    (h : busRecord busId busData = .ok bus) : ∃ number departureTime arrivalTime driverName,
      busData.index "departureTime" = .ok departureTime ∧
      bus = [("id", .string busId), ("number", number), ("departureTime", departureTime),
        ("arrivalTime", arrivalTime), ("driverName", driverName),
        ("status", .string "scheduled")] := by
  obtain ⟨number, -, h⟩ := bind_eq_ok.mp h
  obtain ⟨departureTime, htime, h⟩ := bind_eq_ok.mp h
  obtain ⟨arrivalTime, -, h⟩ := bind_eq_ok.mp h
  obtain ⟨driverName, -, h⟩ := bind_eq_ok.mp h
  cases h
  exact ⟨number, departureTime, arrivalTime, driverName, htime, rfl⟩

section Grouping

variable [DartDouble D]

/-- The group of a bus, wherever its key can be formed. -/
def keyOf (busData : Value D) : String :=
  match routeKey busData with
  | .ok key => key
  | .error _ => ""

def members (entries : List (String × Value D)) (key : String) : List (String × Value D) :=
  entries.filter (fun e => keyOf e.2 = key)

/-- Route number `n` as its members make it: the first opens it, all of them are listed. -/
def ConvertedFrom (n : ℕ) (group : List (String × Value D)) (route : ConvertedRoute D) : Prop :=
  ∃ first rest, group = first :: rest ∧
    openRoute n first.2 = .ok { route with buses := [] } ∧
    group.mapM (fun e => busRecord e.1 e.2) = .ok route.buses

structure Grouped (entries : List (String × Value D)) (st : ConvertState D) : Prop where
  keys : st.routes.keys = (entries.map (fun e => keyOf e.2)).eraseDups
  count : st.routeCount = st.routes.entries.length
  routes : ∀ i key route, st.routes.entries[i]? = some (key, route) →
    ConvertedFrom (i + 1) (members entries key) route

theorem keyOf_eq {busData : Value D} {key : String} (h : routeKey busData = .ok key) :
    keyOf busData = key := by
  simp only [keyOf, h]

theorem members_concat_self {entries : List (String × Value D)} {e : String × Value D}
    {key : String} (h : keyOf e.2 = key) :
    members (entries ++ [e]) key = members entries key ++ [e] := by
  simp [members, h]

theorem members_concat_other {entries : List (String × Value D)} {e : String × Value D}
    {key : String} (h : keyOf e.2 ≠ key) : members (entries ++ [e]) key = members entries key := by
  simp [members, h]

theorem members_eq_nil {entries : List (String × Value D)} {key : String}
    (h : key ∉ entries.map (fun e => keyOf e.2)) : members entries key = [] := by
  rw [members, List.filter_eq_nil_iff]
  intro e he
  simpa using fun hk : keyOf e.2 = key => h (List.mem_map.mpr ⟨e, he, hk⟩)

theorem members_of_one_key {entries : List (String × Value D)} {k : String}
    (h : ∀ e ∈ entries, keyOf e.2 = k) (key : String) :
    members entries key = if key = k then entries else [] := by
  split
  case isTrue hk =>
    rw [members, List.filter_eq_self]
    intro e he
    simp [h e he, hk]
  case isFalse hk =>
    rw [members, List.filter_eq_nil_iff]
    intro e he
    simp [h e he, Ne.symm hk]

theorem convertedFrom_concat {n : ℕ} {group : List (String × Value D)} {e : String × Value D}
    {route : ConvertedRoute D} {bus : JsonMap D} (h : ConvertedFrom n group route)
    (hbus : busRecord e.1 e.2 = .ok bus) :
    ConvertedFrom n (group ++ [e]) (route.addBus bus) := by
  obtain ⟨first, rest, rfl, hopen, hbuses⟩ := h
  refine ⟨first, rest ++ [e], rfl, hopen, ?_⟩
  rw [List.mapM_append, hbuses, List.mapM_cons, hbus]
  rfl

theorem grouped_step_known {entries : List (String × Value D)} {st : ConvertState D}
    {e : String × Value D} {key : String} {bus : JsonMap D} (h : Grouped entries st)
    (hkey : keyOf e.2 = key) (hmem : key ∈ st.routes.keys)
    (hbus : busRecord e.1 e.2 = .ok bus) :
    Grouped (entries ++ [e]) { st with routes := st.routes.update key (·.addBus bus) } := by
  have hold : key ∈ entries.map (fun e => keyOf e.2) := by
    rwa [h.keys, List.mem_eraseDups] at hmem
  refine ⟨?_, ?_, fun i k route hi => ?_⟩
  · rw [LinkedMap.keys_update, h.keys, List.map_append, List.eraseDups_append]
    simp [List.removeAll, hkey, hold]
  · rw [h.count]
    simp [LinkedMap.update]
  · simp only [LinkedMap.update, List.getElem?_map, Option.map_eq_some_iff] at hi
    obtain ⟨⟨k', old⟩, hold', he⟩ := hi
    by_cases hk : k' = key
    · rw [if_pos hk] at he
      cases he
      rw [members_concat_self (hkey.trans hk.symm)]
      exact convertedFrom_concat (h.routes i _ old hold') hbus
    · rw [if_neg hk] at he
      cases he
      rw [members_concat_other (hkey ▸ Ne.symm hk)]
      exact h.routes i _ _ hold'

theorem grouped_step_new {entries : List (String × Value D)} {st : ConvertState D}
    {e : String × Value D} {key : String} {route : ConvertedRoute D} {bus : JsonMap D}
    (h : Grouped entries st) (hkey : keyOf e.2 = key) (hmem : key ∉ st.routes.keys)
    (hopen : openRoute (st.routeCount + 1) e.2 = .ok route)
    (hbus : busRecord e.1 e.2 = .ok bus) :
    Grouped (entries ++ [e])
      ⟨(st.routes.set key route).update key (·.addBus bus), st.routeCount + 1⟩ := by
  have hnew : key ∉ entries.map (fun e => keyOf e.2) := by
    rwa [h.keys, List.mem_eraseDups] at hmem
  have hentries := LinkedMap.update_set_of_notMem hmem route (·.addBus bus)
  refine ⟨?_, ?_, fun i k r hi => ?_⟩
  · rw [LinkedMap.keys, hentries, List.map_append, ← LinkedMap.keys, h.keys, List.map_append,
      List.eraseDups_append]
    simp [List.removeAll, List.eraseDups_cons, hkey, hnew]
  · rw [hentries, List.length_append, h.count]
    rfl
  · rw [hentries] at hi
    rw [List.getElem?_append] at hi
    split at hi
    case isTrue hlt =>
      have hk : keyOf e.2 ≠ k := by
        rintro hk
        exact hmem (hkey ▸ hk ▸ List.mem_map_of_mem (List.mem_of_getElem? hi))
      rw [members_concat_other hk]
      exact h.routes i k r hi
    case isFalse hge =>
      have hlen : i = st.routes.entries.length := by
        have := (List.getElem?_eq_some_iff.mp hi).1
        simp only [List.length_singleton] at this
        omega
      rw [hlen, Nat.sub_self] at hi
      cases hi
      rw [members_concat_self hkey, members_eq_nil hnew, hlen, ← h.count]
      obtain ⟨_, _, _, _, _, _, _, _, rfl⟩ := openRoute_ok hopen
      refine ⟨e, [], rfl, hopen, ?_⟩
      rw [List.nil_append, List.mapM_cons, hbus]
      rfl

theorem grouped_step {entries : List (String × Value D)} {st st' : ConvertState D}
    {e : String × Value D} (h : Grouped entries st) (hstep : convertStep st e = .ok st') :
    Grouped (entries ++ [e]) st' := by
  obtain ⟨key, hkey, hstep⟩ := bind_eq_ok.mp hstep
  by_cases hmem : st.routes.containsKey key
  · rw [if_pos hmem] at hstep
    obtain ⟨bus, hbus, hstep⟩ := bind_eq_ok.mp hstep
    cases hstep
    exact grouped_step_known h (keyOf_eq hkey) ((st.routes.containsKey_iff key).mp hmem) hbus
  · rw [if_neg hmem] at hstep
    obtain ⟨route, hopen, hstep⟩ := bind_eq_ok.mp hstep
    obtain ⟨bus, hbus, hstep⟩ := bind_eq_ok.mp hstep
    cases hstep
    rw [st.routes.containsKey_iff] at hmem
    exact grouped_step_new h (keyOf_eq hkey) hmem hopen hbus

theorem grouped_run {entries : List (String × Value D)} {st : ConvertState D}
    (h : entries.foldlM convertStep ⟨.empty, 0⟩ = .ok st) : Grouped entries st := by
  induction entries using List.reverseRecOn generalizing st with
  | nil =>
    cases h
    exact ⟨rfl, rfl, fun i key route hi => by cases hi⟩
  | append_singleton entries e ih =>
    rw [List.foldlM_append] at h
    obtain ⟨mid, hmid, hstep⟩ := bind_eq_ok.mp h
    rw [List.foldlM_cons] at hstep
    obtain ⟨st', hst', hret⟩ := bind_eq_ok.mp hstep
    cases hret
    exact grouped_step (ih hmid) hst'

/-- The output route by route: number, group and order. -/
theorem convertData_routes {data : LinkedMap String (Value D)} {routes : List (ConvertedRoute D)}
    (h : convertData data = .ok routes) :
    ∃ keys, keys = (data.entries.map (fun e => keyOf e.2)).eraseDups ∧
      routes.length = keys.length ∧
      ∀ i route, routes[i]? = some route → ∃ key, keys[i]? = some key ∧
        ConvertedFrom (i + 1) (members data.entries key) route := by
  obtain ⟨st, hst, hret⟩ := bind_eq_ok.mp h
  cases hret
  have hgrouped := grouped_run hst
  refine ⟨st.routes.keys, hgrouped.keys, ?_, fun i route hi => ?_⟩
  · rw [LinkedMap.values, LinkedMap.keys, List.length_map, List.length_map]
  · rw [LinkedMap.values, List.getElem?_map, Option.map_eq_some_iff] at hi
    obtain ⟨⟨key, _⟩, hi, rfl⟩ := hi
    refine ⟨key, ?_, hgrouped.routes i key _ hi⟩
    rw [LinkedMap.keys, List.getElem?_map, hi, Option.map_some]

theorem convertedFrom_of_mem {data : LinkedMap String (Value D)} {routes : List (ConvertedRoute D)}
    (h : convertData data = .ok routes) {route : ConvertedRoute D} (hr : route ∈ routes) :
    ∃ n key, ConvertedFrom n (members data.entries key) route := by
  obtain ⟨keys, -, -, hroutes⟩ := convertData_routes h
  obtain ⟨i, hi⟩ := List.getElem?_of_mem hr
  obtain ⟨key, -, hfrom⟩ := hroutes i route hi
  exact ⟨i + 1, key, hfrom⟩

theorem exists_route_of_entry {data : LinkedMap String (Value D)}
    {routes : List (ConvertedRoute D)} (h : convertData data = .ok routes)
    {e : String × Value D} (he : e ∈ data.entries) : ∃ n, ∃ route ∈ routes,
      ConvertedFrom n (members data.entries (keyOf e.2)) route := by
  obtain ⟨keys, hkeys, hlen, hroutes⟩ := convertData_routes h
  have hmem : keyOf e.2 ∈ keys := by
    rw [hkeys, List.mem_eraseDups]
    exact List.mem_map_of_mem he
  obtain ⟨i, hi, hkey⟩ := List.getElem_of_mem hmem
  have hir : i < routes.length := hlen ▸ hi
  obtain ⟨key, hkey', hfrom⟩ := hroutes i routes[i] (List.getElem?_eq_getElem hir)
  rw [List.getElem?_eq_getElem hi, hkey] at hkey'
  cases hkey'
  exact ⟨i + 1, routes[i], List.getElem_mem hir, hfrom⟩

theorem self_mem_members {entries : List (String × Value D)} {e : String × Value D}
    (he : e ∈ entries) : e ∈ members entries (keyOf e.2) := by
  simpa [members] using he

end Grouping

end RouteConverter
