import BusSaathi.DartRuntime

/-! The model classes and their JSON forms, `Bus`, `RouteStop` and `Route`, and the points of
the map. -/
namespace Models

open LinkedMaps DartRuntime

structure Bus (D T : Type) where
  id : String
  number : String
  routeId : String
  source : String
  destination : String
  departureTime : String
  arrivalTime : String
  driverName : String
  currentLat : Option D := none
  currentLng : Option D := none
  status : String := "scheduled"
  lastUpdated : T
  deriving DecidableEq

structure RouteStop (D : Type) where
  id : String
  name : String
  lat : D
  lng : D
  sequence : ℤ
  deriving DecidableEq

/-- `path` is a list of `lat`/`lng` maps, `schedule` maps a day type to departure times. -/
structure Route (D : Type) where
  id : String
  name : String
  source : String
  destination : String
  stops : List (RouteStop D)
  path : List (LinkedMap String D)
  schedule : LinkedMap String (List String)
  deriving DecidableEq

/-- The map packages' point. -/
structure LatLng (D : Type) where
  latitude : D
  longitude : D
  deriving DecidableEq

variable {D T : Type}

def optionalDouble : Option D → Value D
  | none => .null
  | some d => .double d

def Bus.toJson [DartDateTime T] (bus : Bus D T) : JsonMap D :=
  [("id", .string bus.id),
   ("number", .string bus.number),
   ("routeId", .string bus.routeId),
   ("source", .string bus.source),
   ("destination", .string bus.destination),
   ("departureTime", .string bus.departureTime),
   ("arrivalTime", .string bus.arrivalTime),
   ("driverName", .string bus.driverName),
   ("currentLat", optionalDouble bus.currentLat),
   ("currentLng", optionalDouble bus.currentLng),
   ("status", .string bus.status),
   ("lastUpdated", .string (DartDateTime.toIso8601String bus.lastUpdated))]

def parseDateTime [DartDateTime T] (s : String) : Except DartError T :=
  match DartDateTime.parse s with
  | some t => .ok t
  | none => .error .formatException

def Bus.fromJson [DartDateTime T] (json : JsonMap D) : Except DartError (Bus D T) := do
  let id ← (json.get "id").asString
  let number ← (json.get "number").asString
  let routeId ← (json.get "routeId").asString
  let source ← (json.get "source").asString
  let destination ← (json.get "destination").asString
  let departureTime ← (json.get "departureTime").asString
  let arrivalTime ← (json.get "arrivalTime").asString
  let driverName ← (json.get "driverName").asString
  let currentLat ← (json.get "currentLat").asDoubleOrNull
  let currentLng ← (json.get "currentLng").asDoubleOrNull
  let status ← ((json.get "status").orElse (.string "scheduled")).asString
  let lastUpdated ← parseDateTime (← (json.get "lastUpdated").asString)
  return ⟨id, number, routeId, source, destination, departureTime, arrivalTime, driverName,
    currentLat, currentLng, status, lastUpdated⟩

def RouteStop.toJson (stop : RouteStop D) : JsonMap D :=
  [("id", .string stop.id),
   ("name", .string stop.name),
   ("lat", .double stop.lat),
   ("lng", .double stop.lng),
   ("sequence", .int stop.sequence)]

def RouteStop.fromJson [DartDouble D] (json : JsonMap D) : Except DartError (RouteStop D) := do
  let id ← (json.get "id").asString
  let name ← (json.get "name").asString
  let lat ← (json.get "lat").toDouble
  let lng ← (json.get "lng").toDouble
  let sequence ← (json.get "sequence").asInt
  return ⟨id, name, lat, lng, sequence⟩

def latLng (lat lng : D) : LinkedMap String D := ⟨[("lat", lat), ("lng", lng)], by simp⟩

/-- A `List<Map<String, double>>` as a value. -/
def pathValue (path : List (LinkedMap String D)) : Value D :=
  .list (.map .double) (path.map fun p => .map .double (p.mapValues .double).entries)

/-- A `Map<String, List<String>>` as a value. -/
def scheduleValue (schedule : LinkedMap String (List String)) : Value D :=
  .map (.list .string)
    (schedule.mapValues fun times => .list .string (times.map .string)).entries

def Route.toJson (route : Route D) : JsonMap D :=
  [("id", .string route.id),
   ("name", .string route.name),
   ("source", .string route.source),
   ("destination", .string route.destination),
   ("stops", .list (.map .dynamic) (route.stops.map fun stop => .map .dynamic stop.toJson)),
   ("path", pathValue route.path),
   ("schedule", scheduleValue route.schedule)]

def doubleMap (v : Value D) : Except DartError (LinkedMap String D) := do
  let entries ← v.asMap
  let doubles ← entries.mapM fun e => do return (e.1, ← e.2.asDouble)
  return LinkedMap.ofEntries doubles

def stringList (v : Value D) : Except DartError (List String) := do
  let items ← v.asList
  items.mapM Value.asString

/-- `List<Map<String, double>>.from(v)` -/
def pathFrom (v : Value D) : Except DartError (List (LinkedMap String D)) := do
  let items ← listFrom (.map .double) v
  items.mapM doubleMap

/-- `Map<String, List<String>>.from(v)` -/
def scheduleFrom (v : Value D) : Except DartError (LinkedMap String (List String)) := do
  let entries ← mapFrom (.list .string) v
  let days ← entries.mapM fun e => do return (e.1, ← stringList e.2)
  return LinkedMap.ofEntries days

def Route.fromJson [DartDouble D] (json : JsonMap D) : Except DartError (Route D) := do
  let id ← (json.get "id").asString
  let name ← (json.get "name").asString
  let source ← (json.get "source").asString
  let destination ← (json.get "destination").asString
  let stopItems ← (json.get "stops").asList
  let stops ← stopItems.mapM fun stop => do RouteStop.fromJson (← stop.asMap)
  let path ← pathFrom (json.get "path")
  let schedule ← scheduleFrom (json.get "schedule")
  return ⟨id, name, source, destination, stops, path, schedule⟩

theorem mapM_ok {α β ε : Type} {f : α → Except ε β} {g : α → β} {l : List α}
    (h : ∀ a ∈ l, f a = .ok (g a)) : l.mapM f = .ok (l.map g) := by
  induction l with
  | nil => rfl
  | cons a l ih =>
    rw [List.mapM_cons, h a List.mem_cons_self, ih fun b hb => h b (List.mem_cons_of_mem a hb)]
    rfl

theorem mapM_forall₂ {α β ε : Type} {f : α → Except ε β} {P : α → β → Prop} {l : List α}
    (h : ∀ a ∈ l, ∃ b, f a = .ok b ∧ P a b) :
    ∃ bs, l.mapM f = .ok bs ∧ List.Forall₂ P l bs := by
  induction l with
  | nil => exact ⟨[], rfl, .nil⟩
  | cons a l ih =>
    obtain ⟨b, hb, hp⟩ := h a List.mem_cons_self
    obtain ⟨bs, hbs, hps⟩ := ih fun a ha => h a (List.mem_cons_of_mem _ ha)
    refine ⟨b :: bs, ?_, .cons hp hps⟩
    rw [List.mapM_cons, hb, hbs]
    rfl

theorem forall₂_of_mapM {α β ε : Type} {f : α → Except ε β} {l : List α} {bs : List β}
    (h : l.mapM f = .ok bs) : List.Forall₂ (fun a b => f a = .ok b) l bs := by
  induction l generalizing bs with
  | nil => cases h; exact .nil
  | cons a l ih =>
    rw [List.mapM_cons] at h
    cases ha : f a with
    | error e => rw [ha] at h; cases h
    | ok b =>
      cases hl : l.mapM f with
      | error e => rw [ha, hl] at h; cases h
      | ok cs => rw [ha, hl] at h; cases h; exact .cons ha (ih hl)

theorem map_of_mapM {α β γ ε : Type} {f : α → Except ε β} {g : β → γ} {k : α → γ} {l : List α}
    {bs : List β} (h : l.mapM f = .ok bs) (hf : ∀ a b, f a = .ok b → g b = k a) :
    bs.map g = l.map k := by
  have hsteps := forall₂_of_mapM h
  clear h
  induction hsteps with
  | nil => rfl
  | cons hstep _ ih => rw [List.map_cons, List.map_cons, hf _ _ hstep, ih]

theorem forall₂_exists_right {α β : Type} {P : α → β → Prop} {l : List α} {m : List β}
    (h : List.Forall₂ P l m) {a : α} (ha : a ∈ l) : ∃ b ∈ m, P a b := by
  induction h with
  | nil => cases ha
  | @cons a' b l m hp _ ih =>
    rcases List.mem_cons.mp ha with rfl | ha
    · exact ⟨b, List.mem_cons_self, hp⟩
    · obtain ⟨b', hb', hp'⟩ := ih ha
      exact ⟨b', List.mem_cons_of_mem _ hb', hp'⟩

theorem mapM_map_ok {α β ε : Type} {decode : β → Except ε α} {encode : α → β} {l : List α}
    (h : ∀ a ∈ l, decode (encode a) = .ok a) : (l.map encode).mapM decode = .ok l := by
  rw [List.mapM_map]
  have hok := mapM_ok (f := decode ∘ encode) (g := id) h
  rwa [List.map_id] at hok

theorem doubleMap_mapValues (p : LinkedMap String D) :
    doubleMap (.map .double (p.mapValues Value.double).entries) = .ok p := by
  refine bind_eq_ok.mpr ⟨_, rfl, bind_eq_ok.mpr ⟨p.entries, mapM_map_ok fun _ _ => rfl, ?_⟩⟩
  exact congrArg Except.ok (LinkedMap.ofEntries_of_nodup p.keys_nodup)

theorem pathFrom_pathValue (path : List (LinkedMap String D)) :
    pathFrom (pathValue path) = .ok path := by
  refine bind_eq_ok.mpr ⟨_, ?_, mapM_map_ok fun p _ => doubleMap_mapValues p⟩
  exact if_pos (by simp [Value.isA, Value.runtimeType, DartType.isSubtype])

theorem scheduleFrom_scheduleValue (schedule : LinkedMap String (List String)) :
    scheduleFrom (scheduleValue schedule : Value D) = .ok schedule := by
  refine bind_eq_ok.mpr ⟨_, if_pos ?_, bind_eq_ok.mpr ⟨schedule.entries,
    mapM_map_ok fun e _ => ?_, ?_⟩⟩
  · simp [LinkedMap.mapValues, Value.isA, Value.runtimeType, DartType.isSubtype]
  · exact bind_eq_ok.mpr ⟨e.2, mapM_map_ok fun _ _ => rfl, rfl⟩
  · exact congrArg Except.ok (LinkedMap.ofEntries_of_nodup schedule.keys_nodup)

@[simp] theorem asDoubleOrNull_optionalDouble (d : Option D) :
    (optionalDouble d).asDoubleOrNull = .ok d := by cases d <;> rfl

theorem parseDateTime_ok [DartDateTime T] {s : String} {t : T}
    (h : DartDateTime.parse s = some t) : parseDateTime s = .ok t := by
  simp only [parseDateTime, h]

theorem bus_fromJson_toJson [DartDateTime T] (bus : Bus D T)
    (h : DartDateTime.parse (DartDateTime.toIso8601String bus.lastUpdated) =
      some bus.lastUpdated) : Bus.fromJson bus.toJson = .ok bus := by
  have hd := parseDateTime_ok h
  unfold Bus.fromJson Bus.toJson
  simp [JsonMap.get, List.lookup_cons, Value.asString, Value.orElse, hd, bind, Except.bind, pure,
    Except.pure]

theorem bus_fromJson_written [DartDateTime T] (bus : Bus D T) : Bus.fromJson bus.toJson =
    (parseDateTime (T := T) (DartDateTime.toIso8601String bus.lastUpdated)).map
      fun read => { bus with lastUpdated := read } := by
  have hfields : Bus.fromJson bus.toJson = do
      let currentLat ← (optionalDouble bus.currentLat).asDoubleOrNull
      let currentLng ← (optionalDouble bus.currentLng).asDoubleOrNull
      let read : T ← parseDateTime (DartDateTime.toIso8601String bus.lastUpdated)
      return { bus with currentLat, currentLng, lastUpdated := read } := rfl
  rw [hfields, asDoubleOrNull_optionalDouble, asDoubleOrNull_optionalDouble]
  cases parseDateTime (T := T) (DartDateTime.toIso8601String bus.lastUpdated) <;> rfl

theorem routeStop_toJson_injective : Function.Injective (RouteStop.toJson : RouteStop D → _) := by
  intro a b h
  cases a
  cases b
  simpa [RouteStop.toJson] using h

end Models
