import BusSaathi.KeyedTable
import BusSaathi.Models
import BusSaathi.StatementPrograms
import Mathlib.Data.List.Sort

/-! `DatabaseService`: the schema, the sqflite statements it issues and its methods as
programs over them. Every table holds typed rows, one field for each column, so the
`NOT NULL` columns cannot be missing. Opening the database is left out: it issues no
statement, and every connection to the file works on the same tables. -/
namespace DatabaseService

open LinkedMaps KeyedTable StatementPrograms StatementPrograms.Prog DartRuntime Models

variable {D T : Type}

structure BusRow (D : Type) where
  id : String
  number : String
  routeId : String
  source : String
  destination : String
  departureTime : String
  arrivalTime : String
  driverName : String
  currentLat : Option D
  currentLng : Option D
  status : String
  lastUpdated : String
  deriving DecidableEq

/-- `path` and `schedule` are TEXT columns that hold encoded JSON. -/
structure RouteRow (D : Type) where
  id : String
  name : String
  source : String
  destination : String
  path : Json D
  schedule : Json D

structure StopRow (D : Type) where
  id : String
  routeId : String
  name : String
  lat : D
  lng : D
  sequence : ℤ
  deriving DecidableEq

structure TripLogRow where
  id : ℤ
  routeId : String
  startTime : String
  endTime : Option String
  gpsPoints : String
  synced : ℤ
  deriving DecidableEq

structure Database (D : Type) where
  buses : Table (@BusRow.id D)
  routes : Table (@RouteRow.id D)
  stops : Table (@StopRow.id D)
  tripLogs : Table TripLogRow.id

/-- What `_onCreate` leaves. -/
def emptyDatabase : Database D := ⟨.empty, .empty, .empty, .empty⟩

inductive TableName where
  | buses
  | routes
  | stops
  | tripLogs
  deriving DecidableEq, Repr

inductive Statement (D : Type) where
  | insertBus (row : BusRow D)
  | insertRoute (row : RouteRow D)
  | insertStop (row : StopRow D)
  | queryBuses
  | queryBus (id : String)
  | queryRoutes
  | queryStops (routeId : String)
  | delete (table : TableName)

abbrev Reply (D : Type) : Statement D → Type
  | .queryBuses => List (BusRow D)
  | .queryBus _ => List (BusRow D)
  | .queryRoutes => List (RouteRow D)
  | .queryStops _ => List (StopRow D)
  | _ => Unit

/-- `ORDER BY sequence` -/
def orderBySequence (rows : List (StopRow D)) : List (StopRow D) :=
  rows.insertionSort (fun a b => a.sequence ≤ b.sequence)

def clearTable (db : Database D) : TableName → Database D
  | .buses => { db with buses := .empty }
  | .routes => { db with routes := .empty }
  | .stops => { db with stops := .empty }
  | .tripLogs => { db with tripLogs := .empty }

/-- One sqflite statement; every insert uses `ConflictAlgorithm.replace`. -/
def exec : (s : Statement D) → Database D → Reply D s × Database D
  | .insertBus row, db => ((), { db with buses := db.buses.replace row })
  | .insertRoute row, db => ((), { db with routes := db.routes.replace row })
  | .insertStop row, db => ((), { db with stops := db.stops.replace row })
  | .queryBuses, db => (db.buses.rows, db)
  | .queryBus id, db => (db.buses.rows.filter (·.id = id), db)
  | .queryRoutes, db => (db.routes.rows, db)
  | .queryStops routeId, db =>
    (orderBySequence (db.stops.rows.filter (·.routeId = routeId)), db)
  | .delete table, db => ((), clearTable db table)

abbrev DbProg (D α : Type) := Prog (Reply D) DartError α

def busColumns : List String :=
  ["id", "number", "routeId", "source", "destination", "departureTime", "arrivalTime",
   "driverName", "currentLat", "currentLng", "status", "lastUpdated"]

/-- A `TEXT NOT NULL` column of an inserted map. -/
def textColumn (columns : JsonMap D) (name : String) : Except DartError String :=
  match columns.get name with
  | .string s => .ok s
  | _ => .error .databaseException

/-- A `REAL` column of an inserted map. -/
def realColumn (columns : JsonMap D) (name : String) : Except DartError (Option D) :=
  match columns.get name with
  | .double d => .ok (some d)
  | .null => .ok none
  | _ => .error .databaseException

def BusRow.ofColumns (columns : JsonMap D) : Except DartError (BusRow D) := do
  if columns.all (fun c => busColumns.contains c.1) then
    let id ← textColumn columns "id"
    let number ← textColumn columns "number"
    let routeId ← textColumn columns "routeId"
    let source ← textColumn columns "source"
    let destination ← textColumn columns "destination"
    let departureTime ← textColumn columns "departureTime"
    let arrivalTime ← textColumn columns "arrivalTime"
    let driverName ← textColumn columns "driverName"
    let currentLat ← realColumn columns "currentLat"
    let currentLng ← realColumn columns "currentLng"
    let status ← textColumn columns "status"
    let lastUpdated ← textColumn columns "lastUpdated"
    return ⟨id, number, routeId, source, destination, departureTime, arrivalTime, driverName,
      currentLat, currentLng, status, lastUpdated⟩
  else throw .databaseException

/-- A row of `buses` as a query returns it. -/
def BusRow.toColumns (row : BusRow D) : JsonMap D :=
  [("id", .string row.id),
   ("number", .string row.number),
   ("routeId", .string row.routeId),
   ("source", .string row.source),
   ("destination", .string row.destination),
   ("departureTime", .string row.departureTime),
   ("arrivalTime", .string row.arrivalTime),
   ("driverName", .string row.driverName),
   ("currentLat", optionalDouble row.currentLat),
   ("currentLng", optionalDouble row.currentLng),
   ("status", .string row.status),
   ("lastUpdated", .string row.lastUpdated)]

def StopRow.toColumns (row : StopRow D) : JsonMap D :=
  [("id", .string row.id),
   ("routeId", .string row.routeId),
   ("name", .string row.name),
   ("lat", .double row.lat),
   ("lng", .double row.lng),
   ("sequence", .int row.sequence)]

section Buses

variable [DartDateTime T]

def insertBus (bus : Bus D T) : DbProg D Unit := do
  let row ← ofExcept (BusRow.ofColumns bus.toJson)
  execute (Statement.insertBus row)

def getAllBuses : DbProg D (List (Bus D T)) := do
  let maps : List (BusRow D) ← execute Statement.queryBuses
  ofExcept (maps.mapM fun row => Bus.fromJson row.toColumns)

def getBus (id : String) : DbProg D (Option (Bus D T)) := do
  let maps : List (BusRow D) ← execute (Statement.queryBus id)
  match maps with
  | [] => return none
  | first :: _ => return some (← ofExcept (Bus.fromJson first.toColumns))

end Buses

section Routes

variable [DartDouble D]

def stopRow (routeId : String) (stop : RouteStop D) : StopRow D :=
  ⟨stop.id, routeId, stop.name, stop.lat, stop.lng, stop.sequence⟩

/-- The row written to `routes`, once both of its JSON columns are encoded. -/
def routeRow (route : Route D) : Except DartError (RouteRow D) := do
  let path ← jsonEncode (pathValue route.path)
  let schedule ← jsonEncode (scheduleValue route.schedule)
  return ⟨route.id, route.name, route.source, route.destination, path, schedule⟩

def insertStops (routeId : String) : List (RouteStop D) → DbProg D Unit
  | [] => pure ()
  | stop :: stops => do
    execute (Statement.insertStop (stopRow routeId stop))
    insertStops routeId stops

def insertRoute (route : Route D) : DbProg D Unit := do
  let row ← ofExcept (routeRow route)
  execute (Statement.insertRoute row)
  insertStops route.id route.stops

def getStopsForRoute (routeId : String) : DbProg D (List (RouteStop D)) := do
  let maps : List (StopRow D) ← execute (Statement.queryStops routeId)
  ofExcept (maps.mapM fun row => RouteStop.fromJson row.toColumns)

/-- How `getAllRoutes` reads the two JSON columns back. -/
structure RouteDecoder (D : Type) where
  path : Json D → Except DartError (List (LinkedMap String D))
  schedule : Json D → Except DartError (LinkedMap String (List String))

/-- The source's own reading of the two columns. -/
def columnDecoder : RouteDecoder D where
  path := fun text => pathFrom (jsonDecode text)
  schedule := fun text => scheduleFrom (jsonDecode text)

/-- A decoder that leaves the two JSON columns aside. -/
def decodingAside : RouteDecoder D := ⟨fun _ => .ok [], fun _ => .ok .empty⟩

/-- The loop of `getAllRoutes` over the rows it has read. -/
def readRoutes (decoder : RouteDecoder D) : List (RouteRow D) → DbProg D (List (Route D))
  | [] => return []
  | row :: rows => do
    let stops ← getStopsForRoute row.id
    let path ← ofExcept (decoder.path row.path)
    let schedule ← ofExcept (decoder.schedule row.schedule)
    let routes ← readRoutes decoder rows
    return ⟨row.id, row.name, row.source, row.destination, stops, path, schedule⟩ :: routes

def getAllRoutesWith (decoder : RouteDecoder D) : DbProg D (List (Route D)) := do
  let routeMaps : List (RouteRow D) ← execute Statement.queryRoutes
  readRoutes decoder routeMaps

def getAllRoutes : DbProg D (List (Route D)) := getAllRoutesWith columnDecoder

end Routes

def clearAllData : DbProg D Unit := do
  execute (Statement.delete .buses)
  execute (Statement.delete .routes)
  execute (Statement.delete .stops)
  execute (Statement.delete .tripLogs)

def busRow [DartDateTime T] (bus : Bus D T) : BusRow D :=
  ⟨bus.id, bus.number, bus.routeId, bus.source, bus.destination, bus.departureTime,
    bus.arrivalTime, bus.driverName, bus.currentLat, bus.currentLng, bus.status,
    DartDateTime.toIso8601String bus.lastUpdated⟩

@[simp] theorem busRow_id [DartDateTime T] (bus : Bus D T) : (busRow bus).id = bus.id := rfl

theorem realColumn_optionalDouble {columns : JsonMap D} {name : String} {d : Option D}
    (h : columns.get name = optionalDouble d) : realColumn columns name = .ok d := by
  cases d <;> simp only [realColumn, h, optionalDouble]

theorem ofColumns_toJson [DartDateTime T] (bus : Bus D T) :
    BusRow.ofColumns bus.toJson = .ok (busRow bus) := by
  have hlat : realColumn bus.toJson "currentLat" = .ok bus.currentLat :=
    realColumn_optionalDouble rfl
  have hlng : realColumn bus.toJson "currentLng" = .ok bus.currentLng :=
    realColumn_optionalDouble rfl
  unfold BusRow.ofColumns
  rw [hlat, hlng]
  rfl

theorem busRow_toColumns [DartDateTime T] (bus : Bus D T) :
    (busRow bus).toColumns = bus.toJson := rfl

theorem run_insertBus [DartDateTime T] (bus : Bus D T) (db : Database D) :
    run exec (insertBus bus) db =
      (.ok (), { db with buses := db.buses.replace (busRow bus) }) := by
  simp only [insertBus, ofColumns_toJson, ofExcept_ok, done_bind]
  rfl

def stopOfRow (row : StopRow D) : RouteStop D :=
  ⟨row.id, row.name, row.lat, row.lng, row.sequence⟩

def storedStops (db : Database D) (routeId : String) : List (RouteStop D) :=
  (orderBySequence (db.stops.rows.filter (·.routeId = routeId))).map stopOfRow

def inSequence (stops : List (RouteStop D)) : List (RouteStop D) :=
  stops.insertionSort (fun a b => a.sequence ≤ b.sequence)

theorem storedStops_eq_inSequence (db : Database D) (routeId : String) :
    storedStops db routeId =
      inSequence ((db.stops.rows.filter (·.routeId = routeId)).map stopOfRow) :=
  List.map_insertionSort _ _ _ _ fun _ _ _ _ => Iff.rfl

theorem inSequence_perm {xs ys : List (RouteStop D)} (h : xs.Perm ys)
    (hn : (ys.map (·.sequence)).Nodup) : inSequence xs = inSequence ys := by
  have : Std.Total fun a b : RouteStop D => a.sequence ≤ b.sequence :=
    ⟨fun a b => le_total a.sequence b.sequence⟩
  have : IsTrans (RouteStop D) fun a b => a.sequence ≤ b.sequence :=
    ⟨fun _ _ _ => le_trans⟩
  have hx := List.perm_insertionSort (fun a b : RouteStop D => a.sequence ≤ b.sequence) xs
  have hy := List.perm_insertionSort (fun a b : RouteStop D => a.sequence ≤ b.sequence) ys
  refine List.Perm.eq_of_pairwise ?_ (List.pairwise_insertionSort _ xs)
    (List.pairwise_insertionSort _ ys) (hx.trans (h.trans hy.symm))
  intro a b ha hb hab hba
  have ha' : a ∈ ys := h.mem_iff.mp ((List.mem_insertionSort _).mp ha)
  exact List.inj_on_of_nodup_map hn ha' ((List.mem_insertionSort _).mp hb) (le_antisymm hab hba)

theorem mem_inSequence {stops : List (RouteStop D)} {stop : RouteStop D} :
    stop ∈ inSequence stops ↔ stop ∈ stops := List.mem_insertionSort _

@[simp] theorem stopRow_id (r : String) (stop : RouteStop D) : (stopRow r stop).id = stop.id := rfl
@[simp] theorem stopRow_routeId (r : String) (stop : RouteStop D) :
    (stopRow r stop).routeId = r := rfl
@[simp] theorem stopOfRow_stopRow (r : String) (stop : RouteStop D) :
    stopOfRow (stopRow r stop) = stop := rfl

theorem run_insertStops (routeId : String) (stops : List (RouteStop D)) (db : Database D) :
    run exec (insertStops routeId stops) db =
      (.ok (), { db with stops := db.stops.replaceAll (stops.map (stopRow routeId)) }) := by
  induction stops generalizing db with
  | nil => rfl
  | cons stop stops ih =>
    simp only [insertStops, execute_bind, run_stmt, exec, ih, List.map_cons,
      Table.replaceAll_cons]

section RouteSpecs

variable [DartDouble D]

theorem run_getStopsForRoute (routeId : String) (db : Database D) :
    run exec (getStopsForRoute routeId) db = (.ok (storedStops db routeId), db) := by
  have h : ∀ rows : List (StopRow D),
      (rows.mapM fun row => RouteStop.fromJson row.toColumns) = .ok (rows.map stopOfRow) :=
    fun rows => mapM_ok fun row _ => rfl
  simp only [getStopsForRoute, execute_bind, run_stmt, h]
  rfl

theorem run_insertRoute_ok {route : Route D} {row : RouteRow D} (h : routeRow route = .ok row)
    (db : Database D) : run exec (insertRoute route) db =
      (.ok (), { db with
        routes := db.routes.replace row
        stops := db.stops.replaceAll (route.stops.map (stopRow route.id)) }) := by
  simp only [insertRoute, h, ofExcept_ok, done_bind, execute_bind, run_stmt, exec,
    run_insertStops]

theorem run_insertRoute_error {route : Route D} {e : DartError} (h : routeRow route = .error e)
    (db : Database D) : run exec (insertRoute route) db = (.error e, db) := by
  simp only [insertRoute, h, ofExcept_error, fail_bind, run_fail]

theorem routeRow_fields {route : Route D} {row : RouteRow D} (h : routeRow route = .ok row) :
    row.id = route.id ∧ row.name = route.name ∧ row.source = route.source ∧
      row.destination = route.destination := by
  unfold routeRow at h
  cases hp : jsonEncode (pathValue route.path) with
  | error e => rw [hp] at h; cases h
  | ok path =>
    cases hs : jsonEncode (scheduleValue route.schedule : Value D) with
    | error e => rw [hp, hs] at h; cases h
    | ok schedule => rw [hp, hs] at h; cases h; exact ⟨rfl, rfl, rfl, rfl⟩

end RouteSpecs

theorem run_clearAllData (db : Database D) :
    run exec clearAllData db = (.ok (), emptyDatabase) := rfl

section Within

variable {A : Statement D → Prop}

theorem insertStops_within (hstop : ∀ row, A (.insertStop row)) (routeId : String)
    (stops : List (RouteStop D)) : (insertStops routeId stops).Within A := by
  induction stops with
  | nil => trivial
  | cons stop stops ih => exact ⟨hstop _, fun _ => ih⟩

theorem clearAllData_within (hdelete : ∀ table, A (.delete table)) :
    (clearAllData : DbProg D Unit).Within A :=
  ⟨hdelete _, fun _ => ⟨hdelete _, fun _ => ⟨hdelete _, fun _ => ⟨hdelete _, fun _ => trivial⟩⟩⟩⟩

variable [DartDouble D]

theorem readRoutes_within {α : Type} (hstops : ∀ r, A (.queryStops r)) (decoder : RouteDecoder D)
    (rows : List (RouteRow D)) (f : List (Route D) → DbProg D α)
    (hf : ∀ routes, routes.length = rows.length → (f routes).Within A) :
    (readRoutes decoder rows >>= f).Within A := by
  induction rows generalizing f with
  | nil => exact hf [] rfl
  | cons row rows ih =>
    simp only [readRoutes, bind_assoc]
    refine Within.bind ⟨hstops row.id, fun _ => within_ofExcept A _⟩ fun stops => ?_
    refine Within.bind (within_ofExcept A _) fun path => ?_
    refine Within.bind (within_ofExcept A _) fun schedule => ?_
    refine ih _ fun routes hlen => hf _ ?_
    rw [List.length_cons, List.length_cons, hlen]

theorem getAllRoutesWith_within (hroutes : A .queryRoutes) (hstops : ∀ r, A (.queryStops r))
    (decoder : RouteDecoder D) : (getAllRoutesWith decoder).Within A := by
  refine ⟨hroutes, fun rows => ?_⟩
  have hloop := readRoutes_within hstops decoder rows (fun routes => .done routes)
    fun _ _ => trivial
  rwa [bind_done] at hloop

end Within

end DatabaseService
