import BusSaathi.NextBuses
import BusSaathi.ProgramInterference
import BusSaathi.SampleSeeding
import Mathlib.Data.Fin.VecNotation

/-! `getNextBuses` as a program over the database, among others that read and write it. It reads
the bus table once and the route table once, later; what it reads of the stops plays no part. -/
namespace NextBusesCall

open KeyedTable StatementPrograms StatementPrograms.Prog InterleavedPrograms ProgramInterference
  DartRuntime Models DatabaseService OfflineService NextBuses

variable {D T P : Type}

def withoutStops (route : Route D) : Route D := { route with stops := [] }

/-- What the catch of `getNextBuses` makes of its body. -/
def orEmpty {α : Type} : Except DartError (List α) → List α
  | .ok l => l
  | .error _ => []

/-- The body of `getNextBuses` after its reads. -/
def nextOf (sort : (Bus D T → Bus D T → ℤ) → List (Bus D T) → List (Bus D T)) (weekday limit : ℤ)
    (allBuses : List (Bus D T)) (allRoutes : List (Route D)) :
    Except DartError (List (Bus D T)) := do
  let relevantBuses ← whereToList
    (fun bus => runsToday allRoutes (currentDay weekday) bus.routeId bus.departureTime) allBuses
  takeToList limit (sort (fun _ _ => 0) relevantBuses)

theorem runsToday_withoutStops (routes : List (Route D)) (day routeId departureTime : String) :
    runsToday (routes.map withoutStops) day routeId departureTime =
      runsToday routes day routeId departureTime := by
  have hfind : (routes.map withoutStops).find? (·.id = routeId) =
      (routes.find? (·.id = routeId)).map withoutStops := List.find?_map
  unfold runsToday
  rw [hfind]
  cases routes.find? (·.id = routeId) <;> rfl

theorem nextOf_withoutStops (sort : (Bus D T → Bus D T → ℤ) → List (Bus D T) → List (Bus D T))
    (weekday limit : ℤ) (buses : List (Bus D T)) (routes : List (Route D)) :
    nextOf sort weekday limit buses (routes.map withoutStops) =
      nextOf sort weekday limit buses routes := by
  simp only [nextOf, runsToday_withoutStops]

theorem getNextBuses_eq_nextOf
    (sort : (Bus D T → Bus D T → ℤ) → List (Bus D T) → List (Bus D T)) (position : P)
    (buses : List (Bus D T)) (routes : List (Route D)) (weekday limit : ℤ) :
    getNextBuses sort (.ok position) (.ok buses) (.ok routes) weekday limit =
      orEmpty (nextOf sort weekday limit buses routes) := by
  cases hwhere : whereToList (fun bus =>
      runsToday routes (currentDay weekday) bus.routeId bus.departureTime) buses with
  | error e => simp only [getNextBuses, nextOf, hwhere, Bind.bind, Except.bind, orEmpty]
  | ok kept =>
    cases htake : takeToList limit (sort (fun _ _ => 0) kept) <;>
      simp only [getNextBuses, nextOf, hwhere, htake, Bind.bind, Except.bind, orEmpty]

theorem getNextBuses_cases (sort : (Bus D T → Bus D T → ℤ) → List (Bus D T) → List (Bus D T))
    (buses : List (Bus D T)) {routes : List (Route D)} (hids : (routes.map (·.id)).Nodup)
    (position : P) (weekday limit : ℤ) :
    getNextBuses sort (.ok position) (.ok buses) (.ok routes) weekday limit = [] ∨
    0 ≤ limit ∧ getNextBuses sort (.ok position) (.ok buses) (.ok routes) weekday limit =
      (sort (fun _ _ => 0)
        (buses.filter fun bus => Relevant routes (currentDay weekday) bus)).take limit.toNat := by
  by_cases hroutes : ∀ bus ∈ buses, HasRoute routes bus
  · by_cases hlimit : 0 ≤ limit
    · exact Or.inr ⟨hlimit, getNextBuses_of_hasRoutes hids hlimit hroutes position weekday⟩
    · left
      have hwhere := whereToList_ok (l := buses)
        fun bus hbus => runsToday_of_hasRoute hids (currentDay weekday) (hroutes bus hbus)
      rw [getNextBuses_eq_nextOf, nextOf, hwhere]
      change orEmpty (takeToList limit _) = []
      rw [takeToList, if_pos (Int.not_le.mp hlimit)]
      rfl
  · have horphan : ∃ bus ∈ buses, ¬ HasRoute routes bus := by simpa using hroutes
    obtain ⟨bus, hbus, horphan⟩ := horphan
    exact Or.inl (getNextBuses_of_orphan hbus horphan position weekday)

def decodeRows (decoder : RouteDecoder D) (rows : List (RouteRow D)) :
    Except DartError (List (Route D)) :=
  rows.mapM fun row => do
    let path ← decoder.path row.path
    let schedule ← decoder.schedule row.schedule
    return ⟨row.id, row.name, row.source, row.destination, [], path, schedule⟩

theorem decodeRows_cons (decoder : RouteDecoder D) (row : RouteRow D) (rows : List (RouteRow D)) :
    decodeRows decoder (row :: rows) = do
      let path ← decoder.path row.path
      let schedule ← decoder.schedule row.schedule
      let routes ← decodeRows decoder rows
      return ⟨row.id, row.name, row.source, row.destination, [], path, schedule⟩ :: routes := by
  unfold decodeRows
  rw [List.mapM_cons]
  cases decoder.path row.path with
  | error e => rfl
  | ok path => cases decoder.schedule row.schedule <;> rfl

section Buses

variable [DartDateTime T]

def busesIn (db : Database D) : Except DartError (List (Bus D T)) := (run exec getAllBuses db).1

theorem exists_row_of_read {db : Database D} {buses : List (Bus D T)} (h : busesIn db = .ok buses)
    {bus : Bus D T} (hbus : bus ∈ buses) :
    ∃ row ∈ db.buses.rows, Bus.fromJson row.toColumns = .ok bus := by
  have hrows : db.buses.rows.mapM (fun row => Bus.fromJson row.toColumns) = .ok buses :=
    (congrArg Prod.fst (run_ofExcept exec _ db)).symm.trans h
  exact forall₂_exists_right (forall₂_of_mapM hrows).flip hbus

end Buses

section Routes

variable [DartDouble D]

def routesIn (decoder : RouteDecoder D) (db : Database D) : Except DartError (List (Route D)) :=
  (run exec (getAllRoutesWith decoder) db).1

theorem safe_getStopsForRoute (routeId : String) (db : Database D) :
    Safe exec .any (fun r _ => ∃ stops, r = .ok stops) (getStopsForRoute routeId) db := by
  intro db' _
  refine ⟨trivial, safe_ofExcept fun _ _ => ?_⟩
  exact ⟨_, mapM_ok fun row _ => rfl⟩

theorem safe_readRoutes (decoder : RouteDecoder D) (rows : List (RouteRow D)) (db : Database D) :
    Safe exec .any (fun r _ => r.map (List.map withoutStops) = decodeRows decoder rows)
      (readRoutes decoder rows) db := by
  induction rows generalizing db with
  | nil => exact fun _ _ => rfl
  | cons row rows ih =>
    rw [decodeRows_cons]
    apply Safe.bind
    apply (safe_getStopsForRoute row.id db).mono
    rintro _ db ⟨stops, rfl⟩
    cases hpath : decoder.path row.path with
    | error e => exact fun _ _ => rfl
    | ok path =>
      cases hschedule : decoder.schedule row.schedule with
      | error e => exact fun _ _ => rfl
      | ok schedule =>
        simp only [ofExcept_ok, done_bind]
        apply Safe.bind
        apply (ih db).mono
        rintro (e | routes) db hroutes
        · rw [← hroutes]
          rfl
        · intro _ _
          rw [← hroutes]
          rfl

theorem routesIn_withoutStops (decoder : RouteDecoder D) (db : Database D) :
    (routesIn decoder db).map (List.map withoutStops) = decodeRows decoder db.routes.rows :=
  (safe_readRoutes decoder db.routes.rows db).run.1

theorem getNextBuses_decodeRows
    (sort : (Bus D T → Bus D T → ℤ) → List (Bus D T) → List (Bus D T))
    (position : Except DartError P) (allBuses : Except DartError (List (Bus D T)))
    (decoder : RouteDecoder D) (db : Database D) (weekday limit : ℤ) :
    getNextBuses sort position allBuses (decodeRows decoder db.routes.rows) weekday limit =
      getNextBuses sort position allBuses (routesIn decoder db) weekday limit := by
  rw [← routesIn_withoutStops]
  cases position with
  | error e => rfl
  | ok position =>
    cases allBuses with
    | error e => rfl
    | ok buses =>
      cases routesIn decoder db with
      | error e => rfl
      | ok routes =>
        change getNextBuses sort (.ok position) (.ok buses) (.ok (routes.map withoutStops)) _ _ = _
        rw [getNextBuses_eq_nextOf, getNextBuses_eq_nextOf, nextOf_withoutStops]

variable {sort : (Bus D T → Bus D T → ℤ) → List (Bus D T) → List (Bus D T)}
  {decoder : RouteDecoder D} {weekday limit : ℤ}

theorem safe_afterRoutes (buses : List (Bus D T)) (rows : List (RouteRow D)) (position : P)
    (db : Database D) :
    Safe exec .any (fun r _ => r = .ok (getNextBuses sort (.ok position) (.ok buses)
        (decodeRows decoder rows) weekday limit))
      (catchError (do
        let allRoutes ← readRoutes decoder rows
        ofExcept (nextOf sort weekday limit buses allRoutes)) fun _ => return []) db := by
  apply Safe.catchError
  apply Safe.bind
  apply (safe_readRoutes decoder rows db).mono
  rintro (e | routes) db hroutes
  · intro _ _
    rw [← hroutes]
    rfl
  · rw [← hroutes]
    apply safe_ofExcept
    intro db' _
    have hpure : getNextBuses sort (.ok position) (.ok buses)
        ((.ok routes : Except DartError _).map (List.map withoutStops)) weekday limit =
          orEmpty (nextOf sort weekday limit buses routes) := by
      rw [← nextOf_withoutStops, ← getNextBuses_eq_nextOf sort position]
      rfl
    cases hnext : nextOf sort weekday limit buses routes with
    | ok next =>
      rw [hpure, hnext]
      rfl
    | error e =>
      intro _ _
      rw [hpure, hnext]
      rfl

/-- A row of `routes` whose schedule lists the departure of a bus on the given day. -/
def ListsDeparture (decoder : RouteDecoder D) (day : String) (row : RouteRow D) (bus : Bus D T) :
    Prop :=
  row.id = bus.routeId ∧ ∃ schedule, decoder.schedule row.schedule = .ok schedule ∧
    bus.departureTime ∈ (schedule.get? day).getD []

theorem exists_row_of_relevant {db : Database D} {routes : List (Route D)} {day : String}
    {bus : Bus D T} (h : routesIn decoder db = .ok routes) (hbus : Relevant routes day bus) :
    ∃ row ∈ db.routes.rows, ListsDeparture decoder day row bus := by
  obtain ⟨route, hroute, hid, htime⟩ := hbus
  have hrows : decodeRows decoder db.routes.rows = .ok (routes.map withoutStops) := by
    rw [← routesIn_withoutStops, h]
    rfl
  have hmem : withoutStops route ∈ routes.map withoutStops := List.mem_map_of_mem hroute
  obtain ⟨row, hrow, hdecoded⟩ := forall₂_exists_right (forall₂_of_mapM hrows).flip hmem
  obtain ⟨path, -, hdecoded⟩ := bind_eq_ok.mp hdecoded
  obtain ⟨schedule, hschedule, hdecoded⟩ := bind_eq_ok.mp hdecoded
  have hroute : (⟨row.id, row.name, row.source, row.destination, [], path, schedule⟩ : Route D) =
      withoutStops route := Except.ok.inj hdecoded
  have hrowId : row.id = route.id := congrArg Route.id hroute
  have hrowSchedule : schedule = route.schedule := congrArg Route.schedule hroute
  exact ⟨row, hrow, hrowId.trans hid, schedule, hschedule, hrowSchedule ▸ htime⟩

end Routes

section Shown

variable [DartDateTime T] {decoder : RouteDecoder D} {weekday limit : ℤ}

/-- A list that the home screen may show, by the databases its call read. -/
structure ShownFrom (decoder : RouteDecoder D) (weekday limit : ℤ) (before later : Database D)
    (shown : List (Bus D T)) : Prop where
  count : shown.length ≤ limit.toNat
  distinct : (shown.map (·.id)).Nodup
  stored : ∀ bus ∈ shown, ∃ row ∈ before.buses.rows, Bus.fromJson row.toColumns = .ok bus
  scheduled : ∀ bus ∈ shown, ∃ row ∈ later.routes.rows,
    ListsDeparture decoder (currentDay weekday) row bus

theorem shownFrom_nil (before later : Database D) :
    ShownFrom decoder weekday limit before later ([] : List (Bus D T)) := by
  constructor <;> simp

end Shown

section Program

variable [DartDouble D] [DartDateTime T]
  {sort : (Bus D T → Bus D T → ℤ) → List (Bus D T) → List (Bus D T)}
  {decoder : RouteDecoder D} {weekday limit : ℤ}

/-- `getNextBuses`, given the outcome of `getCurrentPosition`. -/
def nextBusesCall (sort : (Bus D T → Bus D T → ℤ) → List (Bus D T) → List (Bus D T))
    (decoder : RouteDecoder D) (position : Except DartError P) (weekday : ℤ) (limit : ℤ := 5) :
    DbProg D (List (Bus D T)) :=
  catchError (do
    let _ ← ofExcept position
    let allBuses ← getAllBuses
    let allRoutes ← getAllRoutesWith decoder
    ofExcept (nextOf sort weekday limit allBuses allRoutes)) fun _ => return []

theorem shownFrom_getNextBuses (hsort : ∀ l, (sort (fun _ _ => 0) l).Perm l)
    (position : Except DartError P) (before later : Database D) :
    ShownFrom decoder weekday limit before later (getNextBuses sort position (busesIn before)
      (routesIn decoder later) weekday limit) := by
  cases position with
  | error e => exact shownFrom_nil before later
  | ok position =>
    cases hbuses : (busesIn before : Except DartError (List (Bus D T))) with
    | error e => exact shownFrom_nil before later
    | ok buses =>
      cases hroutes : routesIn decoder later with
      | error e => exact shownFrom_nil before later
      | ok routes =>
        have hbusIds := getAllBuses_distinct (Prod.ext hbuses rfl)
        have hids := getAllRoutes_distinct (Prod.ext hroutes rfl)
        rcases getNextBuses_cases sort buses hids position weekday limit with
          hnil | ⟨hlimit, hshown⟩
        · rw [hnil]
          exact shownFrom_nil before later
        · obtain ⟨hcount, hdistinct, hrelevant⟩ := filtersExactly_take_filter hbusIds hlimit
            (hsort (buses.filter fun bus => Relevant routes (currentDay weekday) bus))
          rw [hshown]
          constructor
          · omega
          · exact hdistinct
          · intro bus hbus
            exact exists_row_of_read hbuses (hrelevant bus hbus).1
          · intro bus hbus
            exact exists_row_of_relevant hroutes (hrelevant bus hbus).2

theorem nextBusesCall_reads (position : Except DartError P) :
    (nextBusesCall sort decoder position weekday limit).Within fun s =>
      ∀ db, (exec s db).2 = db := by
  have hbuses : (getAllBuses : DbProg D (List (Bus D T))).Within fun s =>
      ∀ db, (exec s db).2 = db := ⟨fun _ => rfl, fun _ => within_ofExcept _ _⟩
  apply Within.catchError
  · apply Within.bind (within_ofExcept _ _)
    intro _
    apply hbuses.bind
    intro buses
    apply (getAllRoutesWith_within (fun _ => rfl) (fun _ _ => rfl) decoder).bind
    exact fun routes => within_ofExcept _ _
  · intro e
    trivial

theorem endsWithin_readRoutes (decoder : RouteDecoder D) (rows : List (RouteRow D)) :
    (readRoutes decoder rows).EndsWithin rows.length := by
  induction rows with
  | nil => exact endsWithin_done _ _
  | cons row rows ih =>
    have hstops : (getStopsForRoute row.id : DbProg D _).EndsWithin 1 :=
      fun _ => endsWithin_of_finished (ofExcept_finished _) 0
    rw [List.length_cons, Nat.add_comm]
    apply hstops.bind
    intro stops
    cases decoder.path row.path with
    | error e => exact endsWithin_fail e _
    | ok path =>
      cases decoder.schedule row.schedule with
      | error e => exact endsWithin_fail e _
      | ok schedule => exact ih.bind fun routes => endsWithin_done _ 0

theorem answer_of_stores {position : Except DartError P} {stores : List (Database D)}
    {r : Except DartError (List (Bus D T))} (first : Database D)
    (h : answerOn exec (nextBusesCall sort decoder position weekday limit) stores = some r) :
    ∃ before later, r = .ok (getNextBuses sort position (busesIn before)
        (routesIn decoder later) weekday limit) ∧
      ((before = first ∧ later = first) ∨ (∃ rest, stores = before :: rest ∧ later = before) ∨
        ∃ rest, stores = before :: later :: rest) := by
  cases position with
  | error e =>
    refine ⟨first, first, ?_, Or.inl ⟨rfl, rfl⟩⟩
    cases stores <;> cases h <;> rfl
  | ok position =>
    match stores with
    | [] => cases h
    | db :: stores =>
      have hbuses : (busesIn db : Except DartError (List (Bus D T))) =
          db.buses.rows.mapM fun row => Bus.fromJson row.toColumns :=
        congrArg Prod.fst (run_ofExcept exec _ db)
      have hrest : answerOn exec (catchError (do
          let allBuses ← ofExcept (db.buses.rows.mapM fun row => Bus.fromJson row.toColumns)
          let allRoutes ← getAllRoutesWith decoder
          ofExcept (nextOf sort weekday limit allBuses allRoutes)) fun _ => return []) stores =
            some r := h
      rw [← hbuses] at hrest
      cases hread : (busesIn db : Except DartError (List (Bus D T))) with
      | error e =>
        rw [hread] at hrest
        refine ⟨db, db, ?_, Or.inr (Or.inl ⟨stores, rfl, rfl⟩)⟩
        rw [hread]
        cases stores <;> cases hrest <;> rfl
      | ok buses =>
        rw [hread] at hrest
        match stores with
        | [] => cases hrest
        | later :: stores =>
          refine ⟨db, later, ?_, Or.inr (Or.inr ⟨stores, rfl⟩)⟩
          rw [hread, ← getNextBuses_decodeRows]
          exact (safe_afterRoutes buses later.routes.rows position later).answerOn exec hrest

theorem call_ends {position : Except DartError P} {stores : List (Database D)} {n : ℕ}
    (hroutes : ∀ db ∈ stores, db.routes.rows.length ≤ n) (hlength : n + 2 ≤ stores.length) :
    ∃ buses, resume exec (nextBusesCall sort decoder position weekday limit) stores =
      .done buses := by
  have hends :
      (resume exec (nextBusesCall sort decoder position weekday limit) stores).Finished := by
    cases position with
    | error e => exact finished_of_endsWithin exec (endsWithin_done [] 0) (Nat.zero_le _)
    | ok position =>
      match stores with
      | [] | [_] => simp at hlength
      | db :: later :: stores =>
        have hrest : ∀ r : Except DartError (List (Bus D T)), (resume exec (catchError (do
            let allBuses ← ofExcept r
            let allRoutes ← getAllRoutesWith decoder
            ofExcept (nextOf sort weekday limit allBuses allRoutes)) fun _ => return [])
              (later :: stores)).Finished := by
          rintro (e | buses)
          · trivial
          · have hloop : (catchError (do
                let allRoutes ← readRoutes decoder later.routes.rows
                ofExcept (nextOf sort weekday limit buses allRoutes)) fun _ =>
                  return []).EndsWithin (later.routes.rows.length + 0) :=
              ((endsWithin_readRoutes decoder later.routes.rows).bind fun routes =>
                endsWithin_of_finished (ofExcept_finished _) 0).catchError fun _ => trivial
            apply finished_of_endsWithin exec hloop
            have hlater := hroutes later (by simp)
            simp only [List.length_cons] at hlength
            omega
        exact hrest _
  obtain ⟨r, hr⟩ := finished_eq hends
  match stores with
  | [] => simp at hlength
  | first :: stores =>
    obtain ⟨_, _, rfl, -⟩ := answer_of_stores first (answerOn_of_resume exec hr)
    exact ⟨_, hr⟩

variable {ι : Type} [DecidableEq ι]
  {c : Config (Reply D) DartError (List (Bus D T)) (Database D) ι} {i : ι}

theorem call_answer {position : Except DartError P} {w : List ι}
    (hcall : c.pool i = nextBusesCall sort decoder position weekday limit)
    {r : Except DartError (List (Bus D T))} (hr : (runSchedule exec w c).pool i = ofExcept r) :
    ∃ k k', k ≤ k' ∧ k' ≤ w.length ∧
      r = .ok (getNextBuses sort position (busesIn (storeAt exec w c k))
        (routesIn decoder (storeAt exec w c k')) weekday limit) := by
  have hstores := answerOn_storesMet exec hr
  rw [hcall] at hstores
  obtain ⟨before, later, hr, hmet⟩ := answer_of_stores (storeAt exec w c 0) hstores
  rcases hmet with ⟨rfl, rfl⟩ | ⟨rest, hmet, rfl⟩ | ⟨rest, hmet⟩
  · exact ⟨0, 0, le_refl 0, Nat.zero_le _, hr⟩
  · obtain ⟨k, hk, rfl, -⟩ := exists_storeAt exec hmet
    exact ⟨k, k, le_refl k, hk.le, hr⟩
  · obtain ⟨k, k', hlt, hk', rfl, rfl⟩ := exists_storeAt_pair exec hmet
    exact ⟨k, k', hlt.le, hk'.le, hr⟩

/-- Whatever runs beside it, the call never throws and never writes, and its list is the one that
`getNextBuses` gives for the bus table of one moment and the route table of that or a later one. -/
theorem nextBuses_from_two_moments {position : Except DartError P}
    (hcall : c.pool i = nextBusesCall sort decoder position weekday limit) (w : List ι) :
    (∀ e, (runSchedule exec w c).pool i ≠ .fail e) ∧
    (stepAt exec i (runSchedule exec w c)).store = (runSchedule exec w c).store ∧
    ∀ shown, (runSchedule exec w c).pool i = .done shown → ∃ k k', k ≤ k' ∧ k' ≤ w.length ∧
      shown = getNextBuses sort position (busesIn (storeAt exec w c k))
        (routesIn decoder (storeAt exec w c k')) weekday limit := by
  refine ⟨?_, ?_, ?_⟩
  · intro e he
    obtain ⟨_, _, -, -, hr⟩ := call_answer hcall (r := .error e) he
    cases hr
  · have hreads : (c.pool i).Within fun s => ∀ db, (exec s db).2 = db := by
      rw [hcall]
      exact nextBusesCall_reads position
    exact stepAt_store_of_within (within_runSchedule hreads w) fun s st hs => hs st
  · intro shown hdone
    obtain ⟨k, k', hle, hk', hr⟩ := call_answer hcall (r := .ok shown) hdone
    exact ⟨k, k', hle, hk', Except.ok.inj hr⟩

end Program

def sampleDecoder : RouteDecoder ℚ :=
  ⟨fun _ => .ok [], fun _ => .ok (sampleRoute : Route ℚ).schedule⟩

def storedLine : Database ℚ :=
  { emptyDatabase with
    buses := Table.empty.replace (busRow earlyBus)
    routes := Table.empty.replace
      ⟨"amritsar-ludhiana", "Amritsar - Ludhiana", "Amritsar", "Ludhiana", .array [], .object []⟩ }

def besideClear : Config (Reply ℚ) DartError (List (Bus ℚ IsoInstant)) (Database ℚ) (Fin 2) where
  pool := ![nextBusesCall sortByInsertion sampleDecoder (.ok ()) 1, do clearAllData; return []]
  store := storedLine

/-- The buses are deleted after they have been read and before the routes are. -/
def aroundDelete : List (Fin 2) := [0, 1, 0, 0]

theorem besideClear_shows :
    (runSchedule exec aroundDelete besideClear).pool 0 = .done [earlyBus] := rfl

theorem call_around_delete : ∃ k k', k ≤ k' ∧ k' ≤ aroundDelete.length ∧
    [earlyBus] = getNextBuses sortByInsertion (.ok ())
      (busesIn (storeAt exec aroundDelete besideClear k))
      (routesIn sampleDecoder (storeAt exec aroundDelete besideClear k')) 1 5 :=
  (nextBuses_from_two_moments (c := besideClear) (i := 0) rfl aroundDelete).2.2 _ besideClear_shows

end NextBusesCall
