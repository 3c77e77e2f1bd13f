import BusSaathi.NextBusesCall
import BusSaathi.RouteStore

/-! Reading all routes back. The two JSON columns come back untyped, so a single current version
with a path or a schedule makes `getAllRoutes` throw, and the next start of the app with it. -/
namespace RouteReads

open LinkedMaps KeyedTable StatementPrograms StatementPrograms.Prog DartRuntime Models
  DatabaseService OfflineService RouteCodec StoreHistory RouteStore NextBuses NextBusesCall

variable {D T : Type}

section Encoding

variable [DartDouble D]

mutual

/-- Whatever `json.encode` accepts comes back without its element types. -/
theorem decode_of_encode {v : Value D} {j : Json D} (h : jsonEncode v = .ok j) :
    jsonDecode j = untyped v := by
  cases v with
  | null | bool | int | string =>
    cases h
    rfl
  | double d =>
    rw [jsonEncode] at h
    split at h <;> cases h
    rfl
  | list t items =>
    rw [jsonEncode] at h
    obtain ⟨js, hitems, h⟩ := bind_eq_ok.mp h
    cases h
    rw [jsonDecode, decode_of_encode_items hitems, untyped]
  | map t entries =>
    rw [jsonEncode] at h
    obtain ⟨ms, hmembers, h⟩ := bind_eq_ok.mp h
    cases h
    rw [jsonDecode, decode_of_encode_members hmembers, untyped]

theorem decode_of_encode_items {items : List (Value D)} {js : List (Json D)}
    (h : jsonEncodeItems items = .ok js) : jsonDecodeItems js = untypedItems items := by
  cases items with
  | nil =>
    cases h
    rfl
  | cons v items =>
    rw [jsonEncodeItems] at h
    obtain ⟨j, hv, h⟩ := bind_eq_ok.mp h
    obtain ⟨js', hitems, h⟩ := bind_eq_ok.mp h
    cases h
    rw [jsonDecodeItems, decode_of_encode hv, decode_of_encode_items hitems, untypedItems]

theorem decode_of_encode_members {entries : JsonMap D} {ms : List (String × Json D)}
    (h : jsonEncodeMembers entries = .ok ms) :
    jsonDecodeMembers ms = untypedEntries entries := by
  cases entries with
  | nil =>
    cases h
    rfl
  | cons e entries =>
    obtain ⟨k, v⟩ := e
    rw [jsonEncodeMembers] at h
    obtain ⟨j, hv, h⟩ := bind_eq_ok.mp h
    obtain ⟨ms', hentries, h⟩ := bind_eq_ok.mp h
    cases h
    rw [jsonDecodeMembers, decode_of_encode hv, decode_of_encode_members hentries,
      untypedEntries]

end

theorem columns_of_routeRow {route : Route D} {row : RouteRow D} (h : routeRow route = .ok row) :
    columnDecoder.path row.path = pathFrom (untyped (pathValue route.path)) ∧
      columnDecoder.schedule row.schedule =
        scheduleFrom (untyped (scheduleValue route.schedule : Value D)) := by
  obtain ⟨path, hpath, h⟩ := bind_eq_ok.mp h
  obtain ⟨schedule, hschedule, h⟩ := bind_eq_ok.mp h
  cases h
  simp only [columnDecoder, decode_of_encode hpath, decode_of_encode hschedule]
  exact ⟨trivial, trivial⟩

end Encoding

section Decoding

theorem isA_jsonDecode {t : DartType} (ht : t ≠ .dynamic) (j : Json D) :
    (jsonDecode j).isA (.list t) = false := by
  cases j <;> cases t <;> first | exact absurd rfl ht | rfl

theorem jsonDecodeMembers_eq_map (ms : List (String × Json D)) :
    jsonDecodeMembers ms = ms.map fun m => (m.1, jsonDecode m.2) := by
  induction ms with
  | nil => rfl
  | cons m ms ih => rw [jsonDecodeMembers, ih, List.map_cons]

theorem mapFrom_jsonDecode {t : DartType} (ht : t ≠ .dynamic) {j : Json D} {entries : JsonMap D}
    (h : mapFrom (.list t) (jsonDecode j) = .ok entries) : entries = [] := by
  obtain ⟨raw, hraw, h⟩ := bind_eq_ok.mp h
  cases j with
  | object ms =>
    cases hraw
    rw [jsonDecodeMembers_eq_map] at h
    cases ms with
    | nil =>
      cases h
      rfl
    | cons m ms =>
      rw [if_neg (by simp [isA_jsonDecode ht m.2])] at h
      cases h
  | _ => cases hraw

theorem scheduleFrom_jsonDecode {j : Json D} {schedule : LinkedMap String (List String)}
    (h : scheduleFrom (jsonDecode j) = .ok schedule) : schedule = .empty := by
  obtain ⟨entries, hentries, h⟩ := bind_eq_ok.mp h
  rw [mapFrom_jsonDecode (by decide) hentries] at h
  cases h
  rfl

end Decoding

theorem mapM_eq_error {α β ε : Type} {f : α → Except ε β} {e : ε} {l : List α}
    (hall : ∀ a ∈ l, (∃ b, f a = .ok b) ∨ f a = .error e) {a : α} (ha : a ∈ l)
    (hfail : f a = .error e) : l.mapM f = .error e := by
  induction l with
  | nil => cases ha
  | cons b l ih =>
    rw [List.mapM_cons]
    rcases hall b List.mem_cons_self with ⟨c, hb⟩ | hb
    · have hmem : a ∈ l := by
        rcases List.mem_cons.mp ha with rfl | ha
        · rw [hfail] at hb
          cases hb
        · exact ha
      rw [hb, ih (fun x hx => hall x (List.mem_cons_of_mem b hx)) hmem]
      rfl
    · rw [hb]
      rfl

theorem getBus_eq_find? [DartDateTime T] {db : Database D} {buses : List (Bus D T)}
    (h : (run exec getAllBuses db).1 = .ok buses) (id : String) :
    (run exec (getBus id) db).1 = .ok (buses.find? (·.id = id)) := by
  have hdistinct := getAllBuses_distinct (Prod.ext h rfl)
  have hrows : db.buses.rows.mapM (fun row => Bus.fromJson row.toColumns) = .ok buses := by
    simpa [getAllBuses, exec] using h
  have hsteps := forall₂_of_mapM hrows
  have hquery := db.buses.filter_key id
  cases hl : db.buses.lookup id with
  | none =>
    have hnone : buses.find? (·.id = id) = none := by
      rw [List.find?_eq_none]
      intro bus hbus hid
      obtain ⟨row, hrow, hread⟩ := forall₂_exists_right hsteps.flip hbus
      have hsame : row.id = bus.id := Value.string.inj (bus_fromJson_id hread)
      exact Table.lookup_eq_none.mp hl row hrow (hsame.trans (by simpa using hid))
    rw [hl] at hquery
    simp [getBus, exec, hquery, hnone]
  | some row =>
    obtain ⟨hrow, hid⟩ := Table.lookup_eq_some.mp hl
    obtain ⟨bus, hbus, hread⟩ := forall₂_exists_right hsteps hrow
    have hsame : row.id = bus.id := Value.string.inj (bus_fromJson_id hread)
    have hfind : buses.find? (·.id = id) = some bus :=
      (find?_key_eq_some hdistinct).mpr ⟨hbus, hsame.symm.trans hid⟩
    rw [hl] at hquery
    simp [getBus, exec, hquery, hread, hfind]

section Reads

variable [DartDouble D]

def withStoredStops (db : Database D) (route : Route D) : Route D :=
  { route with stops := storedStops db route.id }

/-- The loop of `getAllRoutes` adds the stored stops to what the rows decode to. -/
theorem run_readRoutes_eq (decoder : RouteDecoder D) (rows : List (RouteRow D)) (db : Database D) :
    run exec (readRoutes decoder rows) db =
      ((decodeRows decoder rows).map (List.map (withStoredStops db)), db) := by
  induction rows with
  | nil => rfl
  | cons row rows ih =>
    rw [readRoutes, run_bind_ok exec (run_getStopsForRoute row.id db), decodeRows_cons]
    cases decoder.path row.path with
    | error e => rfl
    | ok path =>
      cases decoder.schedule row.schedule with
      | error e => rfl
      | ok schedule =>
        simp only [ofExcept_ok, done_bind]
        cases hrows : decodeRows decoder rows with
        | error e =>
          rw [hrows] at ih
          exact run_bind_error exec ih _
        | ok routes =>
          rw [hrows] at ih
          exact run_bind_ok exec ih _

/-- A route that both column decodings leave as it is. -/
def Plain (route : Route D) : Prop := route.path = [] ∧ route.schedule = .empty

theorem version_of_row {routes : List (Route D)} {rows : List (RouteRow D)} {db : Database D}
    (hr : db.routes = Table.empty.replaceAll rows)
    (hrows : List.Forall₂ (fun route row => routeRow route = .ok row) routes rows)
    (row : RouteRow D) : row ∈ db.routes.rows ↔
      ∃ route, currentVersion routes row.id = some route ∧ routeRow route = .ok row := by
  have hrel := lastWith_routeRows hrows row.id
  rw [Table.mem_iff_lookup, hr, Table.lookup_replaceAll, Table.lookup_empty, Option.or_none]
  constructor
  · intro hrow
    rw [hrow] at hrel
    cases hc : currentVersion routes row.id with
    | none =>
      rw [hc] at hrel
      cases hrel
    | some route =>
      rw [hc] at hrel
      cases hrel with
      | some hroute => exact ⟨route, rfl, hroute⟩
  · rintro ⟨route, hc, hroute⟩
    rw [hc] at hrel
    cases hl : lastWith RouteRow.id rows row.id with
    | none =>
      rw [hl] at hrel
      cases hrel
    | some row' =>
      rw [hl] at hrel
      cases hrel with
      | some hroute' =>
        rw [hroute] at hroute'
        cases hroute'
        rfl

theorem decode_row {route : Route D} {row : RouteRow D} (h : routeRow route = .ok row) :
    (Plain route → (do
      let path ← columnDecoder.path row.path
      let schedule ← columnDecoder.schedule row.schedule
      return ⟨row.id, row.name, row.source, row.destination, [], path, schedule⟩) =
        Except.ok (withoutStops route)) ∧
    (¬ Plain route → (do
      let path ← columnDecoder.path row.path
      let schedule ← columnDecoder.schedule row.schedule
      return (⟨row.id, row.name, row.source, row.destination, [], path, schedule⟩ : Route D)) =
        .error .typeError) := by
  obtain ⟨hpath, hschedule⟩ := columns_of_routeRow h
  obtain ⟨hid, hname, hsource, hdestination⟩ := routeRow_fields h
  rw [hpath, hschedule, pathFrom_untyped, scheduleFrom_untyped]
  constructor
  · rintro ⟨hp, hs⟩
    rw [if_pos hp, if_pos hs, hid, hname, hsource, hdestination, withoutStops, hp, hs]
    rfl
  · intro hplain
    by_cases hp : route.path = []
    · rw [if_pos hp, if_neg fun hs => hplain ⟨hp, hs⟩]
      rfl
    · rw [if_neg hp]
      rfl

theorem run_getAllRoutes (decoder : RouteDecoder D) (db : Database D) :
    run exec (getAllRoutesWith decoder) db =
      ((decodeRows decoder db.routes.rows).map (List.map (withStoredStops db)), db) :=
  run_readRoutes_eq decoder db.routes.rows db

section Versions

variable {routes : List (Route D)} {db : Database D}

theorem decodeRows_of_plain (hversion : ∀ row, row ∈ db.routes.rows ↔
      ∃ route, currentVersion routes row.id = some route ∧ routeRow route = .ok row)
    (hplain : ∀ r route, currentVersion routes r = some route → Plain route) :
    ∃ decoded, decodeRows columnDecoder db.routes.rows = .ok decoded ∧
      ∀ route, route ∈ decoded ↔ ∃ row ∈ db.routes.rows, ∃ version,
        currentVersion routes row.id = some version ∧ route = withoutStops version := by
  obtain ⟨decoded, hdecoded, hrel⟩ := mapM_forall₂ (l := db.routes.rows)
    (P := fun row route => ∃ version, currentVersion routes row.id = some version ∧
      route = withoutStops version)
    (f := fun row => do
      let path ← columnDecoder.path row.path
      let schedule ← columnDecoder.schedule row.schedule
      return ⟨row.id, row.name, row.source, row.destination, [], path, schedule⟩) (by
        intro row hrow
        obtain ⟨version, hc, hv⟩ := (hversion row).mp hrow
        exact ⟨_, (decode_row hv).1 (hplain _ _ hc), version, hc, rfl⟩)
  refine ⟨decoded, hdecoded, ?_⟩
  intro route
  constructor
  · intro hmem
    exact forall₂_exists_right hrel.flip hmem
  · rintro ⟨row, hrow, version, hc, rfl⟩
    obtain ⟨route, hmem, version', hc', rfl⟩ := forall₂_exists_right hrel hrow
    rw [hc] at hc'
    cases hc'
    exact hmem

theorem decodeRows_of_not_plain (hversion : ∀ row, row ∈ db.routes.rows ↔
      ∃ route, currentVersion routes row.id = some route ∧ routeRow route = .ok row)
    {row : RouteRow D} (hrow : row ∈ db.routes.rows) {version : Route D}
    (hv : routeRow version = .ok row) (hplain : ¬ Plain version) :
    decodeRows columnDecoder db.routes.rows = .error .typeError := by
  apply mapM_eq_error _ hrow ((decode_row hv).2 hplain)
  intro row' hrow'
  obtain ⟨version', -, hv'⟩ := (hversion row').mp hrow'
  by_cases hp : Plain version'
  · exact Or.inl ⟨_, (decode_row hv').1 hp⟩
  · exact Or.inr ((decode_row hv').2 hp)

end Versions

/-- After a history, `getAllRoutes` gives exactly the current versions with the stops that are
stored under their ids, or one of them has a path or a schedule and it throws. -/
theorem getAllRoutes_after_history [DartDateTime T] {h : List (StoreCall D T)} {db : Database D}
    (hrun : runHistory h = some db) :
    ((∀ r version, currentVersion (routesSinceClear h) r = some version → Plain version) ∧
      ∃ routes, (run exec getAllRoutes db).1 = .ok routes ∧ (routes.map (·.id)).Nodup ∧
        ∀ route, route ∈ routes ↔ ∃ version,
          currentVersion (routesSinceClear h) route.id = some version ∧
            route = withStoredStops db version) ∨
    ((∃ r version, currentVersion (routesSinceClear h) r = some version ∧ ¬ Plain version) ∧
      (run exec getAllRoutes db).1 = .error .typeError) := by
  obtain ⟨-, -, rows, hr, hrows⟩ := historyInvariant_run hrun
  have hversion := version_of_row hr hrows
  have hread : (run exec getAllRoutes db).1 =
      (decodeRows columnDecoder db.routes.rows).map (List.map (withStoredStops db)) :=
    congrArg Prod.fst (run_getAllRoutes columnDecoder db)
  -- every current version has been written, so it has a row of its own
  have hwritten : ∀ r version, currentVersion (routesSinceClear h) r = some version →
      ∃ row ∈ db.routes.rows, row.id = r ∧ routeRow version = .ok row := by
    intro r version hc
    obtain ⟨hmem, hid⟩ := lastWith_mem hc
    obtain ⟨row, -, hrow⟩ := forall₂_exists_right hrows hmem
    have hrowId : row.id = r := (routeRow_fields hrow).1.trans hid
    exact ⟨row, (hversion row).mpr ⟨version, hrowId.symm ▸ hc, hrow⟩, hrowId, hrow⟩
  by_cases hplain : ∀ r version, currentVersion (routesSinceClear h) r = some version →
      Plain version
  · left
    obtain ⟨decoded, hdecoded, hmem⟩ := decodeRows_of_plain hversion hplain
    rw [hdecoded] at hread
    refine ⟨hplain, _, hread, getAllRoutes_distinct (Prod.ext hread rfl), ?_⟩
    intro route
    rw [List.mem_map]
    constructor
    · rintro ⟨bare, hbare, rfl⟩
      obtain ⟨row, -, version, hc, rfl⟩ := (hmem bare).mp hbare
      have hid : version.id = row.id := (lastWith_mem hc).2
      exact ⟨version, hid.symm ▸ hc, rfl⟩
    · rintro ⟨version, hc, rfl⟩
      obtain ⟨row, hrow, hid, -⟩ := hwritten _ version hc
      exact ⟨withoutStops version, (hmem _).mpr ⟨row, hrow, version, hid.symm ▸ hc, rfl⟩, rfl⟩
  · right
    push Not at hplain
    obtain ⟨r, version, hc, hplain⟩ := hplain
    obtain ⟨row, hrow, -, hv⟩ := hwritten r version hc
    rw [decodeRows_of_not_plain hversion hrow hv hplain] at hread
    exact ⟨⟨r, version, hc, hplain⟩, hread⟩

section Restart

variable [DartDateTime T]

theorem sampleRoute_not_plain : ¬ Plain (sampleRoute : Route D) := by
  rintro ⟨hpath, -⟩
  cases hpath

theorem run_load_refused {db : Database D} (hsample : ∀ row ∈ db.routes.rows,
    routeRow sampleRoute = .ok row) (hstored : db.routes.rows ≠ []) (now : T) :
    run exec (loadSampleDataIfNeeded columnDecoder now) db = (.error .typeError, db) := by
  obtain ⟨row, hrow⟩ := List.exists_mem_of_ne_nil _ hstored
  have hdecode : decodeRows columnDecoder db.routes.rows = .error .typeError := by
    apply mapM_eq_error _ hrow ((decode_row (hsample row hrow)).2 sampleRoute_not_plain)
    intro row' hrow'
    exact Or.inr ((decode_row (hsample row' hrow')).2 sampleRoute_not_plain)
  have hread := run_getAllRoutes columnDecoder db
  rw [hdecode] at hread
  exact run_bind_error exec hread _

def databaseAfter (events : List (SampleSeeding.Event T)) : Database D :=
  (SampleSeeding.afterEvents columnDecoder events).db

theorem start_after_events (events : List (SampleSeeding.Event T)) (now : T) :
    ((run exec (loadSampleDataIfNeeded columnDecoder now) (databaseAfter (D := D) events)).1 =
      .ok () ↔ (databaseAfter (D := D) events).routes.rows = []) ∧
    ((databaseAfter (D := D) events).routes.rows ≠ [] →
      run exec (loadSampleDataIfNeeded columnDecoder now) (databaseAfter (D := D) events) =
        (.error .typeError, databaseAfter events)) := by
  have hsample := (SampleSeeding.seedInvariant_run (D := D) columnDecoder events).routes
  rw [← databaseAfter] at hsample
  obtain ⟨row, hrow⟩ := sampleRoute_encodes (D := D)
  by_cases h : (databaseAfter (D := D) events).routes.rows = []
  · rw [SampleSeeding.run_load_empty hrow h now]
    exact ⟨iff_of_true rfl h, fun hne => absurd h hne⟩
  · have hrefused := run_load_refused hsample h now
    rw [hrefused]
    exact ⟨iff_of_false (fun hok => by cases hok) h, fun _ => rfl⟩

/-- Whatever was loaded, cleared, interleaved or killed before, a start of the app completes exactly
where no route is stored, and otherwise it throws and leaves the database as it is. After sessions
one after another, that is where each load that wrote the route was cleared again. -/
theorem start_completes_iff (now : T) :
    (∀ events : List (SampleSeeding.Event T),
      ((run exec (loadSampleDataIfNeeded columnDecoder now) (databaseAfter (D := D) events)).1 =
        .ok () ↔ (databaseAfter (D := D) events).routes.rows = []) ∧
      ((databaseAfter (D := D) events).routes.rows ≠ [] →
        run exec (loadSampleDataIfNeeded columnDecoder now) (databaseAfter (D := D) events) =
          (.error .typeError, databaseAfter events))) ∧
    ∀ sessions : List (SampleSeeding.Session T),
      (run exec (loadSampleDataIfNeeded columnDecoder now)
        (databaseAfter (D := D) (sessions.flatMap SampleSeeding.sessionEvents))).1 = .ok () ↔
      SampleSeeding.LoadsCleared sessions := by
  refine ⟨fun events => start_after_events events now, fun sessions => ?_⟩
  rw [(start_after_events _ now).1, databaseAfter, SampleSeeding.afterEvents_sessions,
    SampleSeeding.fresh_iff (SampleSeeding.phaseHolds_run columnDecoder sessions)]
  exact SampleSeeding.phaseAfter_fresh_iff

end Restart

theorem getStopsForRoute_eq_stops {decoder : RouteDecoder D} {db : Database D}
    {routes : List (Route D)} (h : (run exec (getAllRoutesWith decoder) db).1 = .ok routes)
    {route : Route D} (hroute : route ∈ routes) :
    (run exec (getStopsForRoute route.id) db).1 = .ok route.stops := by
  rw [run_getAllRoutes] at h
  cases hrows : decodeRows decoder db.routes.rows with
  | error e =>
    rw [hrows] at h
    cases h
  | ok decoded =>
    rw [hrows] at h
    cases h
    obtain ⟨bare, -, rfl⟩ := List.mem_map.mp hroute
    rw [run_getStopsForRoute]
    rfl

/-- On any database, the queries for one id agree with the reads of everything that complete. -/
theorem point_queries_agree [DartDateTime T] (db : Database D) :
    (∀ buses : List (Bus D T), (run exec getAllBuses db).1 = .ok buses →
      ∀ id, (run exec (getBus id) db).1 = .ok (buses.find? (·.id = id))) ∧
    ∀ decoder routes, (run exec (getAllRoutesWith decoder) db).1 = .ok routes →
      ∀ route ∈ routes, (run exec (getStopsForRoute route.id) db).1 = .ok route.stops := by
  constructor
  · intro buses h id
    exact getBus_eq_find? h id
  · intro decoder routes h route hroute
    exact getStopsForRoute_eq_stops h hroute

end Reads

def pathHistory : List (StoreCall ℚ IsoInstant) :=
  [.insertRoute pathlessRoute, .insertRoute { routeWithPath with id := "q" }]

theorem path_blocks_every_route : ∃ db, runHistory pathHistory = some db ∧
    (run exec (getAllRoutes : DbProg ℚ (List (Route ℚ))) db).1 = .error .typeError := by
  have hruns : ∃ db, runHistory pathHistory = some db := ⟨_, rfl⟩
  obtain ⟨db, hrun⟩ := hruns
  refine ⟨db, hrun, ?_⟩
  rcases getAllRoutes_after_history hrun with ⟨hplain, -⟩ | ⟨-, hthrows⟩
  · obtain ⟨hpath, -⟩ := hplain "q" { routeWithPath with id := "q" } rfl
    cases hpath
  · exact hthrows

def plainHistory : List (StoreCall ℚ IsoInstant) :=
  [.insertRoute pathlessRoute, .insertBus earlyBus, .insertBus laterBus]

theorem stored_bus_is_found : ∃ db, runHistory plainHistory = some db ∧
    (run exec (getBus laterBus.id) db).1 = .ok (some laterBus) ∧
    (run exec (getStopsForRoute pathlessRoute.id) db).1 = .ok pathlessRoute.stops := by
  have hruns : ∃ db, runHistory plainHistory = some db ∧
      (run exec getAllBuses db).1 = .ok [earlyBus, laterBus] ∧
      (run exec (getAllRoutesWith columnDecoder) db).1 = .ok [pathlessRoute] := ⟨_, rfl, rfl, rfl⟩
  obtain ⟨db, hrun, hbuses, hroutes⟩ := hruns
  obtain ⟨hbus, hstops⟩ := point_queries_agree (T := IsoInstant) db
  exact ⟨db, hrun, hbus _ hbuses _, hstops _ _ hroutes _ List.mem_cons_self⟩

def firstStartDone : List (SampleSeeding.Session IsoInstant) :=
  [.load SampleSeeding.firstStart 6]

theorem second_start_throws :
    run exec (loadSampleDataIfNeeded columnDecoder SampleSeeding.firstStart)
      (databaseAfter (D := ℚ) (firstStartDone.flatMap SampleSeeding.sessionEvents)) =
        (.error .typeError,
          databaseAfter (firstStartDone.flatMap SampleSeeding.sessionEvents)) := by
  obtain ⟨hevents, hsessions⟩ := start_completes_iff (D := ℚ) SampleSeeding.firstStart
  obtain ⟨hiff, hthrows⟩ := hevents (firstStartDone.flatMap SampleSeeding.sessionEvents)
  apply hthrows
  intro hnone
  obtain ⟨_, -, hmem⟩ :=
    (hsessions firstStartDone).mp (hiff.mpr hnone) [] SampleSeeding.firstStart 6 [] rfl (by decide)
  cases hmem

end RouteReads
