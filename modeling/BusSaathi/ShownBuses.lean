import BusSaathi.AppSystem

/-! What a run of the app can bring to the home screen. Every program in flight keeps the database
to what the app itself writes, and what its calls read of that is what the screen shows. -/
namespace ShownBuses

open LinkedMaps EventRuns KeyedTable StatementPrograms StatementPrograms.Prog ProgramInterference
  DartRuntime Models DatabaseService OfflineService NextBuses NextBusesCall AppSystem

variable {D T P : Type}

section View

/-- `AppLocalizations.translate` -/
def translate (localizedStrings : LinkedMap String String) (key : String) : String :=
  (localizedStrings.get? key).getD key

structure BusCard where
  title : String
  line : String
  departure : String
  driver : String
  deriving DecidableEq, Repr

/-- What `NextBusesList` builds. -/
inductive ListView where
  | centered (text : String)
  | cards (cards : List BusCard)
  deriving DecidableEq, Repr

inductive HomeBody where
  | progressIndicator
  | column (heading : String) (list : ListView)
  deriving DecidableEq, Repr

variable (localizedStrings : LinkedMap String String)

def busCard (bus : Bus D T) : BusCard where
  title := bus.number
  line := bus.source ++ " → " ++ bus.destination
  departure := translate localizedStrings "departure" ++ ": " ++ bus.departureTime
  driver := translate localizedStrings "driver" ++ ": " ++ bus.driverName

def nextBusesList (buses : List (Bus D T)) : ListView :=
  if buses.isEmpty then .centered (translate localizedStrings "noBusesAvailable")
  else .cards (buses.map (busCard localizedStrings))

def homeBody (s : HomeScreen.HomeState D T) : HomeBody :=
  if s.isLoading then .progressIndicator
  else .column (translate localizedStrings "nextBuses") (nextBusesList localizedStrings s.nextBuses)

end View

section InFlight

/-- The database meets `I`, whatever is in flight keeps it so, and what its calls answer then
meets `Q`. -/
structure InFlight (I : Database D → Prop) (Q : List (Bus D T) → Prop) (s : System D T) : Prop where
  db : I s.db
  calls : ∀ p ∈ s.calls,
    Safe exec (.keeping I) (fun r _ => ∀ shown, r = .ok shown → Q shown) p s.db
  seeding : ∀ p ∈ s.seeding, Safe exec (.keeping I) (fun _ _ => True) p s.db
  clears : ∀ p ∈ s.clears, Safe exec (.keeping I) (fun _ _ => True) p s.db

variable {s t : System D T} {I : Database D → Prop} {Q : List (Bus D T) → Prop}

theorem inFlight_start {db : Database D} (hdb : I db) : InFlight I Q (start db) := by
  refine ⟨hdb, ?_, ?_, ?_⟩ <;>
  · intro p hp
    cases hp

theorem InFlight.keep {α : Type} {post : Except DartError α → Database D → Prop} {p : DbProg D α}
    (h : InFlight I Q s) (hp : Safe exec (.keeping I) post p s.db) :
    InFlight I Q { s with db := (advance exec p s.db).2 } ∧
      Safe exec (.keeping I) post (advance exec p s.db).1 (advance exec p s.db).2 := by
  obtain ⟨hmay, hrest⟩ := hp.advance
  refine ⟨⟨hmay h.db, ?_, ?_, ?_⟩, hrest⟩
  · intro q hq
    exact (h.calls q hq).later hmay
  · intro q hq
    exact (h.seeding q hq).later hmay
  · intro q hq
    exact (h.clears q hq).later hmay

variable [DartDouble D] [DartDateTime T] {platform : Platform D T}

/-- What an event of a run may issue is safe where the database meets `I`. -/
structure Issues (platform : Platform D T) (I : Database D → Prop) (Q : List (Bus D T) → Prop)
    (event : Event T P) : Prop where
  call : ∀ (world : World T P) db, I db →
    Safe exec (.keeping I) (fun r _ => ∀ shown, r = .ok shown → Q shown)
      (nextBusesCall platform.sort platform.decoder world.position world.weekday) db
  seeding : ∀ world db, event = .app .locationReady world → I db →
    Safe exec (.keeping I) (fun _ _ => True) (loadSampleDataIfNeeded platform.decoder world.now) db
  clear : ∀ db, I db → Safe exec (.keeping I) (fun _ _ => True) clearAllData db

theorem inFlight_step {event : Event T P} (hissues : Issues platform I Q event)
    (h : InFlight I Q s) (hstep : step platform s event = some t) : InFlight I Q t := by
  rcases step_cases hstep with ⟨e, world, startup, rfl, -, -, rfl⟩ | ⟨rfl, rfl⟩ |
    ⟨call, p, rfl, hp, rfl⟩ | ⟨p, rfl, hp, rfl⟩ | ⟨i, p, rfl, hp, rfl⟩ |
    ⟨call, buses, home, rfl, -, -, rfl⟩
  · have hsame : InFlight I Q { s with startup } := ⟨h.db, h.calls, h.seeding, h.clears⟩
    rcases afterStartup_cases platform { s with startup } world e with
      heq | ⟨rfl, heq⟩ | ⟨-, heq⟩
    · rwa [heq]
    · rw [heq]
      refine ⟨h.db, h.calls, ?_, h.clears⟩
      rintro p ⟨rfl⟩
      exact hissues.seeding world s.db rfl h.db
    · rw [heq]
      refine ⟨h.db, ?_, h.seeding, h.clears⟩
      intro p hp
      rcases List.mem_append.mp hp with hp | hp
      · exact h.calls p hp
      · rw [List.mem_singleton.mp hp]
        exact hissues.call world s.db h.db
  · refine ⟨h.db, h.calls, h.seeding, ?_⟩
    intro p hp
    rcases List.mem_append.mp hp with hp | hp
    · exact h.clears p hp
    · rw [List.mem_singleton.mp hp]
      exact hissues.clear s.db h.db
  · obtain ⟨hkeep, hrest⟩ := h.keep (h.calls p (List.mem_of_getElem? hp))
    refine ⟨hkeep.db, ?_, hkeep.seeding, hkeep.clears⟩
    intro q hq
    rcases List.mem_or_eq_of_mem_set hq with hq | rfl
    · exact hkeep.calls q hq
    · exact hrest
  · obtain ⟨hkeep, hrest⟩ := h.keep (h.seeding p hp)
    refine ⟨hkeep.db, hkeep.calls, ?_, hkeep.clears⟩
    rintro q ⟨rfl⟩
    exact hrest
  · obtain ⟨hkeep, hrest⟩ := h.keep (h.clears p (List.mem_of_getElem? hp))
    refine ⟨hkeep.db, hkeep.calls, hkeep.seeding, ?_⟩
    intro q hq
    rcases List.mem_or_eq_of_mem_set hq with hq | rfl
    · exact hkeep.clears q hq
    · exact hrest
  · exact ⟨h.db, h.calls, h.seeding, h.clears⟩

theorem shown_of_run {db : Database D} {events : List (Event T P)} (hdb : I db)
    (hissues : ∀ event ∈ events, Issues platform I Q event)
    (h : run (step platform) (start db) events = some s) :
    s.home.nextBuses = [] ∨ Q s.home.nextBuses := by
  have hinv : (∀ event ∈ events, Issues platform I Q event) → InFlight I Q s := by
    refine run_invariant (I := fun history s =>
      (∀ event ∈ history, Issues platform I Q event) → InFlight I Q s)
      (fun _ => inFlight_start hdb) (fun history s event t hinv hstep hall => ?_) h
    have hold := hinv fun event hevent => hall event (List.mem_append_left _ hevent)
    exact inFlight_step (hall event (by simp)) hold hstep
  rcases shown_cases (settled_run h).2 with ⟨-, hnil⟩ | ⟨-, call, hcall⟩
  · exact Or.inl hnil
  · exact Or.inr (((hinv hissues).calls _ (List.mem_of_getElem? hcall)).result rfl _ rfl)

theorem safe_nextBusesCall {decoder : RouteDecoder D} {position : Except DartError P} {weekday : ℤ}
    (hQ : ∀ before later : Database D, I before → I later →
      Q (getNextBuses platform.sort position (busesIn before)
        (decodeRows decoder later.routes.rows) weekday))
    {db : Database D} (hdb : I db) :
    Safe exec (.keeping I) (fun r _ => ∀ shown, r = .ok shown → Q shown)
      (nextBusesCall platform.sort decoder position weekday) db := by
  cases position with
  | error e =>
    rintro db' hkept _ ⟨rfl⟩
    exact hQ db' db' (hkept hdb) (hkept hdb)
  | ok position =>
    intro before hbefore
    refine ⟨id, ?_⟩
    have hread : (busesIn before : Except DartError (List (Bus D T))) =
        before.buses.rows.mapM fun row => Bus.fromJson row.toColumns :=
      congrArg Prod.fst (run_ofExcept exec _ before)
    change Safe exec _ _ (catchError (do
      let allBuses ← ofExcept (before.buses.rows.mapM fun row => Bus.fromJson row.toColumns)
      let allRoutes ← getAllRoutesWith decoder
      ofExcept (nextOf platform.sort weekday 5 allBuses allRoutes)) fun _ => return []) before
    rw [← hread]
    have hQ := hQ before
    cases hbuses : (busesIn before : Except DartError (List (Bus D T))) with
    | error e =>
      rintro later hlater _ ⟨rfl⟩
      rw [hbuses] at hQ
      exact hQ before (hbefore hdb) (hbefore hdb)
    | ok buses =>
      rw [hbuses] at hQ
      intro later hlater
      refine ⟨id, ?_⟩
      have hreads : (catchError (do
          let allRoutes ← readRoutes decoder later.routes.rows
          ofExcept (nextOf platform.sort weekday 5 buses allRoutes)) fun _ => return []).Within
            fun s => ∀ db : Database D, (exec s db).2 = db := by
        apply Within.catchError
        · exact readRoutes_within (fun _ _ => rfl) decoder later.routes.rows _
            fun routes _ => within_ofExcept _ _
        · exact fun _ => trivial
      apply ((safe_afterRoutes buses later.routes.rows position later).of_any hreads ?_).mono
      · rintro _ _ rfl _ ⟨rfl⟩
        exact hQ later (hbefore hdb) (hlater (hbefore hdb))
      · intro s store hs hI
        rwa [hs store]

end InFlight

section Decoded

variable {decoder : RouteDecoder D} {rows : List (RouteRow D)} {routes : List (Route D)}

theorem ids_of_decodeRows (h : decodeRows decoder rows = .ok routes) :
    routes.map (·.id) = rows.map (·.id) := by
  refine map_of_mapM h fun row route hroute => ?_
  obtain ⟨_, -, hroute⟩ := bind_eq_ok.mp hroute
  obtain ⟨_, -, hroute⟩ := bind_eq_ok.mp hroute
  cases hroute
  rfl

theorem schedule_of_columnDecoder (h : decodeRows columnDecoder rows = .ok routes) {route : Route D}
    (hroute : route ∈ routes) : route.schedule = .empty := by
  obtain ⟨row, -, hdecoded⟩ := forall₂_exists_right (forall₂_of_mapM h).flip hroute
  obtain ⟨_, -, hdecoded⟩ := bind_eq_ok.mp hdecoded
  obtain ⟨schedule, hschedule, hdecoded⟩ := bind_eq_ok.mp hdecoded
  cases hdecoded
  exact RouteReads.scheduleFrom_jsonDecode hschedule

variable [DartDateTime T] {platform : Platform D T}

theorem nextBuses_cases (platform : Platform D T) (decoder : RouteDecoder D)
    (position : Except DartError P) (before later : Database D) (weekday : ℤ) :
    getNextBuses platform.sort position (busesIn before) (decodeRows decoder later.routes.rows)
      weekday = [] ∨
    ∃ buses routes, busesIn before = .ok buses ∧ decodeRows decoder later.routes.rows = .ok routes ∧
      getNextBuses platform.sort position (busesIn before) (decodeRows decoder later.routes.rows)
        weekday = (platform.sort (fun _ _ => 0)
          (buses.filter fun bus => Relevant routes (currentDay weekday) bus)).take 5 := by
  cases position with
  | error e => exact Or.inl rfl
  | ok position =>
    cases hbuses : (busesIn before : Except DartError (List (Bus D T))) with
    | error e => exact Or.inl rfl
    | ok buses =>
      cases hroutes : decodeRows decoder later.routes.rows with
      | error e => exact Or.inl rfl
      | ok routes =>
        have hids : (routes.map (·.id)).Nodup := by
          rw [ids_of_decodeRows hroutes]
          exact later.routes.keys_nodup
        rcases getNextBuses_cases platform.sort buses hids position weekday 5
          with hnil | ⟨-, hshown⟩
        · exact Or.inl hnil
        · exact Or.inr ⟨buses, routes, rfl, rfl, hshown⟩

theorem nextBuses_columnDecoder (platform : Platform D T) (position : Except DartError P)
    (before later : Database D) (weekday : ℤ) : getNextBuses platform.sort position (busesIn before)
      (decodeRows columnDecoder later.routes.rows) weekday = [] := by
  rcases nextBuses_cases platform columnDecoder position before later
    weekday with hnil | ⟨buses, routes, -, hroutes, hshown⟩
  · exact hnil
  · have hnone : (buses.filter fun bus => Relevant routes (currentDay weekday) bus) = [] := by
      rw [List.filter_eq_nil_iff]
      intro bus _
      rw [decide_eq_true_eq]
      rintro ⟨route, hroute, -, htime⟩
      rw [schedule_of_columnDecoder hroutes hroute] at htime
      cases htime
    rw [hshown, hnone, (platform.sort_perm []).eq_nil]
    rfl

variable [DartDouble D]

def asShipped (platform : Platform D T) : Platform D T := { platform with decoder := columnDecoder }

/-- Over any database, the app as it stands never brings a bus to its home screen. -/
theorem home_never_shows_bus (platform : Platform D T) (localizedStrings : LinkedMap String String)
    {db : Database D} {events : List (Event T P)} {s : System D T}
    (h : run (step (asShipped platform)) (start db) events = some s) :
    homeBody localizedStrings s.home = .progressIndicator ∨
      homeBody localizedStrings s.home = .column (translate localizedStrings "nextBuses")
        (.centered (translate localizedStrings "noBusesAvailable")) := by
  have hissues (event : Event T P) :
      Issues (asShipped platform) (fun _ => True) (· = []) event := by
    constructor
    · intro world db hdb
      apply safe_nextBusesCall (I := fun _ => True) ?_ hdb
      intro before later _ _
      exact nextBuses_columnDecoder platform world.position before later world.weekday
    · intro world db _ _
      exact safe_of_within (SampleSeeding.load_writesSample _ _) fun _ _ _ _ => trivial
    · intro db _
      exact safe_of_within (clearAllData_within fun _ => trivial) fun _ _ (_ : True) _ => trivial
  have hnil : s.home.nextBuses = [] := by
    rcases shown_of_run (I := fun _ => True) trivial (fun event _ => hissues event) h with hs | hs
    · exact hs
    · exact hs
  unfold homeBody
  rw [hnil]
  cases s.home.isLoading with
  | true => exact Or.inl rfl
  | false => exact Or.inr rfl

end Decoded

section FreshInstall

variable [DartDateTime T] {N : T → Prop}

/-- Every stored bus is the sample's, as written at one of the given instants. -/
def OnlySampleBuses (N : T → Prop) (db : Database D) : Prop :=
  ∀ row ∈ db.buses.rows, ∃ now, N now ∧ row = busRow (sampleBus now)

def WritesSampleBus (N : T → Prop) : Statement D → Prop
  | .insertBus row => ∃ now, N now ∧ row = busRow (sampleBus now)
  | _ => True

theorem exec_writesSampleBus {s : Statement D} (hs : WritesSampleBus N s) {db : Database D}
    (h : OnlySampleBuses N db) : OnlySampleBuses N (exec s db).2 := by
  intro row hrow
  cases s with
  | insertBus new =>
    rcases Table.mem_replace.mp hrow with rfl | ⟨hmem, -⟩
    · exact hs
    · exact h row hmem
  | delete table =>
    cases table with
    | buses => cases hrow
    | routes | stops | tripLogs => exact h row hrow
  | _ => exact h row hrow

theorem sampleBus_of_row {now : T} {bus : Bus D T}
    (h : Bus.fromJson (busRow (D := D) (sampleBus now)).toColumns = .ok bus) :
    ∃ read, DartDateTime.parse (DartDateTime.toIso8601String now) = some read ∧
      bus = sampleBus read := by
  rw [busRow_toColumns, bus_fromJson_written] at h
  change Except.map _ (parseDateTime (DartDateTime.toIso8601String now)) = _ at h
  rw [parseDateTime] at h
  cases hparse : DartDateTime.parse (T := T) (DartDateTime.toIso8601String now) with
  | none =>
    rw [hparse] at h
    cases h
  | some read =>
    rw [hparse] at h
    cases h
    exact ⟨read, rfl, rfl⟩

theorem buses_of_onlySample {db : Database D} (hdb : OnlySampleBuses N db) {buses : List (Bus D T)}
    (h : busesIn db = .ok buses) : buses.length ≤ 1 ∧ ∀ bus ∈ buses, ∃ now read, N now ∧
      DartDateTime.parse (DartDateTime.toIso8601String now) = some read ∧
        bus = sampleBus read := by
  have hsample : ∀ bus ∈ buses, ∃ now read, N now ∧
      DartDateTime.parse (DartDateTime.toIso8601String now) = some read ∧
        bus = sampleBus read := by
    intro bus hbus
    obtain ⟨row, hrow, hread⟩ := exists_row_of_read h hbus
    obtain ⟨now, hnow, rfl⟩ := hdb row hrow
    obtain ⟨read, hparse, rfl⟩ := sampleBus_of_row hread
    exact ⟨now, read, hnow, hparse, rfl⟩
  refine ⟨?_, hsample⟩
  have hdistinct := getAllBuses_distinct (Prod.ext h rfl)
  have hsame : buses.map (·.id) = List.replicate buses.length "BUS-PN01-1234" := by
    rw [List.eq_replicate_iff, List.length_map]
    refine ⟨rfl, ?_⟩
    intro id hid
    obtain ⟨bus, hbus, rfl⟩ := List.mem_map.mp hid
    obtain ⟨_, _, -, -, rfl⟩ := hsample bus hbus
    rfl
  rw [hsame, List.nodup_replicate] at hdistinct
  exact hdistinct

theorem nextBuses_of_onlySample (platform : Platform D T) (decoder : RouteDecoder D)
    (position : Except DartError P) {before : Database D} (hbefore : OnlySampleBuses N before)
    (later : Database D) (weekday : ℤ) :
    getNextBuses platform.sort position (busesIn before) (decodeRows decoder later.routes.rows)
      weekday = [] ∨
    ∃ now read, N now ∧ DartDateTime.parse (DartDateTime.toIso8601String now) = some read ∧
      getNextBuses platform.sort position (busesIn before) (decodeRows decoder later.routes.rows)
        weekday = [sampleBus read] := by
  rcases nextBuses_cases platform decoder position before later weekday
    with hnil | ⟨buses, routes, hbuses, -, hshown⟩
  · exact Or.inl hnil
  · obtain ⟨hone, hsample⟩ := buses_of_onlySample hbefore hbuses
    have hperm := platform.sort_perm
      (buses.filter fun bus => Relevant routes (currentDay weekday) bus)
    have hlength := List.length_filter_le
      (fun bus => decide (Relevant routes (currentDay weekday) bus)) buses
    rw [hshown]
    cases hsorted : platform.sort (fun _ _ => 0)
        (buses.filter fun bus => Relevant routes (currentDay weekday) bus) with
    | nil => exact Or.inl rfl
    | cons bus rest =>
      right
      rw [hsorted] at hperm
      have hrest : rest = [] := by
        have hsize := hperm.length_eq
        rw [List.length_cons] at hsize
        apply List.eq_nil_of_length_eq_zero
        omega
      have hmem : bus ∈ buses :=
        List.mem_of_mem_filter (hperm.mem_iff.mp List.mem_cons_self)
      obtain ⟨now, read, hnow, hparse, rfl⟩ := hsample bus hmem
      exact ⟨now, read, hnow, hparse, by rw [hrest]; rfl⟩

variable [DartDouble D] {platform : Platform D T}

def LoadedAt (events : List (Event T P)) (now : T) : Prop :=
  ∃ world : World T P, .app .locationReady world ∈ events ∧ world.now = now

/-- On a fresh install, whatever the decoding of routes gives, the screen never shows more than
the one sample bus, as it was loaded in this run. -/
theorem fresh_install_shows_sample {events : List (Event T P)} {s : System D T}
    (h : run (step platform) (start emptyDatabase) events = some s) :
    s.home.nextBuses = [] ∨ ∃ now read, LoadedAt events now ∧
      DartDateTime.parse (DartDateTime.toIso8601String now) = some read ∧
        s.home.nextBuses = [sampleBus read] := by
  have hissues (event : Event T P) (hevent : event ∈ events) :
      Issues platform (OnlySampleBuses (LoadedAt events)) (fun shown => shown = [] ∨
        ∃ now read, LoadedAt events now ∧
          DartDateTime.parse (DartDateTime.toIso8601String now) = some read ∧
            shown = [sampleBus read]) event := by
    constructor
    · intro world db hdb
      apply safe_nextBusesCall ?_ hdb
      intro before later hbefore _
      exact nextBuses_of_onlySample platform platform.decoder world.position hbefore later
        world.weekday
    · rintro world db rfl _
      have hloaded : LoadedAt events world.now := ⟨world, hevent, rfl⟩
      have hwithin : (loadSampleDataIfNeeded platform.decoder world.now).Within
          (WritesSampleBus (LoadedAt events)) :=
        SampleSeeding.load_within trivial (fun _ => trivial) (fun _ _ => trivial)
          (fun _ => trivial) ⟨world.now, hloaded, rfl⟩ platform.decoder
      apply safe_of_within hwithin
      exact fun s store hs hstore => exec_writesSampleBus hs hstore
    · intro db _
      have hwithin : (clearAllData : DbProg D Unit).Within (WritesSampleBus (LoadedAt events)) :=
        clearAllData_within fun _ => trivial
      apply safe_of_within hwithin
      exact fun s store hs hstore => exec_writesSampleBus hs hstore
  have hempty : OnlySampleBuses (LoadedAt events) (emptyDatabase : Database D) := by
    intro row hrow
    cases hrow
  exact (shown_of_run hempty hissues h).elim Or.inl id

end FreshInstall

theorem first_load_shows_no_bus : ∃ s,
    run (step (asShipped samplePlatform)) (start storedLine) firstLoad = some s ∧
    (homeBody .empty s.home = .progressIndicator ∨
      homeBody .empty s.home = .column "nextBuses" (.centered "noBusesAvailable")) := by
  have hruns : ∃ s, run (step (asShipped samplePlatform)) (start storedLine) firstLoad = some s :=
    ⟨_, rfl⟩
  obtain ⟨s, h⟩ := hruns
  exact ⟨s, h, home_never_shows_bus samplePlatform .empty h⟩

def freshStart : List (Event IsoInstant Unit) :=
  [.app .initState mondayMorning, .app .databaseReady mondayMorning,
    .app .locationReady mondayMorning, .seedingStep, .seedingStep, .seedingStep, .seedingStep,
    .seedingStep, .seedingStep, .app .sampleDataLoaded mondayMorning, .app .build mondayMorning,
    .app .homeInitState mondayMorning, .callStep 0, .callStep 0, .callStep 0, .loaded 0]

theorem fresh_start_shows_sample : ∃ s,
    run (step samplePlatform) (start emptyDatabase) freshStart = some s ∧
      ∃ read : IsoInstant, s.home.nextBuses = [sampleBus read] := by
  have hruns : ∃ s, run (step samplePlatform) (start emptyDatabase) freshStart = some s ∧
      s.home.nextBuses ≠ [] := ⟨_, rfl, nofun⟩
  obtain ⟨s, h, hne⟩ := hruns
  rcases fresh_install_shows_sample h with hnil | ⟨_, read, -, -, hshown⟩
  · exact absurd hnil hne
  · exact ⟨s, h, read, hshown⟩

end ShownBuses
