import BusSaathi.AppStartup
import BusSaathi.HomeScreen
import BusSaathi.RouteReads

/-! The app as one system: the start-up, the home screen, the clearing of the settings screen, and
the programs that they have in flight over one database. Its runs are runs of the start-up machine
and of the home screen's, tied together by what `Provider.of` gave each load. -/
namespace AppSystem

open EventRuns StatementPrograms StatementPrograms.Prog ProgramInterference DartRuntime Models
  DatabaseService OfflineService NextBuses NextBusesCall

variable {D T P : Type}

/-- What the app is run with: `List.sort`, and the reading of the JSON columns. -/
structure Platform (D T : Type) where
  sort : (Bus D T → Bus D T → ℤ) → List (Bus D T) → List (Bus D T)
  sort_perm : ∀ l, (sort (fun _ _ => 0) l).Perm l
  decoder : RouteDecoder D

/-- What the call or the seeding that an event issues will read of the outside world. The source
reads the weekday and the time only after an `await`; a run fixes beforehand what they will be. -/
structure World (T P : Type) where
  now : T
  position : Except DartError P
  weekday : ℤ

/-- `calls` holds the calls of `getNextBuses` in the order of their numbers. -/
structure System (D T : Type) where
  startup : AppStartup.AppState
  home : HomeScreen.HomeState D T
  calls : List (DbProg D (List (Bus D T)))
  seeding : Option (DbProg D Unit)
  clears : List (DbProg D Unit)
  db : Database D

def start (db : Database D) : System D T :=
  ⟨AppStartup.initial, HomeScreen.initial, [], none, [], db⟩

inductive Event (T P : Type) where
  | app (e : AppStartup.Event) (world : World T P)
  | clearCache
  | callStep (call : ℕ)
  | seedingStep
  | clearStep (i : ℕ)
  | loaded (call : ℕ)

section Steps

variable [DartDouble D] [DartDateTime T] (platform : Platform D T)

/-- `_loadNextBuses` after `Provider.of`, which hands it a service or throws. -/
def loadNextBuses (s : System D T) (e : HomeScreen.Event D T) (world : World T P) : System D T :=
  match s.startup.loads.getLast? with
  | some (.ok _) =>
    { s with
      home := HomeScreen.next s.home e
      calls := s.calls ++
        [nextBusesCall platform.sort platform.decoder world.position world.weekday] }
  | _ => s

/-- What else happens at an event of the start-up. -/
def afterStartup (s : System D T) (world : World T P) : AppStartup.Event → System D T
  | .locationReady =>
    if s.startup.stage = .loadingSampleData then
      { s with seeding := some (loadSampleDataIfNeeded platform.decoder world.now) }
    else s
  | .homeInitState => loadNextBuses platform s .initState world
  | .refresh => loadNextBuses platform s .refresh world
  | _ => s

def seeded (s : System D T) : Bool := (s.seeding.bind Prog.result?).isSome

def step (s : System D T) : Event T P → Option (System D T)
  | .app e world => do
    guard (e = .sampleDataLoaded → seeded s)
    let startup ← AppStartup.step s.startup e
    return afterStartup platform { s with startup } world e
  | .clearCache =>
    if (s.startup.fields .databaseService).isSome then
      some { s with clears := s.clears ++ [clearAllData] }
    else none
  | .callStep call => do
    let p ← s.calls[call]?
    let (p, db) := advance exec p s.db
    return { s with calls := s.calls.set call p, db }
  | .seedingStep => do
    let p ← s.seeding
    let (p, db) := advance exec p s.db
    return { s with seeding := some p, db }
  | .clearStep i => do
    let p ← s.clears[i]?
    let (p, db) := advance exec p s.db
    return { s with clears := s.clears.set i p, db }
  | .loaded call => do
    let p ← s.calls[call]?
    let buses ← p.result?
    let home ← HomeScreen.step s.home (.loaded call buses)
    return { s with home }

variable {platform} {s t : System D T}

theorem step_cases {event : Event T P} (h : step platform s event = some t) :
    (∃ e world startup, event = .app e world ∧ (e = .sampleDataLoaded → seeded s = true) ∧
      AppStartup.step s.startup e = some startup ∧
      t = afterStartup platform { s with startup } world e) ∨
    (event = .clearCache ∧ t = { s with clears := s.clears ++ [clearAllData] }) ∨
    (∃ call p, event = .callStep call ∧ s.calls[call]? = some p ∧
      t = { s with
        calls := s.calls.set call (advance exec p s.db).1
        db := (advance exec p s.db).2 }) ∨
    (∃ p, event = .seedingStep ∧ s.seeding = some p ∧
      t = { s with seeding := some (advance exec p s.db).1, db := (advance exec p s.db).2 }) ∨
    (∃ i p, event = .clearStep i ∧ s.clears[i]? = some p ∧
      t = { s with
        clears := s.clears.set i (advance exec p s.db).1
        db := (advance exec p s.db).2 }) ∨
    ∃ call buses home, event = .loaded call ∧ s.calls[call]? = some (.done buses) ∧
      HomeScreen.step s.home (.loaded call buses) = some home ∧ t = { s with home } := by
  cases event with
  | app e world =>
    obtain ⟨_, hguard, h⟩ := Option.bind_eq_some_iff.mp h
    obtain ⟨startup, hstep, h⟩ := Option.bind_eq_some_iff.mp h
    cases h
    refine Or.inl ⟨e, world, startup, rfl, ?_, hstep, rfl⟩
    simpa using hguard
  | clearCache =>
    simp only [step] at h
    split at h <;> cases h
    exact Or.inr (Or.inl ⟨rfl, rfl⟩)
  | callStep call =>
    obtain ⟨p, hp, h⟩ := Option.bind_eq_some_iff.mp h
    cases h
    exact Or.inr (Or.inr (Or.inl ⟨call, p, rfl, hp, rfl⟩))
  | seedingStep =>
    obtain ⟨p, hp, h⟩ := Option.bind_eq_some_iff.mp h
    cases h
    exact Or.inr (Or.inr (Or.inr (Or.inl ⟨p, rfl, hp, rfl⟩)))
  | clearStep i =>
    obtain ⟨p, hp, h⟩ := Option.bind_eq_some_iff.mp h
    cases h
    exact Or.inr (Or.inr (Or.inr (Or.inr (Or.inl ⟨i, p, rfl, hp, rfl⟩))))
  | loaded call =>
    obtain ⟨p, hp, h⟩ := Option.bind_eq_some_iff.mp h
    obtain ⟨buses, hresult, h⟩ := Option.bind_eq_some_iff.mp h
    obtain ⟨home, hhome, h⟩ := Option.bind_eq_some_iff.mp h
    cases h
    cases p with
    | done a =>
      cases hresult
      exact Or.inr (Or.inr (Or.inr (Or.inr (Or.inr ⟨call, _, home, rfl, hp, hhome, rfl⟩))))
    | fail | stmt => cases hresult

theorem loadNextBuses_ok {e : HomeScreen.Event D T} {world : World T P}
    {loads : List (Except DartError AppStartup.Service)} {service : AppStartup.Service}
    (h : s.startup.loads = loads ++ [.ok service]) : loadNextBuses platform s e world =
      { s with
        home := HomeScreen.next s.home e
        calls := s.calls ++
          [nextBusesCall platform.sort platform.decoder world.position world.weekday] } := by
  simp only [loadNextBuses, h, List.getLast?_concat]

theorem loadNextBuses_error {e : HomeScreen.Event D T} {world : World T P}
    {loads : List (Except DartError AppStartup.Service)} {thrown : DartError}
    (h : s.startup.loads = loads ++ [.error thrown]) :
    loadNextBuses platform s e world = s := by
  simp only [loadNextBuses, h, List.getLast?_concat]

theorem afterStartup_startup (s : System D T) (world : World T P) (e : AppStartup.Event) :
    (afterStartup platform s world e).startup = s.startup := by
  have hload (event : HomeScreen.Event D T) :
      (loadNextBuses platform s event world).startup = s.startup := by
    unfold loadNextBuses
    split <;> rfl
  cases e with
  | homeInitState | refresh => exact hload _
  | locationReady =>
    simp only [afterStartup]
    split <;> rfl
  | _ => rfl

end Steps

def Event.startup? : Event T P → Option AppStartup.Event
  | .app e _ => some e
  | _ => none

def startupEvents (events : List (Event T P)) : List AppStartup.Event :=
  events.filterMap Event.startup?

theorem startupEvents_concat (events : List (Event T P)) (event : Event T P) :
    startupEvents (events ++ [event]) = startupEvents events ++ event.startup?.toList := by
  unfold startupEvents
  cases h : event.startup? <;> simp [h]

section Loads

variable {s t : System D T}

/-- The calls and the loads of the home screen, by what `create` gave at the first read. -/
structure Settled (s : System D T) : Prop where
  unread : s.startup.created .offlineService = none →
    s.startup.homeMounted = false ∧ s.startup.loads = [] ∧ s.calls = []
  served : ∀ service, s.startup.created .offlineService = some (.ok service) →
    s.startup.homeMounted = true ∧ 0 < s.calls.length ∧ s.calls.length = s.startup.loads.length
  refused : ∀ e, s.startup.created .offlineService = some (.error e) →
    s.startup.homeMounted = true ∧ s.calls = []

/-- The home screen has run through the calls as they were issued, and what it has been given
are answers of theirs. -/
structure HomeTied (s : System D T) : Prop where
  issued : s.home.issued = s.calls.length
  answers : ∃ events, run HomeScreen.step HomeScreen.initial events = some s.home ∧
    ∀ call buses, (call, buses) ∈ HomeScreen.completions events →
      s.calls[call]? = some (.done buses)

theorem startup_step_cases {s t : AppStartup.AppState} {e : AppStartup.Event}
    (h : AppStartup.step s e = some t) :
    (e ≠ .homeInitState ∧ e ≠ .refresh ∧ t.created = s.created ∧ t.homeMounted = s.homeMounted ∧
      t.loads = s.loads) ∨
    (e = .homeInitState ∧ s.homeMounted = false ∧ t = AppStartup.next s .homeInitState) ∨
    (e = .refresh ∧ s.homeMounted = true ∧ t = s.loadNextBuses) := by
  obtain ⟨he, rfl⟩ := guarded_eq_some.mp h
  cases e with
  | homeInitState => exact Or.inr (Or.inl ⟨rfl, he.2, rfl⟩)
  | refresh => exact Or.inr (Or.inr ⟨rfl, he, rfl⟩)
  | locationReady =>
    refine Or.inl ⟨by decide, by decide, AppStartup.advance_created _ _ _, ?_, ?_⟩ <;>
    · simp only [AppStartup.next, AppStartup.AppState.advance]
      split <;> rfl
  | initState | databaseReady | sampleDataLoaded | build =>
    exact Or.inl ⟨by decide, by decide, rfl, rfl, rfl⟩

theorem load_cases {e : AppStartup.Event} {startup : AppStartup.AppState} (h : Settled s)
    (hstep : AppStartup.step s.startup e = some startup)
    (he : e = .homeInitState ∨ e = .refresh) : startup.homeMounted = true ∧
    ((∃ service, startup.created .offlineService = some (.ok service) ∧
      startup.loads = s.startup.loads ++ [.ok service] ∧
      s.calls.length = s.startup.loads.length ∧ (e = .homeInitState → s.calls = []) ∧
      (e = .refresh → 0 < s.calls.length)) ∨
    ∃ first thrown, startup.created .offlineService = some (.error first) ∧
      startup.loads = s.startup.loads ++ [.error thrown] ∧ s.calls = []) := by
  rcases startup_step_cases hstep with ⟨hinit, hrefresh, -⟩ | ⟨rfl, hmounted, rfl⟩ |
    ⟨rfl, hmounted, rfl⟩
  · rcases he with rfl | rfl <;> contradiction
  · have hunread : s.startup.created .offlineService = none := by
      rcases hcreated : s.startup.created .offlineService with _ | (_ | _)
      · rfl
      · rw [(h.refused _ hcreated).1] at hmounted
        cases hmounted
      · rw [(h.served _ hcreated).1] at hmounted
        cases hmounted
    obtain ⟨-, hloads, hcalls⟩ := h.unread hunread
    rw [AppStartup.homeInitState_eq hunread]
    refine ⟨rfl, ?_⟩
    cases hread : ((AppStartup.read .offlineService).run s.startup.fields).1 with
    | ok service =>
      left
      refine ⟨service, by simp, rfl, ?_, fun _ => hcalls, nofun⟩
      rw [hcalls, hloads, List.length_nil, List.length_nil]
    | error first => exact Or.inr ⟨first, first, by simp, rfl, hcalls⟩
  · rcases hcreated : s.startup.created .offlineService with _ | (first | service)
    · rw [(h.unread hcreated).1] at hmounted
      cases hmounted
    · obtain ⟨-, hcalls⟩ := h.refused first hcreated
      rw [AppStartup.loadNextBuses_refused hcreated]
      exact ⟨hmounted, Or.inr ⟨first, _, hcreated, rfl, hcalls⟩⟩
    · obtain ⟨-, hpos, hlength⟩ := h.served service hcreated
      rw [AppStartup.loadNextBuses_again hcreated]
      exact ⟨hmounted, Or.inl ⟨service, hcreated, rfl, hlength, nofun, fun _ => hpos⟩⟩

theorem settled_of_same (h : Settled s) (hstartup : t.startup.created = s.startup.created ∧
      t.startup.homeMounted = s.startup.homeMounted ∧ t.startup.loads = s.startup.loads)
    (hcalls : t.calls.length = s.calls.length) : Settled t := by
  obtain ⟨hcreated, hmounted, hloads⟩ := hstartup
  have hnil : t.calls = [] ↔ s.calls = [] := by
    rw [← List.length_eq_zero_iff, hcalls, List.length_eq_zero_iff]
  constructor
  · rw [hcreated, hmounted, hloads, hnil]
    exact h.unread
  · rw [hcreated, hmounted, hloads, hcalls]
    exact h.served
  · rw [hcreated, hmounted, hnil]
    exact h.refused

theorem answer_kept {calls : List (DbProg D (List (Bus D T)))} {p : DbProg D (List (Bus D T))}
    {call other : ℕ} {buses : List (Bus D T)} (hp : calls[call]? = some p)
    (h : calls[other]? = some (.done buses)) (db : Database D) :
    (calls.set call (advance exec p db).1)[other]? = some (.done buses) := by
  by_cases hsame : call = other
  · subst hsame
    obtain rfl : p = .done buses := Option.some.inj (hp.symm.trans h)
    obtain ⟨hlt, -⟩ := List.getElem?_eq_some_iff.mp h
    exact List.getElem?_set_self hlt
  · rwa [List.getElem?_set_ne hsame]

theorem shown_cases (h : HomeTied s) : (s.home.isLoading = true ∧ s.home.nextBuses = []) ∨
    s.home.isLoading = false ∧ ∃ call : ℕ, s.calls[call]? = some (.done s.home.nextBuses) := by
  obtain ⟨-, events, hrun, hanswers⟩ := h
  have hshows := HomeScreen.showsLastCompletion_run hrun
  have hshown := hshows.shown
  rw [hshows.loading]
  rcases hlast : (HomeScreen.completions events).getLast? with _ | ⟨call, buses⟩
  · left
    rw [List.getLast?_eq_none_iff] at hlast
    rw [hshown, hlast]
    exact ⟨rfl, rfl⟩
  · right
    have hmem := List.mem_of_getLast? hlast
    rw [hshown, hlast]
    refine ⟨?_, call, hanswers call buses hmem⟩
    rw [List.isEmpty_eq_false_iff]
    exact List.ne_nil_of_mem hmem

theorem home_eq_initial (h : HomeTied s) (hcalls : s.calls = []) :
    s.home = HomeScreen.initial := by
  obtain ⟨hissued, events, hrun, hanswers⟩ := h
  have hshows := HomeScreen.showsLastCompletion_run hrun
  have hnone : HomeScreen.completions events = [] := by
    rw [List.eq_nil_iff_forall_not_mem]
    rintro ⟨call, buses⟩ hmem
    have hanswer := hanswers call buses hmem
    rw [hcalls] at hanswer
    cases hanswer
  have hzero : s.home.issued = 0 := by rw [hissued, hcalls, List.length_nil]
  have hwaiting : s.home.waiting = [] := by
    rw [List.eq_nil_iff_forall_not_mem]
    intro call hmem
    have hlt := ((hshows.waiting call).mp hmem).1
    omega
  have hshown := hshows.shown
  have hloading := hshows.loading
  rw [hnone] at hshown hloading
  rcases hs : s.home with ⟨nextBuses, isLoading, issued, waiting⟩
  rw [hs] at hshown hloading hzero hwaiting
  simp only at hshown hloading hzero hwaiting
  rw [hshown, hloading, hzero, hwaiting]
  rfl

end Loads

section Runs

variable [DartDouble D] [DartDateTime T] {platform : Platform D T} {s t : System D T}

theorem startup_of_run {db : Database D} {events : List (Event T P)}
    (h : run (step platform) (start db) events = some s) :
    run AppStartup.step AppStartup.initial (startupEvents events) = some s.startup := by
  refine run_invariant (I := fun history s =>
    run AppStartup.step AppStartup.initial (startupEvents history) = some s.startup)
    rfl (fun history s event t hrun hstep => ?_) h
  rw [startupEvents_concat]
  rcases step_cases hstep with ⟨e, world, startup, rfl, -, he, rfl⟩ | ⟨rfl, rfl⟩ |
    ⟨_, _, rfl, -, rfl⟩ | ⟨_, rfl, -, rfl⟩ | ⟨_, _, rfl, -, rfl⟩ | ⟨_, _, _, rfl, -, -, rfl⟩
  · rw [afterStartup_startup]
    exact run_concat.mpr ⟨_, hrun, he⟩
  all_goals simpa [Event.startup?] using hrun

theorem afterStartup_of_no_load (platform : Platform D T) (s : System D T) (world : World T P)
    {e : AppStartup.Event} (hinit : e ≠ .homeInitState) (hrefresh : e ≠ .refresh) :
    (afterStartup platform s world e).calls = s.calls ∧
      (afterStartup platform s world e).home = s.home := by
  cases e with
  | homeInitState | refresh => contradiction
  | locationReady =>
    simp only [afterStartup]
    split <;> exact ⟨rfl, rfl⟩
  | _ => exact ⟨rfl, rfl⟩

theorem afterStartup_of_load (platform : Platform D T) (s : System D T) (world : World T P)
    {e : AppStartup.Event} (he : e = .homeInitState ∨ e = .refresh) :
    ∃ event : HomeScreen.Event D T,
    event.completion? = none ∧
    (∀ home, HomeScreen.Enabled home event ↔
      (e = .homeInitState → home.issued = 0) ∧ (e = .refresh → 0 < home.issued)) ∧
    afterStartup platform s world e = loadNextBuses platform s event world := by
  rcases he with rfl | rfl
  · exact ⟨.initState, rfl, fun home => by simp [HomeScreen.Enabled], rfl⟩
  · exact ⟨.refresh, rfl, fun home => by simp [HomeScreen.Enabled], rfl⟩

theorem afterStartup_cases (platform : Platform D T) (s : System D T) (world : World T P)
    (e : AppStartup.Event) :
    afterStartup platform s world e = s ∨
    (e = .locationReady ∧ afterStartup platform s world e =
      { s with seeding := some (loadSampleDataIfNeeded platform.decoder world.now) }) ∨
    (e = .homeInitState ∨ e = .refresh) ∧ afterStartup platform s world e =
      { s with
        home := s.home.loadNextBuses
        calls := s.calls ++
          [nextBusesCall platform.sort platform.decoder world.position world.weekday] } := by
  by_cases hload : e = .homeInitState ∨ e = .refresh
  · obtain ⟨event, hevent, -, heq⟩ := afterStartup_of_load platform s world hload
    rw [heq, loadNextBuses]
    split
    · cases event with
      | initState | refresh => exact Or.inr (Or.inr ⟨hload, rfl⟩)
      | loaded => cases hevent
    · exact Or.inl rfl
  · cases e with
    | homeInitState | refresh => simp at hload
    | locationReady =>
      rw [afterStartup]
      split
      · exact Or.inr (Or.inl ⟨rfl, rfl⟩)
      · exact Or.inl rfl
    | _ => exact Or.inl rfl

theorem settled_step {event : Event T P} (h : Settled s)
    (hstep : step platform s event = some t) : Settled t := by
  rcases step_cases hstep with ⟨e, world, startup, rfl, -, he, rfl⟩ | ⟨rfl, rfl⟩ |
    ⟨call, p, rfl, -, rfl⟩ | ⟨p, rfl, -, rfl⟩ | ⟨i, p, rfl, -, rfl⟩ |
    ⟨call, buses, home, rfl, -, -, rfl⟩
  · by_cases hload : e = .homeInitState ∨ e = .refresh
    · obtain ⟨_, -, -, heq⟩ := afterStartup_of_load platform { s with startup } world hload
      rw [heq]
      obtain ⟨hmounted, ⟨service, hcreated, hloads, hlength, -⟩ |
        ⟨first, thrown, hcreated, hloads, hcalls⟩⟩ := load_cases h he hload
      · rw [loadNextBuses_ok hloads]
        constructor
        · intro hnone
          cases hcreated.symm.trans hnone
        · intro _ _
          refine ⟨hmounted, by simp, ?_⟩
          simp [hloads, hlength]
        · intro _ hfail
          cases hcreated.symm.trans hfail
      · rw [loadNextBuses_error hloads]
        constructor
        · intro hnone
          cases hcreated.symm.trans hnone
        · intro _ hok
          cases hcreated.symm.trans hok
        · intro _ _
          exact ⟨hmounted, hcalls⟩
    · push Not at hload
      rcases startup_step_cases he with ⟨-, -, hsame⟩ | ⟨rfl, -⟩ | ⟨rfl, -⟩
      · apply settled_of_same h
        · rwa [afterStartup_startup]
        · rw [(afterStartup_of_no_load platform _ world hload.1 hload.2).1]
      · exact absurd rfl hload.1
      · exact absurd rfl hload.2
  all_goals exact settled_of_same h ⟨rfl, rfl, rfl⟩ (by simp)

theorem homeTied_step {event : Event T P} (h : Settled s) (htied : HomeTied s)
    (hstep : step platform s event = some t) : HomeTied t := by
  obtain ⟨hissued, events, hrun, hanswers⟩ := htied
  rcases step_cases hstep with ⟨e, world, startup, rfl, -, he, rfl⟩ | ⟨rfl, rfl⟩ |
    ⟨call, p, rfl, hp, rfl⟩ | ⟨p, rfl, -, rfl⟩ | ⟨i, p, rfl, -, rfl⟩ |
    ⟨call, buses, home, rfl, hp, hhome, rfl⟩
  · by_cases hload : e = .homeInitState ∨ e = .refresh
    · obtain ⟨event, hcompletion, henabled, heq⟩ :=
        afterStartup_of_load platform { s with startup } world hload
      rw [heq]
      obtain ⟨-, ⟨service, -, hloads, -, hfirst, hlater⟩ | ⟨first, thrown, -, hloads, -⟩⟩ :=
        load_cases h he hload
      · rw [loadNextBuses_ok hloads]
        have hon : HomeScreen.Enabled s.home event := by
          rw [henabled, hissued, List.length_eq_zero_iff]
          exact ⟨hfirst, hlater⟩
        have hnext : HomeScreen.step s.home event = some (HomeScreen.next s.home event) :=
          if_pos hon
        constructor
        · rcases HomeScreen.step_cases hnext with ⟨-, hload⟩ | ⟨_, _, rfl, -⟩
          · change (HomeScreen.next s.home event).issued = _
            rw [hload, List.length_append, ← hissued]
            rfl
          · cases hcompletion
        · refine ⟨events ++ [event], run_concat.mpr ⟨_, hrun, hnext⟩, ?_⟩
          intro call buses hmem
          rw [HomeScreen.completions_concat, hcompletion, Option.toList_none,
            List.append_nil] at hmem
          have hold := hanswers call buses hmem
          obtain ⟨hlt, -⟩ := List.getElem?_eq_some_iff.mp hold
          rwa [List.getElem?_append_left hlt]
      · rw [loadNextBuses_error hloads]
        exact ⟨hissued, events, hrun, hanswers⟩
    · push Not at hload
      obtain ⟨hcalls, hhome⟩ := afterStartup_of_no_load platform
        { s with startup } world hload.1 hload.2
      constructor
      · rw [hcalls, hhome]
        exact hissued
      · rw [hcalls, hhome]
        exact ⟨events, hrun, hanswers⟩
  · exact ⟨hissued, events, hrun, hanswers⟩
  · refine ⟨by simpa using hissued, events, hrun, ?_⟩
    intro other buses hmem
    exact answer_kept hp (hanswers other buses hmem) s.db
  · exact ⟨hissued, events, hrun, hanswers⟩
  · exact ⟨hissued, events, hrun, hanswers⟩
  · constructor
    · rcases HomeScreen.step_cases hhome with ⟨hload, -⟩ | ⟨_, _, -, -, rfl⟩
      · cases hload
      · exact hissued
    · refine ⟨events ++ [.loaded call buses], run_concat.mpr ⟨_, hrun, hhome⟩, ?_⟩
      intro other buses' hmem
      rw [HomeScreen.completions_concat] at hmem
      rcases List.mem_append.mp hmem with hmem | hmem
      · exact hanswers other buses' hmem
      · obtain ⟨rfl, rfl⟩ : other = call ∧ buses' = buses := by
          simpa [HomeScreen.Event.completion?] using hmem
        exact hp

theorem settled_run {db : Database D} {events : List (Event T P)}
    (h : run (step platform) (start db) events = some s) : Settled s ∧ HomeTied s := by
  refine run_invariant (I := fun _ s => Settled s ∧ HomeTied s) ⟨?_, ?_⟩
    (fun _ s event t hinv hstep => ?_) h
  · exact ⟨fun _ => ⟨rfl, rfl, rfl⟩, nofun, nofun⟩
  · exact ⟨rfl, [], rfl, nofun⟩
  · exact ⟨settled_step hinv.1 hstep, homeTied_step hinv.1 hinv.2 hstep⟩

/-- Databases that a run has passed through, in the order of time. -/
def MomentsOf (platform : Platform D T) (db : Database D) (events : List (Event T P))
    (stores : List (Database D)) : Prop :=
  ∃ histories : List (List (Event T P)), histories.Pairwise (· <+: ·) ∧
    (∀ history ∈ histories, history <+: events) ∧
    List.Forall₂ (fun history store =>
      ∃ s, run (step platform) (start db) history = some s ∧ s.db = store) histories stores

theorem momentsOf_later {db : Database D} {events : List (Event T P)}
    {stores : List (Database D)} (h : MomentsOf platform db events stores) (event : Event T P) :
    MomentsOf platform db (events ++ [event]) stores := by
  obtain ⟨histories, horder, hpast, hstores⟩ := h
  refine ⟨histories, horder, ?_, hstores⟩
  intro history hmem
  exact (hpast history hmem).trans (List.prefix_append _ _)

theorem momentsOf_concat {db : Database D} {events : List (Event T P)}
    {stores : List (Database D)} (h : MomentsOf platform db events stores)
    (hrun : run (step platform) (start db) events = some s) :
    MomentsOf platform db events (stores ++ [s.db]) := by
  obtain ⟨histories, horder, hpast, hstores⟩ := h
  refine ⟨histories ++ [events], ?_, ?_, ?_⟩
  · rw [List.pairwise_append]
    refine ⟨horder, List.pairwise_singleton _ _, ?_⟩
    intro history hmem last hlast
    rw [List.mem_singleton.mp hlast]
    exact hpast history hmem
  · intro history hmem
    rcases List.mem_append.mp hmem with hmem | hmem
    · exact hpast history hmem
    · rw [List.mem_singleton.mp hmem]
  · exact List.rel_append hstores (List.Forall₂.cons ⟨s, hrun, rfl⟩ .nil)

/-- The rest of a `getNextBuses` that the run has issued, once its first statements have met the
database as it was at moments of the run. -/
def TracedCall (platform : Platform D T) (db : Database D) (events : List (Event T P))
    (p : DbProg D (List (Bus D T))) : Prop :=
  ∃ (e : AppStartup.Event) (world : World T P) (stores : List (Database D)),
    .app e world ∈ events ∧ (e = .homeInitState ∨ e = .refresh) ∧
    MomentsOf platform db events stores ∧ p = resume exec
      (nextBusesCall platform.sort platform.decoder world.position world.weekday) stores

theorem TracedCall.later {db : Database D} {events : List (Event T P)}
    {p : DbProg D (List (Bus D T))} (h : TracedCall platform db events p) (event : Event T P) :
    TracedCall platform db (events ++ [event]) p := by
  obtain ⟨e, world, stores, hworld, hload, hmoments, hp⟩ := h
  exact ⟨e, world, stores, List.mem_append_left _ hworld, hload, momentsOf_later hmoments event,
    hp⟩

theorem TracedCall.advance {db : Database D} {events : List (Event T P)}
    {p : DbProg D (List (Bus D T))} (h : TracedCall platform db events p)
    (hrun : run (step platform) (start db) events = some s) :
    TracedCall platform db events (advance exec p s.db).1 := by
  obtain ⟨e, world, stores, hworld, hload, hmoments, rfl⟩ := h
  refine ⟨e, world, stores ++ [s.db], hworld, hload, momentsOf_concat hmoments hrun, ?_⟩
  rw [resume_concat]

theorem tracedCall_step {db : Database D} {events : List (Event T P)} {event : Event T P}
    (hrun : run (step platform) (start db) events = some s)
    (h : ∀ p ∈ s.calls, TracedCall platform db events p)
    (hstep : step platform s event = some t) :
    ∀ p ∈ t.calls, TracedCall platform db (events ++ [event]) p := by
  have hold : ∀ p ∈ s.calls, TracedCall platform db (events ++ [event]) p :=
    fun p hp => (h p hp).later event
  rcases step_cases hstep with ⟨e, world, startup, rfl, -, -, rfl⟩ | ⟨rfl, rfl⟩ |
    ⟨call, p, rfl, hp, rfl⟩ | ⟨p, rfl, -, rfl⟩ | ⟨i, p, rfl, -, rfl⟩ |
    ⟨call, buses, home, rfl, -, -, rfl⟩
  · intro p hp
    rcases afterStartup_cases platform { s with startup } world e with
      heq | ⟨-, heq⟩ | ⟨hload, heq⟩
    · rw [heq] at hp
      exact hold p hp
    · rw [heq] at hp
      exact hold p hp
    · rw [heq] at hp
      rcases List.mem_append.mp hp with hp | hp
      · exact hold p hp
      · refine ⟨e, world, [], by simp, hload, ⟨[], List.Pairwise.nil, nofun, .nil⟩, ?_⟩
        rw [resume_nil, List.mem_singleton.mp hp]
  · exact hold
  · intro q hq
    rcases List.mem_or_eq_of_mem_set hq with hq | rfl
    · exact hold q hq
    · exact ((h p (List.mem_of_getElem? hp)).advance hrun).later _
  · exact hold
  · exact hold
  · exact hold

theorem tracedCall_run {db : Database D} {events : List (Event T P)}
    (h : run (step platform) (start db) events = some s) :
    ∀ p ∈ s.calls, TracedCall platform db events p := by
  suffices hboth : run (step platform) (start db) events = some s ∧
      ∀ p ∈ s.calls, TracedCall platform db events p from hboth.2
  refine run_invariant (I := fun history s => run (step platform) (start db) history = some s ∧
      ∀ p ∈ s.calls, TracedCall platform db history p) ⟨rfl, nofun⟩
    (fun history s event t hinv hstep => ?_) h
  exact ⟨run_concat.mpr ⟨s, hinv.1, hstep⟩, tracedCall_step hinv.1 hinv.2 hstep⟩

/-- In a run whose services are ready before the home screen mounts, every load has issued a
call, and the screen is loading or shows the answer of one of them. In any other run no load gets
through, and the screen is as it was made, loading: this rests on `providerOf`, a provider whose
`create` threw being taken to refuse later reads. -/
theorem home_of_run {db : Database D} {events : List (Event T P)}
    (h : run (step platform) (start db) events = some s) :
    (Preceded .locationReady .homeInitState (startupEvents events) →
      s.calls.length = s.startup.loads.length ∧
        ((s.home.isLoading = true ∧ s.home.nextBuses = []) ∨ s.home.isLoading = false ∧
          ∃ call : ℕ, s.calls[call]? = some (.done s.home.nextBuses))) ∧
    (¬ Preceded .locationReady .homeInitState (startupEvents events) →
      s.startup.homeMounted = true ∧ s.calls = [] ∧ s.home = HomeScreen.initial) := by
  obtain ⟨hsettled, htied⟩ := settled_run h
  obtain ⟨-, hreads⟩ := AppStartup.startup_run (startup_of_run h)
  constructor
  · intro hready
    refine ⟨?_, shown_cases htied⟩
    cases hmounted : s.startup.homeMounted with
    | false =>
      obtain ⟨hcreated, hloads, -⟩ := hreads.unread hmounted
      rw [(hsettled.unread hcreated).2.2, hloads]
      rfl
    | true => exact (hsettled.served _ (hreads.ready hmounted hready).1).2.2
  · intro hearly
    cases hmounted : s.startup.homeMounted with
    | false => exact absurd (hreads.unread hmounted).2.2 hearly
    | true =>
      obtain ⟨-, hcalls⟩ := hsettled.refused _ (hreads.early hmounted hearly).1
      exact ⟨rfl, hcalls, home_eq_initial htied hcalls⟩

/-- What the screen shows was asked for by a load with a known position, and it was stored: its
buses at one moment of the run, and for each of them a route that lists its departure at that or a
later moment. -/
theorem shown_was_stored {db : Database D} {events : List (Event T P)}
    (h : run (step platform) (start db) events = some s) :
    s.home.nextBuses = [] ∨ ∃ (e : AppStartup.Event) (world : World T P) (earlier later : _)
      (u v : System D T), .app e world ∈ events ∧ (e = .homeInitState ∨ e = .refresh) ∧
        (∃ position, world.position = .ok position) ∧ earlier <+: later ∧ later <+: events ∧
        run (step platform) (start db) earlier = some u ∧
        run (step platform) (start db) later = some v ∧
        ShownFrom platform.decoder world.weekday 5 u.db v.db s.home.nextBuses := by
  rcases shown_cases (settled_run h).2 with ⟨-, hnil⟩ | ⟨-, call, hcall⟩
  · exact Or.inl hnil
  obtain ⟨e, world, stores, hworld, hload, ⟨histories, horder, hpast, hstores⟩, hdone⟩ :=
    tracedCall_run h _ (List.mem_of_getElem? hcall)
  obtain ⟨before, later, hanswer, hmet⟩ :=
    answer_of_stores db (answerOn_of_resume exec (r := .ok _) hdone.symm)
  have hfrom : ShownFrom platform.decoder world.weekday 5 before later (getNextBuses platform.sort
      world.position (busesIn before) (routesIn platform.decoder later) world.weekday) :=
    shownFrom_getNextBuses platform.sort_perm world.position before later
  rw [← Except.ok.inj hanswer] at hfrom
  cases hposition : world.position with
  | error e =>
    left
    rw [hposition] at hanswer
    exact Except.ok.inj hanswer
  | ok position =>
    right
    have hknown : ∃ position, world.position = .ok position := ⟨position, hposition⟩
    rcases hmet with ⟨rfl, rfl⟩ | ⟨rest, rfl, rfl⟩ | ⟨rest, rfl⟩
    · exact ⟨e, world, [], [], start _, start _, hworld, hload, hknown, List.prefix_refl _,
        List.nil_prefix, rfl, rfl, hfrom⟩
    · obtain ⟨history, histories', ⟨u, hu, rfl⟩, -, rfl⟩ :=
        List.forall₂_cons_right_iff.mp hstores
      exact ⟨e, world, history, history, u, u, hworld, hload, hknown, List.prefix_refl _,
        hpast history List.mem_cons_self, hu, hu, hfrom⟩
    · obtain ⟨history, histories', ⟨u, hu, rfl⟩, hrest, rfl⟩ :=
        List.forall₂_cons_right_iff.mp hstores
      obtain ⟨history', histories'', ⟨v, hv, rfl⟩, -, rfl⟩ :=
        List.forall₂_cons_right_iff.mp hrest
      exact ⟨e, world, history, history', u, v, hworld, hload, hknown,
        List.rel_of_pairwise_cons horder List.mem_cons_self, hpast history' (by simp), hu, hv,
        hfrom⟩

end Runs

def samplePlatform : Platform ℚ IsoInstant :=
  ⟨sortByInsertion, fun l => List.perm_insertionSort _ l, sampleDecoder⟩

def mondayMorning : World IsoInstant Unit := ⟨⟨"2024-01-01T06:00:00"⟩, .ok (), 1⟩

def firstLoad : List (Event IsoInstant Unit) :=
  [.app .initState mondayMorning, .app .databaseReady mondayMorning,
    .app .locationReady mondayMorning, .app .build mondayMorning,
    .app .homeInitState mondayMorning, .callStep 0, .callStep 0, .callStep 0, .loaded 0]

theorem firstLoad_runs : ∃ s, run (step samplePlatform) (start storedLine) firstLoad = some s ∧
    s.home.nextBuses = [earlyBus] := ⟨_, rfl, rfl⟩

theorem first_load_answered : ∃ s, run (step samplePlatform) (start storedLine) firstLoad = some s ∧
    s.calls.length = s.startup.loads.length := by
  obtain ⟨s, h, -⟩ := firstLoad_runs
  have hready : Preceded .locationReady .homeInitState (startupEvents firstLoad) :=
    preceded_of_take (n := 4) (by decide) (by decide)
  exact ⟨s, h, ((home_of_run h).1 hready).1⟩

theorem first_load_was_stored : ∃ (s : System ℚ IsoInstant) (e : AppStartup.Event)
    (world : World IsoInstant Unit) (u v : System ℚ IsoInstant),
    run (step samplePlatform) (start storedLine) firstLoad = some s ∧
      .app e world ∈ firstLoad ∧
        ShownFrom samplePlatform.decoder world.weekday 5 u.db v.db s.home.nextBuses := by
  obtain ⟨s, h, hshown⟩ := firstLoad_runs
  rcases shown_was_stored h with hnil | ⟨e, world, _, _, u, v, hworld, -, -, -, -, -, -, hfrom⟩
  · rw [hshown] at hnil
    cases hnil
  · exact ⟨s, e, world, u, v, h, hworld, hfrom⟩

end AppSystem
