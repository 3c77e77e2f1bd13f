import BusSaathi.AppSystem

/-! A load that nothing disturbs: while no seeding and no clearing statement runs, the database
stays as it is, and the call brings to the screen what `getNextBuses` makes of it. -/
namespace CurrentBuses

open EventRuns StatementPrograms StatementPrograms.Prog ProgramInterference DartRuntime Models
  DatabaseService OfflineService NextBuses NextBusesCall AppSystem

variable {D T P : Type}

/-- Loads may be issued, answered and shown, and clears may be asked for, but none of their
statements runs. -/
def Undisturbed (event : Event T P) : Prop :=
  event ≠ .seedingStep ∧ ∀ i, event ≠ .clearStep i

def IsLoaded (event : Event T P) : Prop := ∃ call, event = .loaded call

variable [DartDouble D] [DartDateTime T] {platform : Platform D T} {s t v : System D T}

def CallsRead (s : System D T) : Prop :=
  ∀ p ∈ s.calls, p.Within fun statement => ∀ db : Database D, (exec statement db).2 = db

theorem callsRead_run {db : Database D} {events : List (Event T P)}
    (h : run (step platform) (start db) events = some s) : CallsRead s := by
  intro p hp
  obtain ⟨e, world, stores, -, -, -, rfl⟩ := tracedCall_run h p hp
  exact within_resume exec (nextBusesCall_reads world.position) stores

def Shows (s : System D T) (buses : List (Bus D T)) : Prop :=
  s.home.isLoading = false ∧ s.home.nextBuses = buses

theorem afterStartup_shows {buses : List (Bus D T)} (h : Shows s buses) (world : World T P)
    (e : AppStartup.Event) : Shows (afterStartup platform s world e) buses := by
  rcases afterStartup_cases platform s world e with heq | ⟨-, heq⟩ | ⟨-, heq⟩
  · rwa [heq]
  · rwa [heq]
  · rw [heq]
    exact h

theorem shows_kept {buses : List (Bus D T)} {event : Event T P} (h : Shows s buses)
    (hevent : ¬ IsLoaded event) (hstep : step platform s event = some t) : Shows t buses := by
  rcases step_cases hstep with ⟨e, world, startup, rfl, -, -, rfl⟩ | ⟨rfl, rfl⟩ |
    ⟨_, _, rfl, -, rfl⟩ | ⟨_, rfl, -, rfl⟩ | ⟨_, _, rfl, -, rfl⟩ | ⟨call, _, _, rfl, -, -, rfl⟩
  · exact afterStartup_shows (s := { s with startup }) h world e
  · exact h
  · exact h
  · exact h
  · exact h
  · exact absurd ⟨call, rfl⟩ hevent

theorem shows_kept_run {buses : List (Bus D T)} {events : List (Event T P)} (h : Shows v buses)
    (hevents : ∀ event ∈ events, ¬ IsLoaded event)
    (hrun : run (step platform) v events = some s) : Shows s buses := by
  refine run_invariant (I := fun history s => (∀ event ∈ history, ¬ IsLoaded event) →
    Shows s buses) (fun _ => h) (fun history s event t hinv hstep hall => ?_) hrun hevents
  have hold := hinv fun e he => hall e (List.mem_append_left _ he)
  exact shows_kept hold (hall event (by simp)) hstep

/-- A call has met one database only, which is still the current one. -/
structure Carried (platform : Platform D T) (world : World T P) (call : ℕ) (db : Database D)
    (s : System D T) : Prop where
  store : s.db = db
  call : ∃ n, s.calls[call]? = some (resume exec
    (nextBusesCall platform.sort platform.decoder world.position world.weekday)
    (List.replicate n db))

theorem carried_step {world : World T P} {call : ℕ} {db : Database D} {event : Event T P}
    (hreads : CallsRead s) (h : Carried platform world call db s) (hquiet : Undisturbed event)
    (hstep : step platform s event = some t) : Carried platform world call db t := by
  obtain ⟨hdb, n, hcall⟩ := h
  rcases step_cases hstep with ⟨e, world', startup, rfl, -, -, rfl⟩ | ⟨rfl, rfl⟩ |
    ⟨other, p, rfl, hp, rfl⟩ | ⟨p, rfl, -, rfl⟩ | ⟨i, p, rfl, -, rfl⟩ |
    ⟨other, buses, home, rfl, -, -, rfl⟩
  · rcases afterStartup_cases platform { s with startup } world' e with
      heq | ⟨-, heq⟩ | ⟨-, heq⟩
    · rw [heq]
      exact ⟨hdb, n, hcall⟩
    · rw [heq]
      exact ⟨hdb, n, hcall⟩
    · rw [heq]
      refine ⟨hdb, n, ?_⟩
      rw [List.getElem?_append_left (List.getElem?_eq_some_iff.mp hcall).1]
      exact hcall
  · exact ⟨hdb, n, hcall⟩
  · have hstore := advance_store_of_within (hreads p (List.mem_of_getElem? hp))
      (fun _ st hs => hs st) s.db
    refine ⟨hstore.trans hdb, ?_⟩
    by_cases hsame : other = call
    · subst hsame
      rw [hcall] at hp
      cases hp
      refine ⟨n + 1, ?_⟩
      rw [List.getElem?_set_self (List.getElem?_eq_some_iff.mp hcall).1, List.replicate_succ',
        resume_concat, hdb]
    · refine ⟨n, ?_⟩
      rw [List.getElem?_set_ne hsame]
      exact hcall
  · exact absurd rfl hquiet.1
  · exact absurd rfl (hquiet.2 i)
  · exact ⟨hdb, n, hcall⟩

theorem carried_run {before events : List (Event T P)} {world : World T P} {call : ℕ}
    {db : Database D} (hv : run (step platform) (start db) before = some v)
    (hcall : v.calls[call]? = some
      (nextBusesCall platform.sort platform.decoder world.position world.weekday))
    (h : run (step platform) v events = some s) (hquiet : ∀ event ∈ events, Undisturbed event) :
    Carried platform world call v.db s := by
  have hboth : run (step platform) (start db) (before ++ events) = some s ∧
      ((∀ event ∈ events, Undisturbed event) → Carried platform world call v.db s) := by
    refine run_invariant (I := fun history s =>
      run (step platform) (start db) (before ++ history) = some s ∧
        ((∀ event ∈ history, Undisturbed event) → Carried platform world call v.db s))
      ⟨?_, ?_⟩ (fun history s event t hinv hstep => ?_) h
    · rwa [List.append_nil]
    · intro _
      refine ⟨rfl, 0, ?_⟩
      rw [List.replicate_zero, resume_nil]
      exact hcall
    · obtain ⟨hrun, hcarried⟩ := hinv
      constructor
      · rw [← List.append_assoc]
        exact run_concat.mpr ⟨s, hrun, hstep⟩
      · intro hall
        have hold := hcarried fun e he => hall e (List.mem_append_left _ he)
        exact carried_step (callsRead_run hrun) hold (hall event (by simp)) hstep
  exact hboth.2 hquiet

theorem answer_of_carried {world : World T P} {call : ℕ} {db : Database D}
    {buses : List (Bus D T)} (h : Carried platform world call db s)
    (hp : s.calls[call]? = some (.done buses)) : buses = getNextBuses platform.sort world.position
      (busesIn db) (routesIn platform.decoder db) world.weekday := by
  obtain ⟨-, n, hcall⟩ := h
  have hdone := Option.some.inj (hcall.symm.trans hp)
  obtain ⟨earlier, later, hanswer, hmet⟩ :=
    answer_of_stores db (answerOn_of_resume exec (r := .ok _) hdone)
  have hsame : earlier = db ∧ later = db := by
    rcases hmet with hmet | ⟨rest, hmet, rfl⟩ | ⟨rest, hmet⟩
    · exact hmet
    · have hmem : later ∈ List.replicate n db := by simp [hmet]
      exact ⟨List.eq_of_mem_replicate hmem, List.eq_of_mem_replicate hmem⟩
    · have hall : ∀ store ∈ earlier :: later :: rest, store = db := by
        rw [← hmet]
        exact fun _ => List.eq_of_mem_replicate
      exact ⟨hall earlier (by simp), hall later (by simp)⟩
  rw [hsame.1, hsame.2] at hanswer
  exact Except.ok.inj hanswer

/-- When nothing writes between a load's call and its answer, the screen comes to show what
`getNextBuses` makes of the database as it then is, until another call completes. -/
theorem quiet_load_shows_current {db : Database D} {before after rest : List (Event T P)}
    {world : World T P} {call : ℕ} (hv : run (step platform) (start db) before = some v)
    (hcall : v.calls[call]? = some
      (nextBusesCall platform.sort platform.decoder world.position world.weekday))
    (h : run (step platform) v (after ++ .loaded call :: rest) = some s)
    (hquiet : ∀ event ∈ after, Undisturbed event) (hlast : ∀ event ∈ rest, ¬ IsLoaded event) :
    s.home.isLoading = false ∧ s.home.nextBuses = getNextBuses platform.sort world.position
      (busesIn v.db) (routesIn platform.decoder v.db) world.weekday := by
  obtain ⟨u, hu, h⟩ := run_append.mp h
  obtain ⟨w, hw, h⟩ := Option.bind_eq_some_iff.mp h
  refine shows_kept_run ?_ hlast h
  have hcarried := carried_run hv hcall hu hquiet
  rcases step_cases hw with ⟨_, _, _, hevent, -⟩ | ⟨hevent, -⟩ | ⟨_, _, hevent, -⟩ |
    ⟨_, hevent, -⟩ | ⟨_, _, hevent, -⟩ | ⟨_, buses, home, hevent, hp, hhome, rfl⟩
  case inr.inr.inr.inr.inr =>
    cases hevent
    rcases HomeScreen.step_cases hhome with ⟨hnone, -⟩ | ⟨_, _, hloaded, -, rfl⟩
    · cases hnone
    · cases hloaded
      exact ⟨rfl, answer_of_carried hcarried hp⟩
  all_goals cases hevent

theorem first_load_is_current : ∃ s,
    run (step samplePlatform) (start storedLine) firstLoad = some s ∧ s.home.isLoading = false ∧
    s.home.nextBuses = getNextBuses samplePlatform.sort mondayMorning.position
      (busesIn storedLine) (routesIn samplePlatform.decoder storedLine) mondayMorning.weekday := by
  obtain ⟨s, h, -⟩ := firstLoad_runs
  have hparts : run (step samplePlatform) (start storedLine)
      (firstLoad.take 5 ++ firstLoad.drop 5) = some s := h
  obtain ⟨v, hv, hmore⟩ := run_append.mp hparts
  have hrest : run (step samplePlatform) v
      ([.callStep 0, .callStep 0, .callStep 0] ++ .loaded 0 :: []) = some s := hmore
  have hissued : v.db = storedLine ∧ v.calls[0]? = some (nextBusesCall samplePlatform.sort
      samplePlatform.decoder mondayMorning.position mondayMorning.weekday) := by
    cases hv
    exact ⟨rfl, rfl⟩
  have hquiet : ∀ event ∈ [.callStep 0, .callStep 0, .callStep 0],
      Undisturbed (event : Event IsoInstant Unit) := by
    simp [Undisturbed]
  refine ⟨s, h, ?_⟩
  have hshown := quiet_load_shows_current hv hissued.2 hrest hquiet nofun
  rwa [hissued.1] at hshown

end CurrentBuses
