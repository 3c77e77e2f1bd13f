import BusSaathi.CurrentBuses
import Mathlib.Tactic.IntervalCases

/-! How a load comes to its end: a call of `getNextBuses` that is given its turns answers, whatever
runs beside it, and a refresh that is left to itself shows the buses as they are stored. -/
namespace CallTurns

open EventRuns StatementPrograms StatementPrograms.Prog ProgramInterference DartRuntime Models
  DatabaseService OfflineService NextBuses NextBusesCall AppSystem CurrentBuses

variable {D T P : Type}

def turn? : Event T P → Option ℕ
  | .callStep call => some call
  | _ => none

/-- How often a run has let a call go on to its next statement. -/
def turns (call : ℕ) (events : List (Event T P)) : ℕ := (events.filterMap turn?).count call

theorem turns_concat_self (call : ℕ) (events : List (Event T P)) :
    turns call (events ++ [.callStep call]) = turns call events + 1 := by
  simp [turns, turn?]

theorem turns_concat_other {call : ℕ} {event : Event T P} (events : List (Event T P))
    (h : turn? event ≠ some call) : turns call (events ++ [event]) = turns call events := by
  unfold turns
  rw [List.filterMap_append, List.count_append, Nat.add_eq_left, List.count_eq_zero]
  simpa using h

section Turns

variable [DartDouble D] [DartDateTime T] {platform : Platform D T} {s t : System D T}

/-- A call has met as many databases of the run as it has had turns. -/
def MetInTurn (platform : Platform D T) (db : Database D) (events : List (Event T P)) (call : ℕ)
    (p : DbProg D (List (Bus D T))) : Prop :=
  ∃ (world : World T P) (stores : List (Database D)),
    p = resume exec (nextBusesCall platform.sort platform.decoder world.position world.weekday)
      stores ∧
    stores.length = turns call events ∧
    ∀ store ∈ stores, ∃ v, Visits (step platform) (start db) events v ∧ v.db = store

theorem MetInTurn.keep {db : Database D} {events : List (Event T P)} {event : Event T P} {call : ℕ}
    {p : DbProg D (List (Bus D T))} (h : MetInTurn platform db events call p)
    (hturn : turn? event ≠ some call) : MetInTurn platform db (events ++ [event]) call p := by
  obtain ⟨world, stores, hp, hlength, hstores⟩ := h
  refine ⟨world, stores, hp, ?_, fun store hmem => ?_⟩
  · rw [hlength, turns_concat_other events hturn]
  · obtain ⟨v, hv, hdb⟩ := hstores store hmem
    exact ⟨v, hv.later event, hdb⟩

theorem MetInTurn.take {db : Database D} {events : List (Event T P)} {call : ℕ}
    {p : DbProg D (List (Bus D T))} (h : MetInTurn platform db events call p)
    (hrun : run (step platform) (start db) events = some s) :
    MetInTurn platform db (events ++ [.callStep call]) call (advance exec p s.db).1 := by
  obtain ⟨world, stores, rfl, hlength, hstores⟩ := h
  refine ⟨world, stores ++ [s.db], ?_, ?_, fun store hmem => ?_⟩
  · rw [resume_concat]
  · rw [List.length_append, hlength, turns_concat_self]
    rfl
  · rcases List.mem_append.mp hmem with hmem | hmem
    · obtain ⟨v, hv, hdb⟩ := hstores store hmem
      exact ⟨v, hv.later _, hdb⟩
    · rw [List.mem_singleton.mp hmem]
      exact ⟨s, ⟨events, List.prefix_append _ _, hrun⟩, rfl⟩

/-- An answer is awaited until it has been delivered. -/
structure TakenInTurn (platform : Platform D T) (db : Database D) (events : List (Event T P))
    (s : System D T) : Prop where
  unissued : ∀ call, s.calls.length ≤ call → turns call events = 0
  issued : ∀ call p, s.calls[call]? = some p → MetInTurn platform db events call p
  awaited : ∀ call, call < s.calls.length → call ∈ s.home.waiting ∨ .loaded call ∈ events

theorem takenInTurn_keep {db : Database D} {events : List (Event T P)} {event : Event T P}
    (h : TakenInTurn platform db events s) (hturn : turn? event = none)
    (hcalls : t.calls = s.calls) (hhome : t.home = s.home) :
    TakenInTurn platform db (events ++ [event]) t := by
  have hother (call : ℕ) : turn? event ≠ some call := by
    rw [hturn]
    nofun
  constructor
  · intro call hcall
    rw [hcalls] at hcall
    rw [turns_concat_other events (hother call)]
    exact h.unissued call hcall
  · intro call p hp
    rw [hcalls] at hp
    exact (h.issued call p hp).keep (hother call)
  · intro call hcall
    rw [hcalls] at hcall
    rw [hhome]
    exact (h.awaited call hcall).imp_right (List.mem_append_left _)

theorem takenInTurn_issue {db : Database D} {events : List (Event T P)} {event : Event T P}
    (world : World T P) (h : TakenInTurn platform db events s) (hturn : turn? event = none)
    (hissued : s.home.issued = s.calls.length)
    (hcalls : t.calls = s.calls ++
      [nextBusesCall platform.sort platform.decoder world.position world.weekday])
    (hhome : t.home = s.home.loadNextBuses) :
    TakenInTurn platform db (events ++ [event]) t := by
  have hother (call : ℕ) : turn? event ≠ some call := by
    rw [hturn]
    nofun
  have hlength : t.calls.length = s.calls.length + 1 := by simp [hcalls]
  constructor
  · intro call hcall
    rw [turns_concat_other events (hother call)]
    exact h.unissued call (by omega)
  · intro call p hp
    refine MetInTurn.keep ?_ (hother call)
    obtain ⟨hlt, -⟩ := List.getElem?_eq_some_iff.mp hp
    rw [hcalls] at hp
    by_cases hold : call < s.calls.length
    · rw [List.getElem?_append_left hold] at hp
      exact h.issued call p hp
    · obtain rfl : call = s.calls.length := by omega
      rw [List.getElem?_concat_length] at hp
      cases hp
      refine ⟨world, [], ?_, (h.unissued _ (le_refl _)).symm, nofun⟩
      rw [resume_nil]
  · intro call hcall
    by_cases hold : call < s.calls.length
    · apply (h.awaited call hold).imp _ (List.mem_append_left _)
      rw [hhome]
      exact List.mem_append_left _
    · left
      rw [hhome, show call = s.home.issued by omega]
      exact List.mem_append_right _ (List.mem_singleton_self _)

theorem takenInTurn_step {db : Database D} {events : List (Event T P)} {event : Event T P}
    (hrun : run (step platform) (start db) events = some s)
    (h : TakenInTurn platform db events s) (hstep : step platform s event = some t) :
    TakenInTurn platform db (events ++ [event]) t := by
  rcases step_cases hstep with ⟨e, world, startup, rfl, -, -, rfl⟩ | ⟨rfl, rfl⟩ |
    ⟨call, p, rfl, hp, rfl⟩ | ⟨p, rfl, -, rfl⟩ | ⟨i, p, rfl, -, rfl⟩ |
    ⟨call, buses, home, rfl, hp, hhome, rfl⟩
  · rcases afterStartup_cases platform { s with startup } world e with
      heq | ⟨-, heq⟩ | ⟨-, heq⟩
    · rw [heq]
      exact takenInTurn_keep h rfl rfl rfl
    · rw [heq]
      exact takenInTurn_keep h rfl rfl rfl
    · rw [heq]
      exact takenInTurn_issue world h rfl (settled_run hrun).2.issued rfl rfl
  · exact takenInTurn_keep h rfl rfl rfl
  · obtain ⟨hlt, -⟩ := List.getElem?_eq_some_iff.mp hp
    constructor
    · intro other hother
      rw [List.length_set] at hother
      rw [turns_concat_other events (by simp only [turn?, ne_eq, Option.some.injEq]; omega)]
      exact h.unissued other hother
    · intro other q hq
      by_cases hsame : call = other
      · subst hsame
        rw [List.getElem?_set_self hlt] at hq
        cases hq
        exact (h.issued call p hp).take hrun
      · rw [List.getElem?_set_ne hsame] at hq
        exact (h.issued other q hq).keep (by simpa [turn?] using hsame)
    · intro other hother
      rw [List.length_set] at hother
      exact (h.awaited other hother).imp_right (List.mem_append_left _)
  · exact takenInTurn_keep h rfl rfl rfl
  · exact takenInTurn_keep h rfl rfl rfl
  · rcases HomeScreen.step_cases hhome with ⟨hnone, -⟩ | ⟨_, _, hloaded, -, rfl⟩
    · cases hnone
    cases hloaded
    refine ⟨fun other hother => ?_, fun other q hq => ?_, fun other hother => ?_⟩
    · rw [turns_concat_other events (by simp [turn?])]
      exact h.unissued other hother
    · exact (h.issued other q hq).keep (by simp [turn?])
    · by_cases hsame : other = call
      · exact Or.inr (by simp [hsame])
      · apply (h.awaited other hother).imp _ (List.mem_append_left _)
        intro hwaiting
        exact List.mem_filter.mpr ⟨hwaiting, by simpa using hsame⟩

theorem takenInTurn_run {db : Database D} {events : List (Event T P)}
    (h : run (step platform) (start db) events = some s) : TakenInTurn platform db events s := by
  suffices hboth : run (step platform) (start db) events = some s ∧
      TakenInTurn platform db events s from hboth.2
  refine run_invariant (I := fun history s => run (step platform) (start db) history = some s ∧
      TakenInTurn platform db history s) ⟨rfl, ?_⟩ (fun history s event t hinv hstep => ?_) h
  · exact ⟨fun _ _ => rfl, nofun, nofun⟩
  · exact ⟨run_concat.mpr ⟨s, hinv.1, hstep⟩, takenInTurn_step hinv.1 hinv.2 hstep⟩

theorem loaded_step {call : ℕ} {buses : List (Bus D T)}
    (hp : s.calls[call]? = some (.done buses)) (hwaiting : call ∈ s.home.waiting) :
    step platform s (.loaded call : Event T P) =
      some { s with home := s.home.onLoaded call buses } := by
  have hhome : HomeScreen.step s.home (.loaded call buses) = some (s.home.onLoaded call buses) :=
    if_pos hwaiting
  simp only [step, hp, Option.bind_eq_bind, Option.bind_some, result?, hhome, Option.pure_def]

/-- A call that has had two turns more than there are routes at any moment has answered, whatever
ran beside it, and the screen has shown its answer or can show it next. -/
theorem answers_within_turns {db : Database D} {events : List (Event T P)} {call routes : ℕ}
    (h : run (step platform) (start db) events = some s)
    (hroutes : ∀ v, Visits (step platform) (start db) events v → v.db.routes.rows.length ≤ routes)
    (hturns : routes + 2 ≤ turns call events) :
    ∃ buses, s.calls[call]? = some (.done buses) ∧ (.loaded call ∈ events ∨
      ∃ t, step platform s (.loaded call : Event T P) = some t ∧ Shows t buses) := by
  have hinv := takenInTurn_run h
  have hlt : call < s.calls.length := by
    by_contra hge
    have hnone := hinv.unissued call (Nat.not_lt.mp hge)
    omega
  obtain ⟨world, stores, hp, hlength, hstores⟩ :=
    hinv.issued call _ (List.getElem?_eq_getElem hlt)
  have hfew : ∀ store ∈ stores, store.routes.rows.length ≤ routes := by
    intro store hmem
    obtain ⟨v, hv, rfl⟩ := hstores store hmem
    exact hroutes v hv
  obtain ⟨buses, hdone⟩ : ∃ buses, resume exec (nextBusesCall platform.sort platform.decoder
      world.position world.weekday) stores = .done buses := call_ends hfew (hlength ▸ hturns)
  have hanswer : s.calls[call]? = some (.done buses) := by
    rw [List.getElem?_eq_getElem hlt, hp, hdone]
  refine ⟨buses, hanswer, ?_⟩
  rcases hinv.awaited call hlt with hwaiting | hloaded
  · exact Or.inr ⟨_, loaded_step hanswer hwaiting, rfl, rfl⟩
  · exact Or.inl hloaded

theorem run_turns (platform : Platform D T) {call : ℕ} {p : DbProg D (List (Bus D T))}
    (hp : s.calls[call]? = some p)
    (hreads : p.Within fun statement => ∀ db : Database D, (exec statement db).2 = db) (n : ℕ) :
    run (step platform) s (List.replicate n (.callStep call : Event T P)) =
      some { s with calls := s.calls.set call (resume exec p (List.replicate n s.db)) } := by
  obtain ⟨hlt, rfl⟩ := List.getElem?_eq_some_iff.mp hp
  induction n with
  | zero =>
    rw [List.replicate_zero, List.replicate_zero, resume_nil, List.set_getElem_self]
    rfl
  | succ n ih =>
    rw [List.replicate_succ', List.replicate_succ', run_concat]
    refine ⟨_, ih, ?_⟩
    have hstore := advance_store_of_within (within_resume exec hreads (List.replicate n s.db))
      (fun _ st hs => hs st) s.db
    simp only [step, List.getElem?_set_self hlt, Option.bind_eq_bind, Option.bind_some,
      Option.pure_def, List.set_set, hstore, resume_concat]

theorem call_left_alone {call : ℕ} {world : World T P} (hcall : s.calls[call]? = some
      (nextBusesCall platform.sort platform.decoder world.position world.weekday))
    (hwaiting : call ∈ s.home.waiting) :
    ∃ t, run (step platform) s (List.replicate (s.db.routes.rows.length + 2)
        (.callStep call : Event T P) ++ [.loaded call]) = some t ∧ t.db = s.db ∧
      Shows t (getNextBuses platform.sort world.position (busesIn s.db)
        (routesIn platform.decoder s.db) world.weekday) := by
  have hturns := run_turns (P := P) platform hcall (nextBusesCall_reads world.position)
    (s.db.routes.rows.length + 2)
  have hcarried : Carried platform world call s.db { s with
      calls := s.calls.set call (resume exec
        (nextBusesCall platform.sort platform.decoder world.position world.weekday)
        (List.replicate (s.db.routes.rows.length + 2) s.db)) } :=
    ⟨rfl, _, List.getElem?_set_self (List.getElem?_eq_some_iff.mp hcall).1⟩
  have hfew : ∀ store ∈ List.replicate (s.db.routes.rows.length + 2) s.db,
      store.routes.rows.length ≤ s.db.routes.rows.length := by
    intro store hmem
    rw [List.eq_of_mem_replicate hmem]
  obtain ⟨buses, hdone⟩ : ∃ buses, resume exec (nextBusesCall platform.sort platform.decoder
      world.position world.weekday) (List.replicate (s.db.routes.rows.length + 2) s.db) =
        .done buses := call_ends hfew (by rw [List.length_replicate])
  rw [hdone] at hturns hcarried
  have hanswer : (s.calls.set call (.done buses))[call]? = some (.done buses) :=
    List.getElem?_set_self (List.getElem?_eq_some_iff.mp hcall).1
  refine ⟨_, run_concat.mpr ⟨_, hturns, loaded_step hanswer hwaiting⟩, rfl, rfl, ?_⟩
  exact answer_of_carried hcarried hanswer

theorem refresh_step {service : AppStartup.Service} (world : World T P)
    (hcreated : s.startup.created .offlineService = some (.ok service))
    (hmounted : s.startup.homeMounted = true) :
    ∃ t, step platform s (.app .refresh world) = some t ∧ t.db = s.db ∧
      t.calls = s.calls ++
        [nextBusesCall platform.sort platform.decoder world.position world.weekday] ∧
      t.home = s.home.loadNextBuses := by
  have hstartup : AppStartup.step s.startup .refresh = some s.startup.loadNextBuses :=
    if_pos hmounted
  rw [AppStartup.loadNextBuses_again hcreated] at hstartup
  have hstep : step platform s (.app .refresh world) = some (loadNextBuses platform
      { s with startup := { s.startup with loads := s.startup.loads ++ [.ok service] } }
      .refresh world) := by
    simp [step, hstartup, afterStartup]
  rw [loadNextBuses_ok rfl] at hstep
  exact ⟨_, hstep, rfl, rfl, rfl⟩

/-- A refresh of a mounted screen that is left to itself runs to its end and shows what
`getNextBuses` makes of the database, in whatever state the run was. -/
theorem refresh_shows_current {db : Database D} {events : List (Event T P)} (world : World T P)
    (h : run (step platform) (start db) events = some s)
    (hready : Preceded .locationReady .homeInitState (startupEvents events))
    (hmounted : s.startup.homeMounted = true) :
    ∃ t, run (step platform) s (.app .refresh world ::
        (List.replicate (s.db.routes.rows.length + 2) (.callStep s.calls.length) ++
          [.loaded s.calls.length])) = some t ∧ t.db = s.db ∧
      Shows t (getNextBuses platform.sort world.position (busesIn s.db)
        (routesIn platform.decoder s.db) world.weekday) := by
  obtain ⟨-, hstartup⟩ := AppStartup.startup_run (startup_of_run h)
  obtain ⟨u, hu, hdb, hcalls, hhome⟩ :=
    refresh_step world (hstartup.ready hmounted hready).1 hmounted
  have hcall : u.calls[s.calls.length]? = some
      (nextBusesCall platform.sort platform.decoder world.position world.weekday) := by
    rw [hcalls, List.getElem?_concat_length]
  have hwaiting : s.calls.length ∈ u.home.waiting := by
    rw [hhome, ← (settled_run h).2.issued]
    exact List.mem_append_right _ (List.mem_singleton_self _)
  obtain ⟨t, hrun, hstore, hshows⟩ := call_left_alone hcall hwaiting
  rw [hdb] at hrun hstore hshows
  exact ⟨t, Option.bind_eq_some_iff.mpr ⟨u, hu, hrun⟩, hstore, hshows⟩

end Turns

def clearedLoad : List (Event IsoInstant Unit) :=
  firstLoad.take 6 ++ [.clearCache, .clearStep 0, .clearStep 0, .callStep 0, .clearStep 0,
    .clearStep 0, .callStep 0]

theorem clearedLoad_runs : ∃ s, run (step samplePlatform) (start storedLine) clearedLoad = some s ∧
    s.startup.homeMounted = true ∧ s.db = emptyDatabase := ⟨_, rfl, rfl, rfl⟩

theorem cleared_load_answers : ∃ s buses,
    run (step samplePlatform) (start storedLine) clearedLoad = some s ∧
      s.calls[0]? = some (.done buses) := by
  have hroutes : ∀ v, Visits (step samplePlatform) (start storedLine) clearedLoad v →
      v.db.routes.rows.length ≤ 1 := by
    rintro v ⟨history, hpast, hrun⟩
    have hhistory := List.prefix_iff_eq_take.mp hpast
    have hlength : history.length ≤ 13 := hpast.length_le
    rw [hhistory] at hrun
    generalize history.length = n at hlength hrun
    interval_cases n <;> cases hrun <;> decide
  have hturns : 1 + 2 ≤ turns 0 clearedLoad := by decide
  obtain ⟨s, h, -⟩ := clearedLoad_runs
  obtain ⟨buses, hanswer, -⟩ := answers_within_turns h hroutes hturns
  exact ⟨s, buses, h, hanswer⟩

theorem refresh_after_clear : ∃ s t more,
    run (step samplePlatform) (start storedLine) clearedLoad = some s ∧
      run (step samplePlatform) s (.app .refresh mondayMorning :: more) = some t ∧
        Shows t [] := by
  have hready : Preceded .locationReady .homeInitState (startupEvents clearedLoad) :=
    preceded_of_take (n := 4) (by decide) (by decide)
  obtain ⟨s, h, hmounted, hdb⟩ := clearedLoad_runs
  obtain ⟨t, hrun, -, hshows⟩ := refresh_shows_current mondayMorning h hready hmounted
  rw [hdb] at hshows
  exact ⟨s, t, _, h, hrun, hshows⟩

end CallTurns
