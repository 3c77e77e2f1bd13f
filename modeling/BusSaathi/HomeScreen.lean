import BusSaathi.EventRuns
import BusSaathi.OfflineService
import Mathlib.Data.List.Chain

/-! The home screen: calls of `_loadNextBuses`, numbered as they are issued, which wait for
`getNextBuses` and complete in any order. Nothing on the screen tells one call from another. -/
namespace HomeScreen

open EventRuns Models OfflineService

variable {D T : Type}

/-- `issued` counts the calls so far, `waiting` holds the numbers of those that have not
completed. -/
structure HomeState (D T : Type) where
  nextBuses : List (Bus D T)
  isLoading : Bool
  issued : ℕ
  waiting : List ℕ

def initial : HomeState D T := ⟨[], true, 0, []⟩

inductive Event (D T : Type) where
  | initState
  | refresh
  | loaded (call : ℕ) (buses : List (Bus D T))

/-- `_loadNextBuses` up to its `await`. -/
def HomeState.loadNextBuses (s : HomeState D T) : HomeState D T :=
  { s with issued := s.issued + 1, waiting := s.waiting ++ [s.issued] }

/-- The rest of `_loadNextBuses`, once `getNextBuses` has answered. -/
def HomeState.onLoaded (s : HomeState D T) (call : ℕ) (buses : List (Bus D T)) : HomeState D T :=
  { s with
    nextBuses := buses
    isLoading := false
    waiting := s.waiting.filter (fun other => other ≠ call) }

def Enabled (s : HomeState D T) : Event D T → Prop
  | .initState => s.issued = 0
  | .refresh => 0 < s.issued
  | .loaded call _ => call ∈ s.waiting

instance (s : HomeState D T) (e : Event D T) : Decidable (Enabled s e) := by
  cases e <;> simp only [Enabled] <;> infer_instance

def next (s : HomeState D T) : Event D T → HomeState D T
  | .initState => s.loadNextBuses
  | .refresh => s.loadNextBuses
  | .loaded call buses => s.onLoaded call buses

def step (s : HomeState D T) (e : Event D T) : Option (HomeState D T) := guarded Enabled next s e

def Event.completion? : Event D T → Option (ℕ × List (Bus D T))
  | .loaded call buses => some (call, buses)
  | _ => none

def completions (history : List (Event D T)) : List (ℕ × List (Bus D T)) :=
  history.filterMap Event.completion?

theorem completions_concat (history : List (Event D T)) (e : Event D T) :
    completions (history ++ [e]) = completions history ++ e.completion?.toList := by
  cases e <;> simp [completions, Event.completion?]

theorem step_cases {s t : HomeState D T} {e : Event D T} (h : step s e = some t) :
    (e.completion? = none ∧ t = s.loadNextBuses) ∨
    ∃ call buses, e = .loaded call buses ∧ call ∈ s.waiting ∧ t = s.onLoaded call buses := by
  obtain ⟨he, rfl⟩ := guarded_eq_some.mp h
  cases e with
  | initState => exact Or.inl ⟨rfl, rfl⟩
  | refresh => exact Or.inl ⟨rfl, rfl⟩
  | loaded call buses => exact Or.inr ⟨call, buses, rfl, he, rfl⟩

/-- The screen shows the list of the call that completed last. -/
structure ShowsLastCompletion (history : List (Event D T)) (s : HomeState D T) : Prop where
  waiting : ∀ call, call ∈ s.waiting ↔
    call < s.issued ∧ call ∉ (completions history).map Prod.fst
  once : ((completions history).map Prod.fst).Nodup
  issued : ∀ call ∈ (completions history).map Prod.fst, call < s.issued
  shown : s.nextBuses = ((completions history).getLast?.map Prod.snd).getD []
  loading : s.isLoading = (completions history).isEmpty

theorem showsLastCompletion_initial : ShowsLastCompletion [] (initial : HomeState D T) := by
  constructor <;> simp [initial, completions]

theorem showsLastCompletion_load {history : List (Event D T)} {s : HomeState D T} {e : Event D T}
    (h : ShowsLastCompletion history s) (hload : e.completion? = none) :
    ShowsLastCompletion (history ++ [e]) s.loadNextBuses := by
  have hsame : completions (history ++ [e]) = completions history := by
    rw [completions_concat, hload, Option.toList_none, List.append_nil]
  constructor
  case waiting =>
    intro call
    rw [hsame]
    by_cases hnew : call = s.issued
    · have hfresh : call ∉ (completions history).map Prod.fst := by
        intro hmem
        have hlt := h.issued call hmem
        omega
      simp [HomeState.loadNextBuses, hnew, hnew ▸ hfresh]
    · simp only [HomeState.loadNextBuses, List.mem_append, List.mem_singleton, hnew, or_false,
        h.waiting]
      apply and_congr_left
      intro _
      omega
  case once => rw [hsame]; exact h.once
  case issued =>
    rw [hsame]
    intro call hmem
    exact Nat.lt_succ_of_lt (h.issued call hmem)
  case shown => rw [hsame]; exact h.shown
  case loading => rw [hsame]; exact h.loading

theorem showsLastCompletion_loaded {history : List (Event D T)} {s : HomeState D T} {call : ℕ}
    (h : ShowsLastCompletion history s) (hwaiting : call ∈ s.waiting) (buses : List (Bus D T)) :
    ShowsLastCompletion (history ++ [.loaded call buses]) (s.onLoaded call buses) := by
  have hlast : completions (history ++ [.loaded call buses]) =
      completions history ++ [(call, buses)] := completions_concat _ _
  obtain ⟨hcall, hfirst⟩ := (h.waiting call).mp hwaiting
  constructor
  case waiting =>
    intro other
    rw [hlast]
    simp only [HomeState.onLoaded, List.mem_filter, decide_eq_true_eq, h.waiting, List.map_append,
      List.map_singleton, List.mem_append, List.mem_singleton]
    tauto
  case once =>
    rw [hlast, List.map_append, List.map_singleton, List.nodup_append]
    refine ⟨h.once, List.nodup_singleton _, ?_⟩
    intro a ha b hb hab
    rw [hab, List.mem_singleton.mp hb] at ha
    exact hfirst ha
  case issued =>
    rw [hlast, List.map_append]
    intro other hmem
    rcases List.mem_append.mp hmem with hmem | hmem
    · exact h.issued other hmem
    · rw [List.map_singleton, List.mem_singleton] at hmem
      exact hmem ▸ hcall
  case shown => rw [hlast]; simp [HomeState.onLoaded]
  case loading => rw [hlast]; simp [HomeState.onLoaded]

theorem showsLastCompletion_step {history : List (Event D T)} {s t : HomeState D T} {e : Event D T}
    (h : ShowsLastCompletion history s) (hstep : step s e = some t) :
    ShowsLastCompletion (history ++ [e]) t := by
  rcases step_cases hstep with ⟨hload, rfl⟩ | ⟨call, buses, rfl, hwaiting, rfl⟩
  · exact showsLastCompletion_load h hload
  · exact showsLastCompletion_loaded h hwaiting buses

theorem showsLastCompletion_run {events : List (Event D T)} {t : HomeState D T}
    (h : run step initial events = some t) : ShowsLastCompletion events t := by
  apply run_invariant showsLastCompletion_initial ?_ h
  intro history s e t hshows hstep
  exact showsLastCompletion_step hshows hstep

/-- A step takes the list of a call off the screen for the list of a call issued before it. -/
def OlderReplacesNewer (before : List (Event D T)) (s : HomeState D T) (e : Event D T)
    (t : HomeState D T) : Prop :=
  ∃ newer older, older < newer ∧ (completions before).getLast? = some (newer, s.nextBuses) ∧
    e = .loaded older t.nextBuses

/-- An event completes no call issued before the one that completed last, whose list is shown. -/
def NotOlderThanShown (before : List (Event D T)) (e : Event D T) : Prop :=
  ∀ call buses shown, e = .loaded call buses →
    ((completions before).map Prod.fst).getLast? = some shown → shown ≤ call

/-- The calls complete in the order in which they were issued. -/
def InIssueOrder (events : List (Event D T)) : Prop :=
  ((completions events).map Prod.fst).Pairwise (· < ·)

theorem pairwise_lt_concat {l : List ℕ} {n : ℕ} :
    (l ++ [n]).Pairwise (· < ·) ↔ l.Pairwise (· < ·) ∧ ∀ k, l.getLast? = some k → k < n := by
  rw [← List.isChain_iff_pairwise, ← List.isChain_iff_pairwise, List.isChain_append]
  simp

theorem notOlder_of_no_completion {history : List (Event D T)} {e : Event D T}
    (h : e.completion? = none) : NotOlderThanShown history e := by
  rintro call buses shown rfl
  cases h

theorem notOlder_loaded_iff {history : List (Event D T)} {call : ℕ} {buses : List (Bus D T)}
    (hfirst : call ∉ (completions history).map Prod.fst) :
    NotOlderThanShown history (.loaded call buses) ↔
      ∀ shown, ((completions history).map Prod.fst).getLast? = some shown → shown < call := by
  constructor
  · intro hnot shown hshown
    apply lt_of_le_of_ne (hnot call buses shown rfl hshown)
    rintro rfl
    exact hfirst (List.mem_of_getLast? hshown)
  · intro hlt call' buses' shown he hshown
    cases he
    exact (hlt shown hshown).le

theorem notOlder_iff_inIssueOrder {events : List (Event D T)}
    (h : ((completions events).map Prod.fst).Nodup) :
    EachStep NotOlderThanShown events ↔ InIssueOrder events := by
  induction events using List.reverseRecOn with
  | nil => exact iff_of_true (eachStep_nil _) List.Pairwise.nil
  | append_singleton events e ih =>
    rw [completions_concat, List.map_append] at h
    obtain ⟨hold, -, hnew⟩ := List.nodup_append.mp h
    rw [eachStep_concat, ih hold, InIssueOrder, InIssueOrder, completions_concat, List.map_append]
    cases e with
    | initState => simpa [Event.completion?] using fun _ => notOlder_of_no_completion rfl
    | refresh => simpa [Event.completion?] using fun _ => notOlder_of_no_completion rfl
    | loaded call buses =>
      have hfirst : call ∉ (completions events).map Prod.fst := by
        intro hmem
        exact hnew call hmem call List.mem_cons_self rfl
      rw [notOlder_loaded_iff hfirst]
      exact pairwise_lt_concat.symm

theorem olderReplacesNewer_iff {events before : List (Event D T)} {s t : HomeState D T}
    {e : Event D T} (h : StepOf step initial events before s e t) :
    OlderReplacesNewer before s e t ↔ ¬ NotOlderThanShown before e := by
  constructor
  · rintro ⟨newer, older, hlt, hlast, rfl⟩ hnot
    have hshown : ((completions before).map Prod.fst).getLast? = some newer := by
      rw [List.getLast?_map, hlast]
      rfl
    have hle := hnot older t.nextBuses newer rfl hshown
    omega
  · intro hnot
    unfold NotOlderThanShown at hnot
    push Not at hnot
    obtain ⟨older, buses, newer, rfl, hlast, hlt⟩ := hnot
    rw [List.getLast?_map] at hlast
    obtain ⟨⟨_, shown⟩, hcompleted, rfl⟩ := Option.map_eq_some_iff.mp hlast
    have hbefore : s.nextBuses = shown := by
      rw [(showsLastCompletion_run h.found).shown, hcompleted]
      rfl
    rcases step_cases h.taken with ⟨hload, -⟩ | ⟨_, _, hloaded, -, rfl⟩
    · cases hload
    · cases hloaded
      exact ⟨_, older, hlt, by rw [hcompleted, hbefore], rfl⟩

theorem completed_of_waiting_eq_nil {events : List (Event D T)} {t : HomeState D T}
    (h : ShowsLastCompletion events t) (hdone : t.waiting = []) {call : ℕ}
    (hcall : call < t.issued) : call ∈ (completions events).map Prod.fst := by
  by_contra hmissing
  have hwaits := (h.waiting call).mpr ⟨hcall, hmissing⟩
  rw [hdone] at hwaits
  cases hwaits

theorem exists_last_completion {events : List (Event D T)} {t : HomeState D T}
    (h : ShowsLastCompletion events t) (hissued : 0 < t.issued) (hdone : t.waiting = []) :
    t.isLoading = false ∧ ∃ call, (completions events).getLast? = some (call, t.nextBuses) := by
  have hfirst := completed_of_waiting_eq_nil h hdone hissued
  have hne : completions events ≠ [] := by
    intro hnil
    rw [hnil] at hfirst
    cases hfirst
  have hshown := h.shown
  rw [List.getLast?_eq_getLast_of_ne_nil hne] at hshown ⊢
  refine ⟨?_, ((completions events).getLast hne).1, ?_⟩
  · rw [h.loading]
    simpa using hne
  · rw [hshown]
    rfl

theorem last_of_inIssueOrder {events : List (Event D T)} {t : HomeState D T}
    (h : ShowsLastCompletion events t) (horder : InIssueOrder events) (hissued : 0 < t.issued)
    (hdone : t.waiting = []) {call : ℕ} {buses : List (Bus D T)}
    (hlast : (completions events).getLast? = some (call, buses)) : call = t.issued - 1 := by
  have hcalls : ((completions events).map Prod.fst).getLast? = some call := by
    rw [List.getLast?_map, hlast]
    rfl
  have hlt := h.issued call (List.mem_of_getLast? hcalls)
  have hnewest : t.issued - 1 ∈ (completions events).map Prod.fst := by
    apply completed_of_waiting_eq_nil h hdone
    omega
  obtain ⟨earlier, hsplit⟩ := List.getLast?_eq_some_iff.mp hcalls
  rw [InIssueOrder, hsplit, List.pairwise_append] at horder
  rw [hsplit] at hnewest
  rcases List.mem_append.mp hnewest with hearlier | hlastMem
  · have hbefore := horder.2.2 _ hearlier call List.mem_cons_self
    omega
  · exact (List.mem_singleton.mp hlastMem).symm

/-- In every state of a run the screen shows the call that completed last. An older list takes the
place of a newer one in just the runs whose calls overtake each other; where none does and all are
answered, the call issued last is shown in the end. -/
theorem home_shows_last_completion {events : List (Event D T)} {t : HomeState D T}
    (h : run step initial events = some t) :
    Throughout step initial (fun history s =>
      s.nextBuses = ((completions history).getLast?.map Prod.snd).getD [] ∧
      s.isLoading = (completions history).isEmpty) events ∧
    (0 < t.issued → t.waiting = [] →
      t.isLoading = false ∧ ∃ call, (completions events).getLast? = some (call, t.nextBuses)) ∧
    ((∃ before s e u, StepOf step initial events before s e u ∧ OlderReplacesNewer before s e u) ↔
      ¬ InIssueOrder events) ∧
    (InIssueOrder events → 0 < t.issued → t.waiting = [] →
      (completions events).getLast? = some (t.issued - 1, t.nextBuses)) := by
  have hshows := showsLastCompletion_run h
  refine ⟨fun history s _ hs => ?_, exists_last_completion hshows, ?_, ?_⟩
  · have hpast := showsLastCompletion_run hs
    exact ⟨hpast.shown, hpast.loading⟩
  · rw [← notOlder_iff_inIssueOrder hshows.once, ← exists_stepOf_iff h]
    constructor
    · rintro ⟨before, s, e, u, hstep, holder⟩
      exact ⟨before, s, e, u, hstep, (olderReplacesNewer_iff hstep).mp holder⟩
    · rintro ⟨before, s, e, u, hstep, holder⟩
      exact ⟨before, s, e, u, hstep, (olderReplacesNewer_iff hstep).mpr holder⟩
  intro horder hissued hdone
  obtain ⟨-, call, hlast⟩ := exists_last_completion hshows hissued hdone
  rw [hlast, last_of_inIssueOrder hshows horder hissued hdone hlast]

def loadedInTurn : List (Event ℚ DartRuntime.IsoInstant) :=
  [.initState, .refresh, .loaded 0 [], .loaded 1 [sampleBus ⟨"2024-01-01T06:00:00"⟩]]

theorem loadedInTurn_runs : ∃ t, run step initial loadedInTurn = some t ∧ t.issued = 2 ∧
    t.waiting = [] := ⟨_, rfl, rfl, rfl⟩

theorem loaded_in_turn_shows_newest : ∃ t, run step initial loadedInTurn = some t ∧
    (¬ ∃ before s e u, StepOf step initial loadedInTurn before s e u ∧
      OlderReplacesNewer before s e u) ∧
    (completions loadedInTurn).getLast? = some (1, t.nextBuses) := by
  obtain ⟨t, h, hissued, hdone⟩ := loadedInTurn_runs
  obtain ⟨-, -, hiff, hlast⟩ := home_shows_last_completion h
  have horder : InIssueOrder loadedInTurn := by
    unfold InIssueOrder
    decide
  refine ⟨t, h, fun holder => hiff.mp holder horder, ?_⟩
  rw [hlast horder (by omega) hdone, hissued]

theorem overtaken_load_is_shown :
    ¬ ∀ (events : List (Event ℚ DartRuntime.IsoInstant))
      (t : HomeState ℚ DartRuntime.IsoInstant), run step initial events = some t →
        0 < t.issued → t.waiting = [] →
          ∀ buses, (t.issued - 1, buses) ∈ completions events → t.nextBuses = buses := by
  intro h
  have hrun : run step initial
      [.initState, .refresh, .loaded 1 [sampleBus ⟨"2024-01-01T06:00:00"⟩], .loaded 0 []] =
        some (⟨[], false, 2, []⟩ : HomeState ℚ DartRuntime.IsoInstant) := rfl
  have hnewest := h _ _ hrun (by decide) rfl _ List.mem_cons_self
  cases hnewest

end HomeScreen
