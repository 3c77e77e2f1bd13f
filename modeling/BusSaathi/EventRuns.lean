import Mathlib.Data.List.Induction
import Mathlib.Data.List.Infix
import Mathlib.Logic.Basic

/-! Runs of an event machine: a list of events taken one after another, which is no run where
an event is not enabled. Facts about runs relate the history to the state it leads to. -/
namespace EventRuns

variable {S E : Type} {step : S → E → Option S} {init : S}

def run (step : S → E → Option S) (init : S) (events : List E) : Option S :=
  events.foldlM step init

theorem run_append {events more : List E} {t : S} : run step init (events ++ more) = some t ↔
    ∃ s, run step init events = some s ∧ run step s more = some t := by
  rw [run, List.foldlM_append]
  exact Option.bind_eq_some_iff

theorem run_concat {events : List E} {e : E} {t : S} : run step init (events ++ [e]) = some t ↔
    ∃ s, run step init events = some s ∧ step s e = some t := by
  have hone (s : S) : run step s [e] = step s e := List.foldlM_cons.trans (bind_pure _)
  simp only [run_append, hone]

/-- The machine that takes an event exactly where it is enabled. -/
def guarded (Enabled : S → E → Prop) [∀ s e, Decidable (Enabled s e)] (next : S → E → S) (s : S)
    (e : E) : Option S :=
  if Enabled s e then some (next s e) else none

theorem guarded_eq_some {Enabled : S → E → Prop} [∀ s e, Decidable (Enabled s e)]
    {next : S → E → S} {s t : S} {e : E} :
    guarded Enabled next s e = some t ↔ Enabled s e ∧ t = next s e := by
  by_cases he : Enabled s e
  · simp [guarded, he, eq_comm]
  · simp [guarded, he]

theorem run_invariant {I : List E → S → Prop} (hinit : I [] init)
    (hstep : ∀ history s e t, I history s → step s e = some t → I (history ++ [e]) t)
    {events : List E} {t : S} (h : run step init events = some t) : I events t := by
  induction events using List.reverseRecOn generalizing t with
  | nil =>
    cases h
    exact hinit
  | append_singleton events e ih =>
    obtain ⟨s, hs, ht⟩ := run_concat.mp h
    exact hstep events s e t (ih hs) ht

theorem foldl_invariant {next : S → E → S} {I : List E → S → Prop} (hinit : I [] init)
    (hstep : ∀ history s e, I history s → I (history ++ [e]) (next s e)) (events : List E) :
    I events (events.foldl next init) := by
  induction events using List.reverseRecOn with
  | nil => exact hinit
  | append_singleton events e ih =>
    rw [List.foldl_concat]
    exact hstep events _ e ih

/-- The states that a run passes through, its last one included. -/
def Visits (step : S → E → Option S) (init : S) (events : List E) (s : S) : Prop :=
  ∃ history, history <+: events ∧ run step init history = some s

theorem Visits.later {events : List E} {s : S} (h : Visits step init events s) (e : E) :
    Visits step init (events ++ [e]) s := by
  obtain ⟨history, hpast, hrun⟩ := h
  exact ⟨history, hpast.trans (List.prefix_append _ _), hrun⟩

theorem forall_visits_iff {P : S → Prop} (hback : ∀ s e t, step s e = some t → P t → P s)
    {events : List E} {t : S} (h : run step init events = some t) :
    (∀ s, Visits step init events s → P s) ↔ P t := by
  constructor
  · intro hall
    exact hall t ⟨events, List.prefix_refl events, h⟩
  · rintro ht s ⟨history, ⟨more, rfl⟩, hrun⟩
    obtain ⟨s', hs', hmore⟩ := run_append.mp h
    obtain rfl : s' = s := Option.some.inj (hs'.symm.trans hrun)
    refine run_invariant (I := fun _ u => P u → P s') id ?_ hmore ht
    intro _ u e v hu hstep hv
    exact hu (hback u e v hstep hv)

theorem concat_eq_append_cons {events before after : List E} {last e : E} :
    events ++ [last] = before ++ e :: after ↔ (before = events ∧ e = last ∧ after = []) ∨
      ∃ most, after = most ++ [last] ∧ events = before ++ e :: most := by
  constructor
  · intro hsplit
    rcases List.eq_nil_or_concat after with rfl | ⟨most, last', rfl⟩
    · obtain ⟨hbefore, he⟩ := List.append_inj' hsplit rfl
      exact Or.inl ⟨hbefore.symm, (List.singleton_inj.mp he).symm, rfl⟩
    · rw [List.concat_eq_append, ← List.cons_append, ← List.append_assoc] at hsplit
      obtain ⟨hevents, hlast⟩ := List.append_inj' hsplit rfl
      rw [List.concat_eq_append, List.singleton_inj.mp hlast]
      exact Or.inr ⟨most, rfl, hevents⟩
  · rintro (⟨rfl, rfl, rfl⟩ | ⟨most, rfl, rfl⟩)
    · rfl
    · rw [List.append_assoc, List.cons_append]

/-- Every event of a run meets a condition on the history it finds. -/
def EachStep (P : List E → E → Prop) (events : List E) : Prop :=
  ∀ before e after, events = before ++ e :: after → P before e

theorem eachStep_nil (P : List E → E → Prop) : EachStep P [] := by
  intro before e after h
  simp at h

theorem eachStep_concat {P : List E → E → Prop} {events : List E} {e : E} :
    EachStep P (events ++ [e]) ↔ EachStep P events ∧ P events e := by
  constructor
  · intro h
    constructor
    · rintro before e' after rfl
      exact h before e' (after ++ [e]) (concat_eq_append_cons.mpr (Or.inr ⟨after, rfl, rfl⟩))
    · exact h events e [] rfl
  · rintro ⟨hold, hlast⟩ before e' after hsplit
    rcases concat_eq_append_cons.mp hsplit with ⟨rfl, rfl, -⟩ | ⟨most, -, hevents⟩
    · exact hlast
    · exact hold before e' most hevents

theorem eachStep_congr {P P' : List E → E → Prop} {Q : List E → Prop} (hinit : Q [])
    (hkeep : ∀ history e, Q history → P history e → Q (history ++ [e]))
    (hiff : ∀ history e, Q history → (P history e ↔ P' history e)) (events : List E) :
    EachStep P events ↔ EachStep P' events := by
  suffices hboth : (EachStep P events ↔ EachStep P' events) ∧ (EachStep P events → Q events) from
    hboth.1
  induction events using List.reverseRecOn with
  | nil => exact ⟨iff_of_true (eachStep_nil P) (eachStep_nil P'), fun _ => hinit⟩
  | append_singleton events e ih =>
    obtain ⟨hboth, hq⟩ := ih
    rw [eachStep_concat, eachStep_concat, ← hboth]
    refine ⟨and_congr_right fun hold => hiff events e (hq hold), ?_⟩
    rintro ⟨hold, hlast⟩
    exact hkeep events e (hq hold) hlast

/-- A step of a run, with the history that it finds. -/
structure StepOf (step : S → E → Option S) (init : S) (events before : List E) (s : S) (e : E)
    (t : S) : Prop where
  within : before ++ [e] <+: events
  found : run step init before = some s
  taken : step s e = some t

theorem exists_stepOf_iff {P : List E → E → Prop} {events : List E} {t : S}
    (h : run step init events = some t) :
    (∃ before s e u, StepOf step init events before s e u ∧ ¬ P before e) ↔
      ¬ EachStep P events := by
  constructor
  · rintro ⟨before, s, e, u, ⟨⟨after, hsplit⟩, -, -⟩, hfails⟩ hall
    rw [List.append_assoc] at hsplit
    exact hfails (hall before e after hsplit.symm)
  · intro hnot
    unfold EachStep at hnot
    push Not at hnot
    obtain ⟨before, e, after, rfl, hfails⟩ := hnot
    obtain ⟨s, hs, hmore⟩ := run_append.mp h
    obtain ⟨u, hu, -⟩ := Option.bind_eq_some_iff.mp hmore
    refine ⟨before, s, e, u, ⟨⟨after, ?_⟩, hs, hu⟩, hfails⟩
    rw [List.append_assoc]
    rfl

/-- Every occurrence of `b` has an `a` before it. -/
def Preceded (a b : E) (events : List E) : Prop :=
  ∀ before after, events = before ++ b :: after → a ∈ before

theorem preceded_iff_eachStep {a b : E} {events : List E} :
    Preceded a b events ↔ EachStep (fun before e => e = b → a ∈ before) events := by
  constructor
  · rintro h before e after hsplit rfl
    exact h before after hsplit
  · intro h before after hsplit
    exact h before b after hsplit rfl

theorem preceded_of_take {a b : E} {events : List E} {n : ℕ} (ha : a ∈ events.take n)
    (hb : b ∉ events.take n) : Preceded a b events := by
  rintro before after rfl
  by_cases hn : before.length < n
  · obtain ⟨k, rfl⟩ := Nat.exists_eq_add_of_lt hn
    rw [Nat.add_assoc, List.take_length_add_append, List.take_succ_cons] at hb
    exact absurd (List.mem_append_right before List.mem_cons_self) hb
  · rw [List.take_append_of_le_length (by omega)] at ha
    exact List.mem_of_mem_take ha

theorem preceded_nil (a b : E) : Preceded a b [] :=
  preceded_iff_eachStep.mpr (eachStep_nil _)

theorem preceded_concat {a b e : E} {events : List E} :
    Preceded a b (events ++ [e]) ↔ Preceded a b events ∧ (e = b → a ∈ events) := by
  rw [preceded_iff_eachStep, preceded_iff_eachStep, eachStep_concat]

theorem preceded_concat_of_ne {a b e : E} {events : List E} (h : e ≠ b) :
    Preceded a b (events ++ [e]) ↔ Preceded a b events := by
  rw [preceded_concat]
  exact and_iff_left fun he => absurd he h

/-- At every point of a run, `Q` relates the history to the state. -/
def Throughout (step : S → E → Option S) (init : S) (Q : List E → S → Prop) (events : List E) :
    Prop := ∀ history s, history <+: events → run step init history = some s → Q history s

theorem throughout_concat {Q : List E → S → Prop} {events : List E} {e : E} {t : S}
    (h : run step init (events ++ [e]) = some t) :
    Throughout step init Q (events ++ [e]) ↔
      Throughout step init Q events ∧ Q (events ++ [e]) t := by
  constructor
  · intro hall
    constructor
    · intro history s hpast
      exact hall history s (hpast.trans (List.prefix_append _ _))
    · exact hall _ t (List.prefix_refl _) h
  · rintro ⟨hold, hlast⟩ history s hpast hrun
    rcases List.prefix_concat_iff.mp hpast with rfl | hpast
    · obtain rfl : t = s := Option.some.inj (h.symm.trans hrun)
      exact hlast
    · exact hold history s hpast hrun

/-- Where an invariant `I` lasts as long as the steps meet a condition, and then a step keeps
`Q` exactly when it meets the condition too, `Q` holds throughout a run exactly when every
step does. -/
theorem throughout_iff_eachStep {P : List E → E → Prop} {I Q : List E → S → Prop}
    (hinit : I [] init ∧ Q [] init)
    (hkeep : ∀ history s e t, I history s → step s e = some t → P history e → I (history ++ [e]) t)
    (hstep : ∀ history s e t, I history s → Q history s → step s e = some t →
      (Q (history ++ [e]) t ↔ P history e))
    {events : List E} {t : S} (h : run step init events = some t) :
    Throughout step init Q events ↔ EachStep P events := by
  suffices hboth : (Throughout step init Q events ↔ EachStep P events) ∧
      (EachStep P events → I events t) from hboth.1
  induction events using List.reverseRecOn generalizing t with
  | nil =>
    cases h
    refine ⟨iff_of_true ?_ (eachStep_nil P), fun _ => hinit.1⟩
    intro history s hpast hrun
    obtain rfl := List.prefix_nil.mp hpast
    cases hrun
    exact hinit.2
  | append_singleton events e ih =>
    obtain ⟨s, hs, hst⟩ := run_concat.mp h
    obtain ⟨hiff, hinv⟩ := ih hs
    rw [throughout_concat h, eachStep_concat, hiff]
    constructor
    · apply and_congr_right
      intro hold
      have hq : Q events s := hiff.mpr hold events s (List.prefix_refl _) hs
      exact hstep events s e t (hinv hold) hq hst
    · rintro ⟨hold, hlast⟩
      exact hkeep events s e t (hinv hold) hst hlast

end EventRuns
