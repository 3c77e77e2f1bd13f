import BusSaathi.StatementPrograms
import Mathlib.Data.List.Nodup
import Mathlib.Data.List.Perm.Basic
import Mathlib.Data.Nat.Init
import Mathlib.Logic.Function.Basic
import Mathlib.Logic.Relation
import Mathlib.Data.Fintype.EquivFin
import Mathlib.Order.WellFounded

/-! Several programs in flight over one store, and when an interleaving of them is as
good as running them one after another. Two statements conflict when exchanging them can
change a reply or the store, stores being compared up to an equivalence that the
statements respect; an interleaving whose conflicts have no cycle is serialisable. -/
namespace InterleavedPrograms

open StatementPrograms
open StatementPrograms.Prog

variable {S : Type} {R : S → Type} {ε α σ ι : Type}

/-- Several programs in flight over one store. -/
structure Config (R : S → Type) (ε α σ ι : Type) where
  pool : ι → Prog R ε α
  store : σ

def Config.Equiv [Setoid σ] (c d : Config R ε α σ ι) : Prop := c.pool = d.pool ∧ c.store ≈ d.store

theorem Config.Equiv.refl [Setoid σ] (c : Config R ε α σ ι) : c.Equiv c := ⟨rfl, Setoid.refl _⟩

theorem Config.Equiv.trans [Setoid σ] {a b c : Config R ε α σ ι}
    (h : a.Equiv b) (k : b.Equiv c) : a.Equiv c := ⟨h.1.trans k.1, Setoid.trans h.2 k.2⟩

/-- A statement of `i` ran before a statement of `j` that it conflicts with. -/
def Precedes (conflict : S → S → Prop) (tr : List (ι × S)) (i j : ι) : Prop :=
  i ≠ j ∧ ∃ s t, [(i, s), (j, t)].Sublist tr ∧ conflict s t

/-- No program precedes itself, along however many others. -/
def Acyclic (conflict : S → S → Prop) (tr : List (ι × S)) : Prop :=
  ∀ i, ¬ Relation.TransGen (Precedes conflict tr) i i

theorem acyclic_of_rank {conflict : S → S → Prop} {tr : List (ι × S)} (rank : ι → ℕ)
    (h : tr.Pairwise fun a b => a.1 ≠ b.1 → conflict a.2 b.2 → rank a.1 < rank b.1) :
    Acyclic conflict tr := by
  have hstep : ∀ i j, Precedes conflict tr i j → rank i < rank j := by
    rintro i j ⟨hij, s, t, hs, hc⟩
    exact List.pairwise_iff_forall_sublist.mp h hs hij hc
  have hrank : ∀ i j, Relation.TransGen (Precedes conflict tr) i j → rank i < rank j := by
    intro i j hij
    induction hij with
    | single h => exact hstep _ _ h
    | tail _ h ih => exact ih.trans (hstep _ _ h)
  exact fun i hi => Nat.lt_irrefl _ (hrank i i hi)

variable [DecidableEq ι] (exec : (s : S) → σ → R s × σ)

/-- Program `i` runs its next statement; a finished program stays as it is. -/
def stepAt (i : ι) (c : Config R ε α σ ι) : Config R ε α σ ι :=
  match c.pool i with
  | .stmt s rest =>
    ⟨Function.update c.pool i (rest (exec s c.store).1), (exec s c.store).2⟩
  | _ => c

def runSchedule (w : List ι) (c : Config R ε α σ ι) : Config R ε α σ ι :=
  w.foldl (fun c i => stepAt exec i c) c

/-- The statements that a schedule runs, each with its program. -/
def trace : List ι → Config R ε α σ ι → List (ι × S)
  | [], _ => []
  | i :: w, c =>
    match c.pool i with
    | .stmt s _ => (i, s) :: trace w (stepAt exec i c)
    | _ => trace w c

def finish (i : ι) (c : Config R ε α σ ι) : Config R ε α σ ι :=
  ⟨Function.update c.pool i (ofExcept (run exec (c.pool i) c.store).1),
    (run exec (c.pool i) c.store).2⟩

def runSerial (order : List ι) (c : Config R ε α σ ι) : Config R ε α σ ι :=
  order.foldl (fun c i => finish exec i c) c

def issued : Prog R ε α → σ → List S
  | .stmt s rest, st => s :: issued (rest (exec s st).1) (exec s st).2
  | _, _ => []

@[simp] theorem runSchedule_nil (c : Config R ε α σ ι) : runSchedule exec [] c = c := rfl
@[simp] theorem runSchedule_cons (i : ι) (w : List ι) (c : Config R ε α σ ι) :
    runSchedule exec (i :: w) c = runSchedule exec w (stepAt exec i c) := rfl
@[simp] theorem runSerial_nil (c : Config R ε α σ ι) : runSerial exec [] c = c := rfl
@[simp] theorem runSerial_cons (i : ι) (order : List ι) (c : Config R ε α σ ι) :
    runSerial exec (i :: order) c = runSerial exec order (finish exec i c) := rfl
@[simp] theorem issued_stmt (s : S) (rest : R s → Prog R ε α) (st : σ) :
    issued exec (.stmt s rest) st = s :: issued exec (rest (exec s st).1) (exec s st).2 := rfl

theorem stepAt_stmt {i : ι} {c : Config R ε α σ ι} {s : S} {rest : R s → Prog R ε α}
    (h : c.pool i = .stmt s rest) : stepAt exec i c =
      ⟨Function.update c.pool i (rest (exec s c.store).1), (exec s c.store).2⟩ := by
  simp only [stepAt, h]

theorem trace_stmt {i : ι} {c : Config R ε α σ ι} {s : S} {rest : R s → Prog R ε α}
    (h : c.pool i = .stmt s rest) (w : List ι) :
    trace exec (i :: w) c = (i, s) :: trace exec w (stepAt exec i c) := by
  simp only [trace, h]

theorem issued_finished {p : Prog R ε α} (h : p.Finished) (st : σ) : issued exec p st = [] := by
  cases p with
  | done | fail => rfl
  | stmt s rest => exact h.elim

theorem stepAt_finished {i : ι} {c : Config R ε α σ ι} (h : (c.pool i).Finished) :
    stepAt exec i c = c := by
  unfold stepAt
  cases hp : c.pool i with
  | done | fail => rfl
  | stmt s rest => rw [hp] at h; exact h.elim

theorem trace_finished {i : ι} {c : Config R ε α σ ι} (h : (c.pool i).Finished) (w : List ι) :
    trace exec (i :: w) c = trace exec w c := by
  rw [trace]
  cases hp : c.pool i with
  | done | fail => rfl
  | stmt s rest => rw [hp] at h; exact h.elim

theorem stepAt_pool_self {i : ι} {c : Config R ε α σ ι} {s : S} {rest : R s → Prog R ε α}
    (h : c.pool i = .stmt s rest) : (stepAt exec i c).pool i = rest (exec s c.store).1 := by
  rw [stepAt_stmt exec h]
  exact Function.update_self _ _ _

theorem stepAt_store {i : ι} {c : Config R ε α σ ι} {s : S} {rest : R s → Prog R ε α}
    (h : c.pool i = .stmt s rest) : (stepAt exec i c).store = (exec s c.store).2 := by
  rw [stepAt_stmt exec h]

theorem stepAt_pool_other {i j : ι} (hij : j ≠ i) (c : Config R ε α σ ι) :
    (stepAt exec i c).pool j = c.pool j := by
  unfold stepAt
  split
  · exact Function.update_of_ne hij _ _
  · rfl

theorem not_finished_of_mem_trace {i : ι} {s : S} {w : List ι} {c : Config R ε α σ ι}
    (h : (i, s) ∈ trace exec w c) : ¬ (c.pool i).Finished := by
  induction w generalizing c with
  | nil => cases h
  | cons j w ih =>
    intro hf
    by_cases hj : (c.pool j).Finished
    · rw [trace_finished exec hj] at h
      exact ih h hf
    · have hij : i ≠ j := fun he => hj (he ▸ hf)
      have hstep : ((stepAt exec j c).pool i).Finished := by rwa [stepAt_pool_other exec hij]
      cases hp : c.pool j with
      | done | fail => rw [hp] at hj; exact hj trivial
      | stmt t rest =>
        rw [trace_stmt exec hp] at h
        rcases List.mem_cons.mp h with he | h
        · exact hij (congrArg Prod.fst he)
        · exact ih h hstep

theorem finish_pool_other {i j : ι} (hij : j ≠ i) (c : Config R ε α σ ι) :
    (finish exec i c).pool j = c.pool j := Function.update_of_ne hij _ _

theorem finish_finished {i : ι} {c : Config R ε α σ ι} (h : (c.pool i).Finished) :
    finish exec i c = c := by
  obtain ⟨pool, store⟩ := c
  cases hp : pool i with
  | done a =>
    have hu : Function.update pool i (.done a) = pool := by rw [← hp, Function.update_eq_self]
    simp only [finish, hp, run_done, ofExcept_ok, hu]
  | fail e =>
    have hu : Function.update pool i (.fail e) = pool := by rw [← hp, Function.update_eq_self]
    simp only [finish, hp, run_fail, ofExcept_error, hu]
  | stmt s rest => exact (hp ▸ h : (Prog.stmt s rest).Finished).elim

theorem finish_stepAt (i : ι) (c : Config R ε α σ ι) :
    finish exec i (stepAt exec i c) = finish exec i c := by
  cases hp : c.pool i with
  | done | fail => rw [stepAt_finished exec (by rw [hp]; trivial)]
  | stmt s rest => simp [stepAt_stmt exec hp, finish, hp]

section Commutation

variable [Setoid σ] {conflict : S → S → Prop}

/-- Statements cannot tell equivalent stores apart and keep them equivalent. -/
def Respects (exec : (s : S) → σ → R s × σ) : Prop :=
  ∀ s {st st' : σ}, st ≈ st' →
    (exec s st).1 = (exec s st').1 ∧ (exec s st).2 ≈ (exec s st').2

/-- Either order gives both statements the same replies and the same store. -/
def Commutes (exec : (s : S) → σ → R s × σ) (s t : S) : Prop :=
  ∀ st, (exec s st).1 = (exec s (exec t st).2).1 ∧ (exec t (exec s st).2).1 = (exec t st).1 ∧
    (exec t (exec s st).2).2 ≈ (exec s (exec t st).2).2

theorem stepAt_congr (hexec : Respects exec) (i : ι) {c d : Config R ε α σ ι}
    (h : c.Equiv d) : (stepAt exec i c).Equiv (stepAt exec i d) := by
  cases hp : c.pool i with
  | done | fail =>
    rw [stepAt_finished exec (by rw [hp]; trivial),
      stepAt_finished exec (by rw [← h.1, hp]; trivial)]
    exact h
  | stmt s rest =>
    have hq : d.pool i = .stmt s rest := by rw [← h.1, hp]
    obtain ⟨hr, hs⟩ := hexec s h.2
    rw [stepAt_stmt exec hp, stepAt_stmt exec hq]
    exact ⟨by rw [h.1, hr], hs⟩

theorem runSchedule_congr (hexec : Respects exec) (w : List ι) {c d : Config R ε α σ ι}
    (h : c.Equiv d) : (runSchedule exec w c).Equiv (runSchedule exec w d) := by
  induction w generalizing c d with
  | nil => exact h
  | cons i w ih => exact ih (stepAt_congr exec hexec i h)

theorem trace_congr (hexec : Respects exec) (w : List ι) {c d : Config R ε α σ ι}
    (h : c.Equiv d) : trace exec w c = trace exec w d := by
  induction w generalizing c d with
  | nil => rfl
  | cons i w ih =>
    cases hp : c.pool i with
    | done | fail =>
      rw [trace_finished exec (by rw [hp]; trivial),
        trace_finished exec (by rw [← h.1, hp]; trivial)]
      exact ih h
    | stmt s rest =>
      have hq : d.pool i = .stmt s rest := by rw [← h.1, hp]
      rw [trace_stmt exec hp, trace_stmt exec hq, ih (stepAt_congr exec hexec i h)]

theorem run_congr (hexec : Respects exec) (p : Prog R ε α) {st st' : σ} (h : st ≈ st') :
    (run exec p st).1 = (run exec p st').1 ∧ (run exec p st).2 ≈ (run exec p st').2 ∧
      issued exec p st = issued exec p st' := by
  induction p generalizing st st' with
  | done | fail => exact ⟨rfl, h, rfl⟩
  | stmt s rest ih =>
    obtain ⟨hr, hs⟩ := hexec s h
    rw [run_stmt, run_stmt, issued_stmt, issued_stmt, hr]
    obtain ⟨h1, h2, h3⟩ := ih (exec s st').1 hs
    exact ⟨h1, h2, congrArg _ h3⟩

theorem run_past (hexec : Respects exec) (p : Prog R ε α) {t : S} {st : σ}
    (h : ∀ s ∈ issued exec p (exec t st).2, Commutes exec s t) :
    issued exec p st = issued exec p (exec t st).2 ∧
    (run exec p st).1 = (run exec p (exec t st).2).1 ∧
    (exec t (run exec p st).2).1 = (exec t st).1 ∧
    (exec t (run exec p st).2).2 ≈ (run exec p (exec t st).2).2 := by
  induction p generalizing st with
  | done | fail => exact ⟨rfl, rfl, rfl, Setoid.refl _⟩
  | stmt s rest ih =>
    rw [issued_stmt] at h
    obtain ⟨hs, ht, hst⟩ := h s List.mem_cons_self st
    rw [← hs] at h
    obtain ⟨hc1, hc2, hc3⟩ := run_congr exec hexec (rest (exec s st).1) hst
    have htail : ∀ s' ∈ issued exec (rest (exec s st).1) (exec t (exec s st).2).2,
        Commutes exec s' t := fun s' hs' => h s' (List.mem_cons_of_mem s (hc3 ▸ hs'))
    obtain ⟨h1, h2, h3, h4⟩ := ih (exec s st).1 htail
    rw [issued_stmt, issued_stmt, run_stmt, run_stmt, ← hs]
    exact ⟨congrArg _ (h1.trans hc3), h2.trans hc1, h3.trans ht, Setoid.trans h4 hc2⟩

theorem finish_stepAt_comm (hexec : Respects exec) {i j : ι} (hij : i ≠ j)
    {c : Config R ε α σ ι} {t : S} {rest : R t → Prog R ε α} (hj : c.pool j = .stmt t rest)
    (h : ∀ s ∈ issued exec (c.pool i) (exec t c.store).2, Commutes exec s t) :
    (finish exec i (stepAt exec j c)).Equiv (stepAt exec j (finish exec i c)) := by
  obtain ⟨-, hres, hreply, hstore⟩ := run_past exec hexec (c.pool i) h
  have hj' : (finish exec i c).pool j = .stmt t rest := by
    rw [finish_pool_other exec hij.symm, hj]
  rw [stepAt_stmt exec hj', stepAt_stmt exec hj]
  refine ⟨?_, ?_⟩
  · simp only [finish, Function.update_of_ne hij, hres, hreply]
    exact Function.update_comm hij.symm _ _ _
  · simp only [finish, Function.update_of_ne hij]
    exact Setoid.symm hstore

/-- Running program `i` to its end first leads where the schedule leads: the others run the
same statements as before, and those of `i` are all in the trace. -/
structure RunsFirst (i : ι) (w : List ι) (c : Config R ε α σ ι) : Prop where
  same_end : (runSchedule exec w c).Equiv
    (runSchedule exec (w.filter (· ≠ i)) (finish exec i c))
  same_trace : trace exec (w.filter (· ≠ i)) (finish exec i c) =
    (trace exec w c).filter (fun e => e.1 ≠ i)
  in_trace : ∀ s ∈ issued exec (c.pool i) c.store, (i, s) ∈ trace exec w c

theorem runsFirst_nil {i : ι} {c : Config R ε α σ ι} (h : (c.pool i).Finished) :
    RunsFirst exec i [] c := by
  constructor
  · rw [finish_finished exec h]
    exact .refl _
  · rfl
  · simp [issued_finished exec h]

theorem runsFirst_idle {i j : ι} {w : List ι} {c : Config R ε α σ ι} (hj : (c.pool j).Finished)
    (h : RunsFirst exec i w c) : RunsFirst exec i (j :: w) c := by
  obtain ⟨h1, h2, h3⟩ := h
  have hrest : (runSchedule exec ((j :: w).filter (· ≠ i)) (finish exec i c) =
      runSchedule exec (w.filter (· ≠ i)) (finish exec i c)) ∧
      trace exec ((j :: w).filter (· ≠ i)) (finish exec i c) =
        trace exec (w.filter (· ≠ i)) (finish exec i c) := by
    by_cases hji : j = i
    · rw [List.filter_cons_of_neg (by simpa using hji)]
      exact ⟨rfl, rfl⟩
    · have hj' : ((finish exec i c).pool j).Finished := by rwa [finish_pool_other exec hji]
      rw [List.filter_cons_of_pos (by simpa using hji), runSchedule_cons,
        stepAt_finished exec hj', trace_finished exec hj']
      exact ⟨rfl, rfl⟩
  constructor
  · rw [runSchedule_cons, stepAt_finished exec hj, hrest.1]
    exact h1
  · rw [trace_finished exec hj, hrest.2]
    exact h2
  · rw [trace_finished exec hj]
    exact h3

theorem runsFirst_own {i : ι} {w : List ι} {c : Config R ε α σ ι} {s : S}
    {rest : R s → Prog R ε α} (hi : c.pool i = .stmt s rest)
    (h : RunsFirst exec i w (stepAt exec i c)) : RunsFirst exec i (i :: w) c := by
  obtain ⟨h1, h2, h3⟩ := h
  rw [finish_stepAt exec] at h1 h2
  rw [stepAt_pool_self exec hi, stepAt_store exec hi] at h3
  have hskip : (i :: w).filter (· ≠ i) = w.filter (· ≠ i) := List.filter_cons_of_neg (by simp)
  constructor
  · rw [hskip]
    exact h1
  · rw [hskip, trace_stmt exec hi, List.filter_cons_of_neg (by simp)]
    exact h2
  · rw [trace_stmt exec hi, hi, issued_stmt]
    intro t ht
    rcases List.mem_cons.mp ht with rfl | ht
    · exact List.mem_cons_self
    · exact List.mem_cons_of_mem _ (h3 t ht)

theorem runsFirst_foreign (hexec : Respects exec) {i j : ι} (hji : j ≠ i) {w : List ι}
    {c : Config R ε α σ ι} {t : S} {rest : R t → Prog R ε α} (hj : c.pool j = .stmt t rest)
    (hcomm : ∀ s, (i, s) ∈ trace exec w (stepAt exec j c) → Commutes exec s t)
    (h : RunsFirst exec i w (stepAt exec j c)) : RunsFirst exec i (j :: w) c := by
  obtain ⟨h1, h2, h3⟩ := h
  rw [stepAt_pool_other exec (Ne.symm hji), stepAt_store exec hj] at h3
  have hpast : ∀ s ∈ issued exec (c.pool i) (exec t c.store).2, Commutes exec s t :=
    fun s hs => hcomm s (h3 s hs)
  have hmove := finish_stepAt_comm exec hexec (Ne.symm hji) hj hpast
  have hj' : (finish exec i c).pool j = .stmt t rest := by rw [finish_pool_other exec hji, hj]
  have hkeep : (j :: w).filter (· ≠ i) = j :: w.filter (· ≠ i) :=
    List.filter_cons_of_pos (by simpa using hji)
  constructor
  · rw [hkeep]
    exact h1.trans (runSchedule_congr exec hexec _ hmove)
  · rw [hkeep, trace_stmt exec hj', trace_stmt exec hj,
      List.filter_cons_of_pos (by simpa using hji), ← h2, trace_congr exec hexec _ hmove]
  · intro s hs
    rw [(run_past exec hexec (c.pool i) hpast).1] at hs
    rw [trace_stmt exec hj]
    exact List.mem_cons_of_mem _ (h3 s hs)

theorem runSchedule_finish (hexec : Respects exec) (i : ι) (w : List ι) (c : Config R ε α σ ι)
    (hconflict : ∀ s t, ¬ conflict s t → Commutes exec s t)
    (hw : ∀ j, ¬ Precedes conflict (trace exec w c) j i)
    (hdone : ((runSchedule exec w c).pool i).Finished) : RunsFirst exec i w c := by
  induction w generalizing c with
  | nil => exact runsFirst_nil exec hdone
  | cons j w ih =>
    cases hj : c.pool j with
    | done | fail =>
      have hidle : (c.pool j).Finished := by rw [hj]; trivial
      rw [trace_finished exec hidle] at hw
      rw [runSchedule_cons, stepAt_finished exec hidle] at hdone
      exact runsFirst_idle exec hidle (ih c hw hdone)
    | stmt t rest =>
      rw [trace_stmt exec hj] at hw
      have hrest : ∀ k, ¬ Precedes conflict (trace exec w (stepAt exec j c)) k i :=
        fun k ⟨hk, s, s', hs, hc⟩ => hw k ⟨hk, s, s', hs.cons _, hc⟩
      have hfirst := ih (stepAt exec j c) hrest hdone
      by_cases hji : j = i
      · subst j
        exact runsFirst_own exec hj hfirst
      · refine runsFirst_foreign exec hexec hji hj ?_ hfirst
        intro s hs st
        have hsub := (List.singleton_sublist.mpr hs).cons_cons (j, t)
        obtain ⟨ht, hs', hst⟩ := hconflict t s (fun h => hw j ⟨hji, t, s, hsub, h⟩) st
        exact ⟨hs'.symm, ht.symm, Setoid.symm hst⟩

/-- Running the programs one after another, in any order that the conflicts of the
interleaving allow, gives what the interleaving gave. -/
theorem runSchedule_serial (hexec : Respects exec) (order w : List ι) (c : Config R ε α σ ι)
    (hconflict : ∀ s t, ¬ conflict s t → Commutes exec s t)
    (hall : ∀ i, i ∉ order → (c.pool i).Finished)
    (horder : order.Pairwise fun i j => ¬ Precedes conflict (trace exec w c) j i)
    (hdone : ∀ i, ((runSchedule exec w c).pool i).Finished) :
    (runSchedule exec w c).Equiv (runSerial exec order c) := by
  induction order generalizing w c with
  | nil =>
    have hidle : runSchedule exec w c = c := by
      clear hdone horder
      induction w with
      | nil => rfl
      | cons i w ih =>
        rw [runSchedule_cons, stepAt_finished exec (hall i List.not_mem_nil), ih]
    rw [hidle]
    exact .refl _
  | cons i order ih =>
    rw [List.pairwise_cons] at horder
    have hfirst : ∀ j, ¬ Precedes conflict (trace exec w c) j i := by
      rintro j ⟨hji, s, t, hs, hc⟩
      by_cases hj : j ∈ order
      · exact horder.1 j hj ⟨hji, s, t, hs, hc⟩
      · have hj' : j ∉ i :: order := by simp [hji, hj]
        exact not_finished_of_mem_trace exec (hs.subset List.mem_cons_self) (hall j hj')
    obtain ⟨hrun, htrace, -⟩ := runSchedule_finish exec hexec i w c hconflict hfirst (hdone i)
    have hall' : ∀ j, j ∉ order → ((finish exec i c).pool j).Finished := by
      intro j hj
      by_cases hji : j = i
      · subst j
        simp only [finish, Function.update_self]
        exact ofExcept_finished _
      · rw [finish_pool_other exec hji]
        exact hall j (by simp [hji, hj])
    refine hrun.trans (ih _ _ hall' ?_ fun j => hrun.1 ▸ hdone j)
    refine horder.2.imp fun h hp => h ?_
    obtain ⟨hne, s, t, hs, hc⟩ := hp
    rw [htrace] at hs
    exact ⟨hne, s, t, hs.trans List.filter_sublist, hc⟩

end Commutation

theorem exists_order [Finite ι] {before : ι → ι → Prop}
    (hacyclic : ∀ i, ¬ Relation.TransGen before i i) (all : List ι) :
    ∃ order : List ι, order.Perm all ∧ order.Pairwise fun i j => ¬ before j i := by
  have : Std.Irrefl (Relation.TransGen before) := ⟨hacyclic⟩
  have hwf : WellFounded (Relation.TransGen before) := Finite.wellFounded_of_trans_of_irrefl _
  generalize hn : all.length = n
  induction n generalizing all with
  | zero => exact ⟨[], by rw [List.length_eq_zero_iff.mp hn], .nil⟩
  | succ n ih =>
    have hne : ∃ i, i ∈ all := List.exists_mem_of_length_pos (by omega)
    obtain ⟨first, hmem, hmin⟩ := hwf.has_min {i | i ∈ all} hne
    obtain ⟨order, hperm, hord⟩ := ih (all.erase first) (by
      rw [List.length_erase_of_mem hmem, hn, Nat.add_sub_cancel])
    refine ⟨first :: order, (hperm.cons first).trans (List.perm_cons_erase hmem).symm, ?_⟩
    rw [List.pairwise_cons]
    refine ⟨fun j hj hb => hmin j ?_ (.single hb), hord⟩
    exact List.mem_of_mem_erase (hperm.mem_iff.mp hj)

/-- An interleaving whose conflicts have no cycle is serialisable. -/
theorem exists_serial_order [Setoid σ] [Finite ι] {conflict : S → S → Prop}
    (hexec : Respects exec) (hconflict : ∀ s t, ¬ conflict s t → Commutes exec s t)
    (all w : List ι) (hall : ∀ i, i ∈ all) (c : Config R ε α σ ι)
    (hacyclic : Acyclic conflict (trace exec w c))
    (hdone : ∀ i, ((runSchedule exec w c).pool i).Finished) :
    ∃ order : List ι, order.Perm all ∧ (runSchedule exec w c).Equiv (runSerial exec order c) := by
  obtain ⟨order, hperm, horder⟩ := exists_order hacyclic all
  refine ⟨order, hperm, runSchedule_serial exec hexec order w c hconflict ?_ horder hdone⟩
  exact fun i hi => absurd (hperm.mem_iff.mpr (hall i)) hi

end InterleavedPrograms
