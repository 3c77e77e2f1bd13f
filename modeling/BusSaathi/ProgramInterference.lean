import BusSaathi.InterleavedPrograms

/-! Programs whose store others change between their statements. What the others may do is a
reflexive and transitive relation on stores, which every program keeps to in its turn; a program
that is safe against it ends in its postcondition however it is interleaved. Against no bound at
all, what a program ends with is a function of the stores its statements meet. -/
namespace ProgramInterference

open StatementPrograms StatementPrograms.Prog InterleavedPrograms

variable {S : Type} {R : S → Type} {ε α β σ ι : Type}

/-- What may happen to the store between two statements of a program. -/
structure Interference (σ : Type) where
  may : σ → σ → Prop
  refl : ∀ st, may st st
  trans : ∀ {st mid st'}, may st mid → may mid st' → may st st'

def Interference.any : Interference σ := ⟨fun _ _ => True, fun _ => trivial, fun _ _ => trivial⟩

def Interference.keeping (I : σ → Prop) : Interference σ where
  may := fun st st' => I st → I st'
  refl := fun _ => id
  trans := fun h k => k ∘ h

variable (exec : (s : S) → σ → R s × σ) (env : Interference σ)

/-- Every statement of the program stays within the interference, and the end meets `post`,
whatever happens in between. -/
def Safe (post : Except ε α → σ → Prop) : Prog R ε α → σ → Prop
  | .done a, st => ∀ st', env.may st st' → post (.ok a) st'
  | .fail e, st => ∀ st', env.may st st' → post (.error e) st'
  | .stmt s rest, st => ∀ st', env.may st st' → env.may st' (exec s st').2 ∧
      Safe post (rest (exec s st').1) (exec s st').2

variable {exec} {env} {post post' : Except ε α → σ → Prop} {p : Prog R ε α} {st st' : σ}

theorem Safe.later (h : Safe exec env post p st) (hst : env.may st st') :
    Safe exec env post p st' := by
  cases p with
  | done | fail | stmt =>
    intro st'' hst'
    exact h st'' (env.trans hst hst')

theorem Safe.statement {s : S} {rest : R s → Prog R ε α}
    (h : Safe exec env post (.stmt s rest) st) : env.may st (exec s st).2 ∧
      Safe exec env post (rest (exec s st).1) (exec s st).2 := h st (env.refl st)

theorem Safe.advance (h : Safe exec env post p st) : env.may st (advance exec p st).2 ∧
    Safe exec env post (advance exec p st).1 (advance exec p st).2 := by
  cases p with
  | done | fail => exact ⟨env.refl st, h⟩
  | stmt s rest => exact h.statement

theorem Safe.result {a : α} (h : Safe exec env post p st) (ha : p.result? = some a) :
    post (.ok a) st := by
  cases p with
  | done b =>
    cases ha
    exact h st (env.refl st)
  | fail | stmt => cases ha

theorem Safe.mono (h : Safe exec env post p st) (hpost : ∀ r st, post r st → post' r st) :
    Safe exec env post' p st := by
  induction p generalizing st with
  | done a =>
    intro st' hst
    exact hpost _ _ (h st' hst)
  | fail e =>
    intro st' hst
    exact hpost _ _ (h st' hst)
  | stmt s rest ih =>
    intro st' hst
    exact ⟨(h st' hst).1, ih _ (h st' hst).2⟩

theorem safe_ofExcept {x : Except ε α} (h : ∀ st', env.may st st' → post x st') :
    Safe exec env post (ofExcept x) st := by
  cases x with
  | ok a => exact h
  | error e => exact h

theorem Safe.bind {f : α → Prog R ε β} {post : Except ε β → σ → Prop}
    (h : Safe exec env (fun r st => match r with
      | .ok a => Safe exec env post (f a) st
      | .error e => post (.error e) st) p st) :
    Safe exec env post (p >>= f) st := by
  induction p generalizing st with
  | done a => exact h st (env.refl st)
  | fail e => exact h
  | stmt s rest ih =>
    intro st' hst
    exact ⟨(h st' hst).1, ih _ (h st' hst).2⟩

theorem Safe.catchError {handler : ε → Prog R ε α}
    (h : Safe exec env (fun r st => match r with
      | .ok a => post (.ok a) st
      | .error e => Safe exec env post (handler e) st) p st) :
    Safe exec env post (p.catchError handler) st := by
  induction p generalizing st with
  | done a => exact h
  | fail e => exact h st (env.refl st)
  | stmt s rest ih =>
    intro st' hst
    exact ⟨(h st' hst).1, ih _ (h st' hst).2⟩

theorem safe_of_within {A : S → Prop} (hp : p.Within A)
    (hA : ∀ s st, A s → env.may st (exec s st).2) :
    Safe exec env (fun _ _ => True) p st := by
  induction p generalizing st with
  | done | fail => exact fun _ _ => trivial
  | stmt s rest ih =>
    intro st' _
    exact ⟨hA s st' hp.1, ih _ (hp.2 _)⟩

theorem Safe.of_any {A : S → Prop} (h : Safe exec .any post p st) (hp : p.Within A)
    (hA : ∀ s st, A s → env.may st (exec s st).2) : Safe exec env post p st := by
  induction p generalizing st with
  | done | fail => exact fun st' _ => h st' trivial
  | stmt s rest ih =>
    intro st' _
    exact ⟨hA s st' hp.1, ih _ (h st' trivial).2 (hp.2 _)⟩

theorem Safe.run (h : Safe exec env post p st) :
    post (run exec p st).1 (run exec p st).2 ∧ env.may st (run exec p st).2 := by
  induction p generalizing st with
  | done | fail => exact ⟨h st (env.refl st), env.refl st⟩
  | stmt s rest ih =>
    obtain ⟨hmay, hrest⟩ := h.statement
    obtain ⟨hpost, hend⟩ := ih _ hrest
    exact ⟨hpost, env.trans hmay hend⟩

section Pools

variable [DecidableEq ι] {c : Config R ε α σ ι} {goal : ι → Except ε α → σ → Prop}

theorem safe_stepAt (h : ∀ i, Safe exec env (goal i) (c.pool i) c.store) (j : ι) :
    env.may c.store (stepAt exec j c).store ∧
      ∀ i, Safe exec env (goal i) ((stepAt exec j c).pool i) (stepAt exec j c).store := by
  cases hj : c.pool j with
  | done | fail =>
    rw [stepAt_finished exec (by rw [hj]; trivial)]
    exact ⟨env.refl _, h⟩
  | stmt s rest =>
    have hown := h j
    rw [hj] at hown
    obtain ⟨hmay, hrest⟩ := hown.statement
    rw [stepAt_store exec hj]
    refine ⟨hmay, ?_⟩
    intro i
    by_cases hij : i = j
    · subst hij
      rw [stepAt_pool_self exec hj]
      exact hrest
    · rw [stepAt_pool_other exec hij]
      exact (h i).later hmay

/-- Programs that are safe one by one stay so in every schedule. -/
theorem safe_runSchedule (h : ∀ i, Safe exec env (goal i) (c.pool i) c.store) (w : List ι) :
    env.may c.store (runSchedule exec w c).store ∧
      ∀ i, Safe exec env (goal i) ((runSchedule exec w c).pool i) (runSchedule exec w c).store := by
  induction w generalizing c with
  | nil => exact ⟨env.refl _, h⟩
  | cons j w ih =>
    obtain ⟨hmay, hstep⟩ := safe_stepAt h j
    obtain ⟨hend, hsafe⟩ := ih hstep
    exact ⟨env.trans hmay hend, hsafe⟩

theorem within_stepAt {A : S → Prop} {i : ι} (h : (c.pool i).Within A) (j : ι) :
    ((stepAt exec j c).pool i).Within A := by
  by_cases hij : i = j
  · subst hij
    cases hp : c.pool i with
    | done | fail =>
      rw [stepAt_finished exec (by rw [hp]; trivial)]
      exact h
    | stmt s rest =>
      rw [stepAt_pool_self exec hp]
      rw [hp] at h
      exact h.2 _
  · rwa [stepAt_pool_other exec hij]

theorem within_runSchedule {A : S → Prop} {i : ι} (h : (c.pool i).Within A) (w : List ι) :
    ((runSchedule exec w c).pool i).Within A := by
  induction w generalizing c with
  | nil => exact h
  | cons j w ih => exact ih (within_stepAt h j)

theorem stepAt_store_of_within {A : S → Prop} {i : ι} (h : (c.pool i).Within A)
    (hread : ∀ s st, A s → (exec s st).2 = st) : (stepAt exec i c).store = c.store := by
  cases hp : c.pool i with
  | done | fail => rw [stepAt_finished exec (by rw [hp]; trivial)]
  | stmt s rest =>
    rw [hp] at h
    rw [stepAt_store exec hp, hread s _ h.1]

theorem advance_store_of_within {A : S → Prop} {p : Prog R ε α} (h : p.Within A)
    (hread : ∀ s st, A s → (exec s st).2 = st) (st : σ) : (advance exec p st).2 = st := by
  cases p with
  | done | fail => rfl
  | stmt s rest => exact hread s st h.1

end Pools

section Moments

variable (exec)

/-- What a program ends with when its statements meet the given stores. -/
def answerOn : Prog R ε α → List σ → Option (Except ε α)
  | .done a, _ => some (.ok a)
  | .fail e, _ => some (.error e)
  | .stmt _ _, [] => none
  | .stmt s rest, st :: stores => answerOn (rest (exec s st).1) stores

/-- What is left of a program whose statements have met the given stores. -/
def resume : Prog R ε α → List σ → Prog R ε α
  | .stmt s rest, st :: stores => resume (rest (exec s st).1) stores
  | p, _ => p

@[simp] theorem resume_nil (p : Prog R ε α) : resume exec p ([] : List σ) = p := by
  cases p <;> rfl

theorem resume_concat (p : Prog R ε α) (stores : List σ) (st : σ) :
    resume exec p (stores ++ [st]) = (advance exec (resume exec p stores) st).1 := by
  induction p generalizing stores with
  | done | fail => cases stores <;> rfl
  | stmt s rest ih =>
    cases stores with
    | nil => exact resume_nil exec (rest (exec s st).1)
    | cons first stores => exact ih _ stores

theorem within_resume {A : S → Prop} {p : Prog R ε α} (h : p.Within A) (stores : List σ) :
    (resume exec p stores).Within A := by
  induction p generalizing stores with
  | done | fail => cases stores <;> exact h
  | stmt s rest ih =>
    cases stores with
    | nil => exact h
    | cons st stores => exact ih _ (h.2 _) stores

theorem answerOn_of_resume {p : Prog R ε α} {stores : List σ} {r : Except ε α}
    (h : resume exec p stores = ofExcept r) : answerOn exec p stores = some r := by
  induction p generalizing stores with
  | done | fail => cases stores <;> cases r <;> cases h <;> rfl
  | stmt s rest ih =>
    cases stores with
    | nil => cases r <;> cases h
    | cons st stores => exact ih _ h

theorem finished_of_endsWithin {p : Prog R ε α} {n : ℕ} {stores : List σ} (h : p.EndsWithin n)
    (hn : n ≤ stores.length) : (resume exec p stores).Finished := by
  induction p generalizing n stores with
  | done | fail => cases stores <;> trivial
  | stmt s rest ih =>
    match n, stores with
    | 0, _ => exact h.elim
    | n + 1, [] => exact absurd hn (Nat.not_succ_le_zero n)
    | n + 1, st :: stores => exact ih _ (h _) (Nat.le_of_succ_le_succ hn)

variable [DecidableEq ι]

def storeAt (w : List ι) (c : Config R ε α σ ι) (k : ℕ) : σ := (runSchedule exec (w.take k) c).store

/-- The stores that the steps of program `i` meet. -/
def storesMet (i : ι) : List ι → Config R ε α σ ι → List σ
  | [], _ => []
  | j :: w, c => (if j = i then [c.store] else []) ++ storesMet i w (stepAt exec j c)

theorem exists_storeAt {i : ι} {w : List ι} {c : Config R ε α σ ι} {st : σ} {stores : List σ}
    (h : storesMet exec i w c = st :: stores) : ∃ k < w.length, storeAt exec w c k = st ∧
      storesMet exec i (w.drop (k + 1)) (runSchedule exec (w.take (k + 1)) c) = stores := by
  induction w generalizing c with
  | nil => cases h
  | cons j w ih =>
    by_cases hj : j = i
    · rw [storesMet, if_pos hj] at h
      obtain ⟨rfl, rfl⟩ := List.cons.inj h
      exact ⟨0, by simp, rfl, rfl⟩
    · rw [storesMet, if_neg hj, List.nil_append] at h
      obtain ⟨k, hk, hst, hrest⟩ := ih h
      exact ⟨k + 1, by simpa using hk, hst, hrest⟩

theorem exists_storeAt_pair {i : ι} {w : List ι} {c : Config R ε α σ ι} {st st' : σ}
    {stores : List σ} (h : storesMet exec i w c = st :: st' :: stores) :
    ∃ k k', k < k' ∧ k' < w.length ∧ storeAt exec w c k = st ∧ storeAt exec w c k' = st' := by
  obtain ⟨k, hk, hst, hrest⟩ := exists_storeAt exec h
  obtain ⟨n, hn, hst', -⟩ := exists_storeAt exec hrest
  rw [List.length_drop] at hn
  refine ⟨k, k + 1 + n, by omega, by omega, hst, ?_⟩
  rw [← hst', storeAt, storeAt, runSchedule, runSchedule, runSchedule, ← List.foldl_append,
    ← List.take_add]

theorem answerOn_ofExcept (r : Except ε α) (stores : List σ) :
    answerOn exec (ofExcept r : Prog R ε α) stores = some r := by
  cases r <;> cases stores <;> rfl

theorem finished_eq {p : Prog R ε α} (h : p.Finished) : ∃ r, p = ofExcept r := by
  cases p with
  | done a => exact ⟨.ok a, rfl⟩
  | fail e => exact ⟨.error e, rfl⟩
  | stmt s rest => exact h.elim

/-- In any schedule a program that ends does so by the stores it met. -/
theorem answerOn_storesMet {i : ι} {w : List ι} {c : Config R ε α σ ι} {r : Except ε α}
    (h : (runSchedule exec w c).pool i = ofExcept r) :
    answerOn exec (c.pool i) (storesMet exec i w c) = some r := by
  induction w generalizing c with
  | nil =>
    rw [runSchedule_nil] at h
    rw [h, answerOn_ofExcept]
  | cons j w ih =>
    rw [runSchedule_cons] at h
    have hrest := ih h
    by_cases hj : j = i
    · subst hj
      rw [storesMet, if_pos rfl]
      by_cases hf : (c.pool j).Finished
      · obtain ⟨r', hr'⟩ := finished_eq hf
        rw [stepAt_finished exec hf, hr', answerOn_ofExcept] at hrest
        rw [hr', answerOn_ofExcept, hrest]
      · cases hp : c.pool j with
        | done | fail => exact absurd (by rw [hp]; trivial) hf
        | stmt s rest =>
          rw [stepAt_pool_self exec hp] at hrest
          exact hrest
    · rw [storesMet, if_neg hj, List.nil_append]
      rwa [stepAt_pool_other exec (Ne.symm hj)] at hrest

theorem Safe.answerOn {P : Except ε α → Prop} {p : Prog R ε α} {st : σ} {stores : List σ}
    {r : Except ε α} (h : Safe exec .any (fun r _ => P r) p st)
    (hr : answerOn exec p stores = some r) : P r := by
  induction p generalizing st stores with
  | done a =>
    cases stores <;> cases hr <;> exact h st trivial
  | fail e =>
    cases stores <;> cases hr <;> exact h st trivial
  | stmt s rest ih =>
    cases stores with
    | nil => cases hr
    | cons st' stores => exact ih _ (h st' trivial).2 hr

end Moments

end ProgramInterference
