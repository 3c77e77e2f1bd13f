import Mathlib.Data.Nat.Notation

/-! Programs whose only effects are atomic statements over a store: running to the end,
being cut off after some statements, and a statement that throws. The statements, their
replies and the store are parameters. -/
namespace StatementPrograms

variable {S : Type} {R : S → Type} {ε α β σ : Type}

/-- An awaited statement hands its reply to the rest of the program. -/
inductive Prog (R : S → Type) (ε α : Type) where
  | done (a : α)
  | fail (e : ε)
  | stmt (s : S) (rest : R s → Prog R ε α)

namespace Prog

def bind : Prog R ε α → (α → Prog R ε β) → Prog R ε β
  | .done a, f => f a
  | .fail e, _ => .fail e
  | .stmt s rest, f => .stmt s (fun r => (rest r).bind f)

instance : Monad (Prog R ε) where
  pure := .done
  bind := .bind

def execute (s : S) : Prog R ε (R s) := .stmt s .done

def ofExcept : Except ε α → Prog R ε α
  | .ok a => .done a
  | .error e => .fail e

/-- `try` with a handler for whatever is thrown. -/
def catchError : Prog R ε α → (ε → Prog R ε α) → Prog R ε α
  | .done a, _ => .done a
  | .fail e, handler => handler e
  | .stmt s rest, handler => .stmt s (fun r => (rest r).catchError handler)

@[simp] theorem pure_eq (a : α) : (pure a : Prog R ε α) = .done a := rfl
@[simp] theorem done_bind (a : α) (f : α → Prog R ε β) : (Prog.done a >>= f) = f a := rfl
@[simp] theorem fail_bind (e : ε) (f : α → Prog R ε β) : (Prog.fail e >>= f) = .fail e := rfl
@[simp] theorem stmt_bind (s : S) (rest : R s → Prog R ε α) (f : α → Prog R ε β) :
    (Prog.stmt s rest >>= f) = .stmt s (fun r => rest r >>= f) := rfl
@[simp] theorem execute_bind (s : S) (f : R s → Prog R ε β) :
    (execute s >>= f) = .stmt s f := rfl
@[simp] theorem ofExcept_ok (a : α) : (ofExcept (.ok a) : Prog R ε α) = .done a := rfl
@[simp] theorem ofExcept_error (e : ε) : (ofExcept (.error e) : Prog R ε α) = .fail e := rfl
@[simp] theorem catchError_done (a : α) (handler : ε → Prog R ε α) :
    (Prog.done a).catchError handler = .done a := rfl
@[simp] theorem catchError_fail (e : ε) (handler : ε → Prog R ε α) :
    (Prog.fail e).catchError handler = handler e := rfl
@[simp] theorem catchError_stmt (s : S) (rest : R s → Prog R ε α) (handler : ε → Prog R ε α) :
    (Prog.stmt s rest).catchError handler = .stmt s (fun r => (rest r).catchError handler) := rfl

theorem bind_assoc {γ : Type} (p : Prog R ε α) (f : α → Prog R ε β) (g : β → Prog R ε γ) :
    p >>= f >>= g = p >>= fun a => f a >>= g := by
  induction p with
  | done | fail => rfl
  | stmt s rest ih => exact congrArg (Prog.stmt s) (funext ih)

theorem bind_done (p : Prog R ε α) : (p >>= fun a => .done a) = p := by
  induction p with
  | done | fail => rfl
  | stmt s rest ih => exact congrArg (Prog.stmt s) (funext ih)

def result? : Prog R ε α → Option α
  | .done a => some a
  | _ => none

def Finished : Prog R ε α → Prop
  | .stmt _ _ => False
  | _ => True

/-- Every statement the program can still issue, whatever the replies, is in `A`. -/
def Within (A : S → Prop) : Prog R ε α → Prop
  | .stmt s rest => A s ∧ ∀ r, (rest r).Within A
  | _ => True

@[simp] theorem within_done (A : S → Prop) (a : α) : (Prog.done a : Prog R ε α).Within A := trivial
@[simp] theorem within_fail (A : S → Prop) (e : ε) : (Prog.fail e : Prog R ε α).Within A := trivial

theorem Within.bind {A : S → Prop} {p : Prog R ε α} {f : α → Prog R ε β}
    (hp : p.Within A) (hf : ∀ a, (f a).Within A) : (p >>= f).Within A := by
  induction p with
  | done a => exact hf a
  | fail e => trivial
  | stmt s rest ih => exact ⟨hp.1, fun r => ih r (hp.2 r)⟩

theorem Within.catchError {A : S → Prop} {p : Prog R ε α} {handler : ε → Prog R ε α}
    (hp : p.Within A) (hh : ∀ e, (handler e).Within A) : (p.catchError handler).Within A := by
  induction p with
  | done a => trivial
  | fail e => exact hh e
  | stmt s rest ih => exact ⟨hp.1, fun r => ih r (hp.2 r)⟩

theorem within_ofExcept (A : S → Prop) (x : Except ε α) :
    (ofExcept x : Prog R ε α).Within A := by cases x <;> trivial

theorem ofExcept_finished (x : Except ε α) : (ofExcept x : Prog R ε α).Finished := by
  cases x <;> trivial

/-- Whatever the replies, the program ends after at most `n` statements. -/
def EndsWithin : Prog R ε α → ℕ → Prop
  | .stmt _ _, 0 => False
  | .stmt _ rest, n + 1 => ∀ r, (rest r).EndsWithin n
  | _, _ => True

@[simp] theorem endsWithin_done (a : α) (n : ℕ) : (Prog.done a : Prog R ε α).EndsWithin n := by
  cases n <;> trivial
@[simp] theorem endsWithin_fail (e : ε) (n : ℕ) : (Prog.fail e : Prog R ε α).EndsWithin n := by
  cases n <;> trivial

theorem endsWithin_of_finished {p : Prog R ε α} (h : p.Finished) (n : ℕ) : p.EndsWithin n := by
  cases p with
  | done | fail => simp
  | stmt s rest => exact h.elim

theorem EndsWithin.mono {p : Prog R ε α} {m n : ℕ} (h : p.EndsWithin m) (hmn : m ≤ n) :
    p.EndsWithin n := by
  induction p generalizing m n with
  | done | fail => simp
  | stmt s rest ih =>
    match m, n with
    | 0, _ => exact h.elim
    | m + 1, 0 => exact absurd hmn (Nat.not_succ_le_zero m)
    | m + 1, n + 1 => exact fun r => ih r (h r) (Nat.le_of_succ_le_succ hmn)

theorem EndsWithin.bind {p : Prog R ε α} {f : α → Prog R ε β} {m n : ℕ} (hp : p.EndsWithin m)
    (hf : ∀ a, (f a).EndsWithin n) : (p >>= f).EndsWithin (m + n) := by
  induction p generalizing m with
  | done a => exact (hf a).mono (Nat.le_add_left n m)
  | fail e => exact endsWithin_fail e _
  | stmt s rest ih =>
    match m with
    | 0 => exact hp.elim
    | m + 1 =>
      rw [Nat.add_right_comm]
      exact fun r => ih r (hp r)

theorem EndsWithin.catchError {p : Prog R ε α} {handler : ε → Prog R ε α} {n : ℕ}
    (hp : p.EndsWithin n) (hh : ∀ e, (handler e).Finished) :
    (p.catchError handler).EndsWithin n := by
  induction p generalizing n with
  | done a => exact endsWithin_done a n
  | fail e => exact endsWithin_of_finished (hh e) n
  | stmt s rest ih =>
    match n with
    | 0 => exact hp.elim
    | n + 1 => exact fun r => ih r (hp r)

variable (exec : (s : S) → σ → R s × σ)

def run : Prog R ε α → σ → Except ε α × σ
  | .done a, st => (.ok a, st)
  | .fail e, st => (.error e, st)
  | .stmt s rest, st => run (rest (exec s st).1) (exec s st).2

/-- The store once the first `n` statements have run, fewer if the program ends earlier. -/
def cutAfter : ℕ → Prog R ε α → σ → σ
  | n + 1, .stmt s rest, st => cutAfter n (rest (exec s st).1) (exec s st).2
  | _, _, st => st

/-- Statement number `n` throws and changes nothing; the program has no handler. -/
def runFailingAt (thrown : ε) : ℕ → Prog R ε α → σ → Except ε α × σ
  | _, .done a, st => (.ok a, st)
  | _, .fail e, st => (.error e, st)
  | 0, .stmt _ _, st => (.error thrown, st)
  | n + 1, .stmt s rest, st => runFailingAt thrown n (rest (exec s st).1) (exec s st).2

/-- The next statement; a program that has ended stays as it is. -/
def advance : Prog R ε α → σ → Prog R ε α × σ
  | .stmt s rest, st => (rest (exec s st).1, (exec s st).2)
  | p, st => (p, st)

/-- The programs one after another, each of them to a normal end. -/
def runAll : List (Prog R ε α) → σ → Option σ
  | [], st => some st
  | p :: ps, st =>
    match run exec p st with
    | (.ok _, st') => runAll ps st'
    | (.error _, _) => none

@[simp] theorem run_done (a : α) (st : σ) :
    run exec (.done a : Prog R ε α) st = (.ok a, st) := rfl
@[simp] theorem run_fail (e : ε) (st : σ) :
    run exec (.fail e : Prog R ε α) st = (.error e, st) := rfl
@[simp] theorem run_stmt (s : S) (rest : R s → Prog R ε α) (st : σ) :
    run exec (.stmt s rest) st = run exec (rest (exec s st).1) (exec s st).2 := rfl

theorem run_bind_ok {p : Prog R ε α} {st st' : σ} {a : α} (h : run exec p st = (.ok a, st'))
    (f : α → Prog R ε β) : run exec (p >>= f) st = run exec (f a) st' := by
  induction p generalizing st with
  | done b => cases h; rfl
  | fail e => cases h
  | stmt s rest ih => exact ih _ h

theorem run_bind_error {p : Prog R ε α} {st st' : σ} {e : ε} (h : run exec p st = (.error e, st'))
    (f : α → Prog R ε β) : run exec (p >>= f) st = (.error e, st') := by
  induction p generalizing st with
  | done a => cases h
  | fail e => cases h; rfl
  | stmt s rest ih => exact ih _ h

@[simp] theorem run_ofExcept (x : Except ε α) (st : σ) :
    run exec (ofExcept x : Prog R ε α) st = (x, st) := by cases x <;> rfl

theorem exists_of_run_bind {p : Prog R ε α} {f : α → Prog R ε β} {st st' : σ} {b : β}
    (h : run exec (p >>= f) st = (.ok b, st')) :
    ∃ a mid, run exec p st = (.ok a, mid) ∧ run exec (f a) mid = (.ok b, st') := by
  induction p generalizing st with
  | done a => exact ⟨a, st, rfl, h⟩
  | fail e => cases h
  | stmt s rest ih => exact ih _ h

theorem runAll_append (ps qs : List (Prog R ε α)) (st : σ) :
    runAll exec (ps ++ qs) st = (runAll exec ps st).bind (runAll exec qs) := by
  induction ps generalizing st with
  | nil => rfl
  | cons p ps ih =>
    simp only [List.cons_append, runAll]
    split
    · exact ih _
    · rfl

@[simp] theorem cutAfter_zero (p : Prog R ε α) (st : σ) : cutAfter exec 0 p st = st := by
  cases p <;> rfl
@[simp] theorem cutAfter_done (n : ℕ) (a : α) (st : σ) :
    cutAfter exec n (.done a : Prog R ε α) st = st := by cases n <;> rfl
@[simp] theorem cutAfter_fail (n : ℕ) (e : ε) (st : σ) :
    cutAfter exec n (.fail e : Prog R ε α) st = st := by cases n <;> rfl
@[simp] theorem cutAfter_stmt (n : ℕ) (s : S) (rest : R s → Prog R ε α) (st : σ) :
    cutAfter exec (n + 1) (.stmt s rest) st =
      cutAfter exec n (rest (exec s st).1) (exec s st).2 := rfl

theorem runFailingAt_store (thrown : ε) (n : ℕ) (p : Prog R ε α) (st : σ) :
    (runFailingAt exec thrown n p st).2 = cutAfter exec n p st := by
  induction p generalizing n st with
  | done a => cases n <;> rfl
  | fail e => cases n <;> rfl
  | stmt s rest ih =>
    cases n with
    | zero => rfl
    | succ n => exact ih _ n _

theorem cutAfter_of_within {A : S → Prop} {p : Prog R ε α} (hp : p.Within A)
    (hread : ∀ s st, A s → (exec s st).2 = st) (n : ℕ) (st : σ) : cutAfter exec n p st = st := by
  induction p generalizing n st with
  | done | fail => simp
  | stmt s rest ih =>
    cases n with
    | zero => rfl
    | succ n => rw [cutAfter_stmt, hread s st hp.1]; exact ih _ (hp.2 _) n st

theorem runAll_concat {ps : List (Prog R ε α)} {p : Prog R ε α} {st st' : σ}
    (h : runAll exec (ps ++ [p]) st = some st') :
    ∃ mid a, runAll exec ps st = some mid ∧ run exec p mid = (.ok a, st') := by
  rw [runAll_append, Option.bind_eq_some_iff] at h
  obtain ⟨mid, hmid, hp⟩ := h
  simp only [runAll] at hp
  split at hp
  case h_1 a st'' he =>
    cases hp
    exact ⟨mid, a, hmid, he⟩
  case h_2 => cases hp

end Prog

end StatementPrograms
