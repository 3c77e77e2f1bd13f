import BusSaathi.DartRuntime
import BusSaathi.EventRuns

/-! The `database` getter: a caller that finds no connection opens one and suspends, and every
opening that completes is stored. How many openings there are is decided by who calls when. -/
namespace DatabaseOpening

open EventRuns DartRuntime

variable {C : Type}

/-- A call of the getter: suspended in `_initDatabase`, thrown out of it, back from it with its
connection, or answered at once with the one that was stored. -/
inductive Call (C : Type) where
  | opening
  | failed (error : DartError)
  | opened (connection : C)
  | stored (connection : C)

def Call.isOpening : Call C → Bool
  | .opening => true
  | _ => false

def Call.isFailed : Call C → Bool
  | .failed _ => true
  | _ => false

def Call.isLive : Call C → Bool
  | .opening | .opened _ => true
  | _ => false

def Call.connection? : Call C → Option C
  | .opened connection | .stored connection => some connection
  | _ => none

/-- `_database`, and the calls of the getter in the order of their numbers. -/
structure Service (C : Type) where
  database : Option C
  calls : List (Call C)

def initial : Service C := ⟨none, []⟩

inductive Event (C : Type) where
  | call
  | completed (call : ℕ) (outcome : Except DartError C)

/-- `get database` up to its first await. -/
def Service.getDatabase (s : Service C) : Service C :=
  match s.database with
  | some connection => { s with calls := s.calls ++ [.stored connection] }
  | none => { s with calls := s.calls ++ [.opening] }

/-- The rest of `get database`, once `_initDatabase` has an outcome. -/
def Service.onCompleted (s : Service C) (call : ℕ) : Except DartError C → Service C
  | .ok connection => ⟨some connection, s.calls.set call (.opened connection)⟩
  | .error error => { s with calls := s.calls.set call (.failed error) }

def Enabled (s : Service C) : Event C → Prop
  | .call => True
  | .completed call _ => s.calls[call]?.map Call.isOpening = some true

instance (s : Service C) (e : Event C) : Decidable (Enabled s e) := by
  cases e <;> simp only [Enabled] <;> infer_instance

def next (s : Service C) : Event C → Service C
  | .call => s.getDatabase
  | .completed call outcome => s.onCompleted call outcome

def step (s : Service C) (e : Event C) : Option (Service C) := guarded Enabled next s e

theorem step_cases {s t : Service C} {e : Event C} (h : step s e = some t) :
    (∃ connection, e = .call ∧ s.database = some connection ∧
      t = { s with calls := s.calls ++ [.stored connection] }) ∨
    (e = .call ∧ s.database = none ∧ t = { s with calls := s.calls ++ [.opening] }) ∨
    (∃ call connection, e = .completed call (.ok connection) ∧ s.calls[call]? = some .opening ∧
      t = ⟨some connection, s.calls.set call (.opened connection)⟩) ∨
    ∃ call error, e = .completed call (.error error) ∧ s.calls[call]? = some .opening ∧
      t = { s with calls := s.calls.set call (.failed error) } := by
  obtain ⟨he, rfl⟩ := guarded_eq_some.mp h
  cases e with
  | call =>
    cases hdatabase : s.database with
    | some connection =>
      exact Or.inl ⟨connection, rfl, rfl, by simp only [next, Service.getDatabase, hdatabase]⟩
    | none =>
      exact Or.inr (Or.inl ⟨rfl, rfl, by simp only [next, Service.getDatabase, hdatabase]⟩)
  | completed call outcome =>
    have hopening : s.calls[call]? = some .opening := by
      obtain ⟨c, hc, hopen⟩ := Option.map_eq_some_iff.mp he
      cases c with
      | opening => exact hc
      | _ => cases hopen
    cases outcome with
    | ok connection => exact Or.inr (Or.inr (Or.inl ⟨call, connection, rfl, hopening, rfl⟩))
    | error error => exact Or.inr (Or.inr (Or.inr ⟨call, error, rfl, hopening, rfl⟩))

section History

def Event.isCall : Event C → Bool
  | .call => true
  | _ => false

def Event.isFailure : Event C → Bool
  | .completed _ (.error _) => true
  | _ => false

def Event.connection? : Event C → Option C
  | .completed _ (.ok connection) => some connection
  | _ => none

def connections (history : List (Event C)) : List C := history.filterMap Event.connection?

/-- Nobody calls while the first connection is being opened: where there is none yet, every
earlier call has failed. -/
def AwaitsFirst (history : List (Event C)) (e : Event C) : Prop :=
  e.isCall = true → connections history = [] →
    history.countP Event.isCall = history.countP Event.isFailure

/-- What the calls have come to, by the history. -/
structure Follows (history : List (Event C)) (s : Service C) : Prop where
  database : s.database = (connections history).getLast?
  calls : s.calls.length = history.countP Event.isCall
  failures : s.calls.countP Call.isFailed = history.countP Event.isFailure
  unopened : s.database = none → ∀ call ∈ s.calls, call.connection? = none
  opened : s.database ≠ none → ∃ connection, .opened connection ∈ s.calls

theorem follows_initial : Follows [] (initial : Service C) := by
  constructor <;> simp [initial, connections]

theorem connections_concat (history : List (Event C)) (e : Event C) :
    connections (history ++ [e]) = connections history ++ e.connection?.toList := by
  cases h : e.connection? <;> simp [connections, h]

theorem countP_set_opening {s : Service C} {call : ℕ} (hopening : s.calls[call]? = some .opening)
    (p : Call C → Bool) (answer : Call C) :
    (s.calls.set call answer).countP p + (if p .opening then 1 else 0) =
      s.calls.countP p + if p answer then 1 else 0 := by
  obtain ⟨hlt, hget⟩ := List.getElem?_eq_some_iff.mp hopening
  have hpos : (if p .opening then 1 else 0) ≤ s.calls.countP p := by
    split
    case isTrue hp =>
      exact List.countP_pos_iff.mpr ⟨.opening, List.mem_of_getElem? hopening, hp⟩
    case isFalse => omega
  rw [List.countP_set hlt, hget]
  omega

theorem follows_step {history : List (Event C)} {s t : Service C} {e : Event C}
    (h : Follows history s) (hstep : step s e = some t) : Follows (history ++ [e]) t := by
  rcases step_cases hstep with ⟨connection, rfl, hdatabase, rfl⟩ | ⟨rfl, hdatabase, rfl⟩ |
    ⟨call, connection, rfl, hopening, rfl⟩ | ⟨call, error, rfl, hopening, rfl⟩
  · constructor
    case database => rw [connections_concat]; simpa [Event.connection?] using h.database
    case calls => simp [h.calls, Event.isCall]
    case failures => simp [h.failures, Event.isFailure, Call.isFailed]
    case unopened =>
      intro hnone
      rw [hdatabase] at hnone
      cases hnone
    case opened =>
      intro hsome
      obtain ⟨first, hfirst⟩ := h.opened hsome
      exact ⟨first, List.mem_append_left _ hfirst⟩
  · constructor
    case database => rw [connections_concat]; simpa [Event.connection?] using h.database
    case calls => simp [h.calls, Event.isCall]
    case failures => simp [h.failures, Event.isFailure, Call.isFailed]
    case unopened =>
      intro hnone call hcall
      rcases List.mem_append.mp hcall with hcall | hcall
      · exact h.unopened hnone call hcall
      · rw [List.mem_singleton.mp hcall]
        rfl
    case opened => exact fun hsome => absurd hdatabase hsome
  · constructor
    case database => rw [connections_concat]; simp [Event.connection?]
    case calls => simp [h.calls, Event.isCall]
    case failures =>
      have hcount := countP_set_opening hopening Call.isFailed (.opened connection)
      simpa [h.failures, Event.isFailure, Call.isFailed] using hcount
    case unopened => exact fun hnone => by cases hnone
    case opened =>
      have hlt := (List.getElem?_eq_some_iff.mp hopening).1
      exact fun _ => ⟨connection, List.mem_set hlt _⟩
  · constructor
    case database => rw [connections_concat]; simpa [Event.connection?] using h.database
    case calls => simp [h.calls, Event.isCall]
    case failures =>
      have hcount := countP_set_opening hopening Call.isFailed (.failed error)
      simpa [h.failures, Event.isFailure, Call.isFailed] using hcount
    case unopened =>
      intro hnone other hother
      rcases List.mem_or_eq_of_mem_set hother with hother | rfl
      · exact h.unopened hnone other hother
      · rfl
    case opened =>
      intro hsome
      obtain ⟨first, hfirst⟩ := h.opened hsome
      obtain ⟨i, hi⟩ := List.getElem?_of_mem hfirst
      have hne : call ≠ i := by
        rintro rfl
        rw [hopening] at hi
        cases hi
      refine ⟨first, List.mem_of_getElem? (i := i) ?_⟩
      rw [List.getElem?_set_ne hne]
      exact hi

/-- One opening at most is under way or done, and all callers are given its connection. -/
structure OneConnection (s : Service C) : Prop where
  live : s.calls.countP Call.isLive ≤ 1
  shared : ∀ call ∈ s.calls, ∀ connection, call.connection? = some connection →
    s.database = some connection

theorem oneConnection_initial : OneConnection (initial : Service C) := by
  constructor <;> simp [initial]

variable {history : List (Event C)} {s t : Service C} {e : Event C}

theorem live_eq_zero_iff (h : Follows history s) (hdatabase : s.database = none) :
    s.calls.countP Call.isLive = 0 ↔
      history.countP Event.isCall = history.countP Event.isFailure := by
  have hlive : s.calls.countP Call.isLive = s.calls.countP (fun call => ¬ call.isFailed) := by
    apply List.countP_congr
    intro call hcall
    have hnone := h.unopened hdatabase call hcall
    cases call with
    | opening | failed => simp [Call.isLive, Call.isFailed]
    | opened | stored => cases hnone
  have hlength := List.length_eq_countP_add_countP Call.isFailed (l := s.calls)
  rw [h.calls, h.failures, ← hlive] at hlength
  omega

theorem unopened_of_opening (h : Follows history s) (hone : OneConnection s) {call : ℕ}
    (hopening : s.calls[call]? = some .opening) : s.database = none := by
  by_contra hsome
  obtain ⟨connection, hopened⟩ := h.opened hsome
  obtain ⟨i, hi⟩ := List.getElem?_of_mem hopened
  have hne : call ≠ i := by
    rintro rfl
    rw [hopening] at hi
    cases hi
  -- with the call that opens taken out, the one that has opened is still there
  have hcount := countP_set_opening hopening Call.isLive (.failed .stateError)
  have hrest : 0 < (s.calls.set call (.failed .stateError)).countP Call.isLive := by
    rw [List.countP_pos_iff]
    refine ⟨.opened connection, List.mem_of_getElem? (i := i) ?_, rfl⟩
    rw [List.getElem?_set_ne hne]
    exact hi
  have hlive := hone.live
  simp [Call.isLive] at hcount
  omega

theorem oneConnection_step (h : Follows history s) (hone : OneConnection s)
    (hstep : step s e = some t) : OneConnection t ↔ AwaitsFirst history e := by
  rcases step_cases hstep with ⟨connection, rfl, hdatabase, rfl⟩ | ⟨rfl, hdatabase, rfl⟩ |
    ⟨call, connection, rfl, hopening, rfl⟩ | ⟨call, error, rfl, hopening, rfl⟩
  · apply iff_of_true
    · constructor
      · simpa [Call.isLive] using hone.live
      · intro call hcall other hother
        rcases List.mem_append.mp hcall with hcall | hcall
        · exact hone.shared call hcall other hother
        · rw [List.mem_singleton.mp hcall] at hother
          cases hother
          exact hdatabase
    · intro _ hnil
      rw [h.database, hnil] at hdatabase
      cases hdatabase
  · have hnil : connections history = [] := by
      have hlast := h.database
      rw [hdatabase] at hlast
      exact List.getLast?_eq_none_iff.mp hlast.symm
    have hcount : (s.calls ++ [Call.opening]).countP Call.isLive =
        s.calls.countP Call.isLive + 1 := by simp [Call.isLive]
    constructor
    · rintro ⟨hlive, -⟩ - -
      rw [hcount] at hlive
      apply (live_eq_zero_iff h hdatabase).mp
      omega
    · intro hawaits
      have hzero := (live_eq_zero_iff h hdatabase).mpr (hawaits rfl hnil)
      constructor
      · rw [hcount]
        omega
      · intro call hcall other hother
        rcases List.mem_append.mp hcall with hcall | hcall
        · exact hone.shared call hcall other hother
        · rw [List.mem_singleton.mp hcall] at hother
          cases hother
  · refine iff_of_true ?_ fun hcall => by cases hcall
    have hnone := unopened_of_opening h hone hopening
    have hcount := countP_set_opening hopening Call.isLive (.opened connection)
    have hlive := hone.live
    constructor
    · change (s.calls.set call (.opened connection)).countP Call.isLive ≤ 1
      simp only [Call.isLive, if_true] at hcount
      omega
    · intro other hother connection' hconnection
      rcases List.mem_or_eq_of_mem_set hother with hother | rfl
      · rw [h.unopened hnone other hother] at hconnection
        cases hconnection
      · exact hconnection
  · refine iff_of_true ?_ fun hcall => by cases hcall
    have hcount := countP_set_opening hopening Call.isLive (.failed error)
    have hlive := hone.live
    constructor
    · change (s.calls.set call (.failed error)).countP Call.isLive ≤ 1
      simp [Call.isLive] at hcount
      omega
    · intro other hother connection hconnection
      rcases List.mem_or_eq_of_mem_set hother with hother | rfl
      · exact hone.shared other hother connection hconnection
      · cases hconnection

/-- Throughout a run at most one opening is under way or done, and its connection is everybody's,
exactly where nobody calls the getter while the first connection is being opened. -/
theorem one_connection_iff {events : List (Event C)} (h : run step initial events = some t) :
    Throughout step initial (fun _ s => OneConnection s) events ↔
      EachStep AwaitsFirst events := by
  refine throughout_iff_eachStep ⟨follows_initial, oneConnection_initial⟩ ?_ ?_ h
  · intro history s e t hfollows hstep _
    exact follows_step hfollows hstep
  · intro history s e t hfollows hone hstep
    exact oneConnection_step hfollows hone hstep

end History

def awaitedOpening : List (Event ℕ) :=
  [.call, .completed 0 (.error .databaseException), .call, .completed 1 (.ok 7), .call]

theorem awaited_opening_has_one_connection :
    Throughout step initial (fun _ s => OneConnection s) awaitedOpening := by
  have hruns : ∃ t, run step initial awaitedOpening = some t := ⟨_, rfl⟩
  obtain ⟨t, h⟩ := hruns
  refine (one_connection_iff h).mpr ?_
  have hsplit : awaitedOpening = (((([] ++ [.call]) ++
      [.completed 0 (.error .databaseException)]) ++ [.call]) ++ [.completed 1 (.ok 7)]) ++
        [.call] := rfl
  rw [hsplit]
  simp only [eachStep_concat]
  refine ⟨⟨⟨⟨⟨eachStep_nil _, ?_⟩, ?_⟩, ?_⟩, ?_⟩, ?_⟩
  · exact fun _ _ => rfl
  · exact fun hcall => by cases hcall
  · exact fun _ _ => rfl
  · exact fun hcall => by cases hcall
  · exact fun _ hnil => by cases hnil

end DatabaseOpening
