import BusSaathi.TimeUtils
import Mathlib.Data.List.Chain

/-! The converter's hour arithmetic on every text that it can read, clock text or not, and
the windows that cut a day into shifts. -/
namespace ClockTexts

open LinkedMaps DartRuntime DartText RouteConverter TimeUtils

/-- `time` has an hour before its first colon and `minute` after it. -/
def Reads (time : String) (hour : ℤ) (minute : String) : Prop :=
  ∃ first rest, split time ':' = first :: minute :: rest ∧ parseInt first = .ok hour

def HasHour (time : String) : Prop := ∃ hour minute, Reads time hour minute

theorem partAt_ok_iff {parts : List String} {i : ℕ} {part : String} :
    partAt parts i = .ok part ↔ parts[i]? = some part := by
  unfold partAt
  split
  case h_1 p hp =>
    rw [hp]
    simp
  case h_2 hp =>
    rw [hp]
    simp

def hourText (hour : ℤ) (minute : String) : String :=
  padLeft (toString hour) 2 '0' ++ ":" ++ minute

theorem addHours_reads {time minute : String} {n : ℤ} (h : Reads time n minute) (k : ℤ) :
    addHours time k = .ok (hourText (wrapInt64 (n + k) % 24) minute) := by
  obtain ⟨first, rest, hparts, hn⟩ := h
  unfold addHours
  rw [hparts]
  exact bind_eq_ok.mpr ⟨first, rfl, bind_eq_ok.mpr ⟨n, hn, rfl⟩⟩

theorem addHours_ok_iff {time : String} (hours : ℤ) :
    (∃ later, addHours time hours = .ok later) ↔ HasHour time := by
  constructor
  · rintro ⟨later, h⟩
    obtain ⟨first, hfirst, h⟩ := bind_eq_ok.mp h
    obtain ⟨n, hn, h⟩ := bind_eq_ok.mp h
    obtain ⟨minute, hminute, -⟩ := bind_eq_ok.mp h
    rw [partAt_ok_iff] at hfirst hminute
    match hparts : split time ':' with
    | [] =>
      rw [hparts] at hfirst
      cases hfirst
    | [part] =>
      rw [hparts] at hminute
      cases hminute
    | part :: part' :: rest =>
      rw [hparts] at hfirst hminute
      cases hfirst
      cases hminute
      exact ⟨n, _, _, rest, hparts, hn⟩
  · rintro ⟨n, minute, h⟩
    exact ⟨_, addHours_reads h hours⟩

theorem generateSchedule_ok_iff {time : String} :
    (∃ schedule, generateSchedule time = .ok schedule) ↔ HasHour time := by
  constructor
  · rintro ⟨schedule, h⟩
    obtain ⟨later, hlater, -⟩ := bind_eq_ok.mp h
    exact (addHours_ok_iff 2).mp ⟨later, hlater⟩
  · rintro ⟨n, minute, h⟩
    unfold generateSchedule
    rw [addHours_reads h, addHours_reads h, addHours_reads h, addHours_reads h]
    exact ⟨_, rfl⟩

theorem notMem_of_mem_splitOn {α : Type*} [DecidableEq α] {sep : α} {cs part : List α}
    (h : part ∈ cs.splitOn sep) : sep ∉ part := by
  induction cs generalizing part with
  | nil =>
    rw [List.splitOn_nil, List.mem_singleton] at h
    rw [h]
    exact List.not_mem_nil
  | cons c cs ih =>
    rw [List.splitOn_cons_eq_if_modifyHead] at h
    by_cases hc : c = sep
    · rw [if_pos (by simpa using hc)] at h
      rcases List.mem_cons.mp h with rfl | h
      · exact List.not_mem_nil
      · exact ih h
    · rw [if_neg (by simpa using hc)] at h
      obtain ⟨first, rest, hparts⟩ := List.exists_cons_of_ne_nil (List.splitOn_ne_nil sep cs)
      rw [hparts, List.modifyHead_cons] at h
      rw [hparts] at ih
      rcases List.mem_cons.mp h with rfl | h
      · rw [List.mem_cons]
        rintro (hsep | hsep)
        · exact hc hsep.symm
        · exact ih List.mem_cons_self hsep
      · exact ih (List.mem_cons_of_mem _ h)

theorem Reads.colon_notMem {time minute : String} {n : ℤ} (h : Reads time n minute) :
    ':' ∉ minute.toList := by
  obtain ⟨first, rest, hparts, -⟩ := h
  have hmem : minute ∈ split time ':' := by
    rw [hparts]
    exact List.mem_cons_of_mem _ List.mem_cons_self
  obtain ⟨part, hpart, rfl⟩ := List.mem_map.mp hmem
  rw [String.toList_ofList]
  exact notMem_of_mem_splitOn hpart

theorem reads_hourText {r : ℤ} {minute : String} (h0 : 0 ≤ r) (h24 : r < 24)
    (hminute : ':' ∉ minute.toList) : Reads (hourText r minute) r minute := by
  obtain ⟨n, rfl⟩ := Int.eq_ofNat_of_zero_le h0
  have hn : n < 60 := by omega
  refine ⟨twoDigits n, [], ?_, parseInt_twoDigits hn⟩
  have htext : (hourText n minute).toList = (twoDigits n).toList ++ ':' :: minute.toList := by
    simp only [hourText, twoDigits, String.toList_append]
    rw [List.append_assoc]
    rfl
  rw [split, htext, List.splitOn_append_cons_self_of_not_mem (colon_notMem_twoDigits hn),
    List.splitOn_eq_singleton hminute]
  simp

theorem hourText_inj {r r' : ℤ} {minute : String} (h0 : 0 ≤ r) (h24 : r < 24) (h0' : 0 ≤ r')
    (h24' : r' < 24) (hminute : ':' ∉ minute.toList) (h : hourText r minute = hourText r' minute) :
    r = r' := by
  obtain ⟨first, rest, hparts, hr⟩ := reads_hourText h0 h24 hminute
  obtain ⟨first', rest', hparts', hr'⟩ := reads_hourText h0' h24' hminute
  rw [h, hparts'] at hparts
  cases hparts
  exact Except.ok.inj (hr.symm.trans hr')

theorem wrapInt64_range (n : ℤ) : -2 ^ 63 ≤ wrapInt64 n ∧ wrapInt64 n < 2 ^ 63 := by
  have hlow := Int.le_bmod (x := n) (m := 2 ^ 64) (by omega)
  have hhigh := Int.bmod_lt (x := n) (m := 2 ^ 64) (by omega)
  unfold wrapInt64
  omega

theorem magnitude_range {negative : Bool} {cs : List Char} {n : ℤ}
    (h : magnitude negative cs = some n) : -2 ^ 63 ≤ n ∧ n < 2 ^ 63 := by
  unfold magnitude at h
  split at h
  case h_3 =>
    obtain ⟨digits, -, h⟩ := Option.bind_eq_some_iff.mp h
    grind
  all_goals
    obtain ⟨digits, -, h⟩ := Option.bind_eq_some_iff.mp h
    have hwrap := wrapInt64_range digits
    grind

theorem parseInt_range {s : String} {n : ℤ} (h : parseInt s = .ok n) :
    -2 ^ 63 ≤ n ∧ n < 2 ^ 63 := by
  obtain ⟨negative, cs, hm⟩ : ∃ negative cs, magnitude negative cs = some n := by
    unfold parseInt at h
    grind
  exact magnitude_range hm

section Schedules

variable {time minute : String} {n : ℤ}

def later (n : ℤ) (minute : String) (k : ℤ) : String :=
  hourText (wrapInt64 (n + k) % 24) minute

theorem addHours_later (h : Reads time n minute) (k : ℤ) :
    addHours (later n minute k) 1 = .ok (hourText ((wrapInt64 (n + k) + 1) % 24) minute) := by
  have hr : Reads (later n minute k) (wrapInt64 (n + k) % 24) minute :=
    reads_hourText (by omega) (by omega) h.colon_notMem
  have hhour : wrapInt64 (wrapInt64 (n + k) % 24 + 1) % 24 = (wrapInt64 (n + k) + 1) % 24 := by
    rw [wrapInt64_of_small (by omega) (by omega)]
    omega
  rw [addHours_reads hr, hhour]

/-- One more hour is one hour later unless the sum is the first to overflow. -/
theorem addHours_later_iff (h : Reads time n minute) {k : ℤ} (h0 : 0 ≤ k) (h1 : k < 2 ^ 62) :
    addHours (later n minute k) 1 = .ok (later n minute (k + 1)) ↔ n + k ≠ 2 ^ 63 - 1 := by
  obtain ⟨first, rest, -, hn⟩ := id h
  obtain ⟨hlow, hhigh⟩ := parseInt_range hn
  have hsame : (wrapInt64 (n + k) + 1) % 24 = wrapInt64 (n + (k + 1)) % 24 ↔
      n + k ≠ 2 ^ 63 - 1 := by
    by_cases hnext : n + (k + 1) < 2 ^ 63
    · rw [wrapInt64_of_small (n := n + k) (by omega) (by omega),
        wrapInt64_of_small (n := n + (k + 1)) (by omega) hnext]
      omega
    · rw [wrapInt64_of_large (n := n + (k + 1)) (by omega) (by omega)]
      by_cases hover : n + k < 2 ^ 63
      · rw [wrapInt64_of_small (n := n + k) (by omega) hover]
        omega
      · rw [wrapInt64_of_large (n := n + k) (by omega) (by omega)]
        omega
  rw [addHours_later h, Except.ok.injEq, ← hsame, later]
  constructor
  · apply hourText_inj _ _ _ _ h.colon_notMem <;> omega
  · intro heq
    rw [heq]

theorem generateSchedule_reads (h : Reads time n minute) : generateSchedule time =
    .ok ⟨[("weekday", [time, later n minute 2, later n minute 4]),
      ("weekend", [later n minute 1, later n minute 3])], by simp⟩ := by
  unfold generateSchedule
  rw [addHours_reads h, addHours_reads h, addHours_reads h, addHours_reads h]
  rfl

/-- Weekday and weekend departures take turns, an hour apart. -/
def Hourly (schedule : LinkedMap String (List String)) : Prop :=
  ∃ w w' w'' e e', schedule.entries = [("weekday", [w, w', w'']), ("weekend", [e, e'])] ∧
    List.IsChain (fun t u => addHours t 1 = .ok u) [w, e, w', e', w'']

/-- The departures are an hour apart unless the sum with 2, 3 or 4 is the first to overflow. -/
theorem schedule_hourly_iff (h : Reads time n minute) :
    ∃ schedule, generateSchedule time = .ok schedule ∧
      (Hourly schedule ↔ n + 4 < 2 ^ 63 ∨ n = 2 ^ 63 - 1) := by
  refine ⟨_, generateSchedule_reads h, ?_⟩
  have h1 := addHours_later_iff h (k := 1) (by omega) (by omega)
  have h2 := addHours_later_iff h (k := 2) (by omega) (by omega)
  have h3 := addHours_later_iff h (k := 3) (by omega) (by omega)
  obtain ⟨first, rest, -, hn⟩ := id h
  obtain ⟨-, hhigh⟩ := parseInt_range hn
  have hranges : n + 4 < 2 ^ 63 ∨ n = 2 ^ 63 - 1 ↔
      n + 1 ≠ 2 ^ 63 - 1 ∧ n + 2 ≠ 2 ^ 63 - 1 ∧ n + 3 ≠ 2 ^ 63 - 1 := by omega
  rw [hranges, ← h1, ← h2, ← h3]
  constructor
  · rintro ⟨w, w', w'', e, e', hentries, hchain⟩
    simp only [List.cons.injEq, Prod.mk.injEq, true_and, and_true] at hentries
    obtain ⟨⟨rfl, rfl, rfl⟩, rfl, rfl⟩ := hentries
    simp only [List.isChain_cons_cons] at hchain
    exact ⟨hchain.2.1, hchain.2.2.1, hchain.2.2.2.1⟩
  · rintro ⟨h12, h23, h34⟩
    refine ⟨_, _, _, _, _, rfl, ?_⟩
    simp only [List.isChain_cons_cons, List.isChain_singleton, and_true]
    exact ⟨addHours_reads h 1, h12, h23, h34⟩

theorem half_typed_time_runs_hourly :
    ∃ schedule, generateSchedule " 7:5 am" = .ok schedule ∧ Hourly schedule := by
  have hreads : Reads " 7:5 am" 7 "5 am" := ⟨" 7", [], by decide, by decide⟩
  obtain ⟨schedule, h, hiff⟩ := schedule_hourly_iff hreads
  exact ⟨schedule, h, hiff.mpr (Or.inl (by decide))⟩

end Schedules

section Cuts

variable {α β : Type*} [LinearOrder α] {f : β → α} {b : β} {bs : List β}

theorem zip_tail_concat (c : β) : (b :: bs).zip (bs ++ [c]) =
    (b :: bs).zip bs ++ [((b :: bs).getLast (List.cons_ne_nil b bs), c)] := by
  induction bs generalizing b with
  | nil => rfl
  | cons b' bs ih =>
    rw [List.cons_append, List.zip_cons_cons, ih, List.zip_cons_cons, List.cons_append,
      List.getLast_cons (List.cons_ne_nil b' bs)]

/-- Increasing cuts divide a line: a point lies in one piece, or in both that meet at it. -/
theorem countP_cuts (hsorted : ((b :: bs).map f).Pairwise (· < ·)) (t : α) :
    ((b :: bs).zip bs).countP (fun w => f w.1 ≤ t ∧ t ≤ f w.2) +
      (if f ((b :: bs).getLast (List.cons_ne_nil b bs)) ≤ t then 1 else 0) +
      (if t ≤ f b then 1 else 0) =
    1 + if t ∈ (b :: bs).map f then 1 else 0 := by
  induction bs generalizing b with
  | nil =>
    rcases lt_trichotomy t (f b) with h | h | h
    · simp [h.le, h.not_ge, h.ne]
    · simp [h]
    · simp [h.le, h.not_ge, h.ne']
  | cons b' bs ih =>
    rw [List.map_cons, List.pairwise_cons] at hsorted
    obtain ⟨hfirst, hrest⟩ := hsorted
    have hlt : f b < f b' := hfirst _ (by simp)
    have hold := ih hrest
    have hpiece : ((if f b ≤ t ∧ t ≤ f b' then 1 else 0) + (if t ≤ f b then 1 else 0) : ℕ) =
        (if t ≤ f b' then 1 else 0) + if t = f b then 1 else 0 := by
      rcases lt_trichotomy t (f b) with h | h | h
      · simp [h.le, h.not_ge, h.ne, (h.trans hlt).le]
      · simp [h, hlt.le]
      · simp [h.le, h.not_ge, h.ne']
    have hmem : ((if t ∈ (b :: b' :: bs).map f then 1 else 0) : ℕ) =
        (if t = f b then 1 else 0) + if t ∈ (b' :: bs).map f then 1 else 0 := by
      by_cases h : t = f b
      · have hold : t ∉ (b' :: bs).map f := fun hmem => (hfirst t hmem).ne' h
        rw [if_pos h, if_neg hold, if_pos (by simp [h])]
      · rw [List.map_cons, if_neg h, Nat.zero_add]
        simp only [List.mem_cons, h, false_or]
    rw [hmem, List.getLast_cons (List.cons_ne_nil b' bs), List.zip_cons_cons, List.countP_cons]
    simp only [decide_eq_true_eq]
    omega

theorem piece_lt (hsorted : ((b :: bs).map f).Pairwise (· < ·)) {w : β × β}
    (hw : w ∈ (b :: bs).zip bs) : f w.1 < f w.2 := by
  induction bs generalizing b with
  | nil => cases hw
  | cons b' bs ih =>
    rw [List.map_cons, List.pairwise_cons] at hsorted
    rw [List.zip_cons_cons, List.mem_cons] at hw
    rcases hw with rfl | hw
    · exact hsorted.1 _ (by simp)
    · exact ih hsorted.2 hw

theorem mem_piece_iff (hsorted : ((b :: bs).map f).Pairwise (· < ·)) {w : β × β}
    (hw : w ∈ (b :: bs).zip bs) {t : α} (ht : t ∈ (b :: bs).map f) :
    f w.1 ≤ t ∧ t ≤ f w.2 ↔ f w.1 = t ∨ f w.2 = t := by
  induction bs generalizing b with
  | nil => cases hw
  | cons b' bs ih =>
    rw [List.map_cons, List.pairwise_cons] at hsorted
    obtain ⟨hfirst, hrest⟩ := hsorted
    have hlt : f b < f b' := hfirst _ (by simp)
    rw [List.map_cons, List.mem_cons] at ht
    rw [List.zip_cons_cons, List.mem_cons] at hw
    rcases hw with rfl | hw
    · rcases ht with rfl | ht
      · simp [hlt.le]
      · have hle : f b' ≤ t := by
          rw [List.map_cons, List.mem_cons] at ht
          rcases ht with rfl | ht
          · exact le_rfl
          · exact ((List.pairwise_cons.mp hrest).1 _ ht).le
        simp [(hlt.trans_le hle).le, (hlt.trans_le hle).ne, hle.ge_iff_eq', eq_comm]
    · rcases ht with rfl | ht
      · obtain ⟨hstart, hstop⟩ := List.of_mem_zip hw
        have hlow := hfirst _ (List.mem_map_of_mem hstart)
        have hhigh := hfirst _ (List.mem_map_of_mem (List.mem_cons_of_mem _ hstop))
        simp [hlow.not_ge, hlow.ne', hhigh.ne']
      · exact ih hrest hw ht

end Cuts

section Windows

/-- The windows between the boundaries, the last of them going on past midnight. -/
def windows : List ClockTime → List (ClockTime × ClockTime)
  | [] => []
  | b :: bs => (b :: bs).zip (bs ++ [b])

/-- What `isTimeBetween` answers for the time of `getCurrentTimeString`. -/
def openAt (now : ClockTime) (window : ClockTime × ClockTime) : Bool :=
  isTimeBetween (formatTime now) window.1.text window.2.text = .ok true

variable {t start stop b : ClockTime} {bs : List ClockTime}

theorem openAt_eq : openAt t (start, stop) = decide (ClockTime.Between t start stop) := by
  unfold openAt
  rw [formatTime_eq_text, isTimeBetween_text]
  simp

theorem openAt_of_le (h : start.minutes ≤ stop.minutes) : openAt t (start, stop) =
    decide (start.minutes ≤ t.minutes ∧ t.minutes ≤ stop.minutes) := by
  have ht := t.minutes_range
  have hstart := start.minutes_range
  have hstop := stop.minutes_range
  rw [openAt_eq, decide_eq_decide]
  unfold ClockTime.Between
  omega

theorem openAt_past_midnight (h : stop.minutes < start.minutes) : openAt t (start, stop) =
    decide (start.minutes ≤ t.minutes ∨ t.minutes ≤ stop.minutes) := by
  have ht := t.minutes_range
  have hstart := start.minutes_range
  have hstop := stop.minutes_range
  rw [openAt_eq, decide_eq_decide]
  unfold ClockTime.Between
  omega

theorem countP_openAt_before_midnight
    (hsorted : ((b :: bs).map ClockTime.minutes).Pairwise (· < ·)) :
    ((b :: bs).zip bs).countP (openAt t) = ((b :: bs).zip bs).countP
      (fun w => w.1.minutes ≤ t.minutes ∧ t.minutes ≤ w.2.minutes) := by
  apply List.countP_congr
  intro w hw
  rw [openAt_of_le (piece_lt hsorted hw).le]

theorem minutes_lt_getLast (hsorted : ((b :: bs).map ClockTime.minutes).Pairwise (· < ·))
    (hbs : bs ≠ []) :
    b.minutes < ((b :: bs).getLast (List.cons_ne_nil b bs)).minutes := by
  rw [List.getLast_cons hbs]
  rw [List.map_cons, List.pairwise_cons] at hsorted
  exact hsorted.1 _ (List.mem_map_of_mem (List.getLast_mem hbs))

theorem windows_eq (b : ClockTime) (bs : List ClockTime) : windows (b :: bs) =
    (b :: bs).zip bs ++ [((b :: bs).getLast (List.cons_ne_nil b bs), b)] := by
  rw [windows, zip_tail_concat]

theorem minutes_mem_iff {boundaries : List ClockTime} :
    t.minutes ∈ boundaries.map ClockTime.minutes ↔ t ∈ boundaries := by
  constructor
  · intro h
    obtain ⟨u, hu, hminutes⟩ := List.mem_map.mp h
    rwa [← ClockTime.minutes_inj hminutes]
  · exact List.mem_map_of_mem

theorem minutes_eq_iff {u : ClockTime} : u.minutes = t.minutes ↔ u = t :=
  ⟨ClockTime.minutes_inj, congrArg ClockTime.minutes⟩

theorem countP_windows (hsorted : ((b :: bs).map ClockTime.minutes).Pairwise (· < ·))
    (hbs : bs ≠ []) :
    (windows (b :: bs)).countP (openAt t) = if t ∈ b :: bs then 2 else 1 := by
  have hlast := minutes_lt_getLast hsorted hbs
  have hcuts := countP_cuts hsorted t.minutes
  rw [if_congr minutes_mem_iff rfl rfl] at hcuts
  rw [windows_eq, List.countP_append, countP_openAt_before_midnight hsorted,
    List.countP_singleton, openAt_past_midnight hlast]
  simp only [decide_eq_true_eq]
  split_ifs at hcuts ⊢ <;> omega

theorem first_le_of_mem (hsorted : ((b :: bs).map ClockTime.minutes).Pairwise (· < ·))
    (ht : t ∈ b :: bs) : b.minutes ≤ t.minutes :=
  (hsorted.imp le_of_lt).rel_head (List.mem_map_of_mem ht)

theorem le_last_of_mem (hsorted : ((b :: bs).map ClockTime.minutes).Pairwise (· < ·))
    (ht : t ∈ b :: bs) :
    t.minutes ≤ ((b :: bs).getLast (List.cons_ne_nil b bs)).minutes := by
  have hle := (hsorted.imp le_of_lt).rel_getLast (List.mem_map_of_mem ht)
  rwa [List.getLast_map] at hle

theorem openAt_boundary_iff (hsorted : ((b :: bs).map ClockTime.minutes).Pairwise (· < ·))
    (hbs : bs ≠ []) (ht : t ∈ b :: bs) {w : ClockTime × ClockTime} (hw : w ∈ windows (b :: bs)) :
    openAt t w ↔ w.1 = t ∨ w.2 = t := by
  have hlast := minutes_lt_getLast hsorted hbs
  rw [windows_eq, List.mem_append, List.mem_singleton] at hw
  rw [← minutes_eq_iff, ← minutes_eq_iff]
  rcases hw with hw | rfl
  · rw [openAt_of_le (piece_lt hsorted hw).le, decide_eq_true_eq]
    exact mem_piece_iff hsorted hw (minutes_mem_iff.mpr ht)
  · have hfirst := first_le_of_mem hsorted ht
    have hle := le_last_of_mem hsorted ht
    rw [openAt_past_midnight hlast, decide_eq_true_eq]
    dsimp only
    omega

/-- Boundaries in order cut the day: every time is in one window, or in the two that meet
at it, the window past midnight included. -/
theorem windows_cut_day {boundaries : List ClockTime} (hlen : 2 ≤ boundaries.length)
    (hsorted : (boundaries.map ClockTime.minutes).Pairwise (· < ·)) (t : ClockTime) :
    (windows boundaries).countP (openAt t) = (if t ∈ boundaries then 2 else 1) ∧
      (t ∈ boundaries → ∀ w ∈ windows boundaries, openAt t w ↔ w.1 = t ∨ w.2 = t) := by
  cases boundaries with
  | nil => simp at hlen
  | cons b bs =>
    have hbs : bs ≠ [] := by
      rintro rfl
      simp at hlen
    exact ⟨countP_windows hsorted hbs, fun ht _ hw => openAt_boundary_iff hsorted hbs ht hw⟩

def shiftStarts : List ClockTime := [360, 840, 1320].map ClockTime.ofMinutes

theorem shifts_meet_at_fourteen :
    (windows shiftStarts).countP (openAt (ClockTime.ofMinutes 840)) = 2 ∧
      ∀ w ∈ windows shiftStarts, openAt (ClockTime.ofMinutes 840) w ↔
        w.1 = ClockTime.ofMinutes 840 ∨ w.2 = ClockTime.ofMinutes 840 := by
  have hlen : 2 ≤ shiftStarts.length := by decide
  have hsorted : (shiftStarts.map ClockTime.minutes).Pairwise (· < ·) := by decide
  have hmem : ClockTime.ofMinutes 840 ∈ shiftStarts := by decide
  obtain ⟨hcount, hmeet⟩ := windows_cut_day hlen hsorted (ClockTime.ofMinutes 840)
  exact ⟨hcount.trans (if_pos hmem), hmeet hmem⟩

end Windows

end ClockTexts
