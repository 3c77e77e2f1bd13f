import BusSaathi.RouteConverter
import Std.Data.String.ToInt

/-! `TimeUtils`: clock strings as counts of minutes. Each function is settled by what it does
with the time of day that its strings show. -/
namespace TimeUtils

open DartRuntime DartText RouteConverter

def timeToMinutes (time : String) : Except DartError ℤ := do
  let parts := split time ':'
  let hours ← parseInt (← partAt parts 0)
  let mins ← parseInt (← partAt parts 1)
  return wrapInt64 (wrapInt64 (hours * 60) + mins)

/-- `~/` truncates toward zero, `%` has no negative result. -/
def minutesToTime (minutes : ℤ) : String :=
  let hours := minutes.tdiv 60 % 24
  let mins := minutes % 60
  padLeft (toString hours) 2 '0' ++ ":" ++ padLeft (toString mins) 2 '0'

def isTimeBetween (currentTime startTime endTime : String) : Except DartError Bool := do
  let current ← timeToMinutes currentTime
  let start ← timeToMinutes startTime
  let stop ← timeToMinutes endTime
  if start ≤ stop then return decide (current ≥ start ∧ current ≤ stop)
  else return decide (current ≥ start ∨ current ≤ stop)

theorem timeToMinutes_text (t : ClockTime) : timeToMinutes t.text = .ok t.minutes := by
  have hhour := t.hour_lt
  have hminute := t.minute_lt
  have hwrap : wrapInt64 (wrapInt64 (t.hour * 60) + t.minute) = t.minutes := by
    rw [wrapInt64_of_small (n := t.hour * 60) (by omega) (by omega)]
    apply wrapInt64_of_small <;> omega
  unfold timeToMinutes
  rw [ClockTime.split_text]
  refine bind_eq_ok.mpr ⟨twoDigits t.hour, rfl, bind_eq_ok.mpr ⟨t.hour, ?_, ?_⟩⟩
  · exact parseInt_twoDigits (by omega)
  refine bind_eq_ok.mpr ⟨twoDigits t.minute, rfl, bind_eq_ok.mpr ⟨t.minute, ?_, ?_⟩⟩
  · exact parseInt_twoDigits hminute
  · exact congrArg Except.ok hwrap

/-- The count of minutes whose time of day is printed: the hour of a negative count that is
no whole number of hours is one too late. -/
def printed (m : ℤ) : ℤ := if 0 ≤ m ∨ 60 ∣ m then m else m + 60

theorem tdiv_printed (m : ℤ) : m.tdiv 60 = printed m / 60 := by
  rw [Int.tdiv_eq_ediv, printed]
  by_cases hm : 0 ≤ m ∨ 60 ∣ m
  · rw [if_pos hm, if_pos hm, Int.add_zero]
  · have hsign : Int.sign 60 = 1 := rfl
    rw [if_neg hm, if_neg hm, hsign]
    omega

theorem minutesToTime_text (m : ℤ) : minutesToTime m = (ClockTime.ofMinutes (printed m)).text := by
  have hhour : m.tdiv 60 % 24 = ((ClockTime.ofMinutes (printed m)).hour : ℤ) := by
    rw [tdiv_printed]
    simp only [ClockTime.ofMinutes]
    omega
  have hminute : m % 60 = ((ClockTime.ofMinutes (printed m)).minute : ℤ) := by
    simp only [ClockTime.ofMinutes, printed]
    split <;> omega
  unfold minutesToTime
  rw [hhour, hminute]
  rfl

theorem minutesToTime_of_nonneg {m : ℤ} (h : 0 ≤ m) :
    minutesToTime m = (ClockTime.ofMinutes m).text := by
  rw [minutesToTime_text, printed, if_pos (Or.inl h)]

theorem timeToMinutes_minutesToTime (m : ℤ) :
    timeToMinutes (minutesToTime m) = .ok (printed m % 1440) := by
  rw [minutesToTime_text, timeToMinutes_text, ClockTime.minutes_ofMinutes]

theorem minutesToTime_eq_iff {m n : ℤ} :
    minutesToTime m = minutesToTime n ↔ printed m % 1440 = printed n % 1440 := by
  rw [minutesToTime_text, minutesToTime_text, ← ClockTime.ofMinutes_eq_iff]
  constructor
  · exact ClockTime.text_inj
  · intro h
    rw [h]

theorem roundTrip_iff (m : ℤ) :
    timeToMinutes (minutesToTime m) = .ok (m % 1440) ↔ 0 ≤ m ∨ 60 ∣ m := by
  rw [timeToMinutes_minutesToTime, Except.ok.injEq, printed]
  by_cases hm : 0 ≤ m ∨ 60 ∣ m
  · rw [if_pos hm]
    exact iff_of_true rfl hm
  · rw [if_neg hm]
    refine iff_of_false ?_ hm
    omega

/-- Counts of minutes go through the clock format exactly where truncating the hour is
rounding it down. -/
theorem clock_format_law_iff (m n : ℤ) :
    (timeToMinutes (minutesToTime m) = .ok (m % 1440) ∧
      timeToMinutes (minutesToTime n) = .ok (n % 1440) ∧
      (minutesToTime m = minutesToTime n ↔ 1440 ∣ m - n)) ↔
    (0 ≤ m ∨ 60 ∣ m) ∧ (0 ≤ n ∨ 60 ∣ n) := by
  rw [roundTrip_iff, roundTrip_iff]
  constructor
  · rintro ⟨hm, hn, -⟩
    exact ⟨hm, hn⟩
  · rintro ⟨hm, hn⟩
    refine ⟨hm, hn, ?_⟩
    rw [minutesToTime_eq_iff, printed, printed, if_pos hm, if_pos hn]
    omega

theorem minute_before_midnight_is_misprinted :
    minutesToTime (-1) = "00:59" ∧
    timeToMinutes (minutesToTime (-1)) ≠ .ok ((-1) % 1440) ∧
    minutesToTime (-1) = minutesToTime 59 ∧ ¬ (1440 : ℤ) ∣ -1 - 59 := by
  decide +kernel

theorem isTimeBetween_text (t start stop : ClockTime) :
    isTimeBetween t.text start.text stop.text = .ok (decide (ClockTime.Between t start stop)) := by
  have ht := t.minutes_range
  have hstart := start.minutes_range
  have hstop := stop.minutes_range
  refine bind_eq_ok.mpr ⟨_, timeToMinutes_text t, bind_eq_ok.mpr ⟨_, timeToMinutes_text start,
    bind_eq_ok.mpr ⟨_, timeToMinutes_text stop, ?_⟩⟩⟩
  unfold ClockTime.Between
  by_cases hwrap : start.minutes ≤ stop.minutes
  · rw [if_pos hwrap]
    refine congrArg Except.ok (decide_eq_decide.mpr ?_)
    omega
  · rw [if_neg hwrap]
    refine congrArg Except.ok (decide_eq_decide.mpr ?_)
    omega

/-- Adding `k` hours to the time of day of minute `m` goes past the largest integer. -/
def HourOverflows (m k : ℤ) : Prop := 2 ^ 63 ≤ m / 60 % 24 + k

theorem addHours_of_not_overflows {m k : ℤ} (hl : -2 ^ 63 ≤ k) (h : ¬ HourOverflows m k) :
    addHours (ClockTime.ofMinutes m).text k = .ok ((ClockTime.ofMinutes m).shift k).text := by
  unfold HourOverflows at h
  apply addHours_text_of_small <;> simp only [ClockTime.ofMinutes] <;> omega

theorem addHours_of_overflows {m k : ℤ} (hu : k < 2 ^ 63) (h : HourOverflows m k) :
    addHours (ClockTime.ofMinutes m).text k =
      .ok ((ClockTime.ofMinutes m).shift (k - 2 ^ 64)).text := by
  have hwrap : wrapInt64 ((ClockTime.ofMinutes m).hour + k) =
      (ClockTime.ofMinutes m).hour + k - 2 ^ 64 := by
    unfold HourOverflows at h
    apply wrapInt64_of_large <;> simp only [ClockTime.ofMinutes] <;> omega
  have hk : ((ClockTime.ofMinutes m).hour + k - 2 ^ 64 - (ClockTime.ofMinutes m).hour : ℤ) =
      k - 2 ^ 64 := by omega
  rw [addHours_text, hwrap, hk]

theorem isTimeBetween_shift (t start stop : ClockTime) (k : ℤ) :
    isTimeBetween (t.shift k).text (start.shift k).text (stop.shift k).text =
      isTimeBetween t.text start.text stop.text := by
  rw [isTimeBetween_text, isTimeBetween_text]
  exact congrArg Except.ok (decide_eq_decide.mpr (ClockTime.between_shift t start stop k))

/-- The answer is the cyclic order of the three times, and moving all of them by one number of
hours keeps it, unless the addition overflows for some of them only. -/
theorem isTimeBetween_cyclic {c s e : ℤ} (hc : 0 ≤ c) (hs : 0 ≤ s) (he : 0 ≤ e) :
    (isTimeBetween (minutesToTime c) (minutesToTime s) (minutesToTime e) = .ok true ↔
      (c - s) % 1440 ≤ (e - s) % 1440) ∧
    ∀ k : ℤ, -2 ^ 63 ≤ k → k < 2 ^ 63 →
      (HourOverflows s k ↔ HourOverflows c k) → (HourOverflows e k ↔ HourOverflows c k) →
      ∃ c' s' e', addHours (minutesToTime c) k = .ok c' ∧
        addHours (minutesToTime s) k = .ok s' ∧ addHours (minutesToTime e) k = .ok e' ∧
        isTimeBetween c' s' e' =
          isTimeBetween (minutesToTime c) (minutesToTime s) (minutesToTime e) := by
  rw [minutesToTime_of_nonneg hc, minutesToTime_of_nonneg hs, minutesToTime_of_nonneg he]
  constructor
  · rw [isTimeBetween_text, Except.ok.injEq, decide_eq_true_eq]
    exact ClockTime.between_ofMinutes
  · intro k hl hu hsc hec
    by_cases hover : HourOverflows c k
    · exact ⟨_, _, _, addHours_of_overflows hu hover, addHours_of_overflows hu (hsc.mpr hover),
        addHours_of_overflows hu (hec.mpr hover), isTimeBetween_shift _ _ _ _⟩
    · exact ⟨_, _, _, addHours_of_not_overflows hl hover,
        addHours_of_not_overflows hl (mt hsc.mp hover),
        addHours_of_not_overflows hl (mt hec.mp hover), isTimeBetween_shift _ _ _ _⟩

theorem midnight_is_between :
    isTimeBetween (minutesToTime 0) (minutesToTime 1350) (minutesToTime 75) = .ok true ∧
    ∃ c' s' e', addHours (minutesToTime 0) (-1) = .ok c' ∧
      addHours (minutesToTime 1350) (-1) = .ok s' ∧ addHours (minutesToTime 75) (-1) = .ok e' ∧
      isTimeBetween c' s' e' =
        isTimeBetween (minutesToTime 0) (minutesToTime 1350) (minutesToTime 75) := by
  obtain ⟨hiff, hshift⟩ := isTimeBetween_cyclic (c := 0) (s := 1350) (e := 75)
    (by decide) (by decide) (by decide)
  refine ⟨hiff.mpr (by decide), hshift (-1) (by decide) (by decide) ?_ ?_⟩
  · unfold HourOverflows
    decide
  · unfold HourOverflows
    decide

theorem largest_shift_changes_answer :
    isTimeBetween (minutesToTime 0) (minutesToTime 1380) (minutesToTime 60) = .ok true ∧
    addHours (minutesToTime 0) (2 ^ 63 - 1) = .ok "07:00" ∧
    addHours (minutesToTime 1380) (2 ^ 63 - 1) = .ok "14:00" ∧
    addHours (minutesToTime 60) (2 ^ 63 - 1) = .ok "16:00" ∧
    isTimeBetween "07:00" "14:00" "16:00" = .ok false := by
  decide +kernel

/-- A `DateTime` gives its hour and its minute only. -/
def formatTime (time : ClockTime) : String :=
  padLeft (toString time.hour) 2 '0' ++ ":" ++ padLeft (toString time.minute) 2 '0'

def formatDuration (minutes : ℤ) : String :=
  if minutes < 60 then toString minutes ++ " min"
  else
    let hours := minutes.tdiv 60
    let remainingMinutes := minutes % 60
    toString hours ++ "h " ++ toString remainingMinutes ++ "min"

theorem formatTime_eq_text (t : ClockTime) : formatTime t = t.text := rfl

theorem h_notMem_repr (n : ℕ) : 'h' ∉ (Nat.repr n).toList := by
  intro h
  rw [Nat.repr, String.toList_ofList] at h
  have hdigit := Nat.isDigit_of_mem_toDigits (by decide) (by decide) h
  revert hdigit
  decide

theorem h_notMem_toString (n : ℤ) : 'h' ∉ (toString n).toList := by
  cases n with
  | ofNat n => exact h_notMem_repr n
  | negSucc n =>
    have htext : (toString (Int.negSucc n)).toList = '-' :: (Nat.repr (n + 1)).toList := by
      change (Int.repr _).toList = _
      simp [Int.repr]
    rw [htext, List.mem_cons]
    rintro (h | h)
    · cases h
    · exact h_notMem_repr _ h

theorem formatDuration_short {m : ℤ} (h : m < 60) :
    (formatDuration m).toList = (toString m).toList ++ [' ', 'm', 'i', 'n'] := by
  rw [formatDuration, if_pos h, String.toList_append]
  rfl

theorem formatDuration_long {m : ℤ} (h : ¬ m < 60) :
    (formatDuration m).toList = (toString (m / 60)).toList ++
      'h' :: ((' ' :: (toString (m % 60)).toList) ++ ['m', 'i', 'n']) := by
  have hdiv : m.tdiv 60 = m / 60 := Int.tdiv_eq_ediv_of_nonneg (by omega)
  rw [formatDuration, if_neg h, hdiv]
  simp

/-- Durations of different lengths are never shown alike. -/
theorem formatDuration_injective : Function.Injective formatDuration := by
  intro m n h
  have hlist := congrArg String.toList h
  have hshort : ∀ k : ℤ, 'h' ∉ (toString k).toList ++ [' ', 'm', 'i', 'n'] := by
    intro k
    rw [List.mem_append]
    rintro (hk | hk)
    · exact h_notMem_toString k hk
    · revert hk
      decide
  by_cases hm : m < 60
  · by_cases hn : n < 60
    · rw [formatDuration_short hm, formatDuration_short hn] at hlist
      exact Int.repr_injective (String.toList_inj.mp (List.append_cancel_right hlist))
    · rw [formatDuration_short hm, formatDuration_long hn] at hlist
      have hmem := hshort m
      rw [hlist] at hmem
      simp at hmem
  · by_cases hn : n < 60
    · rw [formatDuration_long hm, formatDuration_short hn] at hlist
      have hmem := hshort n
      rw [← hlist] at hmem
      simp at hmem
    · rw [formatDuration_long hm, formatDuration_long hn, append_sep_eq_iff] at hlist
      rcases hlist with ⟨hhours, hminutes⟩ | ⟨rest, hrest, -⟩ | ⟨rest, hrest, -⟩
      · have hh : m / 60 = n / 60 := Int.repr_injective (String.toList_inj.mp hhours)
        have hm : m % 60 = n % 60 := Int.repr_injective
          (String.toList_inj.mp (List.cons.inj (List.append_cancel_right hminutes)).2)
        omega
      · have hmem := h_notMem_toString (n / 60)
        rw [hrest] at hmem
        simp at hmem
      · have hmem := h_notMem_toString (m / 60)
        rw [hrest] at hmem
        simp at hmem

end TimeUtils
