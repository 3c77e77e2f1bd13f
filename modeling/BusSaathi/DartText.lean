import BusSaathi.DartRuntime
import Mathlib.Data.Fin.Basic

/-! Dart's text functions that the time strings go through, and clock texts such as
`08:05`: two digits, a colon, two digits. -/
namespace DartText

open DartRuntime

/-- The characters that `trim` removes. -/
def isWhitespace (c : Char) : Bool :=
  let n := c.toNat
  (9 ≤ n && n ≤ 13) || n == 0x20 || n == 0x85 || n == 0xA0 || n == 0x1680 ||
    (0x2000 ≤ n && n ≤ 0x200A) || n == 0x2028 || n == 0x2029 || n == 0x202F || n == 0x205F ||
    n == 0x3000 || n == 0xFEFF

def trim (cs : List Char) : List Char :=
  ((cs.dropWhile isWhitespace).reverse.dropWhile isWhitespace).reverse

def digitValue (c : Char) : Option ℕ :=
  if '0' ≤ c ∧ c ≤ '9' then some (c.toNat - '0'.toNat)
  else if 'a' ≤ c ∧ c ≤ 'f' then some (c.toNat - 'a'.toNat + 10)
  else if 'A' ≤ c ∧ c ≤ 'F' then some (c.toNat - 'A'.toNat + 10)
  else none

def digitsValue (base : ℕ) : List Char → Option ℕ
  | [] => none
  | cs => cs.foldlM (fun acc c => do
      let d ← digitValue c
      if d < base then some (acc * base + d) else none) 0

def wrapInt64 (n : ℤ) : ℤ := n.bmod (2 ^ 64)

theorem wrapInt64_of_small {n : ℤ} (hl : -2 ^ 63 ≤ n) (hu : n < 2 ^ 63) : wrapInt64 n = n :=
  Int.bmod_eq_of_le (by omega) (by omega)

theorem wrapInt64_of_large {n : ℤ} (hl : 2 ^ 63 ≤ n) (hu : n < 2 ^ 64) :
    wrapInt64 n = n - 2 ^ 64 := by
  have hmod : n % ((2 ^ 64 : ℕ) : ℤ) = n := Int.emod_eq_of_lt (by omega) (by omega)
  rw [wrapInt64, Int.bmod_neg n (2 ^ 64) (by omega), hmod]
  rfl

/-- Hexadecimal text without a minus sign may use all 64 bits. -/
def magnitude (negative : Bool) (cs : List Char) : Option ℤ :=
  match cs with
  | '0' :: 'x' :: hex | '0' :: 'X' :: hex => do
    let n ← digitsValue 16 hex
    if negative then if n ≤ 2 ^ 63 then some (-n) else none
    else if n < 2 ^ 64 then some (wrapInt64 n) else none
  | _ => do
    let n ← digitsValue 10 cs
    if negative then if n ≤ 2 ^ 63 then some (-n) else none
    else if n < 2 ^ 63 then some n else none

/-- `int.parse` -/
def parseInt (s : String) : Except DartError ℤ :=
  let value := match trim s.toList with
    | '-' :: cs => magnitude true cs
    | '+' :: cs => magnitude false cs
    | cs => magnitude false cs
  match value with
  | some n => .ok n
  | none => .error .formatException

/-- `s.split(sep)` for a separator of one character. -/
def split (s : String) (sep : Char) : List String := (s.toList.splitOn sep).map String.ofList

def padLeft (s : String) (width : ℕ) (pad : Char) : String :=
  String.ofList (List.replicate (width - s.toList.length) pad ++ s.toList)

def partAt (parts : List String) (i : ℕ) : Except DartError String :=
  match parts[i]? with
  | some part => .ok part
  | none => .error .rangeError

def twoDigits (n : ℕ) : String := padLeft (toString n) 2 '0'

def clockText (hour minute : ℕ) : String := twoDigits hour ++ ":" ++ twoDigits minute

theorem parseInt_twoDigits {n : ℕ} (h : n < 60) : parseInt (twoDigits n) = .ok n := by
  have hall : ∀ n : Fin 60, parseInt (twoDigits n) = .ok (n : ℤ) := by decide +kernel
  exact hall ⟨n, h⟩

theorem colon_notMem_twoDigits {n : ℕ} (h : n < 60) : ':' ∉ (twoDigits n).toList := by
  have hall : ∀ n : Fin 60, ':' ∉ (twoDigits n).toList := by decide +kernel
  exact hall ⟨n, h⟩

theorem split_clockText {hour minute : ℕ} (hh : hour < 60) (hm : minute < 60) :
    split (clockText hour minute) ':' = [twoDigits hour, twoDigits minute] := by
  have htext : (clockText hour minute).toList =
      (twoDigits hour).toList ++ ':' :: (twoDigits minute).toList := by
    simp [clockText]
  rw [split, htext, List.splitOn_append_cons_self_of_not_mem (colon_notMem_twoDigits hh),
    List.splitOn_eq_singleton (colon_notMem_twoDigits hm)]
  simp

theorem twoDigits_inj {m n : ℕ} (hm : m < 60) (hn : n < 60) (h : twoDigits m = twoDigits n) :
    m = n := by
  have hparse := congrArg parseInt h
  rw [parseInt_twoDigits hm, parseInt_twoDigits hn] at hparse
  exact Int.ofNat.inj (Except.ok.inj hparse)

@[ext] structure ClockTime where
  hour : ℕ
  minute : ℕ
  hour_lt : hour < 24
  minute_lt : minute < 60
  deriving DecidableEq

namespace ClockTime

def text (t : ClockTime) : String := clockText t.hour t.minute

def shift (t : ClockTime) (k : ℤ) : ClockTime where
  hour := ((t.hour + k) % 24).toNat
  minute := t.minute
  hour_lt := by omega
  minute_lt := t.minute_lt

theorem split_text (t : ClockTime) : split t.text ':' = [twoDigits t.hour, twoDigits t.minute] :=
  split_clockText (by have := t.hour_lt; omega) t.minute_lt

theorem text_inj {t u : ClockTime} (h : t.text = u.text) : t = u := by
  have hsplit := congrArg (split · ':') h
  simp only [split_text, List.cons.injEq, and_true] at hsplit
  have ht := t.hour_lt
  have hu := u.hour_lt
  exact ClockTime.ext (twoDigits_inj (by omega) (by omega) hsplit.1)
    (twoDigits_inj t.minute_lt u.minute_lt hsplit.2)

def minutes (t : ClockTime) : ℤ := t.hour * 60 + t.minute

/-- What the clock shows a given number of minutes after some midnight. -/
def ofMinutes (m : ℤ) : ClockTime where
  hour := (m / 60 % 24).toNat
  minute := (m % 60).toNat
  hour_lt := by omega
  minute_lt := by omega

/-- Going round the clock from `start`, `t` comes no later than `stop`. -/
def Between (t start stop : ClockTime) : Prop :=
  (t.minutes - start.minutes) % 1440 ≤ (stop.minutes - start.minutes) % 1440
deriving Decidable

theorem minutes_range (t : ClockTime) : 0 ≤ t.minutes ∧ t.minutes < 1440 := by
  have hhour := t.hour_lt
  have hminute := t.minute_lt
  unfold minutes
  omega

theorem minutes_ofMinutes (m : ℤ) : (ofMinutes m).minutes = m % 1440 := by
  simp only [minutes, ofMinutes]
  omega

theorem minutes_inj {t u : ClockTime} (h : t.minutes = u.minutes) : t = u := by
  have ht := t.minute_lt
  have hu := u.minute_lt
  unfold minutes at h
  apply ClockTime.ext <;> omega

theorem ofMinutes_eq_iff {m n : ℤ} : ofMinutes m = ofMinutes n ↔ m % 1440 = n % 1440 := by
  constructor
  · intro h
    rw [← minutes_ofMinutes, ← minutes_ofMinutes, h]
  · intro h
    apply minutes_inj
    rwa [minutes_ofMinutes, minutes_ofMinutes]

theorem between_ofMinutes {c s e : ℤ} :
    Between (ofMinutes c) (ofMinutes s) (ofMinutes e) ↔ (c - s) % 1440 ≤ (e - s) % 1440 := by
  simp only [Between, minutes_ofMinutes]
  omega

theorem minutes_shift (t : ClockTime) (k : ℤ) :
    (t.shift k).minutes = (t.minutes + 60 * k) % 1440 := by
  have hminute := t.minute_lt
  simp only [minutes, shift]
  omega

theorem between_shift (t start stop : ClockTime) (k : ℤ) :
    Between (t.shift k) (start.shift k) (stop.shift k) ↔ Between t start stop := by
  simp only [Between, minutes_shift]
  omega

end ClockTime

/-- Two texts cut at a separator are one text when they are cut at the same place, or at two
occurrences of the separator with some part between them. -/
theorem append_sep_eq_iff {α : Type*} {sep : α} {s d s' d' : List α} :
    s ++ sep :: d = s' ++ sep :: d' ↔ (s = s' ∧ d = d') ∨
      (∃ m, s' = s ++ sep :: m ∧ d = m ++ sep :: d') ∨
      ∃ m, s = s' ++ sep :: m ∧ d' = m ++ sep :: d := by
  rw [List.append_eq_append_iff]
  constructor
  · rintro (⟨m, hs, hd⟩ | ⟨m, hs, hd⟩)
    · rcases List.cons_eq_append_iff.mp hd with ⟨rfl, hd⟩ | ⟨m, rfl, hd⟩
      · rw [List.append_nil] at hs
        exact Or.inl ⟨hs.symm, (List.cons.inj hd).2⟩
      · exact Or.inr (Or.inl ⟨m, hs, (List.cons.inj hd).2⟩)
    · rcases List.cons_eq_append_iff.mp hd with ⟨rfl, hd⟩ | ⟨m, rfl, hd⟩
      · rw [List.append_nil] at hs
        exact Or.inl ⟨hs, (List.cons.inj hd).2.symm⟩
      · exact Or.inr (Or.inr ⟨m, hs, (List.cons.inj hd).2⟩)
  · rintro (⟨rfl, rfl⟩ | ⟨m, rfl, rfl⟩ | ⟨m, rfl, rfl⟩)
    · exact Or.inl ⟨[], by simp⟩
    · exact Or.inl ⟨sep :: m, by simp⟩
    · exact Or.inr ⟨sep :: m, by simp⟩

theorem toList_dashed (a b : String) : (a ++ "-" ++ b).toList = a.toList ++ '-' :: b.toList := by
  simp

theorem dashed_eq_iff {s d s' d' : String} : s ++ "-" ++ d = s' ++ "-" ++ d' ↔
    (s = s' ∧ d = d') ∨ (∃ m, s' = s ++ "-" ++ m ∧ d = m ++ "-" ++ d') ∨
      ∃ m, s = s' ++ "-" ++ m ∧ d' = m ++ "-" ++ d := by
  have hexists (P : List Char → Prop) : (∃ m : String, P m.toList) ↔ ∃ m, P m :=
    ⟨fun ⟨m, h⟩ => ⟨m.toList, h⟩, fun ⟨m, h⟩ => ⟨String.ofList m, by rwa [String.toList_ofList]⟩⟩
  simp only [← String.toList_inj, toList_dashed, append_sep_eq_iff]
  rw [hexists fun m => s'.toList = s.toList ++ '-' :: m ∧ d.toList = m ++ '-' :: d'.toList,
    hexists fun m => s.toList = s'.toList ++ '-' :: m ∧ d'.toList = m ++ '-' :: d.toList]

end DartText
