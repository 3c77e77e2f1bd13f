import Mathlib.Data.List.Nodup
import Mathlib.Data.List.Perm.Basic

/-! Tables with a primary key under the replace policy. A table is its rows in
insertion order; replacing removes the row with the same key and appends the new one.
The key function is a parameter, so nothing here depends on what a row holds. -/
namespace KeyedTable

variable {R K : Type*} {key : R → K}

theorem find?_key_eq_some [DecidableEq K] {rows : List R} (hn : (rows.map key).Nodup) {k : K}
    {r : R} : rows.find? (fun r => key r = k) = some r ↔ r ∈ rows ∧ key r = k := by
  constructor
  · intro h
    exact ⟨List.mem_of_find?_eq_some h, by simpa using List.find?_some h⟩
  · rintro ⟨hr, rfl⟩
    cases hf : rows.find? (fun s => key s = key r) with
    | none => simpa using List.find?_eq_none.mp hf r hr
    | some s =>
      have hs : key s = key r := by simpa using List.find?_some hf
      exact congrArg some (List.inj_on_of_nodup_map hn (List.mem_of_find?_eq_some hf) hr hs)

@[ext] structure Table (key : R → K) where
  rows : List R
  keys_nodup : (rows.map key).Nodup

namespace Table

def empty : Table key := ⟨[], List.nodup_nil⟩

instance [DecidableEq R] : DecidableEq (Table key) := fun t u =>
  decidable_of_iff (t.rows = u.rows) Table.ext_iff.symm

/-- Two tables hold the same rows, in whatever order. -/
def SameRows (t u : Table key) : Prop := ∀ r, r ∈ t.rows ↔ r ∈ u.rows

@[simp] theorem empty_rows : (empty : Table key).rows = [] := rfl

theorem eq_of_key_eq {t : Table key} {r s : R} (hr : r ∈ t.rows) (hs : s ∈ t.rows)
    (h : key r = key s) : r = s := List.inj_on_of_nodup_map t.keys_nodup hr hs h

theorem rows_nodup (t : Table key) : t.rows.Nodup := t.keys_nodup.of_map key

theorem SameRows.refl (t : Table key) : t.SameRows t := fun _ => Iff.rfl

variable [DecidableEq K]

def lookup (t : Table key) (k : K) : Option R := t.rows.find? (fun r => key r = k)

/-- `INSERT` with the replace policy: one row for each key, the newest at the end. -/
def replace (t : Table key) (row : R) : Table key where
  rows := t.rows.filter (fun r => key r ≠ key row) ++ [row]
  keys_nodup := by
    rw [List.map_append, List.nodup_append]
    refine ⟨(t.keys_nodup.sublist (List.filter_sublist.map key)), List.nodup_singleton _, ?_⟩
    intro a ha b hb
    obtain ⟨r, hr, rfl⟩ := List.mem_map.mp ha
    have hne := (List.mem_filter.mp hr).2
    rw [List.map_singleton, List.mem_singleton] at hb
    simpa [hb] using hne

def replaceAll (t : Table key) (rows : List R) : Table key := rows.foldl replace t

@[simp] theorem lookup_empty (k : K) : (empty : Table key).lookup k = none := rfl
@[simp] theorem replaceAll_nil (t : Table key) : t.replaceAll [] = t := rfl
@[simp] theorem replaceAll_cons (t : Table key) (r : R) (rows : List R) :
    t.replaceAll (r :: rows) = (t.replace r).replaceAll rows := rfl

theorem replaceAll_append (t : Table key) (xs ys : List R) :
    t.replaceAll (xs ++ ys) = (t.replaceAll xs).replaceAll ys := List.foldl_append

theorem mem_replace {t : Table key} {row r : R} :
    r ∈ (t.replace row).rows ↔ r = row ∨ (r ∈ t.rows ∧ key r ≠ key row) := by
  simp only [replace, List.mem_append, List.mem_filter, decide_eq_true_eq, List.mem_singleton]
  exact or_comm

theorem lookup_eq_none {t : Table key} {k : K} :
    t.lookup k = none ↔ ∀ r ∈ t.rows, key r ≠ k := by
  simp [lookup, List.find?_eq_none]

theorem lookup_eq_some {t : Table key} {k : K} {r : R} :
    t.lookup k = some r ↔ r ∈ t.rows ∧ key r = k := find?_key_eq_some t.keys_nodup

theorem mem_iff_lookup {t : Table key} {r : R} : r ∈ t.rows ↔ t.lookup (key r) = some r := by
  simp [lookup_eq_some]

theorem filter_key (t : Table key) (k : K) :
    t.rows.filter (fun r => key r = k) = (t.lookup k).toList := by
  obtain ⟨rows, hn⟩ := t
  unfold lookup
  induction rows with
  | nil => rfl
  | cons r rows ih =>
    rw [List.map_cons, List.nodup_cons] at hn
    by_cases h : key r = k
    · have hrest : rows.filter (fun s => key s = k) = [] := by
        rw [List.filter_eq_nil_iff]
        intro s hs
        simpa [← h] using fun he : key s = key r => hn.1 (List.mem_map.mpr ⟨s, hs, he⟩)
      simp [h, hrest]
    · simpa [h] using ih hn.2

theorem lookup_replace (t : Table key) (row : R) (k : K) :
    (t.replace row).lookup k = if key row = k then some row else t.lookup k := by
  split
  case isTrue h => exact lookup_eq_some.mpr ⟨mem_replace.mpr (Or.inl rfl), h⟩
  case isFalse h =>
    cases hl : t.lookup k with
    | none =>
      rw [lookup_eq_none] at hl ⊢
      intro r hr
      rcases mem_replace.mp hr with rfl | ⟨hr, _⟩
      · exact h
      · exact hl r hr
    | some r =>
      obtain ⟨hr, hk⟩ := lookup_eq_some.mp hl
      have hne : key r ≠ key row := fun he => h (he.symm.trans hk)
      exact lookup_eq_some.mpr ⟨mem_replace.mpr (Or.inr ⟨hr, hne⟩), hk⟩

end Table

variable [DecidableEq K]

/-- The last of a list of rows with the given key. -/
def lastWith (key : R → K) (rows : List R) (k : K) : Option R :=
  rows.reverse.find? (fun r => key r = k)

@[simp] theorem lastWith_nil (k : K) : lastWith key [] k = none := rfl

theorem lastWith_append (xs ys : List R) (k : K) :
    lastWith key (xs ++ ys) k = (lastWith key ys k).or (lastWith key xs k) := by
  simp [lastWith, List.find?_append]

theorem lastWith_singleton (r : R) (k : K) :
    lastWith key [r] k = if key r = k then some r else none := by
  by_cases h : key r = k <;> simp [lastWith, h]

theorem lastWith_mem {rows : List R} {k : K} {r : R} (h : lastWith key rows k = some r) :
    r ∈ rows ∧ key r = k :=
  ⟨List.mem_reverse.mp (List.mem_of_find?_eq_some h), by simpa using List.find?_some h⟩

theorem lastWith_eq_none {rows : List R} {k : K} :
    lastWith key rows k = none ↔ ∀ r ∈ rows, key r ≠ k := by
  simp [lastWith, List.find?_eq_none]

theorem lastWith_of_nodup {rows : List R} (hn : (rows.map key).Nodup) {r : R} (hr : r ∈ rows) :
    lastWith key rows (key r) = some r := by
  have hn' : (rows.reverse.map key).Nodup := by
    rw [List.map_reverse]; exact List.nodup_reverse.mpr hn
  exact (find?_key_eq_some hn').mpr ⟨List.mem_reverse.mpr hr, rfl⟩

namespace Table

/-- A table after a run of replacing inserts is the last-write-wins map over the old one. -/
theorem lookup_replaceAll (t : Table key) (rows : List R) (k : K) :
    (t.replaceAll rows).lookup k = (lastWith key rows k).or (t.lookup k) := by
  induction rows generalizing t with
  | nil => simp
  | cons r rows ih =>
    rw [replaceAll_cons, ih, lookup_replace, ← List.singleton_append, lastWith_append,
      lastWith_singleton]
    cases lastWith key rows k <;> by_cases h : key r = k <;> simp [h]

theorem mem_replaceAll {t : Table key} {rows : List R} {r : R}
    (h : r ∈ (t.replaceAll rows).rows) : r ∈ rows ∨ r ∈ t.rows := by
  rw [mem_iff_lookup, lookup_replaceAll, Option.or_eq_some_iff] at h
  rcases h with h | ⟨-, h⟩
  · exact Or.inl (lastWith_mem h).1
  · exact Or.inr (lookup_eq_some.mp h).1

theorem rows_replaceAll_of_nodup (t : Table key) (rows : List R)
    (hn : ((t.rows ++ rows).map key).Nodup) : (t.replaceAll rows).rows = t.rows ++ rows := by
  induction rows generalizing t with
  | nil => simp
  | cons r rows ih =>
    have hkeep : t.rows.filter (fun s => key s ≠ key r) = t.rows := by
      rw [List.filter_eq_self]
      intro s hs
      rw [List.map_append, List.nodup_append] at hn
      simpa using hn.2.2 (key s) (List.mem_map_of_mem hs) (key r) (by simp)
    have hrow : (t.replace r).rows = t.rows ++ [r] := congrArg (· ++ [r]) hkeep
    rw [replaceAll_cons, ih _ (by simpa [hrow] using hn), hrow, List.append_assoc]
    rfl

theorem rows_replaceAll_map {R' : Type*} {key' : R' → K} (f : R → R')
    (hf : ∀ r, key' (f r) = key r) {t : Table key} {u : Table key'} (h : u.rows = t.rows.map f)
    (rows : List R) : (u.replaceAll (rows.map f)).rows = (t.replaceAll rows).rows.map f := by
  induction rows generalizing t u with
  | nil => exact h
  | cons r rows ih =>
    refine ih ?_
    simp only [replace, h, hf, List.filter_map, List.map_append, List.map_singleton]
    congr 2
    exact List.filter_congr fun s _ => by simp [hf]

theorem lookup_map {R' : Type*} {key' : R' → K} (f : R → R') (hf : ∀ r, key' (f r) = key r)
    {t : Table key} {u : Table key'} (h : u.rows = t.rows.map f) (k : K) :
    u.lookup k = (t.lookup k).map f := by
  simp only [lookup, h, List.find?_map, Function.comp_def, hf]

theorem sameRows_iff_lookup {t u : Table key} :
    t.SameRows u ↔ ∀ k, t.lookup k = u.lookup k := by
  constructor
  · intro h k
    ext r
    simp only [lookup_eq_some, h r]
  · intro h r
    rw [mem_iff_lookup, mem_iff_lookup, h]

/-- Writing a run of rows leaves the contents alone exactly when every row that
survives the run was stored already. -/
theorem sameRows_replaceAll_iff (t : Table key) (rows : List R) :
    (t.replaceAll rows).SameRows t ↔ ∀ k r, lastWith key rows k = some r → r ∈ t.rows := by
  rw [sameRows_iff_lookup]
  constructor
  · intro h k r hl
    have hk := h k
    rw [lookup_replaceAll, hl, Option.some_or] at hk
    exact (lookup_eq_some.mp hk.symm).1
  · intro h k
    rw [lookup_replaceAll]
    cases hl : lastWith key rows k with
    | none => simp
    | some r => exact (lookup_eq_some.mpr ⟨h k r hl, (lastWith_mem hl).2⟩).symm

end Table

end KeyedTable
