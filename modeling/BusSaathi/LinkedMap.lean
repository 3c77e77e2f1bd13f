import Mathlib.Data.List.Induction
import Mathlib.Data.List.Nodup

/-! Insertion-ordered maps: a new key goes to the end, an existing key keeps its place.
Keys never repeat, which the structure carries. -/
namespace LinkedMaps

@[ext] structure LinkedMap (K V : Type*) where
  entries : List (K × V)
  keys_nodup : (entries.map Prod.fst).Nodup

variable {K V W : Type*}

namespace LinkedMap

def empty : LinkedMap K V := ⟨[], List.nodup_nil⟩

def keys (m : LinkedMap K V) : List K := m.entries.map Prod.fst
def values (m : LinkedMap K V) : List V := m.entries.map Prod.snd

instance [DecidableEq K] [DecidableEq V] : DecidableEq (LinkedMap K V) := fun m n =>
  decidable_of_iff (m.entries = n.entries) LinkedMap.ext_iff.symm

def mapValues (m : LinkedMap K V) (f : V → W) : LinkedMap K W where
  entries := m.entries.map (fun e => (e.1, f e.2))
  keys_nodup := by simpa [Function.comp_def] using m.keys_nodup

variable [DecidableEq K]

def containsKey (m : LinkedMap K V) (k : K) : Bool := decide (k ∈ m.keys)

def get? (m : LinkedMap K V) (k : K) : Option V :=
  (m.entries.find? (fun e => e.1 = k)).map Prod.snd

/-- Change the value stored at a key, if there is one. -/
def update (m : LinkedMap K V) (k : K) (f : V → V) : LinkedMap K V where
  entries := m.entries.map (fun e => if e.1 = k then (e.1, f e.2) else e)
  keys_nodup := by
    have h : Prod.fst ∘ (fun e : K × V => if e.1 = k then (e.1, f e.2) else e) = Prod.fst := by
      funext e; by_cases h : e.1 = k <;> simp [h]
    rw [List.map_map, h]
    exact m.keys_nodup

def append (m : LinkedMap K V) (k : K) (v : V) (h : k ∉ m.keys) : LinkedMap K V where
  entries := m.entries ++ [(k, v)]
  keys_nodup := by
    rw [List.map_append, List.nodup_append]
    refine ⟨m.keys_nodup, by simp, ?_⟩
    intro a ha b hb hab
    rw [List.map_singleton, List.mem_singleton] at hb
    rw [hab, hb] at ha
    exact h ha

/-- `m[k] = v`. -/
def set (m : LinkedMap K V) (k : K) (v : V) : LinkedMap K V :=
  if h : k ∈ m.keys then m.update k (fun _ => v) else m.append k v h

def ofEntries (es : List (K × V)) : LinkedMap K V := es.foldl (fun m e => m.set e.1 e.2) empty

@[simp] theorem containsKey_iff (m : LinkedMap K V) (k : K) :
    m.containsKey k = true ↔ k ∈ m.keys := by simp [containsKey]

theorem keys_update (m : LinkedMap K V) (k : K) (f : V → V) : (m.update k f).keys = m.keys := by
  unfold keys update
  rw [List.map_map]
  exact List.map_congr_left fun e _ => by by_cases h : e.1 = k <;> simp [h]

theorem set_of_notMem {m : LinkedMap K V} {k : K} (h : k ∉ m.keys) (v : V) :
    (m.set k v).entries = m.entries ++ [(k, v)] := by
  simp [set, h, append]

theorem update_set_of_notMem {m : LinkedMap K V} {k : K} (h : k ∉ m.keys) (v : V) (f : V → V) :
    ((m.set k v).update k f).entries = m.entries ++ [(k, f v)] := by
  have hkeep : m.entries.map (fun e => if e.1 = k then (e.1, f e.2) else e) = m.entries := by
    refine (List.map_congr_left fun e he => ?_).trans (List.map_id _)
    exact if_neg fun hk : e.1 = k => h (hk ▸ List.mem_map_of_mem he)
  simp [update, set_of_notMem h, hkeep]

/-- Building a map from entries whose keys do not repeat keeps them as they are. -/
theorem ofEntries_of_nodup {es : List (K × V)} (h : (es.map Prod.fst).Nodup) :
    ofEntries es = ⟨es, h⟩ := by
  suffices aux : ∀ (post : List (K × V)) (m : LinkedMap K V),
      ((m.entries ++ post).map Prod.fst).Nodup →
      (post.foldl (fun m e => m.set e.1 e.2) m).entries = m.entries ++ post by
    exact LinkedMap.ext (aux es empty (by simpa [empty] using h))
  intro post
  induction post with
  | nil => intro m _; simp
  | cons e post ih =>
    intro m hm
    have hk : e.1 ∉ m.keys := by
      intro hmem
      rw [List.map_append, List.nodup_append] at hm
      exact hm.2.2 e.1 hmem e.1 (by simp) rfl
    have hset := set_of_notMem hk e.2
    rw [List.foldl_cons, ih _ (by rw [hset]; simpa using hm), hset]
    simp

theorem get?_eq_none {m : LinkedMap K V} {k : K} (h : k ∉ m.keys) : m.get? k = none := by
  rw [get?, Option.map_eq_none_iff, List.find?_eq_none]
  intro e he hk
  exact h (of_decide_eq_true hk ▸ List.mem_map_of_mem he)

theorem get?_update_self {m : LinkedMap K V} {k : K} (h : k ∈ m.keys) (v : V) :
    (m.update k fun _ => v).get? k = some v := by
  obtain ⟨e, he, hk⟩ := List.mem_map.mp h
  have hsome : (m.entries.find? (fun e => e.1 = k)).isSome :=
    List.find?_isSome.mpr ⟨e, he, by simpa using hk⟩
  obtain ⟨found, hfound⟩ := Option.isSome_iff_exists.mp hsome
  have hkey : found.1 = k := by simpa using List.find?_some hfound
  have hsame : (fun e => decide (e.1 = k)) ∘ (fun e : K × V => if e.1 = k then (e.1, v) else e) =
      fun e => decide (e.1 = k) := by
    funext e
    by_cases h : e.1 = k <;> simp [h]
  rw [get?, update, List.find?_map, hsame, hfound]
  simp [hkey]

theorem get?_update_other {m : LinkedMap K V} {k k' : K} (h : k' ≠ k) (f : V → V) :
    (m.update k f).get? k' = m.get? k' := by
  have hsame : (fun e => decide (e.1 = k')) ∘
      (fun e : K × V => if e.1 = k then (e.1, f e.2) else e) = fun e => decide (e.1 = k') := by
    funext e
    by_cases h : e.1 = k <;> simp [h]
  rw [get?, get?, update, List.find?_map, hsame, Option.map_map]
  cases hfound : m.entries.find? (fun e => decide (e.1 = k')) with
  | none => rfl
  | some e =>
    have hkey : e.1 = k' := by simpa using List.find?_some hfound
    have hother : e.1 ≠ k := fun hk => h (hkey.symm.trans hk)
    simp [hother]

theorem get?_set (m : LinkedMap K V) (k k' : K) (v : V) :
    (m.set k v).get? k' = if k' = k then some v else m.get? k' := by
  by_cases hmem : k ∈ m.keys
  · rw [set, dif_pos hmem]
    by_cases hk : k' = k
    · rw [if_pos hk, hk, get?_update_self hmem]
    · rw [if_neg hk, get?_update_other hk]
  · rw [get?, set_of_notMem hmem, List.find?_append]
    by_cases hk : k' = k
    · have hnone := get?_eq_none hmem
      rw [get?, Option.map_eq_none_iff] at hnone
      rw [if_pos hk, hk, hnone]
      simp
    · have hlast : [(k, v)].find? (fun e => decide (e.1 = k')) = none := by
        simpa using Ne.symm hk
      rw [if_neg hk, hlast, Option.or_none]
      rfl

/-- A map built from entries holds, for every key, the last value given for it. -/
theorem get?_ofEntries (es : List (K × V)) (k : K) :
    (ofEntries es).get? k = (es.filter (fun e => e.1 = k)).getLast?.map Prod.snd := by
  induction es using List.reverseRecOn with
  | nil => rfl
  | append_singleton es e ih =>
    have hstep : ofEntries (es ++ [e]) = (ofEntries es).set e.1 e.2 := by
      rw [ofEntries, List.foldl_append]
      rfl
    rw [hstep, get?_set, ih, List.filter_append]
    by_cases hk : k = e.1
    · simp [hk]
    · simp [hk, Ne.symm hk]

end LinkedMap

end LinkedMaps
