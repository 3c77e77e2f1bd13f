import Mathlib.Data.Finset.Card
import Mathlib.Data.List.Perm.Basic

/-! A list split into groups by a key: the groups together are the list, each keeps its order,
and `eraseDups` gives the keys in the order of their first occurrence. -/
namespace KeyGroups

variable {α β : Type*} [DecidableEq β]

def groupOf (key : α → β) (l : List α) (k : β) : List α := l.filter (fun a => key a = k)

theorem mem_groupOf {key : α → β} {l : List α} {k : β} {a : α} :
    a ∈ groupOf key l k ↔ a ∈ l ∧ key a = k := by
  rw [groupOf, List.mem_filter, decide_eq_true_eq]

theorem groupOf_sublist (key : α → β) (l : List α) (k : β) : (groupOf key l k).Sublist l :=
  List.filter_sublist

theorem groupOf_filter_ne {key : α → β} {l : List α} {k k' : β} (h : k' ≠ k) :
    groupOf key (l.filter (fun a => ¬ key a = k)) k' = groupOf key l k' := by
  rw [groupOf, groupOf, List.filter_filter]
  apply List.filter_congr
  intro a _
  by_cases ha : key a = k'
  · simp [ha, h]
  · simp [ha]

/-- The groups of distinct keys that cover the list, one after another, are the list. -/
theorem flatMap_groupOf_perm {key : α → β} {keys : List β} {l : List α} (hnodup : keys.Nodup)
    (hcover : ∀ a ∈ l, key a ∈ keys) : (keys.flatMap (groupOf key l)).Perm l := by
  induction keys generalizing l with
  | nil =>
    have hnil : l = [] := List.eq_nil_iff_forall_not_mem.mpr fun a ha => by simpa using hcover a ha
    rw [hnil]
    rfl
  | cons k keys ih =>
    obtain ⟨hk, hkeys⟩ := List.nodup_cons.mp hnodup
    have hothers : keys.flatMap (groupOf key l) =
        keys.flatMap (groupOf key (l.filter (fun a => ¬ key a = k))) := by
      apply List.flatMap_congr
      intro k' hk'
      have hne : k' ≠ k := fun h => hk (h ▸ hk')
      exact (groupOf_filter_ne hne).symm
    have hrest : ∀ a ∈ l.filter (fun a => ¬ key a = k), key a ∈ keys := by
      intro a ha
      rw [List.mem_filter, decide_eq_true_eq] at ha
      exact (List.mem_cons.mp (hcover a ha.1)).resolve_left ha.2
    rw [List.flatMap_cons, hothers]
    apply ((ih hkeys hrest).append_left _).trans
    simpa only [groupOf, decide_not] using List.filter_append_perm (fun a => key a = k) l

/-- Every key that `eraseDups` keeps occurs earlier in the list than the keys after it. -/
theorem pairwise_idxOf_eraseDups (l : List β) :
    l.eraseDups.Pairwise (fun a b => l.idxOf a < l.idxOf b) := by
  induction l using List.reverseRecOn with
  | nil => exact List.Pairwise.nil
  | append_singleton l b ih =>
    have hold : l.eraseDups.Pairwise (fun a c => (l ++ [b]).idxOf a < (l ++ [b]).idxOf c) := by
      apply ih.imp_of_mem
      intro a c ha hc hlt
      rwa [List.idxOf_append_of_mem (List.mem_eraseDups.mp ha),
        List.idxOf_append_of_mem (List.mem_eraseDups.mp hc)]
    rw [List.eraseDups_append]
    by_cases hb : b ∈ l
    · simpa [List.removeAll, hb] using hold
    · have hnew : ([b].removeAll l).eraseDups = [b] := by
        simp [List.removeAll, List.eraseDups_cons, hb]
      rw [hnew, List.pairwise_append]
      refine ⟨hold, List.pairwise_singleton _ _, ?_⟩
      intro a ha c hc
      have hmem := List.mem_eraseDups.mp ha
      rw [List.mem_singleton.mp hc, List.idxOf_append_of_mem hmem,
        List.idxOf_append_of_notMem hb]
      exact Nat.lt_add_right _ (List.idxOf_lt_length_of_mem hmem)

theorem nodup_eraseDups (l : List β) : l.eraseDups.Nodup := by
  apply (pairwise_idxOf_eraseDups l).imp
  intro a b hlt hab
  exact Nat.lt_irrefl _ (hab ▸ hlt)

theorem length_eraseDups (l : List β) : l.eraseDups.length = l.toFinset.card := by
  have hset : l.eraseDups.toFinset = l.toFinset := by
    ext a
    simp
  rw [← hset, List.toFinset_card_of_nodup (nodup_eraseDups l)]

end KeyGroups
