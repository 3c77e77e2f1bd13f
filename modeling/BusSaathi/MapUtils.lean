import BusSaathi.Models
import Mathlib.Algebra.Order.Field.Basic
import Mathlib.Algebra.Order.Ring.Rat
import Mathlib.Tactic.NormNum
import Mathlib.Tactic.Positivity
import Mathlib.Tactic.Ring

/-! `MapUtils`: is a point on a path? Coordinates are exact numbers of an ordered field, and
the distance of the map package is a parameter. -/
namespace MapUtils

open Models

variable {K : Type} [Field K]

section Source

variable [LinearOrder K]

def distanceToSegment (distance : LatLng K → LatLng K → K)
    (point segmentStart segmentEnd : LatLng K) : K :=
  let segmentLength := distance segmentStart segmentEnd
  if segmentLength = 0 then distance segmentStart point
  else
    let t := ((point.latitude - segmentStart.latitude) *
          (segmentEnd.latitude - segmentStart.latitude) +
        (point.longitude - segmentStart.longitude) *
          (segmentEnd.longitude - segmentStart.longitude)) /
      (segmentLength * segmentLength)
    if t < 0 then distance segmentStart point
    else if t > 1 then distance segmentEnd point
    else
      let projection : LatLng K :=
        ⟨segmentStart.latitude + t * (segmentEnd.latitude - segmentStart.latitude),
         segmentStart.longitude + t * (segmentEnd.longitude - segmentStart.longitude)⟩
      distance point projection

/-- The loop takes each vertex but the last with the one after it. -/
def isPointOnPath (distance : LatLng K → LatLng K → K) (point : LatLng K)
    (path : List (LatLng K)) (tolerance : K) : Bool :=
  (path.zip path.tail).any fun segment =>
    distanceToSegment distance point segment.1 segment.2 ≤ tolerance

end Source

/-- What is assumed of the package's distance. -/
structure IsDistance [LinearOrder K] (d : LatLng K → LatLng K → K) : Prop where
  nonneg : ∀ p q, 0 ≤ d p q
  symm : ∀ p q, d p q = d q p
  eq_zero_iff : ∀ p q, d p q = 0 ↔ p = q

def between (a b : LatLng K) (u : K) : LatLng K :=
  ⟨a.latitude + u * (b.latitude - a.latitude), a.longitude + u * (b.longitude - a.longitude)⟩

def dot (p a b : LatLng K) : K :=
  (p.latitude - a.latitude) * (b.latitude - a.latitude) +
    (p.longitude - a.longitude) * (b.longitude - a.longitude)

def squaredDegrees (a b : LatLng K) : K := dot b a b

def OnSegment [LinearOrder K] (p a b : LatLng K) : Prop := ∃ u, 0 ≤ u ∧ u ≤ 1 ∧ p = between a b u

def OnPolyline [LinearOrder K] (p : LatLng K) (path : List (LatLng K)) : Prop :=
  ∃ segment ∈ path.zip path.tail, OnSegment p segment.1 segment.2

theorem between_zero (a b : LatLng K) : between a b 0 = a := by
  simp [between]

theorem between_one (a b : LatLng K) : between a b 1 = b := by
  simp [between]

theorem between_self (a : LatLng K) (u : K) : between a a u = a := by
  simp [between]

theorem dot_between (a b : LatLng K) (u : K) :
    dot (between a b u) a b = u * squaredDegrees a b := by
  simp only [dot, between, squaredDegrees]
  ring

section Exact

variable [LinearOrder K] {d : LatLng K → LatLng K → K} {p a b : LatLng K} {path : List (LatLng K)}

theorem distanceToSegment_self (hd : IsDistance d) (p a : LatLng K) :
    distanceToSegment d p a a = d a p :=
  if_pos ((hd.eq_zero_iff a a).mpr rfl)

theorem isPointOnPath_iff {tolerance : K} : isPointOnPath d p path tolerance = true ↔
    ∃ segment ∈ path.zip path.tail, distanceToSegment d p segment.1 segment.2 ≤ tolerance := by
  simp only [isPointOnPath, List.any_eq_true, decide_eq_true_eq]

theorem isPointOnPath_mono {tolerance wider : K} (h : tolerance ≤ wider)
    (hp : isPointOnPath d p path tolerance = true) : isPointOnPath d p path wider = true := by
  rw [isPointOnPath_iff] at hp ⊢
  obtain ⟨segment, hmem, hle⟩ := hp
  exact ⟨segment, hmem, hle.trans h⟩

variable [IsStrictOrderedRing K]

/-- Where the code finds a point of the segment: at the start, at the end if the segment is no
longer in metres than in degrees, or anywhere if both lengths are equal. -/
def Reached (d : LatLng K → LatLng K → K) (p a b : LatLng K) : Prop :=
  p = a ∨ (p = b ∧ d a b * d a b ≤ squaredDegrees a b) ∨
    (d a b * d a b = squaredDegrees a b ∧ OnSegment p a b)

theorem onSegment_start (a b : LatLng K) : OnSegment a a b :=
  ⟨0, le_refl 0, zero_le_one, (between_zero a b).symm⟩

theorem onSegment_end (a b : LatLng K) : OnSegment b a b :=
  ⟨1, zero_le_one, le_refl 1, (between_one a b).symm⟩

theorem Reached.onSegment (h : Reached d p a b) : OnSegment p a b := by
  rcases h with rfl | ⟨rfl, -⟩ | ⟨-, hp⟩
  · exact onSegment_start p b
  · exact onSegment_end a p
  · exact hp

theorem squaredMetres_pos (hd : IsDistance d) (h : a ≠ b) : 0 < d a b * d a b :=
  mul_self_pos.mpr (mt (hd.eq_zero_iff a b).mp h)

/-- What the function does on a segment with two ends, by the parameter `t` it computes. -/
theorem distanceToSegment_of_ne (hd : IsDistance d) (h : a ≠ b) :
    ∃ t, t * (d a b * d a b) = dot p a b ∧ distanceToSegment d p a b =
      if t < 0 then d a p else if t > 1 then d b p else d p (between a b t) := by
  refine ⟨dot p a b / (d a b * d a b), div_mul_cancel₀ _ (squaredMetres_pos hd h).ne', ?_⟩
  rw [distanceToSegment, if_neg (mt (hd.eq_zero_iff a b).mp h)]
  rfl

theorem reached_of_distance_eq_zero (hd : IsDistance d) (h : a ≠ b)
    (hzero : distanceToSegment d p a b = 0) : Reached d p a b := by
  have hmetres := squaredMetres_pos hd h
  obtain ⟨t, ht, hdist⟩ := distanceToSegment_of_ne (p := p) hd h
  rw [hdist] at hzero
  by_cases hneg : t < 0
  · rw [if_pos hneg, hd.eq_zero_iff] at hzero
    exact Or.inl hzero.symm
  rw [if_neg hneg] at hzero
  by_cases hpast : t > 1
  · rw [if_pos hpast, hd.eq_zero_iff] at hzero
    subst hzero
    refine Or.inr (Or.inl ⟨rfl, ?_⟩)
    rw [squaredDegrees, ← ht]
    exact le_mul_of_one_le_left hmetres.le hpast.le
  · rw [if_neg hpast, hd.eq_zero_iff] at hzero
    rw [hzero, dot_between] at ht
    by_cases hstart : t = 0
    · rw [hstart, between_zero] at hzero
      exact Or.inl hzero
    · have hscale := mul_left_cancel₀ hstart ht
      exact Or.inr (Or.inr ⟨hscale, t, not_lt.mp hneg, not_lt.mp hpast, hzero⟩)

theorem distance_eq_zero_of_reached (hd : IsDistance d) (h : a ≠ b) (hreached : Reached d p a b) :
    distanceToSegment d p a b = 0 := by
  have hmetres := squaredMetres_pos hd h
  obtain ⟨t, ht, hdist⟩ := distanceToSegment_of_ne (p := p) hd h
  rw [hdist]
  rcases hreached with hp | ⟨hp, hshort⟩ | ⟨hscale, u, hu0, hu1, rfl⟩
  · have hstart : dot p a b = 0 := by simp [dot, hp]
    rw [hstart] at ht
    have ht0 : t = 0 := (mul_eq_zero.mp ht).resolve_right hmetres.ne'
    rw [ht0, between_zero, hp, if_neg (lt_irrefl 0), if_neg (not_lt.mpr zero_le_one),
      hd.eq_zero_iff]
  · have hend : t * (d a b * d a b) = squaredDegrees a b := by rw [ht, hp, squaredDegrees]
    have ht1 : 1 ≤ t := by
      rw [← hend] at hshort
      exact le_of_mul_le_mul_right (by rwa [one_mul]) hmetres
    rw [if_neg (not_lt.mpr (zero_le_one.trans ht1))]
    by_cases hpast : t > 1
    · rw [if_pos hpast, hd.eq_zero_iff, hp]
    · have heq : t = 1 := le_antisymm (not_lt.mp hpast) ht1
      rw [if_neg hpast, heq, between_one, hd.eq_zero_iff, hp]
  · rw [dot_between, ← hscale] at ht
    obtain rfl := mul_right_cancel₀ hmetres.ne' ht
    rw [if_neg (not_lt.mpr hu0), if_neg (not_lt.mpr hu1), hd.eq_zero_iff]

theorem distanceToSegment_eq_zero_iff (hd : IsDistance d) :
    distanceToSegment d p a b = 0 ↔ Reached d p a b := by
  by_cases hab : a = b
  · subst hab
    rw [distanceToSegment_self hd, hd.eq_zero_iff]
    constructor
    · rintro rfl
      exact Or.inl rfl
    · intro h
      obtain ⟨u, -, -, rfl⟩ := h.onSegment
      exact (between_self a u).symm
  · constructor
    · exact reached_of_distance_eq_zero hd hab
    · exact distance_eq_zero_of_reached hd hab

theorem distanceToSegment_nonneg (hd : IsDistance d) : 0 ≤ distanceToSegment d p a b := by
  by_cases hab : a = b
  · rw [hab, distanceToSegment_self hd]
    exact hd.nonneg b p
  · obtain ⟨t, -, hdist⟩ := distanceToSegment_of_ne (p := p) hd hab
    rw [hdist]
    split
    · exact hd.nonneg a p
    · split
      · exact hd.nonneg b p
      · exact hd.nonneg p _

theorem isPointOnPath_zero_iff (hd : IsDistance d) : isPointOnPath d p path 0 = true ↔
    ∃ segment ∈ path.zip path.tail, Reached d p segment.1 segment.2 := by
  rw [isPointOnPath_iff]
  constructor
  · rintro ⟨segment, hmem, hle⟩
    have hzero := le_antisymm hle (distanceToSegment_nonneg hd)
    exact ⟨segment, hmem, (distanceToSegment_eq_zero_iff hd).mp hzero⟩
  · rintro ⟨segment, hmem, hreached⟩
    exact ⟨segment, hmem, ((distanceToSegment_eq_zero_iff hd).mpr hreached).le⟩

/-- At tolerance 0 the code accepts only points of the polyline. It accepts all of them, and
at every larger tolerance too, unless it misses the point on each of its segments. -/
theorem isPointOnPath_exact_iff (hd : IsDistance d) (p : LatLng K) (path : List (LatLng K)) :
    ((isPointOnPath d p path 0 = true ↔ OnPolyline p path) ∧
      (OnPolyline p path → ∀ tolerance, 0 < tolerance → isPointOnPath d p path tolerance = true)) ↔
    ¬ OnPolyline p path ∨ ∃ segment ∈ path.zip path.tail, Reached d p segment.1 segment.2 := by
  rw [isPointOnPath_zero_iff hd]
  constructor
  · rintro ⟨hexact, -⟩
    by_cases hon : OnPolyline p path
    · exact Or.inr (hexact.mpr hon)
    · exact Or.inl hon
  · rintro (hoff | hreached)
    · have hnone : ¬ ∃ segment ∈ path.zip path.tail, Reached d p segment.1 segment.2 := by
        rintro ⟨segment, hmem, hreached⟩
        exact hoff ⟨segment, hmem, hreached.onSegment⟩
      exact ⟨iff_of_false hnone hoff, fun hon => absurd hon hoff⟩
    · have hon : OnPolyline p path := by
        obtain ⟨segment, hmem, hreached⟩ := hreached
        exact ⟨segment, hmem, hreached.onSegment⟩
      refine ⟨iff_of_true hreached hon, fun _ tolerance htolerance => ?_⟩
      exact isPointOnPath_mono htolerance.le ((isPointOnPath_zero_iff hd).mpr hreached)

end Exact

/-- A distance of 111000 metres for each degree of latitude and of longitude. -/
def blockMetres (p q : LatLng ℚ) : ℚ :=
  111000 * (|p.latitude - q.latitude| + |p.longitude - q.longitude|)

theorem isDistance_blockMetres : IsDistance blockMetres := by
  constructor
  · intro p q
    unfold blockMetres
    positivity
  · intro p q
    unfold blockMetres
    rw [abs_sub_comm p.latitude, abs_sub_comm p.longitude]
  · intro p q
    unfold blockMetres
    constructor
    · intro h
      have hsum := (mul_eq_zero.mp h).resolve_left (by norm_num)
      have hparts := (add_eq_zero_iff_of_nonneg (abs_nonneg _) (abs_nonneg _)).mp hsum
      rw [abs_eq_zero, abs_eq_zero, sub_eq_zero, sub_eq_zero] at hparts
      cases p
      cases q
      rw [LatLng.mk.injEq]
      exact hparts
    · rintro rfl
      simp

def degreeNorth : List (LatLng ℚ) := [⟨31, 74⟩, ⟨32, 74⟩]

theorem first_vertex_is_accepted :
    (isPointOnPath blockMetres ⟨31, 74⟩ degreeNorth 0 = true ↔ OnPolyline ⟨31, 74⟩ degreeNorth) ∧
    (OnPolyline ⟨31, 74⟩ degreeNorth → ∀ tolerance, 0 < tolerance →
      isPointOnPath blockMetres ⟨31, 74⟩ degreeNorth tolerance = true) :=
  (isPointOnPath_exact_iff isDistance_blockMetres _ _).mpr
    (Or.inr ⟨(⟨31, 74⟩, ⟨32, 74⟩), List.mem_cons_self, Or.inl rfl⟩)

theorem halfway_point_is_rejected :
    ¬ ∀ (d : LatLng ℚ → LatLng ℚ → ℚ) (p : LatLng ℚ) (path : List (LatLng ℚ)), IsDistance d →
      2 ≤ path.length →
        (isPointOnPath d p path 0 = true ↔ OnPolyline p path) ∧
        (OnPolyline p path → ∀ tolerance, 0 < tolerance →
          isPointOnPath d p path tolerance = true) := by
  intro h
  have hon : OnPolyline (⟨63 / 2, 74⟩ : LatLng ℚ) degreeNorth :=
    ⟨(⟨31, 74⟩, ⟨32, 74⟩), List.mem_cons_self, 1 / 2, by norm_num, by norm_num, by
      norm_num [between]⟩
  have haccepted :=
    (h blockMetres _ degreeNorth isDistance_blockMetres (by decide)).2 hon 50000 (by norm_num)
  have hrejected : isPointOnPath blockMetres ⟨63 / 2, 74⟩ degreeNorth 50000 = false := by
    decide +kernel
  rw [hrejected] at haccepted
  cases haccepted

section Tolerance

variable [LinearOrder K] [IsStrictOrderedRing K] {d : LatLng K → LatLng K → K} {a b p : LatLng K}
  {path : List (LatLng K)} {tolerance : K}

end Tolerance

end MapUtils
