import BusSaathi.TrackingScreen
import Mathlib.Data.List.Chain

/-! All trips of a tracking screen. Its position moves only while it tracks and every trip begins
at it, so the recorded paths are the pieces of one walk: nothing that was reported while tracking is
lost between two trips, whatever the map did while the screen was not tracking. -/
namespace TrackedTrips

open EventRuns DartRuntime Models TrackingScreen

section Walks

variable {α : Type} {start : α} {pieces : List (List α)} {walk : List α}

/-- The steps of a walk, cut into pieces of which each begins at the last point of the walk so
far. -/
inductive CutInto : α → List (List α) → List α → Prop where
  | nil (start : α) : CutInto start [] []
  | cons {start : α} {steps : List α} {pieces : List (List α)} {walk : List α}
      (rest : CutInto (steps.getLastD start) pieces walk) :
      CutInto start ((start :: steps) :: pieces) (steps ++ walk)

theorem CutInto.steps_eq (h : CutInto start pieces walk) : pieces.flatMap List.tail = walk := by
  induction h with
  | nil => rfl
  | cons _ ih => rw [List.flatMap_cons, List.tail_cons, ih]

theorem CutInto.head (h : CutInto start pieces walk) : ∀ piece ∈ pieces.head?,
    piece.head? = some start := by
  cases h with
  | nil => nofun
  | cons rest =>
    rintro _ ⟨rfl⟩
    rfl

theorem CutInto.joined (h : CutInto start pieces walk) :
    pieces.IsChain fun piece later => later.head? = piece.getLast? := by
  induction h with
  | nil => exact List.IsChain.nil
  | @cons start steps pieces walk rest ih =>
    rw [List.isChain_cons]
    refine ⟨?_, ih⟩
    intro later hlater
    rw [rest.head later hlater, List.getLast?_cons]
    cases steps <;> rfl

end Walks

variable {D : Type}

/-- The path that a start clears, and at the end the path that is on the screen. -/
def tripsOf (s : TrackingState D) : List (Event D) → List (List (LatLng D))
  | [] => [s.trackedPath]
  | .startTracking :: events => s.trackedPath :: tripsOf (next s .startTracking) events
  | e :: events => tripsOf (next s e) events

/-- The centres that are reported between a start and the next stop. -/
def followed : Bool → List (Event D) → List (LatLng D)
  | _, [] => []
  | true, .positionChanged center :: events => center :: followed true events
  | false, .positionChanged _ :: events => followed false events
  | _, .startTracking :: events => followed true events
  | _, .stopTracking :: events => followed false events

theorem followed_sublist (isTracking : Bool) (events : List (Event D)) :
    (followed isTracking events).Sublist (reported events) := by
  induction events generalizing isTracking with
  | nil => cases isTracking <;> exact List.Sublist.refl []
  | cons e events ih =>
    cases e with
    | positionChanged c =>
      cases isTracking with
      | true => exact (ih true).cons_cons c
      | false => exact (ih false).cons c
    | startTracking | stopTracking => cases isTracking <;> exact ih _

@[simp] theorem tripsOf_center (s : TrackingState D) (c : LatLng D) (events : List (Event D)) :
    tripsOf s (.positionChanged c :: events) = tripsOf (next s (.positionChanged c)) events := rfl
@[simp] theorem tripsOf_start (s : TrackingState D) (events : List (Event D)) :
    tripsOf s (.startTracking :: events) =
      s.trackedPath :: tripsOf (next s .startTracking) events := rfl
@[simp] theorem tripsOf_stop (s : TrackingState D) (events : List (Event D)) :
    tripsOf s (.stopTracking :: events) = tripsOf (next s .stopTracking) events := rfl

@[simp] theorem followed_nil (isTracking : Bool) :
    followed isTracking ([] : List (Event D)) = [] := by cases isTracking <;> rfl
@[simp] theorem followed_start (isTracking : Bool) (events : List (Event D)) :
    followed isTracking (.startTracking :: events) = followed true events := by
  cases isTracking <;> rfl
@[simp] theorem followed_stop (isTracking : Bool) (events : List (Event D)) :
    followed isTracking (.stopTracking :: events) = followed false events := by
  cases isTracking <;> rfl

theorem trips_of_run {s t : TrackingState D} {events : List (Event D)}
    (h : run step s events = some t) : ∃ steps trips walk,
    tripsOf s events = (s.trackedPath ++ steps) :: trips ∧
    followed s.isTracking events = steps ++ walk ∧
    CutInto (steps.getLastD s.currentPosition) trips walk ∧
    (s.isTracking = false → steps = []) ∧
    t.currentPosition = (steps ++ walk).getLastD s.currentPosition ∧
    ((s.trackedPath ++ steps) :: trips).getLast? = some t.trackedPath := by
  induction events generalizing s with
  | nil =>
    cases h
    exact ⟨[], [], [], by simp [tripsOf], by simp, .nil _, fun _ => rfl, rfl, by simp⟩
  | cons e events ih =>
    obtain ⟨s', hs', h⟩ := Option.bind_eq_some_iff.mp h
    obtain ⟨steps, trips, walk, htrips, hwalk, hcut, hidle, hposition, hpath⟩ := ih h
    have hnext : next s e = s' := (guarded_eq_some.mp hs').2.symm
    rcases step_cases hs' with ⟨c, rfl, hm, hs⟩ | ⟨c, rfl, hm, hs⟩ | ⟨rfl, hm, hs⟩ |
      ⟨rfl, hm, hs⟩
    · refine ⟨c :: steps, trips, walk, ?_, ?_, ?_, ?_, ?_, ?_⟩
      · rw [tripsOf_center, hnext, htrips, hs, List.append_assoc, List.singleton_append]
      · rw [hs, hm] at hwalk
        rw [hm, followed, hwalk, List.cons_append]
      · rw [hs] at hcut
        rwa [List.getLastD_cons]
      · rw [hm]
        nofun
      · rw [hs] at hposition
        rwa [List.cons_append, List.getLastD_cons]
      · rw [hs, List.append_assoc, List.singleton_append] at hpath
        exact hpath
    · subst hs
      refine ⟨steps, trips, walk, ?_, ?_, hcut, hidle, hposition, hpath⟩
      · rw [tripsOf_center, hnext, htrips]
      · rw [hm] at hwalk ⊢
        rw [followed, hwalk]
    · refine ⟨[], (s.currentPosition :: steps) :: trips, steps ++ walk, ?_, ?_, ?_, fun _ => rfl,
        ?_, ?_⟩
      · rw [tripsOf_start, hnext, htrips, hs, List.append_nil, List.singleton_append]
      · rw [hs] at hwalk
        rw [followed_start, hwalk, List.nil_append]
      · rw [hs] at hcut
        exact .cons hcut
      · rw [hs] at hposition
        exact hposition
      · rw [hs, List.singleton_append] at hpath
        rw [List.getLast?_cons_cons, hpath]
    · have hnone : steps = [] := hidle (by rw [hs])
      refine ⟨steps, trips, walk, ?_, ?_, ?_, fun _ => hnone, ?_, ?_⟩
      · rw [tripsOf_stop, hnext, htrips, hs]
      · rw [hs] at hwalk
        rw [followed_stop, hwalk]
      · rw [hs] at hcut
        exact hcut
      · rw [hs] at hposition
        exact hposition
      · rw [hs] at hpath
        exact hpath

section Runs

variable [DartDouble D]

/-- Over a whole run the recorded trips are the pieces of one walk from where the map opened: its
steps are just the centres reported while tracking, each trip begins where the trip before it
ended, and the marker stands at the end of the walk. -/
theorem trips_cut_one_walk {events : List (Event D)} {t : TrackingState D}
    (h : run step initial events = some t) : ∃ trips : List (List (LatLng D)),
    tripsOf initial events = [] :: trips ∧
    CutInto initialCentre trips (followed false events) ∧
    trips.flatMap List.tail = followed false events ∧
    (trips.IsChain fun trip later => later.head? = trip.getLast?) ∧
    (followed false events).Sublist (reported events) ∧
    t.currentPosition = (followed false events).getLastD initialCentre ∧
    ([] :: trips).getLast? = some t.trackedPath := by
  obtain ⟨steps, trips, walk, htrips, hwalk, hcut, hidle, hposition, hpath⟩ := trips_of_run h
  obtain rfl : steps = [] := hidle rfl
  have hfollowed : followed false events = walk := hwalk
  rw [← hfollowed] at hcut hposition
  exact ⟨trips, htrips, hcut, hcut.steps_eq, hcut.joined, followed_sublist false events, hposition,
    hpath⟩

end Runs

def movedBetween : List (Event ℚ) :=
  [.startTracking, .positionChanged ⟨31.5, 74.9⟩, .stopTracking, .positionChanged ⟨30.9, 75.8⟩,
    .startTracking, .positionChanged ⟨31.4, 75⟩]

theorem moved_between_trips : ∃ trips : List (List (LatLng ℚ)),
    tripsOf initial movedBetween = [] :: trips ∧
      trips.flatMap List.tail = [⟨31.5, 74.9⟩, ⟨31.4, 75⟩] := by
  have hruns : ∃ t, run step initial movedBetween = some t := ⟨_, rfl⟩
  obtain ⟨t, h⟩ := hruns
  obtain ⟨trips, htrips, -, hsteps, -⟩ := trips_cut_one_walk h
  exact ⟨trips, htrips, hsteps⟩

end TrackedTrips
