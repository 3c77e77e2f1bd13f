import BusSaathi.EventRuns
import BusSaathi.Models
import Mathlib.Data.List.DropRight
import Mathlib.Data.List.TakeWhile

/-! The tracking screen: reports of the map and presses of the one button. The screen follows
the map's centre only while it tracks, which is what the next trip then starts from. -/
namespace TrackingScreen

open EventRuns DartRuntime Models

variable {D : Type}

structure TrackingState (D : Type) where
  isTracking : Bool
  trackedPath : List (LatLng D)
  currentPosition : LatLng D
  deriving DecidableEq

inductive Event (D : Type) where
  | positionChanged (center : LatLng D)
  | startTracking
  | stopTracking

def TrackingState.onPositionChanged (s : TrackingState D) (center : LatLng D) : TrackingState D :=
  if s.isTracking then
    { s with currentPosition := center, trackedPath := s.trackedPath ++ [center] }
  else s

/-- The path is cleared before the position is added. -/
def TrackingState.startTracking (s : TrackingState D) : TrackingState D :=
  { s with isTracking := true, trackedPath := [s.currentPosition] }

def TrackingState.stopTracking (s : TrackingState D) : TrackingState D :=
  { s with isTracking := false }

def onPressed (isTracking : Bool) : Event D := if isTracking then .stopTracking else .startTracking

def Enabled (s : TrackingState D) : Event D → Prop
  | .positionChanged _ => True
  | pressed => pressed = onPressed s.isTracking

def next (s : TrackingState D) : Event D → TrackingState D
  | .positionChanged center => s.onPositionChanged center
  | .startTracking => s.startTracking
  | .stopTracking => s.stopTracking

theorem enabled_startTracking {s : TrackingState D} :
    Enabled s .startTracking ↔ s.isTracking = false := by
  cases h : s.isTracking <;> simp [Enabled, onPressed, h]

theorem enabled_stopTracking {s : TrackingState D} :
    Enabled s .stopTracking ↔ s.isTracking = true := by
  cases h : s.isTracking <;> simp [Enabled, onPressed, h]

instance (s : TrackingState D) (e : Event D) : Decidable (Enabled s e) := by
  cases e with
  | positionChanged center => exact isTrue trivial
  | startTracking => exact decidable_of_iff _ enabled_startTracking.symm
  | stopTracking => exact decidable_of_iff _ enabled_stopTracking.symm

def step (s : TrackingState D) (e : Event D) : Option (TrackingState D) := guarded Enabled next s e

theorem step_cases {s t : TrackingState D} {e : Event D} (h : step s e = some t) :
    (∃ c, e = .positionChanged c ∧ s.isTracking = true ∧
      t = { s with currentPosition := c, trackedPath := s.trackedPath ++ [c] }) ∨
    (∃ c, e = .positionChanged c ∧ s.isTracking = false ∧ t = s) ∨
    (e = .startTracking ∧ s.isTracking = false ∧
      t = { s with isTracking := true, trackedPath := [s.currentPosition] }) ∨
    (e = .stopTracking ∧ s.isTracking = true ∧ t = { s with isTracking := false }) := by
  obtain ⟨henabled, rfl⟩ := guarded_eq_some.mp h
  cases e with
  | positionChanged c =>
    cases hm : s.isTracking with
    | true =>
      refine Or.inl ⟨c, rfl, rfl, ?_⟩
      simp [next, TrackingState.onPositionChanged, hm]
    | false =>
      refine Or.inr (Or.inl ⟨c, rfl, rfl, ?_⟩)
      simp [next, TrackingState.onPositionChanged, hm]
  | startTracking =>
    exact Or.inr (Or.inr (Or.inl ⟨rfl, enabled_startTracking.mp henabled, rfl⟩))
  | stopTracking =>
    exact Or.inr (Or.inr (Or.inr ⟨rfl, enabled_stopTracking.mp henabled, rfl⟩))

def isStop : Event D → Bool
  | .stopTracking => true
  | _ => false

def Event.center? : Event D → Option (LatLng D)
  | .positionChanged center => some center
  | _ => none

def reported (events : List (Event D)) : List (LatLng D) := events.filterMap Event.center?

def untilStop (events : List (Event D)) : List (Event D) := events.takeWhile fun e => !isStop e

/-- The events up to the last stop, none where there was no stop yet. -/
def upToLastStop (events : List (Event D)) : List (Event D) := events.rdropWhile fun e => !isStop e

/-- The latest start of the history, with the events before and after it. -/
def LatestStart (before after history : List (Event D)) : Prop :=
  history = before ++ .startTracking :: after ∧ .startTracking ∉ after

theorem isStop_iff {e : Event D} : isStop e = true ↔ e = .stopTracking := by
  cases e <;> simp [isStop]

theorem reported_concat_center (events : List (Event D)) (c : LatLng D) :
    reported (events ++ [.positionChanged c]) = reported events ++ [c] := by
  simp [reported, Event.center?]

theorem reported_concat_start (events : List (Event D)) :
    reported (events ++ [.startTracking]) = reported events := by
  simp [reported, Event.center?]

theorem reported_concat_stop (events : List (Event D)) :
    reported (events ++ [.stopTracking]) = reported events := by
  simp [reported, Event.center?]

theorem isStop_of_notMem {events : List (Event D)} (h : .stopTracking ∉ events) :
    ∀ e ∈ events, (!isStop e) = true := by
  intro e he
  by_cases hstop : isStop e
  · rw [isStop_iff.mp hstop] at he
    exact absurd he h
  · simpa using hstop

theorem untilStop_eq_self {events : List (Event D)} (h : .stopTracking ∉ events) :
    untilStop events = events :=
  List.takeWhile_eq_self_iff.mpr (isStop_of_notMem h)

theorem untilStop_concat {events : List (Event D)} (h : .stopTracking ∉ events) (e : Event D) :
    untilStop (events ++ [e]) = events ++ untilStop [e] :=
  List.takeWhile_append_of_pos (isStop_of_notMem h)

theorem untilStop_concat_of_stopped {events : List (Event D)} (h : .stopTracking ∈ events)
    (e : Event D) : untilStop (events ++ [e]) = untilStop events := by
  induction events with
  | nil => cases h
  | cons first events ih =>
    unfold untilStop at ih ⊢
    rw [List.cons_append, List.takeWhile_cons, List.takeWhile_cons]
    by_cases hstop : isStop first
    · simp [hstop]
    · have hrest : .stopTracking ∈ events := by
        rcases List.mem_cons.mp h with hfirst | hrest
        · exact absurd (isStop_iff.mpr hfirst.symm) hstop
        · exact hrest
      simp [hstop, ih hrest]

theorem upToLastStop_concat_stop (events : List (Event D)) :
    upToLastStop (events ++ [.stopTracking]) = events ++ [.stopTracking] :=
  List.rdropWhile_concat_neg _ _ _ (by simp [isStop])

theorem upToLastStop_concat_center (events : List (Event D)) (c : LatLng D) :
    upToLastStop (events ++ [.positionChanged c]) = upToLastStop events :=
  List.rdropWhile_concat_pos _ _ _ (by simp [isStop])

theorem not_latestStart_nil (before after : List (Event D)) : ¬ LatestStart before after [] := by
  rintro ⟨hsplit, -⟩
  simp at hsplit

theorem latestStart_concat_start {before after history : List (Event D)} :
    LatestStart before after (history ++ [.startTracking]) ↔ before = history ∧ after = [] := by
  constructor
  · rintro ⟨hsplit, hlatest⟩
    rcases concat_eq_append_cons.mp hsplit with ⟨rfl, -, rfl⟩ | ⟨most, rfl, -⟩
    · exact ⟨rfl, rfl⟩
    · exact absurd (List.mem_append_right most List.mem_cons_self) hlatest
  · rintro ⟨rfl, rfl⟩
    exact ⟨rfl, List.not_mem_nil⟩

theorem latestStart_concat {before after history : List (Event D)} {e : Event D}
    (he : e ≠ .startTracking) (h : LatestStart before after (history ++ [e])) :
    ∃ most, after = most ++ [e] ∧ LatestStart before most history := by
  obtain ⟨hsplit, hlatest⟩ := h
  rcases concat_eq_append_cons.mp hsplit with ⟨-, hstart, -⟩ | ⟨most, rfl, hhistory⟩
  · exact absurd hstart.symm he
  · exact ⟨most, rfl, hhistory, fun hmem => hlatest (List.mem_append_left _ hmem)⟩

section Runs

variable [DartDouble D]

def initialCentre : LatLng D := ⟨31.6340, 74.8723⟩

def initial : TrackingState D := ⟨false, [], initialCentre⟩

/-- Where the map stands after a history, whether or not the screen followed it there. -/
def mapCentre (history : List (Event D)) : LatLng D :=
  (reported history).getLastD initialCentre

/-- The path is the map's centre at the latest start and the centres reported from then on,
up to the stop that ended the trip. -/
def RecordsTrip (history : List (Event D)) (s : TrackingState D) : Prop :=
  ∀ before after, LatestStart before after history →
    s.trackedPath = mapCentre before :: reported (untilStop after)

/-- A start finds the map where the last stop left it, at first where it opened. -/
def StartsWhereStopped (before : List (Event D)) (e : Event D) : Prop :=
  e = .startTracking → mapCentre before = mapCentre (upToLastStop before)

structure Follows (history : List (Event D)) (s : TrackingState D) : Prop where
  mode : ∀ before after, LatestStart before after history →
    (s.isTracking = true ↔ .stopTracking ∉ after)
  position : s.currentPosition =
    mapCentre (if s.isTracking then history else upToLastStop history)

theorem mapCentre_concat_center (history : List (Event D)) (c : LatLng D) :
    mapCentre (history ++ [.positionChanged c]) = c := by
  rw [mapCentre, reported_concat_center, List.getLastD_concat]

theorem mapCentre_concat_start (history : List (Event D)) :
    mapCentre (history ++ [.startTracking]) = mapCentre history := by
  rw [mapCentre, reported_concat_start, mapCentre]

theorem mapCentre_concat_stop (history : List (Event D)) :
    mapCentre (history ++ [.stopTracking]) = mapCentre history := by
  rw [mapCentre, reported_concat_stop, mapCentre]

theorem follows_initial : Follows [] (initial : TrackingState D) := by
  constructor
  · intro before after h
    exact absurd h (not_latestStart_nil before after)
  · rfl

theorem follows_step {history : List (Event D)} {s t : TrackingState D} {e : Event D}
    (h : Follows history s) (hstep : step s e = some t) (hstart : StartsWhereStopped history e) :
    Follows (history ++ [e]) t := by
  rcases step_cases hstep with ⟨c, rfl, hm, rfl⟩ | ⟨c, rfl, hm, rfl⟩ | ⟨rfl, hm, rfl⟩ |
    ⟨rfl, hm, rfl⟩
  · constructor
    · intro before after hl
      obtain ⟨most, rfl, hmost⟩ := latestStart_concat (by simp) hl
      simpa using h.mode before most hmost
    · simp [hm, mapCentre_concat_center]
  · constructor
    · intro before after hl
      obtain ⟨most, rfl, hmost⟩ := latestStart_concat (by simp) hl
      simpa using h.mode before most hmost
    · simp [hm, upToLastStop_concat_center, h.position]
  · constructor
    · intro before after hl
      obtain ⟨-, rfl⟩ := latestStart_concat_start.mp hl
      simp
    · simp [hm, mapCentre_concat_start, h.position, hstart rfl]
  · constructor
    · intro before after hl
      obtain ⟨most, rfl, -⟩ := latestStart_concat (by simp) hl
      simp
    · simp [hm, upToLastStop_concat_stop, mapCentre_concat_stop, h.position]

theorem recordsTrip_initial : RecordsTrip [] (initial : TrackingState D) := by
  intro before after h
  exact absurd h (not_latestStart_nil before after)

theorem recordsTrip_reported {history : List (Event D)} {s : TrackingState D}
    (h : Follows history s) (hpath : RecordsTrip history s) (hm : s.isTracking = true)
    (c : LatLng D) : RecordsTrip (history ++ [.positionChanged c])
      { s with currentPosition := c, trackedPath := s.trackedPath ++ [c] } := by
  intro before after hl
  obtain ⟨most, rfl, hmost⟩ := latestStart_concat (by simp) hl
  have hrunning := (h.mode before most hmost).mp hm
  have hlast : untilStop [Event.positionChanged c] = [.positionChanged c] := rfl
  rw [untilStop_concat hrunning, hlast, reported_concat_center]
  simp only [hpath before most hmost, untilStop_eq_self hrunning, List.cons_append]

theorem recordsTrip_ignored {history : List (Event D)} {s : TrackingState D}
    (h : Follows history s) (hpath : RecordsTrip history s) (hm : s.isTracking = false)
    (c : LatLng D) : RecordsTrip (history ++ [.positionChanged c]) s := by
  intro before after hl
  obtain ⟨most, rfl, hmost⟩ := latestStart_concat (by simp) hl
  have hstopped : .stopTracking ∈ most := by
    by_contra hrunning
    rw [(h.mode before most hmost).mpr hrunning] at hm
    cases hm
  rw [untilStop_concat_of_stopped hstopped]
  exact hpath before most hmost

theorem recordsTrip_started_iff {history : List (Event D)} {s : TrackingState D}
    (h : Follows history s) (hm : s.isTracking = false) :
    RecordsTrip (history ++ [.startTracking])
      { s with isTracking := true, trackedPath := [s.currentPosition] } ↔
    mapCentre history = mapCentre (upToLastStop history) := by
  have hposition : s.currentPosition = mapCentre (upToLastStop history) := by
    simpa [hm] using h.position
  rw [← hposition]
  constructor
  · intro hrecords
    have hhead := hrecords history [] (latestStart_concat_start.mpr ⟨rfl, rfl⟩)
    exact (List.cons.inj hhead).1.symm
  · intro hstart before after hl
    obtain ⟨rfl, rfl⟩ := latestStart_concat_start.mp hl
    rw [hstart]
    rfl

theorem recordsTrip_stopped {history : List (Event D)} {s : TrackingState D}
    (h : Follows history s) (hpath : RecordsTrip history s) (hm : s.isTracking = true) :
    RecordsTrip (history ++ [.stopTracking]) { s with isTracking := false } := by
  intro before after hl
  obtain ⟨most, rfl, hmost⟩ := latestStart_concat (by simp) hl
  have hrunning := (h.mode before most hmost).mp hm
  have hlast : untilStop [(Event.stopTracking : Event D)] = [] := rfl
  rw [untilStop_concat hrunning, hlast, List.append_nil]
  simpa only [untilStop_eq_self hrunning] using hpath before most hmost

theorem recordsTrip_step {history : List (Event D)} {s t : TrackingState D} {e : Event D}
    (h : Follows history s) (hpath : RecordsTrip history s) (hstep : step s e = some t) :
    RecordsTrip (history ++ [e]) t ↔ StartsWhereStopped history e := by
  rcases step_cases hstep with ⟨c, rfl, hm, rfl⟩ | ⟨c, rfl, hm, rfl⟩ | ⟨rfl, hm, rfl⟩ |
    ⟨rfl, hm, rfl⟩
  · exact iff_of_true (recordsTrip_reported h hpath hm c) fun hc => by cases hc
  · exact iff_of_true (recordsTrip_ignored h hpath hm c) fun hc => by cases hc
  · rw [recordsTrip_started_iff h hm]
    constructor
    · intro hstart _
      exact hstart
    · intro hstart
      exact hstart rfl
  · exact iff_of_true (recordsTrip_stopped h hpath hm) fun hc => by cases hc

/-- Throughout a run the path is the trip exactly when every start finds the map where the
last stop left it. -/
theorem recorded_track_iff {events : List (Event D)} {t : TrackingState D}
    (h : run step initial events = some t) :
    Throughout step initial RecordsTrip events ↔ EachStep StartsWhereStopped events := by
  refine throughout_iff_eachStep ⟨follows_initial, recordsTrip_initial⟩ ?_ ?_ h
  · intro history s e t hfollows hstep hstart
    exact follows_step hfollows hstep hstart
  · intro history s e t hfollows hpath hstep
    exact recordsTrip_step hfollows hpath hstep

end Runs

def steadyTrips : List (Event ℚ) :=
  [.startTracking, .positionChanged ⟨31.5, 74.9⟩, .stopTracking, .startTracking]

theorem steadyTrips_runs : ∃ t, run step initial steadyTrips = some t := ⟨_, rfl⟩

theorem steady_trips_are_recorded : ∃ t, run step initial steadyTrips = some t ∧
    Throughout step initial RecordsTrip steadyTrips := by
  obtain ⟨t, h⟩ := steadyTrips_runs
  refine ⟨t, h, (recorded_track_iff h).mpr ?_⟩
  have hsplit : steadyTrips = ((([] ++ [.startTracking]) ++ [.positionChanged ⟨31.5, 74.9⟩]) ++
    [.stopTracking]) ++ [.startTracking] := rfl
  rw [hsplit]
  simp only [eachStep_concat]
  refine ⟨⟨⟨⟨eachStep_nil _, ?_⟩, ?_⟩, ?_⟩, ?_⟩
  · exact fun _ => rfl
  · exact fun hc => by cases hc
  · exact fun hc => by cases hc
  · exact fun _ => rfl

theorem moved_map_is_not_recorded :
    ¬ ∀ (events : List (Event ℚ)) (t : TrackingState ℚ), run step initial events = some t →
      Throughout step initial RecordsTrip events := by
  intro h
  have hrun : run step (initial : TrackingState ℚ)
      [.positionChanged ⟨31.5, 74.9⟩, .startTracking] =
        some ⟨true, [initialCentre], initialCentre⟩ := rfl
  have hpath := h _ _ hrun _ _ (List.prefix_refl _) hrun [.positionChanged ⟨31.5, 74.9⟩] []
    ⟨rfl, List.not_mem_nil⟩
  have hhead : (initialCentre : LatLng ℚ) = ⟨31.5, 74.9⟩ := (List.cons.inj hpath).1
  exact absurd hhead (by decide +kernel)

end TrackingScreen
