import BusSaathi.EventRuns
import BusSaathi.DartRuntime
import Mathlib.Logic.Function.Basic

/-! The start of the app. `_initializeServices` assigns the late fields of the app screen in
the segments between its awaits, while the widgets force them through `create` callbacks. -/
namespace AppStartup

open EventRuns DartRuntime

inductive Service where
  | databaseService
  | locationService
  | offlineService (databaseService locationService : Service)
  deriving DecidableEq, Repr

inductive LateField where
  | databaseService
  | locationService
  | offlineService
  deriving DecidableEq, Repr

abbrev LateFields := LateField → Option Service

abbrev AppScreenM := ExceptT DartError (StateM LateFields)

def assign (field : LateField) (service : Service) : AppScreenM Unit :=
  modify fun fields => Function.update fields field (some service)

def read (field : LateField) : AppScreenM Service := do
  match (← get) field with
  | some service => return service
  | none => throw .lateInitializationError

/-- `_initializeServices` up to its first `await`. -/
def initializeServices : AppScreenM Unit := do
  assign .databaseService .databaseService
  let _databaseService ← read .databaseService

def afterDatabase : AppScreenM Unit := do
  assign .locationService .locationService
  let _locationService ← read .locationService

def afterLocation : AppScreenM Unit := do
  assign .offlineService (.offlineService (← read .databaseService) (← read .locationService))
  let _offlineService ← read .offlineService

/-- Where `_initializeServices` is suspended, or how it ended. -/
inductive Stage where
  | notStarted
  | initializingDatabase
  | initializingLocation
  | loadingSampleData
  | completed
  | failed (e : DartError)
  deriving DecidableEq, Repr

/-- `created` holds the outcome of each provider's `create`, once it has run, and `loads`
what each call of `_loadNextBuses` got from `Provider.of`. -/
structure AppState where
  fields : LateFields
  stage : Stage
  built : Bool
  homeMounted : Bool
  created : LateField → Option (Except DartError Service)
  loads : List (Except DartError Service)

def initial : AppState where
  fields := fun _ => none
  stage := .notStarted
  built := false
  homeMounted := false
  created := fun _ => none
  loads := []

/-- A segment runs to the next `await`, or ends the future with its error. -/
def AppState.advance (s : AppState) (segment : AppScreenM Unit) (stage : Stage) : AppState :=
  match segment.run s.fields with
  | (.ok _, fields) => { s with fields, stage }
  | (.error e, fields) => { s with fields, stage := .failed e }

/-- `Provider.of`: the first read runs `create`, which reads a late field. That a provider whose
`create` threw refuses every later read is assumed of the `provider` package. -/
def AppState.providerOf (s : AppState) (field : LateField) : Except DartError Service × AppState :=
  match s.created field with
  | none =>
    let outcome := ((read field).run s.fields).1
    (outcome, { s with created := Function.update s.created field (some outcome) })
  | some (.ok service) => (.ok service, s)
  | some (.error _) => (.error .stateError, s)

/-- `_loadNextBuses` up to its first `await`. -/
def AppState.loadNextBuses (s : AppState) : AppState :=
  let (service, s) := s.providerOf .offlineService
  { s with loads := s.loads ++ [service] }

inductive Event where
  | initState
  | databaseReady
  | locationReady
  | sampleDataLoaded
  | build
  | homeInitState
  | refresh
  deriving DecidableEq, Repr

def Enabled (s : AppState) : Event → Prop
  | .initState => s.stage = .notStarted
  | .databaseReady => s.stage = .initializingDatabase
  | .locationReady => s.stage = .initializingLocation
  | .sampleDataLoaded => s.stage = .loadingSampleData
  | .build => s.stage ≠ .notStarted
  | .homeInitState => s.built = true ∧ s.homeMounted = false
  | .refresh => s.homeMounted = true

instance (s : AppState) (e : Event) : Decidable (Enabled s e) := by
  cases e <;> simp only [Enabled] <;> infer_instance

def next (s : AppState) : Event → AppState
  | .initState => s.advance initializeServices .initializingDatabase
  | .databaseReady => s.advance afterDatabase .initializingLocation
  | .locationReady => s.advance afterLocation .loadingSampleData
  | .sampleDataLoaded => { s with stage := .completed }
  | .build => { s with built := true }
  | .homeInitState => { s with homeMounted := true }.loadNextBuses
  | .refresh => s.loadNextBuses

def step (s : AppState) (e : Event) : Option AppState := guarded Enabled next s e

theorem initState_eq (s : AppState) : next s .initState =
    { s with
      fields := Function.update s.fields .databaseService (some .databaseService)
      stage := .initializingDatabase } := rfl

theorem databaseReady_eq (s : AppState) : next s .databaseReady =
    { s with
      fields := Function.update s.fields .locationService (some .locationService)
      stage := .initializingLocation } := rfl

section Segments

variable {α β : Type} {fields fields' : LateFields} {field : LateField} {service : Service}

theorem run_bind_ok {x : AppScreenM α} {f : α → AppScreenM β} {a : α}
    (h : x.run fields = (.ok a, fields')) : (x >>= f).run fields = (f a).run fields' := by
  have hbind : (x >>= f).run fields =
      ExceptT.bindCont f (x.run fields).1 (x.run fields).2 := rfl
  rw [hbind, h]
  rfl

theorem read_assigned (h : fields field = some service) :
    (read field).run fields = (.ok service, fields) := by
  have hget : (get : AppScreenM LateFields).run fields = (.ok fields, fields) := rfl
  rw [read, run_bind_ok hget, h]
  rfl

theorem read_unassigned (h : fields field = none) :
    (read field).run fields = (.error .lateInitializationError, fields) := by
  have hget : (get : AppScreenM LateFields).run fields = (.ok fields, fields) := rfl
  rw [read, run_bind_ok hget, h]
  rfl

theorem afterLocation_run {database location : Service}
    (hdatabase : fields .databaseService = some database)
    (hlocation : fields .locationService = some location) : afterLocation.run fields =
      (.ok (), Function.update fields .offlineService
        (some (.offlineService database location))) := by
  rw [afterLocation, run_bind_ok (read_assigned hdatabase), run_bind_ok (read_assigned hlocation)]
  rfl

end Segments

section Provider

variable {s : AppState} {service : Service}

theorem loadNextBuses_first (h : s.created .offlineService = none) : s.loadNextBuses =
    { s with
      created := Function.update s.created .offlineService
        (some ((read .offlineService).run s.fields).1)
      loads := s.loads ++ [((read .offlineService).run s.fields).1] } := by
  simp only [AppState.loadNextBuses, AppState.providerOf, h]

theorem loadNextBuses_again (h : s.created .offlineService = some (.ok service)) :
    s.loadNextBuses = { s with loads := s.loads ++ [.ok service] } := by
  simp only [AppState.loadNextBuses, AppState.providerOf, h]

theorem loadNextBuses_refused {e : DartError} (h : s.created .offlineService = some (.error e)) :
    s.loadNextBuses = { s with loads := s.loads ++ [.error .stateError] } := by
  simp only [AppState.loadNextBuses, AppState.providerOf, h]

theorem loadNextBuses_eq (s : AppState) : ∃ created load,
    s.loadNextBuses = { s with created, loads := s.loads ++ [load] } ∧
    ∀ field outcome, s.created field = some outcome → created field = some outcome := by
  match hcreated : s.created .offlineService with
  | none =>
    refine ⟨_, _, loadNextBuses_first hcreated, fun field outcome h => ?_⟩
    have hne : field ≠ .offlineService := by
      rintro rfl
      rw [hcreated] at h
      cases h
    rw [Function.update_of_ne hne, h]
  | some (.ok _) => exact ⟨_, _, loadNextBuses_again hcreated, fun _ _ h => h⟩
  | some (.error _) => exact ⟨_, _, loadNextBuses_refused hcreated, fun _ _ h => h⟩

theorem loadNextBuses_fields (s : AppState) : s.loadNextBuses.fields = s.fields := by
  obtain ⟨_, _, heq, -⟩ := loadNextBuses_eq s
  rw [heq]

theorem loadNextBuses_stage (s : AppState) : s.loadNextBuses.stage = s.stage := by
  obtain ⟨_, _, heq, -⟩ := loadNextBuses_eq s
  rw [heq]

end Provider

theorem advance_created (s : AppState) (segment : AppScreenM Unit) (stage : Stage) :
    (s.advance segment stage).created = s.created := by
  unfold AppState.advance
  split <;> rfl

theorem locationReady_eq {s : AppState} {database location : Service}
    (hdatabase : s.fields .databaseService = some database)
    (hlocation : s.fields .locationService = some location) : next s .locationReady =
      { s with
        fields := Function.update s.fields .offlineService
          (some (.offlineService database location))
        stage := .loadingSampleData } := by
  simp only [next, AppState.advance, afterLocation_run hdatabase hlocation]

theorem homeInitState_eq {s : AppState} (h : s.created .offlineService = none) :
    next s .homeInitState =
      { s with
        homeMounted := true
        created := Function.update s.created .offlineService
          (some ((read .offlineService).run s.fields).1)
        loads := s.loads ++ [((read .offlineService).run s.fields).1] } :=
  loadNextBuses_first (s := { s with homeMounted := true }) h

def appService : Service := .offlineService .databaseService .locationService

/-- The fields that the continuations so far have assigned. -/
structure FieldsAssigned (history : List Event) (s : AppState) : Prop where
  database : s.stage ≠ .notStarted → s.fields .databaseService = some .databaseService
  location : s.stage = .initializingLocation →
    s.fields .locationService = some .locationService
  offline : s.fields .offlineService =
    if .locationReady ∈ history then some appService else none
  sound : ∀ e, s.stage ≠ .failed e

/-- What the providers have given out so far is settled by the first read, which is the one
of `HomeScreen.initState`. -/
structure ReadsSettled (history : List Event) (s : AppState) : Prop where
  others : ∀ field ≠ .offlineService, s.created field = none
  unread : s.homeMounted = false → s.created .offlineService = none ∧ s.loads = [] ∧
    Preceded .locationReady .homeInitState history
  ready : s.homeMounted = true → Preceded .locationReady .homeInitState history →
    s.created .offlineService = some (.ok appService) ∧ ∀ load ∈ s.loads, load = .ok appService
  early : s.homeMounted = true → ¬ Preceded .locationReady .homeInitState history →
    s.created .offlineService = some (.error .lateInitializationError) ∧
      ∀ load ∈ s.loads, load ≠ .ok appService

theorem fieldsAssigned_keep {history : List Event} {s t : AppState} {e : Event}
    (h : FieldsAssigned history s) (hne : e ≠ .locationReady) (hfields : t.fields = s.fields)
    (hstage : t.stage = s.stage) : FieldsAssigned (history ++ [e]) t := by
  constructor
  · rw [hstage, hfields]
    exact h.database
  · rw [hstage, hfields]
    exact h.location
  · rw [hfields, h.offline]
    simp [hne.symm]
  · rw [hstage]
    exact h.sound

theorem fieldsAssigned_step {history : List Event} {s t : AppState} {e : Event}
    (h : FieldsAssigned history s) (hstep : step s e = some t) :
    FieldsAssigned (history ++ [e]) t := by
  obtain ⟨he, rfl⟩ := guarded_eq_some.mp hstep
  cases e with
  | initState =>
    rw [initState_eq]
    exact ⟨fun _ => rfl, nofun, by simpa using h.offline, nofun⟩
  | databaseReady =>
    have hdatabase := h.database (by rw [show s.stage = _ from he]; decide)
    rw [databaseReady_eq]
    exact ⟨fun _ => hdatabase, fun _ => rfl, by simpa using h.offline, nofun⟩
  | locationReady =>
    have hdatabase := h.database (by rw [show s.stage = _ from he]; decide)
    rw [locationReady_eq hdatabase (h.location he)]
    exact ⟨fun _ => hdatabase, nofun, by simp [appService], nofun⟩
  | sampleDataLoaded =>
    have hdatabase := h.database (by rw [show s.stage = _ from he]; decide)
    exact ⟨fun _ => hdatabase, nofun, by simpa [next] using h.offline, nofun⟩
  | build => exact fieldsAssigned_keep h (by decide) rfl rfl
  | homeInitState =>
    exact fieldsAssigned_keep h (by decide) (loadNextBuses_fields _) (loadNextBuses_stage _)
  | refresh =>
    exact fieldsAssigned_keep h (by decide) (loadNextBuses_fields _) (loadNextBuses_stage _)

theorem readsSettled_keep {history : List Event} {s t : AppState} {e : Event}
    (h : ReadsSettled history s) (hne : e ≠ .homeInitState) (hcreated : t.created = s.created)
    (hmounted : t.homeMounted = s.homeMounted) (hloads : t.loads = s.loads) :
    ReadsSettled (history ++ [e]) t := by
  obtain ⟨hothers, hunread, hready, hearly⟩ := h
  constructor <;> simp only [preceded_concat_of_ne hne, hcreated, hmounted, hloads]
  · exact hothers
  · exact hunread
  · exact hready
  · exact hearly

theorem readsSettled_homeInitState {history : List Event} {s : AppState}
    (hfields : FieldsAssigned history s) (h : ReadsSettled history s)
    (hmounted : s.homeMounted = false) :
    ReadsSettled (history ++ [.homeInitState]) (next s .homeInitState) := by
  obtain ⟨hcreated, hloads, hpreceded⟩ := h.unread hmounted
  have hiff : Preceded .locationReady .homeInitState (history ++ [.homeInitState]) ↔
      .locationReady ∈ history := by
    rw [preceded_concat]
    exact ⟨fun hp => hp.2 rfl, fun hmem => ⟨hpreceded, fun _ => hmem⟩⟩
  have hothers := h.others
  rw [homeInitState_eq hcreated]
  by_cases hmem : .locationReady ∈ history
  · have hread := read_assigned (hfields.offline.trans (if_pos hmem))
    rw [hread, hloads]
    constructor
    · intro field hne
      simp [hne, hothers]
    · intro hf
      cases hf
    · intro _ _
      simp
    · intro _ hn
      exact absurd (hiff.mpr hmem) hn
  · have hread := read_unassigned (hfields.offline.trans (if_neg hmem))
    rw [hread, hloads]
    constructor
    · intro field hne
      simp [hne, hothers]
    · intro hf
      cases hf
    · intro _ hp
      exact absurd (hiff.mp hp) hmem
    · intro _ _
      simp

theorem readsSettled_refresh {history : List Event} {s : AppState}
    (h : ReadsSettled history s) (hmounted : s.homeMounted = true) :
    ReadsSettled (history ++ [.refresh]) (next s .refresh) := by
  have hiff : Preceded .locationReady .homeInitState (history ++ [.refresh]) ↔
      Preceded .locationReady .homeInitState history := preceded_concat_of_ne (by decide)
  have hne : s.homeMounted ≠ false := by rw [hmounted]; decide
  by_cases hp : Preceded .locationReady .homeInitState history
  · obtain ⟨hcreated, hloads⟩ := h.ready hmounted hp
    rw [next, loadNextBuses_again hcreated]
    constructor
    · exact h.others
    · intro hf
      exact absurd hf hne
    · intro _ _
      exact ⟨hcreated, by simpa [or_imp, forall_and] using hloads⟩
    · intro _ hn
      exact absurd (hiff.mpr hp) hn
  · obtain ⟨hcreated, hloads⟩ := h.early hmounted hp
    rw [next, loadNextBuses_refused hcreated]
    constructor
    · exact h.others
    · intro hf
      exact absurd hf hne
    · intro _ hn
      exact absurd (hiff.mp hn) hp
    · intro _ _
      exact ⟨hcreated, by simpa [or_imp, forall_and] using hloads⟩

theorem readsSettled_step {history : List Event} {s t : AppState} {e : Event}
    (hfields : FieldsAssigned history s) (h : ReadsSettled history s)
    (hstep : step s e = some t) : ReadsSettled (history ++ [e]) t := by
  obtain ⟨he, rfl⟩ := guarded_eq_some.mp hstep
  cases e with
  | homeInitState => exact readsSettled_homeInitState hfields h he.2
  | refresh => exact readsSettled_refresh h he
  | locationReady =>
    have hdatabase := hfields.database (by rw [show s.stage = _ from he]; decide)
    rw [locationReady_eq hdatabase (hfields.location he)]
    exact readsSettled_keep h (by decide) rfl rfl rfl
  | initState | databaseReady | sampleDataLoaded | build =>
    exact readsSettled_keep h (by decide) rfl rfl rfl

theorem startup_run {events : List Event} {s : AppState} (h : run step initial events = some s) :
    FieldsAssigned events s ∧ ReadsSettled events s := by
  refine run_invariant (I := fun history s => FieldsAssigned history s ∧ ReadsSettled history s)
    ⟨?_, ?_⟩ (fun history s e t hinv hstep => ?_) h
  · exact ⟨fun hne => absurd rfl hne, nofun, rfl, nofun⟩
  · exact ⟨fun _ _ => rfl, fun _ => ⟨rfl, rfl, preceded_nil _ _⟩, nofun, nofun⟩
  · exact ⟨fieldsAssigned_step hinv.1 hstep, readsSettled_step hinv.1 hinv.2 hstep⟩

/-- No `create` callback has read a field that was not assigned yet. -/
def CreatesReadAssigned (s : AppState) : Prop :=
  ∀ field, s.created field ≠ some (.error .lateInitializationError)

theorem created_kept {s t : AppState} {e : Event} {field : LateField}
    {outcome : Except DartError Service} (hstep : step s e = some t)
    (h : s.created field = some outcome) : t.created field = some outcome := by
  obtain ⟨-, rfl⟩ := guarded_eq_some.mp hstep
  cases e with
  | homeInitState =>
    obtain ⟨_, _, heq, hkept⟩ := loadNextBuses_eq { s with homeMounted := true }
    rw [next, heq]
    exact hkept field outcome h
  | refresh =>
    obtain ⟨_, _, heq, hkept⟩ := loadNextBuses_eq s
    rw [next, heq]
    exact hkept field outcome h
  | locationReady =>
    rw [next, advance_created]
    exact h
  | initState | databaseReady | sampleDataLoaded | build => exact h

/-- Startup reads no unassigned field in any state of a run exactly when the continuation
of the location initialisation comes before `HomeScreen.initState`. -/
theorem startup_reads_assigned_iff {events : List Event} {t : AppState}
    (h : run step initial events = some t) :
    (∀ s, Visits step initial events s → CreatesReadAssigned s) ↔
      Preceded .locationReady .homeInitState events := by
  have hback (s : AppState) (e : Event) (t : AppState) (hstep : step s e = some t)
      (ht : CreatesReadAssigned t) : CreatesReadAssigned s :=
    fun field hs => ht field (created_kept hstep hs)
  rw [forall_visits_iff hback h]
  obtain ⟨-, hreads⟩ := startup_run h
  constructor
  · intro ht
    by_contra hp
    cases hmounted : t.homeMounted with
    | false => exact hp (hreads.unread hmounted).2.2
    | true => exact ht .offlineService (hreads.early hmounted hp).1
  · intro hp field
    by_cases hfield : field = .offlineService
    · subst hfield
      cases hmounted : t.homeMounted with
      | false => simp [(hreads.unread hmounted).1]
      | true => simp [(hreads.ready hmounted hp).1]
    · simp [hreads.others field hfield]

def waitingStart : List Event :=
  [.initState, .databaseReady, .locationReady, .build, .homeInitState, .refresh,
    .sampleDataLoaded, .refresh]

theorem waiting_start_reads_assigned : ∃ t, run step initial waitingStart = some t ∧
    ∀ s, Visits step initial waitingStart s → CreatesReadAssigned s := by
  have hready : Preceded Event.locationReady Event.homeInitState waitingStart :=
    preceded_of_take (n := 4) (by decide) (by decide)
  exact ⟨_, rfl, (startup_reads_assigned_iff rfl).mpr hready⟩

theorem first_frame_reads_unassigned :
    ¬ ∀ (events : List Event) (t : AppState), run step initial events = some t →
      ∀ s, Visits step initial events s → CreatesReadAssigned s := by
  intro h
  have hrun : run step initial [.initState, .build, .homeInitState] = some _ := rfl
  exact h _ _ hrun _ ⟨_, List.prefix_refl _, hrun⟩ .offlineService rfl

end AppStartup
