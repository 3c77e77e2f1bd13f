import BusSaathi.OfflineService

/-! The list on the home screen: the buses that run today, joined with their routes. One bus
whose route is not stored makes the join throw, and the answer is empty. -/
namespace NextBuses

open LinkedMaps StatementPrograms DartRuntime Models
  DatabaseService OfflineService

variable {D T P : Type}

/-- Some stored route has the bus's `routeId` and its departure time on the given day. -/
def Relevant (routes : List (Route D)) (day : String) (bus : Bus D T) : Prop :=
  ∃ route ∈ routes, route.id = bus.routeId ∧
    bus.departureTime ∈ (route.schedule.get? day).getD []

instance (routes : List (Route D)) (day : String) :
    DecidablePred (Relevant (T := T) routes day) := fun bus =>
  inferInstanceAs (Decidable (∃ route ∈ routes, route.id = bus.routeId ∧
    bus.departureTime ∈ (route.schedule.get? day).getD []))

def HasRoute (routes : List (Route D)) (bus : Bus D T) : Prop :=
  ∃ route ∈ routes, route.id = bus.routeId

theorem runsToday_of_hasRoute {routes : List (Route D)} {bus : Bus D T}
    (hids : (routes.map (·.id)).Nodup) (day : String) (h : HasRoute routes bus) :
    runsToday routes day bus.routeId bus.departureTime =
      .ok (decide (Relevant routes day bus)) := by
  obtain ⟨route, hr, hid⟩ := h
  have hrelevant : bus.departureTime ∈ (route.schedule.get? day).getD [] ↔
      Relevant routes day bus := by
    constructor
    · intro hmem
      exact ⟨route, hr, hid, hmem⟩
    · rintro ⟨other, hother, hotherId, hmem⟩
      have hsame : other = route :=
        List.inj_on_of_nodup_map hids hother hr (hotherId.trans hid.symm)
      rwa [hsame] at hmem
  rw [← hid, runsToday_of_mem hids hr, List.contains_eq_mem]
  simp only [hrelevant]

theorem runsToday_of_not_hasRoute {routes : List (Route D)} {bus : Bus D T} (day : String)
    (h : ¬ HasRoute routes bus) :
    runsToday routes day bus.routeId bus.departureTime = .error .stateError := by
  have hfind : routes.find? (·.id = bus.routeId) = none := by
    rw [List.find?_eq_none]
    intro route hr hid
    exact h ⟨route, hr, by simpa using hid⟩
  simp only [runsToday, hfind]

/-- An answer of at most `limit` buses: as many of the relevant ones as fit, none of them twice,
and no others. -/
structure FiltersExactly (buses : List (Bus D T)) (routes : List (Route D)) (day : String)
    (limit : ℤ) (answer : List (Bus D T)) : Prop where
  count : (answer.length : ℤ) = min limit (buses.countP fun bus => Relevant routes day bus)
  distinct : (answer.map (·.id)).Nodup
  relevant : ∀ bus ∈ answer, bus ∈ buses ∧ Relevant routes day bus

section Answer

variable {sort : (Bus D T → Bus D T → ℤ) → List (Bus D T) → List (Bus D T)}
  {buses : List (Bus D T)} {routes : List (Route D)} {limit : ℤ}

theorem getNextBuses_of_hasRoutes (hids : (routes.map (·.id)).Nodup) (hlimit : 0 ≤ limit)
    (hroutes : ∀ bus ∈ buses, HasRoute routes bus) (position : P) (weekday : ℤ) :
    getNextBuses sort (.ok position) (.ok buses) (.ok routes) weekday limit =
      (sort (fun _ _ => 0)
        (buses.filter fun bus => Relevant routes (currentDay weekday) bus)).take limit.toNat := by
  have hwhere := whereToList_ok (l := buses)
    fun bus hbus => runsToday_of_hasRoute hids (currentDay weekday) (hroutes bus hbus)
  have htake : ¬ limit < 0 := by omega
  simp only [getNextBuses, hwhere, takeToList, if_neg htake, bind, Except.bind]

theorem getNextBuses_of_orphan {bus : Bus D T} (hbus : bus ∈ buses)
    (horphan : ¬ HasRoute routes bus) (position : P) (weekday : ℤ) :
    getNextBuses sort (.ok position) (.ok buses) (.ok routes) weekday limit = [] := by
  have hthrow := runsToday_of_not_hasRoute (currentDay weekday) horphan
  cases hwhere : whereToList (fun bus =>
      runsToday routes (currentDay weekday) bus.routeId bus.departureTime) buses with
  | error e => simp only [getNextBuses, hwhere, bind, Except.bind]
  | ok kept => exact absurd hwhere (whereToList_ne_ok hbus hthrow)

theorem filtersExactly_take_filter (hids : (buses.map (·.id)).Nodup) (hlimit : 0 ≤ limit)
    {day : String} {sorted : List (Bus D T)}
    (hperm : sorted.Perm (buses.filter fun bus => Relevant routes day bus)) :
    FiltersExactly buses routes day limit (sorted.take limit.toNat) := by
  constructor
  case count =>
    rw [List.length_take, hperm.length_eq, ← List.countP_eq_length_filter]
    omega
  case distinct =>
    have hfiltered : ((buses.filter fun bus => Relevant routes day bus).map (·.id)).Nodup :=
      hids.sublist (List.filter_sublist.map _)
    exact ((hperm.map _).nodup_iff.mpr hfiltered).sublist ((List.take_sublist _ _).map _)
  case relevant =>
    intro bus hbus
    have hmem := hperm.mem_iff.mp (List.mem_of_mem_take hbus)
    rwa [List.mem_filter, decide_eq_true_eq] at hmem

theorem filtersExactly_nil_iff {day : String} (hlimit : 0 ≤ limit) :
    FiltersExactly buses routes day limit [] ↔
      limit = 0 ∨ ∀ bus ∈ buses, ¬ Relevant routes day bus := by
  have hnone : (buses.countP fun bus => Relevant routes day bus) = 0 ↔
      ∀ bus ∈ buses, ¬ Relevant routes day bus := by
    simp only [List.countP_eq_zero, decide_eq_true_eq]
  rw [← hnone]
  constructor
  · intro h
    have hcount := h.count
    rw [List.length_nil] at hcount
    omega
  · intro h
    refine ⟨?_, List.nodup_nil, fun bus hbus => by cases hbus⟩
    rw [List.length_nil]
    omega

/-- The answer is the filter's exactly where every stored bus has its route, or where nothing
was to be shown anyway. -/
theorem getNextBuses_exact_iff (hsort : ∀ l, (sort (fun _ _ => 0) l).Perm l)
    (hbuses : (buses.map (·.id)).Nodup) (hids : (routes.map (·.id)).Nodup) (hlimit : 0 ≤ limit)
    (position : P) (weekday : ℤ) :
    FiltersExactly buses routes (currentDay weekday) limit
      (getNextBuses sort (.ok position) (.ok buses) (.ok routes) weekday limit) ↔
    (∀ bus ∈ buses, HasRoute routes bus) ∨ limit = 0 ∨
      ∀ bus ∈ buses, ¬ Relevant routes (currentDay weekday) bus := by
  by_cases hroutes : ∀ bus ∈ buses, HasRoute routes bus
  · rw [getNextBuses_of_hasRoutes hids hlimit hroutes]
    refine iff_of_true ?_ (Or.inl hroutes)
    exact filtersExactly_take_filter hbuses hlimit (hsort _)
  · have horphan : ∃ bus ∈ buses, ¬ HasRoute routes bus := by simpa using hroutes
    obtain ⟨bus, hbus, horphan⟩ := horphan
    rw [getNextBuses_of_orphan hbus horphan, filtersExactly_nil_iff hlimit]
    exact (or_iff_right hroutes).symm

end Answer

def sortByInsertion (compare : Bus ℚ IsoInstant → Bus ℚ IsoInstant → ℤ) :
    List (Bus ℚ IsoInstant) → List (Bus ℚ IsoInstant) :=
  List.insertionSort fun a b => compare a b ≤ 0

def earlyBus : Bus ℚ IsoInstant := sampleBus ⟨"2024-01-01T06:00:00"⟩

def laterBus : Bus ℚ IsoInstant :=
  { earlyBus with id := "BUS-PN01-5678", departureTime := "10:00" }

def orphanBus : Bus ℚ IsoInstant :=
  { earlyBus with id := "BUS-PN01-9999", routeId := "amritsar-moga" }

theorem one_of_two_buses_is_shown :
    FiltersExactly [earlyBus, laterBus] [sampleRoute] "weekday" 1
      (getNextBuses sortByInsertion (.ok ()) (.ok [earlyBus, laterBus]) (.ok [sampleRoute]) 1
        1) := by
  refine (getNextBuses_exact_iff (fun l => List.perm_insertionSort _ l) (by decide) (by decide)
    (by decide) () 1).mpr (Or.inl ?_)
  intro bus hbus
  refine ⟨sampleRoute, List.mem_cons_self, ?_⟩
  simp only [List.mem_cons, List.not_mem_nil, or_false] at hbus
  rcases hbus with rfl | rfl <;> rfl

theorem orphan_bus_blanks_list :
    ¬ ∀ (sort : (Bus ℚ IsoInstant → Bus ℚ IsoInstant → ℤ) → List (Bus ℚ IsoInstant) →
        List (Bus ℚ IsoInstant)) (buses : List (Bus ℚ IsoInstant)) (routes : List (Route ℚ))
      (weekday limit : ℤ), (∀ l, (sort (fun _ _ => 0) l).Perm l) →
        (buses.map (·.id)).Nodup → (routes.map (·.id)).Nodup → 0 ≤ limit →
          FiltersExactly buses routes (currentDay weekday) limit
            (getNextBuses sort (.ok ()) (.ok buses) (.ok routes) weekday limit) := by
  intro h
  have hexact := h sortByInsertion [earlyBus, orphanBus] [sampleRoute] 1 5
    (fun l => List.perm_insertionSort _ l) (by decide) (by decide) (by decide)
  have horphan : ¬ HasRoute [(sampleRoute : Route ℚ)] orphanBus := by
    rintro ⟨route, hr, hid⟩
    rw [List.mem_singleton.mp hr] at hid
    exact absurd hid (by decide)
  rw [getNextBuses_of_orphan (List.mem_cons_of_mem _ List.mem_cons_self) horphan,
    filtersExactly_nil_iff (by decide)] at hexact
  rcases hexact with hzero | hnone
  · exact absurd hzero (by decide)
  · exact hnone earlyBus List.mem_cons_self ⟨sampleRoute, List.mem_cons_self, rfl, by decide⟩

section Stored

open Prog

variable {db db' : Database D}

theorem bus_fromJson_id [DartDateTime T] {json : JsonMap D} {bus : Bus D T}
    (h : Bus.fromJson json = .ok bus) : json.get "id" = .string bus.id := by
  simp only [Bus.fromJson, bind_eq_ok] at h
  obtain ⟨id, hid, _, -, _, -, _, -, _, -, _, -, _, -, _, -, _, -, _, -, _, -, _, -, _, -, h⟩ := h
  cases h
  exact Value.asString_eq_ok.mp hid

/-- The primary key keeps the ids of what `getAllBuses` returns apart. -/
theorem getAllBuses_distinct [DartDateTime T] {buses : List (Bus D T)}
    (h : run exec getAllBuses db = (.ok buses, db')) : (buses.map (·.id)).Nodup := by
  have hrows : db.buses.rows.mapM (fun row => Bus.fromJson row.toColumns) = .ok buses := by
    simpa [getAllBuses, exec] using congrArg Prod.fst h
  have hids : buses.map (·.id) = db.buses.rows.map (·.id) := by
    refine map_of_mapM hrows fun row bus hbus => ?_
    exact (Value.string.inj (bus_fromJson_id hbus)).symm
  rw [hids]
  exact db.buses.keys_nodup

variable [DartDouble D]

theorem ids_of_readRoutes {decoder : RouteDecoder D} {rows : List (RouteRow D)}
    {routes : List (Route D)} (h : run exec (readRoutes decoder rows) db = (.ok routes, db')) :
    routes.map (·.id) = rows.map (·.id) := by
  induction rows generalizing routes db db' with
  | nil =>
    cases h
    rfl
  | cons row rows ih =>
    obtain ⟨stops, _, -, h⟩ := exists_of_run_bind exec h
    obtain ⟨path, _, -, h⟩ := exists_of_run_bind exec h
    obtain ⟨schedule, _, -, h⟩ := exists_of_run_bind exec h
    obtain ⟨rest, _, hrest, h⟩ := exists_of_run_bind exec h
    cases h
    rw [List.map_cons, List.map_cons, ih hrest]

theorem getAllRoutes_distinct {decoder : RouteDecoder D} {routes : List (Route D)}
    (h : run exec (getAllRoutesWith decoder) db = (.ok routes, db')) :
    (routes.map (·.id)).Nodup := by
  rw [ids_of_readRoutes h]
  exact db.routes.keys_nodup

end Stored

end NextBuses
