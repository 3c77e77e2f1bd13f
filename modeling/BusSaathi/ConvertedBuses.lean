import BusSaathi.ConvertedRoutes

/-! The converter's bus records in the app. A route's schedule comes from the bus that opened
it alone, and a record lacks fields that `Bus.fromJson` requires. -/
namespace ConvertedBuses

open LinkedMaps KeyedTable DartRuntime DartText Models OfflineService RouteConverter
  ConvertedRoutes

variable {D T : Type}

theorem addHours_few (t : ClockTime) {k : ℤ} (hl : 0 ≤ k) (hu : k < 24) :
    addHours t.text k = .ok (t.shift k).text := by
  have hhour := t.hour_lt
  apply addHours_text_of_small <;> omega

theorem shift_zero (t : ClockTime) : t.shift 0 = t := by
  have hhour := t.hour_lt
  refine ClockTime.ext ?_ rfl
  simp only [ClockTime.shift]
  omega

theorem generateSchedule_text (t : ClockTime) : ∃ schedule,
    generateSchedule t.text = .ok schedule ∧
    schedule.get? "weekday" = some [(t.shift 0).text, (t.shift 2).text, (t.shift 4).text] ∧
    schedule.get? "weekend" = some [(t.shift 1).text, (t.shift 3).text] := by
  unfold generateSchedule
  rw [addHours_few t (by decide) (by decide), addHours_few t (by decide) (by decide),
    addHours_few t (by decide) (by decide), addHours_few t (by decide) (by decide), shift_zero]
  exact ⟨_, rfl, rfl, rfl⟩

/-- The record has no `routeId`, which `Bus.fromJson` needs. -/
theorem fromJson_busRecord [DartDateTime T] {busId : String} {busData : Value D} {bus : JsonMap D}
    (h : busRecord busId busData = .ok bus) (b : Bus D T) : Bus.fromJson bus ≠ .ok b := by
  obtain ⟨number, departureTime, arrivalTime, driverName, -, rfl⟩ := busRecord_ok h
  intro hread
  obtain ⟨_, -, hread⟩ := bind_eq_ok.mp hread
  obtain ⟨_, -, hread⟩ := bind_eq_ok.mp hread
  obtain ⟨_, hrouteId, -⟩ := bind_eq_ok.mp hread
  cases hrouteId

theorem busRecord_departureTime {busId : String} {busData : Value D} {bus : JsonMap D}
    (h : busRecord busId busData = .ok bus) :
    busData.index "departureTime" = .ok (bus.get "departureTime") := by
  obtain ⟨_, departureTime, _, _, htime, rfl⟩ := busRecord_ok h
  exact htime

section Shown

def DepartsAt (busData : Value D) (t : ClockTime) : Prop :=
  busData.index "departureTime" = .ok (.string t.text)

theorem departsAt_unique {busData : Value D} {t u : ClockTime} (ht : DepartsAt busData t)
    (hu : DepartsAt busData u) : t = u := by
  rw [DepartsAt, ht] at hu
  exact ClockTime.text_inj (Value.string.inj (Except.ok.inj hu))

variable [DartDouble D] {data : LinkedMap String (Value D)} {routes : List (ConvertedRoute D)}

/-- Every bus departs at most four whole hours, around the clock, after the first bus of
its group. -/
def DepartsWithinFourHours (entries : List (String × Value D)) : Prop :=
  ∀ key first rest, members entries key = first :: rest → ∀ e ∈ first :: rest,
    ∀ t u, DepartsAt first.2 t → DepartsAt e.2 u → ∃ k ≤ 4, u = t.shift (k : ℕ)

/-- Some day type lets the filter of `getNextBuses` accept every bus of the output, taken
with the id of its route. -/
def BusesShown (routes : List (ConvertedRoute D)) (apps : List (Route D)) : Prop :=
  ∀ route ∈ routes, ∀ bus ∈ route.buses, ∀ departureTime,
    bus.get "departureTime" = .string departureTime →
      ∃ day ∈ ["weekday", "weekend"], runsToday apps day route.id departureTime = .ok true

theorem mem_schedule_iff {t u : ClockTime} {schedule : LinkedMap String (List String)}
    (hweekday : schedule.get? "weekday" =
      some [(t.shift 0).text, (t.shift 2).text, (t.shift 4).text])
    (hweekend : schedule.get? "weekend" = some [(t.shift 1).text, (t.shift 3).text]) :
    (∃ day ∈ ["weekday", "weekend"], ((schedule.get? day).getD []).contains u.text = true) ↔
      ∃ k ≤ 4, u = t.shift (k : ℕ) := by
  constructor
  · rintro ⟨day, hday, hmem⟩
    have hmem' : u.text ∈ [(t.shift 0).text, (t.shift 1).text, (t.shift 2).text,
        (t.shift 3).text, (t.shift 4).text] := by
      simp only [List.mem_cons, List.not_mem_nil, or_false] at hday
      rcases hday with rfl | rfl
      · rw [hweekday] at hmem
        simp at hmem
        rcases hmem with h | h | h <;> simp [h]
      · rw [hweekend] at hmem
        simp at hmem
        rcases hmem with h | h <;> simp [h]
    simp only [List.mem_cons, List.not_mem_nil, or_false] at hmem'
    rcases hmem' with h | h | h | h | h
    · exact ⟨0, by decide, ClockTime.text_inj h⟩
    · exact ⟨1, by decide, ClockTime.text_inj h⟩
    · exact ⟨2, by decide, ClockTime.text_inj h⟩
    · exact ⟨3, by decide, ClockTime.text_inj h⟩
    · exact ⟨4, by decide, ClockTime.text_inj h⟩
  · rintro ⟨k, hk, rfl⟩
    match k, hk with
    | 0, _ | 2, _ | 4, _ => exact ⟨"weekday", by simp, by simp [hweekday]⟩
    | 1, _ | 3, _ => exact ⟨"weekend", by simp, by simp [hweekend]⟩

theorem runsToday_eq {apps : List (Route D)} (h : convertData data = .ok routes)
    (hcarries : List.Forall₂ Carries routes apps) {route : ConvertedRoute D} (hr : route ∈ routes)
    (day departureTime : String) : runsToday apps day route.id departureTime =
      .ok (((route.schedule.get? day).getD []).contains departureTime) := by
  have hids : apps.map (·.id) = routes.map (·.id) := by
    rw [← List.forall₂_eq_eq_eq, List.forall₂_map_left_iff, List.forall₂_map_right_iff]
    exact List.Forall₂.flip (hcarries.imp fun _ _ hc => hc.id)
  obtain ⟨app, happ, hc⟩ := forall₂_exists_right hcarries hr
  rw [← hc.id, runsToday_of_mem (hids ▸ routeIds_nodup h) happ, hc.schedule]

theorem shown_iff {apps : List (Route D)} (h : convertData data = .ok routes)
    (hcarries : List.Forall₂ Carries routes apps) {route : ConvertedRoute D} (hr : route ∈ routes)
    {n : ℕ} {group rest : List (String × Value D)} {first : String × Value D}
    (hfrom : ConvertedFrom n group route) (hgroup : group = first :: rest) {t : ClockTime}
    (ht : DepartsAt first.2 t) (u : ClockTime) :
    (∃ day ∈ ["weekday", "weekend"], runsToday apps day route.id u.text = .ok true) ↔
      ∃ k ≤ 4, u = t.shift (k : ℕ) := by
  obtain ⟨first', rest', hgroup', hopen, -⟩ := hfrom
  rw [hgroup] at hgroup'
  cases hgroup'
  obtain ⟨_, _, time, schedule, -, -, htime, hschedule, hroute⟩ := openRoute_ok hopen
  have htext : time = t.text := by
    rw [DepartsAt, htime] at ht
    simpa using ht
  subst htext
  obtain ⟨schedule', hgen, hweekday, hweekend⟩ := generateSchedule_text t
  rw [hgen] at hschedule
  cases hschedule
  have hsame : route.schedule = schedule := congrArg ConvertedRoute.schedule hroute
  simp only [runsToday_eq h hcarries hr, hsame, Except.ok.injEq]
  exact mem_schedule_iff hweekday hweekend

theorem departsWithin_of_shown {apps : List (Route D)} (h : convertData data = .ok routes)
    (hcarries : List.Forall₂ Carries routes apps) (hshown : BusesShown routes apps) :
    DepartsWithinFourHours data.entries := by
  intro key first rest hgroup e he t u ht hu
  have hfirst : first ∈ members data.entries key := hgroup ▸ List.mem_cons_self
  obtain ⟨hfirst, hkey⟩ := List.mem_filter.mp hfirst
  obtain ⟨n, route, hr, hfrom⟩ := exists_route_of_entry h hfirst
  rw [of_decide_eq_true hkey] at hfrom
  obtain ⟨_, _, -, -, hbuses⟩ := id hfrom
  rw [hgroup] at hbuses
  obtain ⟨bus, hbus, hrecord⟩ := forall₂_exists_right (forall₂_of_mapM hbuses) he
  have hdep := busRecord_departureTime hrecord
  rw [hu] at hdep
  refine (shown_iff h hcarries hr hfrom hgroup ht u).mp ?_
  exact hshown route hr bus hbus u.text (Except.ok.inj hdep).symm

theorem shown_of_departsWithin {apps : List (Route D)} (h : convertData data = .ok routes)
    (hcarries : List.Forall₂ Carries routes apps)
    (hclock : ∀ e ∈ data.entries, ∃ t, DepartsAt e.2 t)
    (hwithin : DepartsWithinFourHours data.entries) : BusesShown routes apps := by
  intro route hr bus hbus departureTime htime
  obtain ⟨n, key, hfrom⟩ := convertedFrom_of_mem h hr
  obtain ⟨first, rest, hgroup, -, hbuses⟩ := id hfrom
  obtain ⟨e, he, hrecord⟩ := forall₂_exists_right
    (P := fun b (e : String × Value D) => busRecord e.1 e.2 = .ok b)
    (forall₂_of_mapM hbuses).flip hbus
  have hentry : ∀ e ∈ members data.entries key, ∃ t, DepartsAt e.2 t :=
    fun e he => hclock e (List.mem_filter.mp he).1
  obtain ⟨t, ht⟩ := hentry first (hgroup ▸ List.mem_cons_self)
  obtain ⟨u, hu⟩ := hentry e he
  have hdep := busRecord_departureTime hrecord
  rw [hu, htime] at hdep
  obtain rfl := Value.string.inj (Except.ok.inj hdep)
  rw [hgroup] at he
  exact (shown_iff h hcarries hr hfrom hgroup ht u).mpr
    (hwithin key first rest hgroup e he t u ht hu)

/-- Every bus of the output can be shown exactly when each departs within four whole hours
of the bus that opened its route. -/
theorem converted_buses_shown_iff (h : convertData data = .ok routes)
    (hclock : ∀ e ∈ data.entries, ∃ t, DepartsAt e.2 t) :
    ∃ apps, routes.mapM appRoute = .ok apps ∧
      (BusesShown routes apps ↔ DepartsWithinFourHours data.entries) := by
  obtain ⟨apps, hmap, hcarries⟩ := appRoutes_carry h
  exact ⟨apps, hmap, departsWithin_of_shown h hcarries,
    shown_of_departsWithin h hcarries hclock⟩

end Shown

def eight : ClockTime := ⟨8, 0, by decide, by decide⟩

def halfPastEight : ClockTime := ⟨8, 30, by decide, by decide⟩

def twelve : ClockTime := ⟨12, 0, by decide, by decide⟩

def halfHourLine : LinkedMap String (Value ℚ) :=
  ⟨[("b1", busEntry "Amritsar" "Ludhiana" "08:00"),
    ("b2", busEntry "Amritsar" "Ludhiana" "08:30")], by decide⟩

theorem halfHourLine_converts : ∃ routes, convertData halfHourLine = .ok routes := ⟨_, rfl⟩

theorem departsAt_busEntry (source destination : String) {departureTime : String} {t : ClockTime}
    (h : t.text = departureTime) : DepartsAt (busEntry source destination departureTime) t := by
  rw [DepartsAt, h]
  rfl

theorem oneLine_departsWithin : DepartsWithinFourHours oneLine.entries := by
  have height : DepartsAt (busEntry "Amritsar" "Ludhiana" "08:00") eight :=
    departsAt_busEntry _ _ (by decide)
  have htwelve : DepartsAt (busEntry "Amritsar" "Ludhiana" "12:00") twelve :=
    departsAt_busEntry _ _ (by decide)
  intro key first rest hgroup e he t u ht hu
  rw [members_of_one_key oneLine_keys] at hgroup
  split at hgroup
  case isFalse => cases hgroup
  case isTrue =>
    cases hgroup
    obtain rfl := departsAt_unique height ht
    simp only [List.mem_cons, List.not_mem_nil, or_false] at he
    rcases he with rfl | rfl
    · obtain rfl := departsAt_unique height hu
      exact ⟨0, by decide, by decide⟩
    · obtain rfl := departsAt_unique htwelve hu
      exact ⟨4, by decide, by decide⟩

theorem one_line_is_shown : ∃ routes apps, convertData oneLine = .ok routes ∧
    routes.mapM appRoute = .ok apps ∧ BusesShown routes apps := by
  obtain ⟨routes, h⟩ := oneLine_converts
  have hclock : ∀ e ∈ oneLine.entries, ∃ t, DepartsAt e.2 t := by
    simp only [oneLine, List.forall_mem_cons]
    exact ⟨⟨eight, departsAt_busEntry _ _ (by decide)⟩,
      ⟨twelve, departsAt_busEntry _ _ (by decide)⟩, by simp⟩
  obtain ⟨apps, hmap, hiff⟩ := converted_buses_shown_iff h hclock
  exact ⟨routes, apps, h, hmap, hiff.mpr oneLine_departsWithin⟩

theorem halfHourLine_members :
    members halfHourLine.entries "Amritsar-Ludhiana" = halfHourLine.entries := by
  have hkey : ∀ e ∈ halfHourLine.entries, keyOf e.2 = "Amritsar-Ludhiana" := by
    simp only [halfHourLine, List.forall_mem_cons]
    exact ⟨keyOf_busEntry _, keyOf_busEntry _, by simp⟩
  rw [members_of_one_key hkey, if_pos rfl]

theorem half_hour_bus_is_lost :
    ¬ ∀ (data : LinkedMap String (Value ℚ)) (routes : List (ConvertedRoute ℚ))
      (apps : List (Route ℚ)), convertData data = .ok routes →
        (∀ e ∈ data.entries, ∃ t, DepartsAt e.2 t) → routes.mapM appRoute = .ok apps →
          BusesShown routes apps := by
  intro h
  have hfirst : DepartsAt (busEntry "Amritsar" "Ludhiana" "08:00") eight :=
    departsAt_busEntry _ _ (by decide)
  have hsecond : DepartsAt (busEntry "Amritsar" "Ludhiana" "08:30") halfPastEight :=
    departsAt_busEntry _ _ (by decide)
  have hclock : ∀ e ∈ halfHourLine.entries, ∃ t, DepartsAt e.2 t := by
    simp only [halfHourLine, List.forall_mem_cons]
    exact ⟨⟨eight, hfirst⟩, ⟨halfPastEight, hsecond⟩, by simp⟩
  obtain ⟨routes, hdata⟩ := halfHourLine_converts
  obtain ⟨apps, hmap, hcarries⟩ := appRoutes_carry hdata
  have hwithin := departsWithin_of_shown hdata hcarries (h _ routes apps hdata hclock hmap)
  obtain ⟨k, -, hshift⟩ := hwithin _ _ _ halfHourLine_members _
    (List.mem_cons_of_mem _ List.mem_cons_self) eight halfPastEight hfirst hsecond
  have hminute : 30 = 0 := congrArg ClockTime.minute hshift
  exact absurd hminute (by decide)

/-- A bus entry with the three further fields that the converter copies. -/
def HasBusFields (busData : Value D) : Prop :=
  ∃ number arrivalTime driverName, busData.index "busNumber" = .ok (.string number) ∧
    busData.index "arrivalTime" = .ok (.string arrivalTime) ∧
    busData.index "driverName" = .ok (.string driverName)

section Readable

variable [DartDouble D] {data : LinkedMap String (Value D)} {routes : List (ConvertedRoute D)}

/-- `Bus.fromJson` reads every bus of the output as the bus of the input, on its route. -/
def BusesReadable (T : Type) [DartDateTime T] (data : LinkedMap String (Value D))
    (routes : List (ConvertedRoute D)) : Prop :=
  ∀ route ∈ routes, ∀ bus ∈ route.buses, ∃ b : Bus D T, Bus.fromJson bus = .ok b ∧
    b.routeId = route.id ∧ ∃ busData, (b.id, busData) ∈ data.entries ∧
      busData.index "busNumber" = .ok (.string b.number) ∧
      busData.index "departureTime" = .ok (.string b.departureTime) ∧
      busData.index "arrivalTime" = .ok (.string b.arrivalTime) ∧
      busData.index "driverName" = .ok (.string b.driverName) ∧
      busData.index "source" = .ok (.string b.source) ∧
      busData.index "destination" = .ok (.string b.destination)

theorem entries_eq_nil_of_readable [DartDateTime T] (h : convertData data = .ok routes)
    (hread : BusesReadable T data routes) : data.entries = [] := by
  rw [List.eq_nil_iff_forall_not_mem]
  intro e he
  obtain ⟨n, route, hr, -, -, -, -, hbuses⟩ := exists_route_of_entry h he
  obtain ⟨bus, hbus, hrecord⟩ :=
    forall₂_exists_right (forall₂_of_mapM hbuses) (self_mem_members he)
  obtain ⟨b, hb, -⟩ := hread route hr bus hbus
  exact fromJson_busRecord hrecord b hb

/-- No bus of the output can be read, so all of them can exactly when there are none. -/
theorem converted_buses_readable_iff (T : Type) [DartDateTime T]
    (h : convertData data = .ok routes) : BusesReadable T data routes ↔ data.entries = [] := by
  refine ⟨entries_eq_nil_of_readable h, fun hnil route hr => ?_⟩
  obtain ⟨keys, hkeys, hlen, -⟩ := convertData_routes h
  rw [hkeys, hnil, List.map_nil, List.eraseDups_nil, List.length_nil,
    List.length_eq_zero_iff] at hlen
  rw [hlen] at hr
  cases hr

end Readable

theorem one_line_readable_iff : ∃ routes, convertData oneLine = .ok routes ∧
    (BusesReadable IsoInstant oneLine routes ↔ oneLine.entries = []) :=
  have ⟨routes, h⟩ := oneLine_converts
  ⟨routes, h, converted_buses_readable_iff IsoInstant h⟩

theorem one_line_is_unreadable :
    ¬ ∀ (data : LinkedMap String (Value ℚ)) (routes : List (ConvertedRoute ℚ)),
      convertData data = .ok routes → (∀ e ∈ data.entries, HasBusFields e.2) →
        BusesReadable IsoInstant data routes := by
  intro h
  obtain ⟨routes, hdata⟩ := oneLine_converts
  have hfields : ∀ e ∈ oneLine.entries, HasBusFields e.2 := by
    simp only [oneLine, List.forall_mem_cons]
    exact ⟨⟨_, _, _, rfl, rfl, rfl⟩, ⟨_, _, _, rfl, rfl, rfl⟩, by simp⟩
  cases entries_eq_nil_of_readable hdata (h oneLine routes hdata hfields)

end ConvertedBuses
