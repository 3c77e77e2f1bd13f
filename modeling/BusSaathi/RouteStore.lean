import BusSaathi.StoreHistory

/-! The route store over whole histories. `insertRoute` replaces rows of `routes` by route
id but rows of `stops` by stop id alone, so a stop can outlive its version of a route or
change hands. The law is settled exactly by which call last named each stop id. -/
namespace RouteStore

open KeyedTable StatementPrograms.Prog DartRuntime Models DatabaseService StoreHistory

variable {D T : Type}

def DistinctStops (route : Route D) : Prop :=
  (route.stops.map (·.id)).Nodup ∧ (route.stops.map (·.sequence)).Nodup

/-- The version of a route given to the last of its inserts. -/
def currentVersion (routes : List (Route D)) (r : String) : Option (Route D) :=
  lastWith Route.id routes r

/-- The last inserted route that names a stop id. -/
def lastNaming (routes : List (Route D)) (x : String) : Option (Route D) :=
  routes.reverse.find? (fun route => route.stops.any (·.id = x))

/-- Every stop of a current version was last named by that route, and every stop id last
named by a route is still in its current version. -/
def StopsUndisturbed (routes : List (Route D)) : Prop :=
  (∀ r route, currentVersion routes r = some route → ∀ stop ∈ route.stops,
    ∀ last, lastNaming routes stop.id = some last → last.id = r) ∧
  (∀ x last, lastNaming routes x = some last →
    ∀ route, currentVersion routes last.id = some route → ∃ stop ∈ route.stops, stop.id = x)

theorem lastNaming_names {routes : List (Route D)} {x : String} {last : Route D}
    (h : lastNaming routes x = some last) : last ∈ routes ∧ ∃ stop ∈ last.stops, stop.id = x :=
  ⟨List.mem_reverse.mp (List.mem_of_find?_eq_some h), by simpa using List.find?_some h⟩

theorem lastNaming_concat (routes : List (Route D)) (route : Route D) (x : String) :
    lastNaming (routes ++ [route]) x =
      if ∃ stop ∈ route.stops, stop.id = x then some route else lastNaming routes x := by
  by_cases h : ∃ stop ∈ route.stops, stop.id = x
  · simp [lastNaming, h]
  · simp [lastNaming, h]

theorem currentVersion_concat (routes : List (Route D)) (route : Route D) (r : String) :
    currentVersion (routes ++ [route]) r =
      if route.id = r then some route else currentVersion routes r := by
  rw [currentVersion, lastWith_append, lastWith_singleton]
  by_cases h : route.id = r <;> simp [h, currentVersion]

theorem lastNaming_eq_current {routes : List (Route D)} {r x : String} {route last : Route D}
    (hc : currentVersion routes r = some route) (hx : ∃ stop ∈ route.stops, stop.id = x)
    (hl : lastNaming routes x = some last) (hr : last.id = r) : last = route := by
  induction routes using List.reverseRecOn with
  | nil => cases hl
  | append_singleton routes new ih =>
    rw [lastNaming_concat] at hl
    rw [currentVersion_concat] at hc
    by_cases hnew : new.id = r
    · rw [if_pos hnew] at hc
      cases hc
      rw [if_pos hx] at hl
      exact (Option.some.inj hl).symm
    · rw [if_neg hnew] at hc
      split at hl
      case isTrue h => exact absurd (Option.some.inj hl ▸ hr) hnew
      case isFalse h => exact ih hc hl

theorem exists_lastNaming {routes : List (Route D)} {route : Route D} {stop : RouteStop D}
    (hr : route ∈ routes) (hs : stop ∈ route.stops) :
    ∃ last, lastNaming routes stop.id = some last := by
  cases hl : lastNaming routes stop.id with
  | some last => exact ⟨last, rfl⟩
  | none =>
    have hno := List.find?_eq_none.mp hl route (List.mem_reverse.mpr hr)
    exact absurd (List.any_eq_true.mpr ⟨stop, hs, by simp⟩) hno

theorem lastWith_stopRows (routes : List (Route D)) (x : String) :
    lastWith StopRow.id (stopRows routes) x =
      (lastNaming routes x).bind
        (fun last => lastWith StopRow.id (last.stops.map (stopRow last.id)) x) := by
  induction routes using List.reverseRecOn with
  | nil => rfl
  | append_singleton routes route ih =>
    have hrows : stopRows (routes ++ [route]) =
        stopRows routes ++ route.stops.map (stopRow route.id) := by simp [stopRows]
    rw [hrows, lastWith_append, ih, lastNaming_concat]
    split
    case isTrue h =>
      obtain ⟨stop, hs, hx⟩ := h
      cases hl : lastWith StopRow.id (route.stops.map (stopRow route.id)) x with
      | some row => simp [hl]
      | none =>
        have hno := lastWith_eq_none.mp hl (stopRow route.id stop) (List.mem_map_of_mem hs)
        exact absurd hx hno
    case isFalse h =>
      have hno : lastWith StopRow.id (route.stops.map (stopRow route.id)) x = none := by
        rw [lastWith_eq_none]
        intro row hrow
        obtain ⟨stop, hs, rfl⟩ := List.mem_map.mp hrow
        exact fun hx => h ⟨stop, hs, hx⟩
      rw [hno, Option.none_or]

/-- The rows of `stops` are the stops of those versions that last named them. -/
theorem mem_stops_iff {routes : List (Route D)} (hd : ∀ route ∈ routes, DistinctStops route)
    {row : StopRow D} :
    row ∈ ((Table.empty : Table (@StopRow.id D)).replaceAll (stopRows routes)).rows ↔
      ∃ last stop, lastNaming routes stop.id = some last ∧ stop ∈ last.stops ∧
        row = stopRow last.id stop := by
  rw [Table.mem_iff_lookup, Table.lookup_replaceAll, Table.lookup_empty, Option.or_none,
    lastWith_stopRows, Option.bind_eq_some_iff]
  constructor
  · rintro ⟨last, hl, hrow⟩
    obtain ⟨hmem, -⟩ := lastWith_mem hrow
    obtain ⟨stop, hs, rfl⟩ := List.mem_map.mp hmem
    exact ⟨last, stop, hl, hs, rfl⟩
  · rintro ⟨last, stop, hl, hs, rfl⟩
    have hn : ((last.stops.map (stopRow last.id)).map StopRow.id).Nodup := by
      rw [List.map_map]
      exact (hd last (lastNaming_names hl).1).1
    exact ⟨last, hl, lastWith_of_nodup hn (List.mem_map_of_mem hs)⟩

theorem lastWith_routeRows [DartDouble D] {routes : List (Route D)} {rows : List (RouteRow D)}
    (h : List.Forall₂ (fun route row => routeRow route = .ok row) routes rows) (r : String) :
    Option.Rel (fun route row => routeRow route = .ok row)
      (currentVersion routes r) (lastWith RouteRow.id rows r) := by
  have hrev := List.rel_reverse h
  unfold currentVersion lastWith
  generalize routes.reverse = lastFirst at hrev ⊢
  generalize rows.reverse = rowsLastFirst at hrev ⊢
  induction hrev with
  | nil => exact .none
  | @cons route row routes rows hrow _ ih =>
    have hid := (routeRow_fields hrow).1
    by_cases hr : route.id = r
    · simpa [hr, hid] using Option.Rel.some hrow
    · simpa [hr, hid] using ih

theorem storedStops_eq_nil_iff {db : Database D} (r : String) :
    storedStops db r = [] ↔ ∀ row ∈ db.stops.rows, row.routeId ≠ r := by
  rw [storedStops_eq_inSequence, ← List.length_eq_zero_iff, inSequence,
    List.length_insertionSort, List.length_eq_zero_iff, List.map_eq_nil_iff,
    List.filter_eq_nil_iff]
  simp

theorem eq_stopRow {row : StopRow D} {r : String} (h : row.routeId = r) :
    row = stopRow r (stopOfRow row) := by
  subst h
  rfl

theorem mem_storedStops {db : Database D} {r : String} {stop : RouteStop D} :
    stop ∈ storedStops db r ↔ stopRow r stop ∈ db.stops.rows := by
  rw [storedStops_eq_inSequence, mem_inSequence, List.mem_map]
  constructor
  · rintro ⟨row, hrow, rfl⟩
    obtain ⟨hrow, hr⟩ := List.mem_filter.mp hrow
    rw [← eq_stopRow (by simpa using hr)]
    exact hrow
  · intro hrow
    exact ⟨stopRow r stop, List.mem_filter.mpr ⟨hrow, by simp⟩, rfl⟩

theorem storedStops_of_rows {db : Database D} {route : Route D} (hd : DistinctStops route)
    {r : String} (h : ∀ row, (row ∈ db.stops.rows ∧ row.routeId = r) ↔
      ∃ stop ∈ route.stops, row = stopRow r stop) :
    storedStops db r = inSequence route.stops := by
  have hinj : Function.Injective (stopRow r : RouteStop D → StopRow D) :=
    fun a b hab => congrArg stopOfRow hab
  have hrows : (db.stops.rows.filter (·.routeId = r)).Perm (route.stops.map (stopRow r)) := by
    rw [List.perm_ext_iff_of_nodup (db.stops.rows_nodup.filter _) ((hd.1.of_map _).map hinj)]
    intro row
    rw [List.mem_filter, decide_eq_true_iff, h row, List.mem_map]
    exact exists_congr fun stop => and_congr_right fun _ => eq_comm
  have hid : (stopOfRow ∘ stopRow r : RouteStop D → RouteStop D) = id := rfl
  rw [storedStops_eq_inSequence]
  apply inSequence_perm _ hd.2
  simpa [hid] using hrows.map stopOfRow

theorem storedStops_eq_iff {db : Database D} {route : Route D} (hd : DistinctStops route)
    (r : String) : storedStops db r = inSequence route.stops ↔
      ∀ row, (row ∈ db.stops.rows ∧ row.routeId = r) ↔
        ∃ stop ∈ route.stops, row = stopRow r stop := by
  constructor
  · intro h row
    constructor
    · rintro ⟨hrow, hr⟩
      have hs : stopOfRow row ∈ storedStops db r := mem_storedStops.mpr (eq_stopRow hr ▸ hrow)
      rw [h, mem_inSequence] at hs
      exact ⟨stopOfRow row, hs, eq_stopRow hr⟩
    · rintro ⟨stop, hs, rfl⟩
      exact ⟨mem_storedStops.mp (h ▸ mem_inSequence.mpr hs), rfl⟩
  · intro h
    exact storedStops_of_rows hd h

theorem storedStops_of_no_version {routes : List (Route D)} {db : Database D}
    (hd : ∀ route ∈ routes, DistinctStops route)
    (hs : db.stops = Table.empty.replaceAll (stopRows routes)) {r : String}
    (hc : currentVersion routes r = none) : storedStops db r = [] := by
  rw [storedStops_eq_nil_iff]
  intro row hrow
  rw [hs, mem_stops_iff hd] at hrow
  obtain ⟨last, stop, hl, -, rfl⟩ := hrow
  exact lastWith_eq_none.mp hc last (lastNaming_names hl).1

theorem rows_of_undisturbed {routes : List (Route D)} {db : Database D}
    (hd : ∀ route ∈ routes, DistinctStops route)
    (hs : db.stops = Table.empty.replaceAll (stopRows routes)) (hu : StopsUndisturbed routes)
    {r : String} {route : Route D} (hc : currentVersion routes r = some route)
    (row : StopRow D) : (row ∈ db.stops.rows ∧ row.routeId = r) ↔
      ∃ stop ∈ route.stops, row = stopRow r stop := by
  rw [hs, mem_stops_iff hd]
  constructor
  · rintro ⟨⟨last, stop, hl, hstop, rfl⟩, hlr⟩
    have hlr' : last.id = r := hlr
    have hin := hu.2 stop.id last hl route (hlr'.symm ▸ hc)
    have hlast := lastNaming_eq_current hc hin hl hlr'
    exact ⟨stop, hlast ▸ hstop, hlr' ▸ rfl⟩
  · rintro ⟨stop, hstop, rfl⟩
    obtain ⟨last, hl⟩ := exists_lastNaming (lastWith_mem hc).1 hstop
    have hlr := hu.1 r route hc stop hstop last hl
    have hlast := lastNaming_eq_current hc ⟨stop, hstop, rfl⟩ hl hlr
    exact ⟨⟨last, stop, hl, hlast ▸ hstop, hlr ▸ rfl⟩, rfl⟩

section Law

variable [DartDouble D]

/-- What the store owes a route id: the row and the stops of the current version. -/
def RouteStored (routes : List (Route D)) (db : Database D) (r : String) : Prop :=
  match currentVersion routes r with
  | some route =>
    (∃ row, db.routes.rows.filter (·.id = r) = [row] ∧ row.name = route.name ∧
      row.source = route.source ∧ row.destination = route.destination) ∧
    (run exec (getStopsForRoute r) db).1 = .ok (inSequence route.stops)
  | none =>
    db.routes.rows.filter (·.id = r) = [] ∧ (run exec (getStopsForRoute r) db).1 = .ok []

def RouteStoreLaw [DartDateTime T] (h : List (StoreCall D T)) (db : Database D) : Prop :=
  ∀ r, RouteStored (routesSinceClear h) db r

theorem routeStored_of_undisturbed {routes : List (Route D)} {rows : List (RouteRow D)}
    {db : Database D} (hd : ∀ route ∈ routes, DistinctStops route)
    (hs : db.stops = Table.empty.replaceAll (stopRows routes))
    (hr : db.routes = Table.empty.replaceAll rows)
    (hrows : List.Forall₂ (fun route row => routeRow route = .ok row) routes rows)
    (hu : StopsUndisturbed routes) (r : String) : RouteStored routes db r := by
  have hlook : db.routes.lookup r = lastWith RouteRow.id rows r := by
    rw [hr, Table.lookup_replaceAll, Table.lookup_empty, Option.or_none]
  have hrel := lastWith_routeRows hrows r
  rw [← hlook] at hrel
  have hfilter := db.routes.filter_key r
  unfold RouteStored
  rw [run_getStopsForRoute]
  cases hc : currentVersion routes r with
  | none =>
    rw [hc] at hrel
    generalize db.routes.lookup r = found at hrel hfilter
    cases hrel
    exact ⟨hfilter, congrArg Except.ok (storedStops_of_no_version hd hs hc)⟩
  | some route =>
    rw [hc] at hrel
    generalize db.routes.lookup r = found at hrel hfilter
    cases hrel with
    | some hrow =>
      obtain ⟨hid, hname, hsource, hdest⟩ := routeRow_fields hrow
      have hroute := hd route (lastWith_mem hc).1
      have hstops := (storedStops_eq_iff hroute r).mpr (rows_of_undisturbed hd hs hu hc)
      exact ⟨⟨_, hfilter, hname, hsource, hdest⟩, congrArg Except.ok hstops⟩

theorem undisturbed_of_routeStored {routes : List (Route D)} {db : Database D}
    (hd : ∀ route ∈ routes, DistinctStops route)
    (hs : db.stops = Table.empty.replaceAll (stopRows routes))
    (hlaw : ∀ r, RouteStored routes db r) : StopsUndisturbed routes := by
  have hread : ∀ r route, currentVersion routes r = some route → ∀ row,
      (row ∈ db.stops.rows ∧ row.routeId = r) ↔ ∃ stop ∈ route.stops, row = stopRow r stop := by
    intro r route hc
    have hr := hlaw r
    simp only [RouteStored, hc, run_getStopsForRoute] at hr
    exact (storedStops_eq_iff (hd route (lastWith_mem hc).1) r).mp (Except.ok.inj hr.2)
  constructor
  · intro r route hc stop hstop last hl
    have hrow := ((hread r route hc (stopRow r stop)).mpr ⟨stop, hstop, rfl⟩).1
    rw [hs, mem_stops_iff hd] at hrow
    obtain ⟨last', stop', hl', -, he⟩ := hrow
    have hid : stop.id = stop'.id := congrArg StopRow.id he
    rw [hid, hl'] at hl
    cases hl
    exact (congrArg StopRow.routeId he).symm
  · intro x last hl route hc
    obtain ⟨hmem, stop, hstop, rfl⟩ := lastNaming_names hl
    have hrow : stopRow last.id stop ∈ db.stops.rows := by
      rw [hs, mem_stops_iff hd]
      exact ⟨last, stop, hl, hstop, rfl⟩
    obtain ⟨stop', hstop', he⟩ := (hread last.id route hc _).mp ⟨hrow, rfl⟩
    exact ⟨stop', hstop', (congrArg StopRow.id he).symm⟩

/-- The store keeps the law after a history exactly when, since the last clear, no stop of
a current version changed hands and none outlived its version. -/
theorem route_store_law_iff [DartDateTime T] (h : List (StoreCall D T)) (db : Database D)
    (hd : ∀ route, .insertRoute route ∈ h → DistinctStops route)
    (hrun : runHistory h = some db) :
    RouteStoreLaw h db ↔ StopsUndisturbed (routesSinceClear h) := by
  obtain ⟨-, hs, rows, hr, hrows⟩ := historyInvariant_run hrun
  have hd' : ∀ route ∈ routesSinceClear h, DistinctStops route :=
    fun route hmem => hd route (mem_routesSinceClear hmem)
  exact ⟨undisturbed_of_routeStored hd' hs,
    fun hu r => routeStored_of_undisturbed hd' hs hr hrows hu r⟩

end Law

def sampleStop (id : String) (sequence : ℤ) : RouteStop ℚ := ⟨id, id, 31.634, 74.8723, sequence⟩

def versionOf (id : String) (stops : List (RouteStop ℚ)) : Route ℚ :=
  ⟨id, "Amritsar - Ludhiana", "Amritsar", "Ludhiana", stops, [], .empty⟩

def shrunkRoute : List (StoreCall ℚ IsoInstant) :=
  [.insertRoute (versionOf "r" [sampleStop "s1" 1, sampleStop "s2" 2]),
   .insertRoute (versionOf "r" [sampleStop "s1" 1])]

def separateRoutes : List (StoreCall ℚ IsoInstant) :=
  [.insertRoute (versionOf "r" [sampleStop "s1" 1]),
   .insertRoute (versionOf "q" [sampleStop "s2" 1]),
   .insertRoute (versionOf "r" [sampleStop "s1" 1, sampleStop "s3" 2])]

theorem separateRoutes_undisturbed : StopsUndisturbed (routesSinceClear separateRoutes) := by
  have howner : ∀ route ∈ routesSinceClear separateRoutes, ∀ stop ∈ route.stops,
      ∀ last ∈ lastNaming (routesSinceClear separateRoutes) stop.id, last.id = route.id := by
    decide
  have hlisted : ∀ last ∈ routesSinceClear separateRoutes, ∀ stop ∈ last.stops,
      ∀ route ∈ currentVersion (routesSinceClear separateRoutes) last.id,
        ∃ stop' ∈ route.stops, stop'.id = stop.id := by
    decide
  constructor
  · intro r route hc stop hstop last hl
    obtain ⟨hmem, rfl⟩ := lastWith_mem hc
    exact howner route hmem stop hstop last hl
  · intro x last hl route hc
    obtain ⟨hmem, stop, hstop, rfl⟩ := lastNaming_names hl
    exact hlisted last hmem stop hstop route hc

theorem separate_routes_keep_law : ∃ db, runHistory separateRoutes = some db ∧
    RouteStoreLaw separateRoutes db := by
  have hd : ∀ route, .insertRoute route ∈ separateRoutes → DistinctStops route := by
    intro route hroute
    simp only [separateRoutes, List.mem_cons, StoreCall.insertRoute.injEq, List.not_mem_nil,
      or_false] at hroute
    rcases hroute with rfl | rfl | rfl <;> exact ⟨by decide, by decide⟩
  exact ⟨_, rfl, (route_store_law_iff separateRoutes _ hd rfl).mpr separateRoutes_undisturbed⟩

theorem shrunk_route_breaks_law : ¬ ∀ (h : List (StoreCall ℚ IsoInstant)) (db : Database ℚ),
    (∀ route, .insertRoute route ∈ h → DistinctStops route) → runHistory h = some db →
      RouteStoreLaw h db := by
  intro law
  have hd : ∀ route, .insertRoute route ∈ shrunkRoute → DistinctStops route := by
    intro route hroute
    simp only [shrunkRoute, List.mem_cons, StoreCall.insertRoute.injEq, List.not_mem_nil,
      or_false] at hroute
    rcases hroute with rfl | rfl <;> exact ⟨by decide, by decide⟩
  have hread := (law shrunkRoute _ hd rfl "r").2
  rw [run_getStopsForRoute] at hread
  have hlen := congrArg List.length (Except.ok.inj hread)
  exact absurd hlen (by decide)

end RouteStore
