import BusSaathi.ConvertedRoutes
import BusSaathi.KeyGroups

/-! What the converter's output lists where: the input's buses in groups of one route key. -/
namespace RouteGroups

open LinkedMaps DartRuntime DartText Models KeyGroups RouteConverter ConvertedRoutes

variable {D : Type}

def busIds (route : ConvertedRoute D) : List (Value D) := route.buses.map (JsonMap.get · "id")

theorem busRecord_id {busId : String} {busData : Value D} {bus : JsonMap D}
    (h : busRecord busId busData = .ok bus) : bus.get "id" = .string busId := by
  obtain ⟨_, _, _, _, -, rfl⟩ := busRecord_ok h
  rfl

section Grouping

variable [DartDouble D]

/-- The key of a route, from its own source and destination. -/
def routeText (route : ConvertedRoute D) : String :=
  route.source.toText ++ "-" ++ route.destination.toText

theorem keyOf_of_ends {busData : Value D} {source destination : String}
    (hs : busData.index "source" = .ok (.string source))
    (hd : busData.index "destination" = .ok (.string destination)) :
    keyOf busData = source ++ "-" ++ destination := by
  apply keyOf_eq
  simp only [routeKey, hs, hd]
  rfl

theorem keyOf_of_mem_members {entries : List (String × Value D)} {key : String}
    {e : String × Value D} (h : e ∈ members entries key) : keyOf e.2 = key :=
  (mem_groupOf.mp h).2

theorem ends_of_from {n : ℕ} {group : List (String × Value D)} {route : ConvertedRoute D}
    (h : ConvertedFrom n group route) : ∃ first ∈ group, ∃ source destination,
      first.2.index "source" = .ok (.string source) ∧
      first.2.index "destination" = .ok (.string destination) ∧
      route.source = .string source ∧ route.destination = .string destination := by
  obtain ⟨first, rest, rfl, hopen, -⟩ := h
  obtain ⟨source, destination, -, _, hs, hd, -, -, hroute⟩ := openRoute_ok hopen
  exact ⟨first, List.mem_cons_self, source, destination, hs, hd,
    congrArg ConvertedRoute.source hroute, congrArg ConvertedRoute.destination hroute⟩

theorem routeText_of_from {n : ℕ} {entries : List (String × Value D)} {key : String}
    {route : ConvertedRoute D} (h : ConvertedFrom n (members entries key) route) :
    routeText route = key := by
  obtain ⟨first, hfirst, source, destination, hs, hd, hsource, hdestination⟩ := ends_of_from h
  rw [← keyOf_of_mem_members hfirst, keyOf_of_ends hs hd, routeText, hsource, hdestination]
  rfl

variable {data : LinkedMap String (Value D)} {routes : List (ConvertedRoute D)}

theorem routeKey_of_accepted (h : convertData data = .ok routes) {e : String × Value D}
    (he : e ∈ data.entries) : routeKey e.2 = .ok (keyOf e.2) := by
  obtain ⟨st, hst, -⟩ := bind_eq_ok.mp h
  obtain ⟨u, v, hstep⟩ := step_of_foldlM hst he
  obtain ⟨key, hkey, -⟩ := bind_eq_ok.mp hstep
  rw [keyOf_eq hkey, hkey]

theorem routeTexts (h : convertData data = .ok routes) :
    routes.map routeText = (data.entries.map (fun e => keyOf e.2)).eraseDups := by
  obtain ⟨keys, hkeys, hlen, hroutes⟩ := convertData_routes h
  rw [← hkeys]
  apply List.ext_getElem
  · rw [List.length_map, hlen]
  · intro i hi hik
    rw [List.length_map] at hi
    obtain ⟨key, hkey, hfrom⟩ := hroutes i routes[i] (List.getElem?_eq_getElem hi)
    rw [List.getElem?_eq_getElem hik] at hkey
    rw [List.getElem_map, routeText_of_from hfrom]
    exact (Option.some.inj hkey).symm

theorem busIds_eq (h : convertData data = .ok routes) {route : ConvertedRoute D}
    (hr : route ∈ routes) :
    busIds route = (members data.entries (routeText route)).map (fun e => .string e.1) := by
  obtain ⟨n, key, hfrom⟩ := convertedFrom_of_mem h hr
  rw [routeText_of_from hfrom]
  obtain ⟨_, _, -, -, hbuses⟩ := hfrom
  exact map_of_mapM hbuses fun _ _ hrecord => busRecord_id hrecord

theorem mem_busIds_iff (h : convertData data = .ok routes) {route : ConvertedRoute D}
    (hr : route ∈ routes) {e : String × Value D} (he : e ∈ data.entries) :
    .string e.1 ∈ busIds route ↔ keyOf e.2 = routeText route := by
  rw [busIds_eq h hr, List.mem_map]
  constructor
  · rintro ⟨f, hf, hid⟩
    have hmem := (mem_groupOf.mp hf).1
    have hfe : f = e := List.inj_on_of_nodup_map data.keys_nodup hmem he (Value.string.inj hid)
    rw [← hfe, keyOf_of_mem_members hf]
  · intro hkey
    exact ⟨e, hkey ▸ self_mem_members he, rfl⟩

/-- What the output keeps of the input: `keys` are the route keys of the buses in turn. -/
structure KeepsBuses (data : LinkedMap String (Value D)) (keys : List String)
    (routes : List (ConvertedRoute D)) : Prop where
  each_once : (routes.flatMap busIds).Perm (data.keys.map .string)
  in_input_order : ∀ route ∈ routes, (busIds route).Sublist (data.keys.map .string)
  of_one_key : ∀ route ∈ routes, ∀ e ∈ data.entries, .string e.1 ∈ busIds route →
    routeKey e.2 = .ok (routeText route)
  from_input : ∀ route ∈ routes, routeText route ∈ keys
  by_first_occurrence : (routes.map routeText).Pairwise fun k l => keys.idxOf k < keys.idxOf l
  numbered : ∀ i route, routes[i]? = some route → route.id = "route-" ++ toString (i + 1)
  counted : routes.length = keys.toFinset.card

theorem busIds_perm (h : convertData data = .ok routes) :
    (routes.flatMap busIds).Perm (data.keys.map .string) := by
  have hids : routes.flatMap busIds = ((routes.map routeText).flatMap
      (groupOf (fun e => keyOf e.2) data.entries)).map (fun e => .string e.1) := by
    rw [List.map_flatMap, List.flatMap_map]
    exact List.flatMap_congr fun route hr => busIds_eq h hr
  have hkeys : data.keys.map (.string : String → Value D) =
      data.entries.map (fun e => .string e.1) := List.map_map
  rw [hids, hkeys, routeTexts h]
  apply List.Perm.map
  apply flatMap_groupOf_perm (nodup_eraseDups _)
  intro e he
  rw [List.mem_eraseDups]
  exact List.mem_map_of_mem he

theorem converted_buses_conserved (h : convertData data = .ok routes) :
    ∃ keys, data.entries.mapM (fun e => routeKey e.2) = .ok keys ∧
      KeepsBuses data keys routes := by
  refine ⟨_, mapM_ok fun e he => routeKey_of_accepted h he, ?_⟩
  constructor
  case each_once => exact busIds_perm h
  case in_input_order =>
    intro route hr
    rw [busIds_eq h hr, LinkedMap.keys, List.map_map]
    exact (groupOf_sublist _ _ _).map _
  case of_one_key =>
    intro route hr e he hmem
    rw [routeKey_of_accepted h he, (mem_busIds_iff h hr he).mp hmem]
  case from_input =>
    intro route hr
    rw [← List.mem_eraseDups, ← routeTexts h]
    exact List.mem_map_of_mem hr
  case by_first_occurrence =>
    rw [routeTexts h]
    exact pairwise_idxOf_eraseDups _
  case numbered =>
    intro i route hi
    obtain ⟨keys, -, -, hroutes⟩ := convertData_routes h
    obtain ⟨key, -, hfrom⟩ := hroutes i route hi
    exact convertedFrom_id hfrom
  case counted => rw [← List.length_map (f := routeText), routeTexts h, length_eraseDups]

end Grouping

def crossedLines : LinkedMap String (Value ℚ) :=
  ⟨[("b1", busEntry "Amritsar" "Ludhiana" "08:00"), ("b2", busEntry "Moga" "Patiala" "09:30"),
    ("b3", busEntry "Amritsar" "Ludhiana" "10:15")], by decide⟩

theorem crossedLines_converts : ∃ routes, convertData crossedLines = .ok routes := ⟨_, rfl⟩

theorem crossed_lines_conserved : ∃ routes keys, convertData crossedLines = .ok routes ∧
    crossedLines.entries.mapM (fun e => routeKey e.2) = .ok keys ∧
    KeepsBuses crossedLines keys routes := by
  obtain ⟨routes, h⟩ := crossedLines_converts
  obtain ⟨keys, hkeys, hkept⟩ := converted_buses_conserved h
  exact ⟨routes, keys, h, hkeys, hkept⟩

def Ends (busData : Value D) (source destination : String) : Prop :=
  busData.index "source" = .ok (.string source) ∧
    busData.index "destination" = .ok (.string destination)

section Ends

variable [DartDouble D] {data : LinkedMap String (Value D)} {routes : List (ConvertedRoute D)}

/-- Two buses are listed under one output route. -/
def ListedTogether (routes : List (ConvertedRoute D)) (busId busId' : String) : Prop :=
  ∃ route ∈ routes, .string busId ∈ busIds route ∧ .string busId' ∈ busIds route

structure GroupedByEnds (data : LinkedMap String (Value D)) (routes : List (ConvertedRoute D)) :
    Prop where
  together_iff : ∀ e ∈ data.entries, ∀ f ∈ data.entries, ∀ s d s' d', Ends e.2 s d →
    Ends f.2 s' d' → (ListedTogether routes e.1 f.1 ↔ s = s' ∧ d = d')
  own_ends : ∀ route ∈ routes, ∀ e ∈ data.entries, ∀ s d, Ends e.2 s d →
    .string e.1 ∈ busIds route → route.source = .string s ∧ route.destination = .string d

/-- No bus goes from `s` to `m-d` where another goes from `s-m` to `d`. -/
def NoSharedDash (data : LinkedMap String (Value D)) : Prop :=
  ∀ e ∈ data.entries, ∀ f ∈ data.entries, ∀ s m d, Ends e.2 s (m ++ "-" ++ d) →
    ¬ Ends f.2 (s ++ "-" ++ m) d

theorem listedTogether_iff (h : convertData data = .ok routes) {e f : String × Value D}
    (he : e ∈ data.entries) (hf : f ∈ data.entries) :
    ListedTogether routes e.1 f.1 ↔ keyOf e.2 = keyOf f.2 := by
  constructor
  · rintro ⟨route, hr, hmem, hmem'⟩
    rw [(mem_busIds_iff h hr he).mp hmem, (mem_busIds_iff h hr hf).mp hmem']
  · intro hkey
    obtain ⟨n, route, hr, hfrom⟩ := exists_route_of_entry h he
    have htext := routeText_of_from hfrom
    exact ⟨route, hr, (mem_busIds_iff h hr he).mpr htext.symm,
      (mem_busIds_iff h hr hf).mpr (hkey.symm.trans htext.symm)⟩

theorem ends_eq_of_keyOf_eq (hdash : NoSharedDash data) {e f : String × Value D}
    (he : e ∈ data.entries) (hf : f ∈ data.entries) {s d s' d' : String} (hends : Ends e.2 s d)
    (hends' : Ends f.2 s' d') (hkey : keyOf e.2 = keyOf f.2) : s = s' ∧ d = d' := by
  rw [keyOf_of_ends hends.1 hends.2, keyOf_of_ends hends'.1 hends'.2, dashed_eq_iff] at hkey
  rcases hkey with hsame | ⟨m, rfl, rfl⟩ | ⟨m, rfl, rfl⟩
  · exact hsame
  · exact absurd hends' (hdash e he f hf s m d' hends)
  · exact absurd hends (hdash f hf e he s' m d hends')

theorem noSharedDash_of_grouped (h : convertData data = .ok routes)
    (hgrouped : GroupedByEnds data routes) : NoSharedDash data := by
  intro e he f hf s m d hends hends'
  have hkey : keyOf e.2 = keyOf f.2 := by
    rw [keyOf_of_ends hends.1 hends.2, keyOf_of_ends hends'.1 hends'.2, dashed_eq_iff]
    exact Or.inr (Or.inl ⟨m, rfl, rfl⟩)
  have htogether := (listedTogether_iff h he hf).mpr hkey
  obtain ⟨hsource, -⟩ := (hgrouped.together_iff e he f hf _ _ _ _ hends hends').mp htogether
  have hlen := congrArg (List.length ∘ String.toList) hsource
  simp only [Function.comp_apply, toList_dashed, List.length_append, List.length_cons] at hlen
  omega

/-- The converter groups by source and destination exactly where no two buses share the text
of their names but not the dash that joins them. -/
theorem grouped_by_ends_iff (h : convertData data = .ok routes) :
    GroupedByEnds data routes ↔ NoSharedDash data := by
  constructor
  · exact noSharedDash_of_grouped h
  intro hdash
  constructor
  case together_iff =>
    intro e he f hf s d s' d' hse hsf
    rw [listedTogether_iff h he hf]
    constructor
    · exact ends_eq_of_keyOf_eq hdash he hf hse hsf
    · rintro ⟨rfl, rfl⟩
      rw [keyOf_of_ends hse.1 hse.2, keyOf_of_ends hsf.1 hsf.2]
  case own_ends =>
    intro route hr e he s d hse hmem
    obtain ⟨n, key, hfrom⟩ := convertedFrom_of_mem h hr
    obtain ⟨first, hfirst, source, destination, hs, hd, hsource, hdestination⟩ :=
      ends_of_from hfrom
    have hkey : keyOf first.2 = keyOf e.2 := by
      rw [keyOf_of_mem_members hfirst, (mem_busIds_iff h hr he).mp hmem, routeText_of_from hfrom]
    obtain ⟨rfl, rfl⟩ :=
      ends_eq_of_keyOf_eq hdash (mem_groupOf.mp hfirst).1 he ⟨hs, hd⟩ hse hkey
    exact ⟨hsource, hdestination⟩

end Ends

theorem ends_busEntry {source destination departureTime s d : String}
    (h : Ends (busEntry source destination departureTime) s d) : s = source ∧ d = destination := by
  obtain ⟨hs, hd⟩ := h
  have hsource : source = s := Value.string.inj (Except.ok.inj hs)
  have hdestination : destination = d := Value.string.inj (Except.ok.inj hd)
  exact ⟨hsource.symm, hdestination.symm⟩

theorem noSharedDash_twoLines : NoSharedDash twoLines := by
  intro e he f _ s m d hends _
  have hdash : '-' ∈ (m ++ "-" ++ d).toList := by simp
  simp only [twoLines, List.mem_cons, List.not_mem_nil, or_false] at he
  rcases he with rfl | rfl
  · rw [(ends_busEntry hends).2] at hdash
    exact absurd hdash (by decide)
  · rw [(ends_busEntry hends).2] at hdash
    exact absurd hdash (by decide)

theorem two_lines_grouped_by_ends : ∃ routes, convertData twoLines = .ok routes ∧
    GroupedByEnds twoLines routes := by
  obtain ⟨routes, h⟩ := twoLines_converts
  exact ⟨routes, h, (grouped_by_ends_iff h).mpr noSharedDash_twoLines⟩

def sharedDashLines : LinkedMap String (Value ℚ) :=
  ⟨[("b1", busEntry "Amritsar" "Beas-Ludhiana" "08:00"),
    ("b2", busEntry "Amritsar-Beas" "Ludhiana" "09:30")], by decide⟩

theorem shared_dash_joins_lines : ¬ ∀ (data : LinkedMap String (Value ℚ))
    (routes : List (ConvertedRoute ℚ)), convertData data = .ok routes →
      (∀ e ∈ data.entries, ∃ s d, Ends e.2 s d) → GroupedByEnds data routes := by
  intro h
  have hconverts : ∃ routes, convertData sharedDashLines = .ok routes := ⟨_, rfl⟩
  obtain ⟨routes, hroutes⟩ := hconverts
  have hends : ∀ e ∈ sharedDashLines.entries, ∃ s d, Ends e.2 s d := by
    simp only [sharedDashLines, List.forall_mem_cons]
    exact ⟨⟨_, _, rfl, rfl⟩, ⟨_, _, rfl, rfl⟩, by simp⟩
  have hdash := noSharedDash_of_grouped hroutes (h sharedDashLines routes hroutes hends)
  exact hdash _ List.mem_cons_self _ (List.mem_cons_of_mem _ List.mem_cons_self)
    "Amritsar" "Beas" "Ludhiana" ⟨rfl, rfl⟩ ⟨rfl, rfl⟩

end RouteGroups
