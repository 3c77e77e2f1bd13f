import BusSaathi.ClockTexts
import BusSaathi.RouteGroups
import Mathlib.Data.List.Permutation

/-! The converter over whole timetables: which ones it accepts, and what a longer or a
reordered timetable changes in its output. -/
namespace ConverterRuns

open LinkedMaps DartRuntime DartText Models KeyGroups RouteConverter ConvertedRoutes RouteGroups
  ClockTexts

variable {D : Type}

def IsMap (v : Value D) : Prop := ∃ t entries, v = .map t entries

/-- What a bus must hold to open a route. -/
def Opens (busData : Value D) : Prop :=
  ∃ source destination departureTime,
    busData.index "source" = .ok (.string source) ∧
    busData.index "destination" = .ok (.string destination) ∧
    busData.index "departureTime" = .ok (.string departureTime) ∧
    HasHour departureTime

theorem index_ok_iff {v : Value D} {key : String} : (∃ w, v.index key = .ok w) ↔ IsMap v := by
  constructor
  · rintro ⟨w, h⟩
    cases v with
    | map t entries => exact ⟨t, entries, rfl⟩
    | _ => cases h
  · rintro ⟨t, entries, rfl⟩
    exact ⟨_, rfl⟩

theorem busRecord_ok_iff (busId : String) {busData : Value D} :
    (∃ bus, busRecord busId busData = .ok bus) ↔ IsMap busData := by
  constructor
  · rintro ⟨bus, h⟩
    obtain ⟨number, hnumber, -⟩ := bind_eq_ok.mp h
    exact index_ok_iff.mp ⟨number, hnumber⟩
  · rintro ⟨t, entries, rfl⟩
    exact ⟨_, rfl⟩

theorem mapM_perm {α β ε : Type} {f : α → Except ε β} {l m : List α} {bs cs : List β}
    (h : l.Perm m) (hl : l.mapM f = .ok bs) (hm : m.mapM f = .ok cs) : bs.Perm cs := by
  obtain ⟨ds, hds, hperm⟩ := List.perm_comp_forall₂ h (forall₂_of_mapM hm)
  have hunique : Relator.RightUnique fun a b => f a = .ok b := by
    intro a b c hb hc
    exact Except.ok.inj (hb.symm.trans hc)
  rwa [hunique.forall₂ (forall₂_of_mapM hl) hds]

theorem forall₂_of_common {α β γ : Type} {P : α → β → Prop} {Q : α → γ → Prop}
    {R : β → γ → Prop} {l : List α} {bs : List β} {cs : List γ} (hb : List.Forall₂ P l bs)
    (hc : List.Forall₂ Q l cs) (h : ∀ a b c, P a b → Q a c → R b c) : List.Forall₂ R bs cs := by
  induction hb generalizing cs with
  | nil =>
    cases hc
    exact .nil
  | cons hp _ ih =>
    cases hc with
    | cons hq hqs => exact .cons (h _ _ _ hp hq) (ih hqs)

theorem eq_of_opened {route route' : ConvertedRoute D}
    (h : { route with buses := [] } = { route' with buses := [] }) :
    route' = { route with buses := route'.buses } := by
  cases route
  cases route'
  cases h
  rfl

section Acceptance

variable [DartDouble D]

theorem openRoute_ok_iff (n : ℕ) {busData : Value D} :
    (∃ route, openRoute n busData = .ok route) ↔ Opens busData := by
  constructor
  · rintro ⟨route, h⟩
    obtain ⟨source, destination, time, schedule, hs, hd, ht, hschedule, -⟩ := openRoute_ok h
    exact ⟨source, destination, time, hs, hd, ht, generateSchedule_ok_iff.mp ⟨_, hschedule⟩⟩
  · rintro ⟨source, destination, time, hs, hd, ht, hhour⟩
    obtain ⟨schedule, hschedule⟩ := generateSchedule_ok_iff.mpr hhour
    unfold openRoute
    rw [hs, hd, ht]
    change ∃ route, (generateSchedule time >>= _) = .ok route
    rw [hschedule]
    exact ⟨_, rfl⟩

theorem routeKey_of_isMap {busData : Value D} (h : IsMap busData) :
    routeKey busData = .ok (keyOf busData) := by
  obtain ⟨t, entries, rfl⟩ := h
  rfl

theorem convertStep_known {st : ConvertState D} {e : String × Value D} {bus : JsonMap D}
    (hmap : IsMap e.2) (hmem : keyOf e.2 ∈ st.routes.keys)
    (hbus : busRecord e.1 e.2 = .ok bus) :
    convertStep st e =
      .ok { st with routes := st.routes.update (keyOf e.2) (·.addBus bus) } := by
  unfold convertStep
  rw [routeKey_of_isMap hmap, hbus]
  exact if_pos ((st.routes.containsKey_iff _).mpr hmem)

theorem convertStep_new {st : ConvertState D} {e : String × Value D} {bus : JsonMap D}
    {route : ConvertedRoute D} (hmap : IsMap e.2) (hmem : keyOf e.2 ∉ st.routes.keys)
    (hopen : openRoute (st.routeCount + 1) e.2 = .ok route)
    (hbus : busRecord e.1 e.2 = .ok bus) :
    convertStep st e = .ok ⟨(st.routes.set (keyOf e.2) route).update (keyOf e.2) (·.addBus bus),
      st.routeCount + 1⟩ := by
  unfold convertStep
  rw [routeKey_of_isMap hmap, hbus]
  refine (if_neg fun h => hmem ((st.routes.containsKey_iff _).mp h)).trans ?_
  rw [hopen]
  rfl

theorem convertStep_ok_iff {st : ConvertState D} {e : String × Value D} :
    (∃ st', convertStep st e = .ok st') ↔
      IsMap e.2 ∧ (keyOf e.2 ∉ st.routes.keys → Opens e.2) := by
  constructor
  · rintro ⟨st', h⟩
    obtain ⟨key, hkey, h⟩ := bind_eq_ok.mp h
    rw [keyOf_eq hkey]
    by_cases hmem : st.routes.containsKey key
    · rw [if_pos hmem] at h
      obtain ⟨bus, hbus, -⟩ := bind_eq_ok.mp h
      rw [LinkedMap.containsKey_iff] at hmem
      exact ⟨(busRecord_ok_iff e.1).mp ⟨bus, hbus⟩, fun hnew => absurd hmem hnew⟩
    · rw [if_neg hmem] at h
      obtain ⟨route, hopen, h⟩ := bind_eq_ok.mp h
      obtain ⟨bus, hbus, -⟩ := bind_eq_ok.mp h
      exact ⟨(busRecord_ok_iff e.1).mp ⟨bus, hbus⟩,
        fun _ => (openRoute_ok_iff _).mp ⟨route, hopen⟩⟩
  · rintro ⟨hmap, hopens⟩
    obtain ⟨bus, hbus⟩ := (busRecord_ok_iff e.1).mpr hmap
    by_cases hmem : keyOf e.2 ∈ st.routes.keys
    · exact ⟨_, convertStep_known hmap hmem hbus⟩
    · obtain ⟨route, hopen⟩ := (openRoute_ok_iff (st.routeCount + 1)).mpr (hopens hmem)
      exact ⟨_, convertStep_new hmap hmem hopen hbus⟩

/-- Every bus is a map, and the first bus of every key can open its route. -/
structure Convertible (entries : List (String × Value D)) : Prop where
  maps : ∀ e ∈ entries, IsMap e.2
  opens : ∀ key first rest, members entries key = first :: rest → Opens first.2

theorem convertible_concat {entries : List (String × Value D)} {e : String × Value D} :
    Convertible (entries ++ [e]) ↔ Convertible entries ∧ IsMap e.2 ∧
      (keyOf e.2 ∉ entries.map (fun b => keyOf b.2) → Opens e.2) := by
  constructor
  · rintro ⟨hmaps, hopens⟩
    refine ⟨⟨fun b hb => hmaps b (by simp [hb]), fun key first rest hgroup => ?_⟩,
      hmaps e (by simp), fun hnew => ?_⟩
    · by_cases hk : keyOf e.2 = key
      · apply hopens key first (rest ++ [e])
        rw [members_concat_self hk, hgroup, List.cons_append]
      · apply hopens key first rest
        rw [members_concat_other hk, hgroup]
    · apply hopens (keyOf e.2) e []
      rw [members_concat_self rfl, members_eq_nil hnew, List.nil_append]
  · rintro ⟨⟨hmaps, hopens⟩, hmap, hnew⟩
    refine ⟨fun b hb => ?_, fun key first rest hgroup => ?_⟩
    · rcases List.mem_append.mp hb with hb | hb
      · exact hmaps b hb
      · rw [List.mem_singleton.mp hb]
        exact hmap
    · by_cases hk : keyOf e.2 = key
      · rw [members_concat_self hk] at hgroup
        cases hold : members entries key with
        | nil =>
          rw [hold] at hgroup
          cases hgroup
          apply hnew
          intro hmem
          obtain ⟨b, hb, hbk⟩ := List.mem_map.mp hmem
          have hgone : b ∈ members entries key := mem_groupOf.mpr ⟨hb, hbk.trans hk⟩
          rw [hold] at hgone
          cases hgone
        | cons old others =>
          rw [hold] at hgroup
          cases hgroup
          exact hopens key _ others hold
      · rw [members_concat_other hk] at hgroup
        exact hopens key first rest hgroup

theorem run_ok_iff (entries : List (String × Value D)) :
    (∃ st, entries.foldlM convertStep ⟨.empty, 0⟩ = .ok st) ↔ Convertible entries := by
  induction entries using List.reverseRecOn with
  | nil =>
    refine iff_of_true ⟨_, rfl⟩ ⟨?_, ?_⟩
    · intro e he
      cases he
    · intro key first rest h
      cases h
  | append_singleton entries e ih =>
    rw [convertible_concat, ← ih, List.foldlM_append]
    constructor
    · rintro ⟨st', h⟩
      obtain ⟨st, hst, h⟩ := bind_eq_ok.mp h
      rw [List.foldlM_cons] at h
      obtain ⟨st'', hstep, -⟩ := bind_eq_ok.mp h
      obtain ⟨hmap, hopens⟩ := convertStep_ok_iff.mp ⟨st'', hstep⟩
      rw [(grouped_run hst).keys, List.mem_eraseDups] at hopens
      exact ⟨⟨st, hst⟩, hmap, hopens⟩
    · rintro ⟨⟨st, hst⟩, hmap, hopens⟩
      rw [← List.mem_eraseDups, ← (grouped_run hst).keys] at hopens
      obtain ⟨st', hstep⟩ := convertStep_ok_iff.mpr ⟨hmap, hopens⟩
      refine ⟨st', bind_eq_ok.mpr ⟨st, hst, ?_⟩⟩
      rw [List.foldlM_cons]
      exact bind_eq_ok.mpr ⟨st', hstep, rfl⟩

theorem converts_iff_run (data : LinkedMap String (Value D)) :
    (∃ routes, convertData data = .ok routes) ↔
      ∃ st, data.entries.foldlM convertStep ⟨.empty, 0⟩ = .ok st := by
  constructor
  · rintro ⟨routes, h⟩
    obtain ⟨st, hst, -⟩ := bind_eq_ok.mp h
    exact ⟨st, hst⟩
  · rintro ⟨st, hst⟩
    exact ⟨_, bind_eq_ok.mpr ⟨st, hst, rfl⟩⟩

/-- A timetable is converted exactly when all its buses are maps and the first bus of each
route key has text ends and a readable departure time; later buses may hold anything. -/
theorem timetable_accepted_iff (data : LinkedMap String (Value D)) :
    (∃ routes, convertData data = .ok routes) ↔ Convertible data.entries := by
  rw [converts_iff_run]
  exact run_ok_iff data.entries

end Acceptance

def bareEntry (source destination : String) : Value ℚ :=
  .map .dynamic [("source", .string source), ("destination", .string destination)]

def halfFilledLine : LinkedMap String (Value ℚ) :=
  ⟨[("b1", busEntry "Amritsar" "Ludhiana" "08:00"), ("b2", bareEntry "Amritsar" "Ludhiana")],
    by decide⟩

theorem half_filled_line_is_accepted : ∃ routes, convertData halfFilledLine = .ok routes := by
  refine (timetable_accepted_iff halfFilledLine).mpr ⟨?_, ?_⟩
  · intro e he
    simp only [halfFilledLine, List.mem_cons, List.not_mem_nil, or_false] at he
    rcases he with rfl | rfl <;> exact ⟨_, _, rfl⟩
  · intro key first rest hgroup
    have hreads : Reads "08:00" 8 "00" := ⟨"08", [], by decide, by decide⟩
    have hopen : Opens (busEntry "Amritsar" "Ludhiana" "08:00") :=
      ⟨_, _, _, rfl, rfl, rfl, 8, "00", hreads⟩
    by_cases hkey : keyOf (busEntry "Amritsar" "Ludhiana" "08:00") = key
    · subst hkey
      cases hgroup
      exact hopen
    · have hsame : keyOf (bareEntry "Amritsar" "Ludhiana") =
          keyOf (busEntry "Amritsar" "Ludhiana" "08:00") := rfl
      simp [members, halfFilledLine, hsame, hkey] at hgroup

section Changes

variable [DartDouble D] {data data' : LinkedMap String (Value D)}
  {routes routes' : List (ConvertedRoute D)} {more : List (String × Value D)}

theorem members_append (entries more : List (String × Value D)) (key : String) :
    members (entries ++ more) key = members entries key ++ members more key := by
  unfold members
  exact List.filter_append ..

theorem convertedFrom_append {n : ℕ} {group added : List (String × Value D)}
    {route route' : ConvertedRoute D} (h : ConvertedFrom n group route)
    (h' : ConvertedFrom n (group ++ added) route') :
    ∃ buses, added.mapM (fun e => busRecord e.1 e.2) = .ok buses ∧
      route' = { route with buses := route.buses ++ buses } := by
  obtain ⟨first, rest, rfl, hopen, hbuses⟩ := h
  obtain ⟨first', rest', hgroup, hopen', hbuses'⟩ := h'
  cases hgroup
  rw [List.mapM_append, hbuses] at hbuses'
  obtain ⟨old, hold, hbuses'⟩ := bind_eq_ok.mp hbuses'
  cases hold
  obtain ⟨buses, hadded, hbuses'⟩ := bind_eq_ok.mp hbuses'
  have hlisted : route.buses ++ buses = route'.buses := Except.ok.inj hbuses'
  have hopened := eq_of_opened (Except.ok.inj (hopen.symm.trans hopen'))
  rw [← hlisted] at hopened
  exact ⟨buses, hadded, hopened⟩

theorem key_of_getElem? (h : convertData data = .ok routes) {i : ℕ} {route : ConvertedRoute D}
    (hi : routes[i]? = some route) :
    (data.entries.map (fun e => keyOf e.2)).eraseDups[i]? = some (routeText route) ∧
      ConvertedFrom (i + 1) (members data.entries (routeText route)) route := by
  obtain ⟨keys, hkeys, -, hroutes⟩ := convertData_routes h
  obtain ⟨key, hkey, hfrom⟩ := hroutes i route hi
  rw [routeText_of_from hfrom, ← hkeys]
  exact ⟨hkey, hfrom⟩

/-- Buses added at the end of a timetable renumber no route and change none but in the
buses listed last; routes that are new come after the old ones. -/
theorem longer_timetable_keeps_routes (hdata : data'.entries = data.entries ++ more)
    (h' : convertData data' = .ok routes') :
    ∃ routes, convertData data = .ok routes ∧
      (∀ (i : ℕ) route, routes[i]? = some route → ∃ buses,
        (members more (routeText route)).mapM (fun e => busRecord e.1 e.2) = .ok buses ∧
        routes'[i]? = some { route with buses := route.buses ++ buses }) ∧
      ∀ (i : ℕ) route, routes'[i]? = some route → routes.length ≤ i →
        ∀ e ∈ data.entries, keyOf e.2 ≠ routeText route := by
  obtain ⟨st', hst'⟩ := (converts_iff_run data').mp ⟨routes', h'⟩
  rw [hdata, List.foldlM_append] at hst'
  obtain ⟨st, hst, -⟩ := bind_eq_ok.mp hst'
  obtain ⟨routes, h⟩ := (converts_iff_run data).mpr ⟨st, hst⟩
  have hlen := congrArg List.length (routeTexts h)
  have hlen' := congrArg List.length (routeTexts h')
  rw [List.length_map] at hlen hlen'
  have hkeys := congrArg (List.map (fun e : String × Value D => keyOf e.2)) hdata
  rw [List.map_append] at hkeys
  rw [hkeys, List.eraseDups_append, List.length_append] at hlen'
  refine ⟨routes, h, fun i route hi => ?_, fun i route hi hold e he hkey => ?_⟩
  · have hbound := (List.getElem?_eq_some_iff.mp hi).1
    obtain ⟨hkey, hfrom⟩ := key_of_getElem? h hi
    have hbound' : i < routes'.length := by omega
    have hi' := List.getElem?_eq_getElem hbound'
    obtain ⟨hkey', hfrom'⟩ := key_of_getElem? h' hi'
    rw [hkeys, List.eraseDups_append, List.getElem?_append_left (by omega), hkey] at hkey'
    rw [← Option.some.inj hkey', hdata, members_append] at hfrom'
    obtain ⟨buses, hbuses, hroute'⟩ := convertedFrom_append hfrom hfrom'
    rw [hroute'] at hi'
    exact ⟨buses, hbuses, hi'⟩
  · obtain ⟨hkey', -⟩ := key_of_getElem? h' hi
    rw [hkeys, List.eraseDups_append, List.getElem?_append_right (by omega)] at hkey'
    have hmem := List.mem_of_getElem? hkey'
    rw [List.mem_eraseDups, List.removeAll, List.mem_filter] at hmem
    have hknown : routeText route ∈ data.entries.map (fun e => keyOf e.2) :=
      hkey ▸ List.mem_map_of_mem he
    simp [hknown] at hmem

/-- The two routes differ in their number and in the order of their buses only. -/
def SameLine (route route' : ConvertedRoute D) : Prop :=
  route.buses.Perm route'.buses ∧
    route' = { route with id := route'.id, buses := route'.buses }

theorem sameLine_of_perm {m n : ℕ} {group group' : List (String × Value D)}
    {route route' : ConvertedRoute D} (h : ConvertedFrom m group route)
    (h' : ConvertedFrom n group' route') (hperm : group.Perm group')
    (hfirst : group.head? = group'.head?) : SameLine route route' := by
  obtain ⟨first, rest, rfl, hopen, hbuses⟩ := h
  obtain ⟨first', rest', rfl, hopen', hbuses'⟩ := h'
  cases hfirst
  refine ⟨mapM_perm hperm hbuses hbuses', ?_⟩
  obtain ⟨s, d, t, schedule, hs, hd, ht, hschedule, hroute⟩ := openRoute_ok hopen
  obtain ⟨s', d', t', schedule', hs', hd', ht', hschedule', hroute'⟩ := openRoute_ok hopen'
  cases hs.symm.trans hs'
  cases hd.symm.trans hd'
  cases ht.symm.trans ht'
  cases hschedule.symm.trans hschedule'
  cases route
  cases route'
  cases hroute
  cases hroute'
  rfl

theorem convertible_of_perm {entries entries' : List (String × Value D)}
    (hperm : entries.Perm entries')
    (hfirst : ∀ key, (members entries key).head? = (members entries' key).head?)
    (h : Convertible entries) : Convertible entries' := by
  refine ⟨fun e he => h.maps e (hperm.mem_iff.mpr he), fun key first rest hgroup => ?_⟩
  have hhead := hfirst key
  rw [hgroup, List.head?_cons, List.head?_eq_some_iff] at hhead
  obtain ⟨rest', hgroup'⟩ := hhead
  exact h.opens key first rest' hgroup'

theorem routes_forall₂ (h : convertData data = .ok routes) :
    List.Forall₂ (fun key route => ∃ n, ConvertedFrom n (members data.entries key) route)
      (data.entries.map (fun e => keyOf e.2)).eraseDups routes := by
  obtain ⟨keys, rfl, hlen, hroutes⟩ := convertData_routes h
  rw [List.forall₂_iff_get]
  refine ⟨hlen.symm, fun i hk hi => ?_⟩
  obtain ⟨key, hkey, hfrom⟩ := hroutes i routes[i] (List.getElem?_eq_getElem hi)
  rw [List.getElem?_eq_getElem hk] at hkey
  cases hkey
  exact ⟨i + 1, hfrom⟩

/-- The order of the buses in a timetable decides the numbers of the routes and the order of
their buses, and otherwise only which bus of each route is its first. -/
theorem reordered_timetable_keeps_lines (hperm : data.entries.Perm data'.entries)
    (hfirst : ∀ key, (members data.entries key).head? = (members data'.entries key).head?)
    (h : convertData data = .ok routes) :
    ∃ routes' matched, convertData data' = .ok routes' ∧ matched.Perm routes' ∧
      List.Forall₂ SameLine routes matched := by
  have hold := (run_ok_iff _).mp ((converts_iff_run data).mp ⟨routes, h⟩)
  have hnew := (run_ok_iff _).mpr (convertible_of_perm hperm hfirst hold)
  obtain ⟨routes', h'⟩ := (converts_iff_run data').mpr hnew
  have hkeys : ((data.entries.map (fun e => keyOf e.2)).eraseDups).Perm
      (data'.entries.map (fun e => keyOf e.2)).eraseDups := by
    rw [List.perm_ext_iff_of_nodup (nodup_eraseDups _) (nodup_eraseDups _)]
    intro key
    rw [List.mem_eraseDups, List.mem_eraseDups]
    exact (hperm.map _).mem_iff
  obtain ⟨matched, hmatched, hpermuted⟩ := List.perm_comp_forall₂ hkeys (routes_forall₂ h')
  refine ⟨routes', matched, h', hpermuted, ?_⟩
  apply forall₂_of_common (routes_forall₂ h) hmatched
  rintro key route route' ⟨m, hfrom⟩ ⟨n, hfrom'⟩
  exact sameLine_of_perm hfrom hfrom' (hperm.filter _) (hfirst key)

end Changes

theorem crossed_lines_keep_routes : ∃ routes routes', convertData crossedLines = .ok routes' ∧
    convertData twoLines = .ok routes ∧
    ∀ (i : ℕ) route, routes[i]? = some route → ∃ buses,
      routes'[i]? = some { route with buses := route.buses ++ buses } := by
  obtain ⟨routes', h'⟩ := crossedLines_converts
  have hadded : crossedLines.entries =
      twoLines.entries ++ [("b3", busEntry "Amritsar" "Ludhiana" "10:15")] := rfl
  obtain ⟨routes, h, hkept, -⟩ := longer_timetable_keeps_routes hadded h'
  refine ⟨routes, routes', h', h, fun i route hi => ?_⟩
  obtain ⟨buses, -, hbuses⟩ := hkept i route hi
  exact ⟨buses, hbuses⟩

def secondLineFirst : LinkedMap String (Value ℚ) :=
  ⟨[("b2", busEntry "Moga" "Patiala" "09:30"), ("b1", busEntry "Amritsar" "Ludhiana" "08:00"),
    ("b3", busEntry "Amritsar" "Ludhiana" "10:15")], by decide⟩

theorem crossed_lines_reordered : ∃ routes routes' matched,
    convertData crossedLines = .ok routes ∧ convertData secondLineFirst = .ok routes' ∧
    matched.Perm routes' ∧ List.Forall₂ SameLine routes matched := by
  obtain ⟨routes, h⟩ := crossedLines_converts
  have hperm : crossedLines.entries.Perm secondLineFirst.entries := by
    unfold crossedLines secondLineFirst
    exact List.Perm.swap ..
  have hfirst : ∀ key, (members crossedLines.entries key).head? =
      (members secondLineFirst.entries key).head? := by
    intro key
    have hlines : keyOf (busEntry "Amritsar" "Ludhiana" "08:00") ≠
        keyOf (busEntry "Moga" "Patiala" "09:30") := by decide
    unfold members crossedLines secondLineFirst
    by_cases hsecond : keyOf (busEntry "Moga" "Patiala" "09:30") = key
    · have hfirst : keyOf (busEntry "Amritsar" "Ludhiana" "08:00") ≠ key := by
        rwa [← hsecond]
      simp [List.filter_cons, hsecond, hfirst]
    · simp [List.filter_cons, hsecond]
  obtain ⟨routes', matched, h', hpermuted, hsame⟩ :=
    reordered_timetable_keeps_lines hperm hfirst h
  exact ⟨routes, routes', matched, h, h', hpermuted, hsame⟩

end ConverterRuns
