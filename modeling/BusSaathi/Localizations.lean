import BusSaathi.ShownBuses

/-! The texts of the app: one file per language, both loaded before the app runs, and one of
the two languages chosen for every device. -/
namespace Localizations

open LinkedMaps DartRuntime

variable {D : Type}

structure Locale where
  languageCode : String
  countryCode : String := ""
  deriving DecidableEq, Repr

/-- `rootBundle.loadString` with the text already taken apart, or what either of them throws. -/
structure AssetBundle (D : Type) where
  document : String → Except DartError (Json D)

section Source

variable [DartDouble D] (bundle : AssetBundle D)

def jsonMapOf (locale : Locale) : Except DartError (JsonMap D) := do
  let json ← bundle.document ("assets/translations/" ++ locale.languageCode ++ ".json")
  (jsonDecode json).asMap

def load (locale : Locale) : Except DartError (LinkedMap String String) := do
  let jsonMap ← jsonMapOf bundle locale
  return LinkedMap.ofEntries (jsonMap.map fun e => (e.1, e.2.toText))

def isSupported (locale : Locale) : Bool := ["en", "pa"].contains locale.languageCode

/-- `LocalizationService.initialize`, which `main` awaits before `runApp`. -/
def initializeLocalizations : Except DartError Unit := do
  let _ ← load bundle ⟨"en", ""⟩
  let _ ← load bundle ⟨"pa", ""⟩

def supportedLocales : List Locale := [⟨"en", ""⟩, ⟨"pa", ""⟩]

/-- `localeResolutionCallback` -/
def resolveLocale (locale : Option Locale) (supportedLocales : List Locale) :
    Except DartError Locale :=
  match supportedLocales.find? (fun s => some s.languageCode = locale.map Locale.languageCode) with
  | some supported => .ok supported
  | none =>
    match supportedLocales.head? with
    | some first => .ok first
    | none => .error .stateError

end Source

def languageFor (device : Option Locale) : Locale :=
  if device.map Locale.languageCode = some "pa" then ⟨"pa", ""⟩ else ⟨"en", ""⟩

theorem resolveLocale_eq (device : Option Locale) :
    resolveLocale device supportedLocales = .ok (languageFor device) := by
  unfold resolveLocale supportedLocales languageFor
  cases device with
  | none => rfl
  | some locale =>
    by_cases hen : locale.languageCode = "en"
    · simp [hen]
    · by_cases hpa : locale.languageCode = "pa"
      · simp [hpa]
      · have hnone : [⟨"en", ""⟩, ⟨"pa", ""⟩].find? (fun s : Locale =>
            some s.languageCode = (some locale).map Locale.languageCode) = none := by
          rw [List.find?_eq_none]
          simp [Ne.symm hen, Ne.symm hpa]
        rw [hnone]
        simp [hpa]

theorem isSupported_languageFor (device : Option Locale) :
    isSupported (languageFor device) = true := by
  unfold languageFor
  split <;> decide

variable [DartDouble D] {bundle : AssetBundle D}

theorem initializeLocalizations_eq_ok : initializeLocalizations bundle = .ok () ↔
    (∃ strings, load bundle ⟨"en", ""⟩ = .ok strings) ∧
      ∃ strings, load bundle ⟨"pa", ""⟩ = .ok strings := by
  unfold initializeLocalizations
  constructor
  · intro h
    obtain ⟨en, hen, h⟩ := bind_eq_ok.mp h
    obtain ⟨pa, hpa, -⟩ := bind_eq_ok.mp h
    exact ⟨⟨en, hen⟩, pa, hpa⟩
  · rintro ⟨⟨en, hen⟩, pa, hpa⟩
    rw [hen, hpa]
    rfl

def textIn (jsonMap : JsonMap D) (key : String) : Option String :=
  (jsonMap.filter (fun e => e.1 = key)).getLast?.map fun e => e.2.toText

theorem translate_loaded (jsonMap : JsonMap D) (key : String) :
    ShownBuses.translate (LinkedMap.ofEntries (jsonMap.map fun e => (e.1, e.2.toText))) key =
      (textIn jsonMap key).getD key := by
  have hsame : (fun e : String × String => decide (e.1 = key)) ∘
      (fun e : String × Value D => (e.1, e.2.toText)) = fun e => decide (e.1 = key) := rfl
  rw [ShownBuses.translate, LinkedMap.get?_ofEntries, List.filter_map, hsame, List.getLast?_map,
    Option.map_map]
  rfl

theorem load_eq_ok {locale : Locale} {strings : LinkedMap String String} :
    load bundle locale = .ok strings ↔ ∃ jsonMap, jsonMapOf bundle locale = .ok jsonMap ∧
      LinkedMap.ofEntries (jsonMap.map fun e => (e.1, e.2.toText)) = strings := by
  unfold load
  rw [bind_eq_ok]
  constructor
  · rintro ⟨jsonMap, hjson, h⟩
    exact ⟨jsonMap, hjson, Except.ok.inj h⟩
  · rintro ⟨jsonMap, hjson, h⟩
    exact ⟨jsonMap, hjson, congrArg Except.ok h⟩

/-- On a device the app finds its language's file, and every text it asks for is the file's or,
where the file has none, the key. -/
def Speaks (bundle : AssetBundle D) (device : Option Locale) : Prop :=
  ∃ jsonMap strings, resolveLocale device supportedLocales = .ok (languageFor device) ∧
    isSupported (languageFor device) = true ∧
    jsonMapOf bundle (languageFor device) = .ok jsonMap ∧
    load bundle (languageFor device) = .ok strings ∧
    ∀ key, ShownBuses.translate strings key = (textIn jsonMap key).getD key

theorem speaks_of_load {device : Option Locale} {strings : LinkedMap String String}
    (h : load bundle (languageFor device) = .ok strings) : Speaks bundle device := by
  obtain ⟨jsonMap, hjson, rfl⟩ := load_eq_ok.mp h
  exact ⟨jsonMap, _, resolveLocale_eq device, isSupported_languageFor device, hjson, h,
    translate_loaded jsonMap⟩

/-- What is loaded before the app runs is all that any device can ask for. -/
theorem preloaded_iff_speaks (bundle : AssetBundle D) :
    initializeLocalizations bundle = .ok () ↔ ∀ device, Speaks bundle device := by
  rw [initializeLocalizations_eq_ok]
  constructor
  · rintro ⟨⟨en, hen⟩, pa, hpa⟩ device
    by_cases hdevice : device.map Locale.languageCode = some "pa"
    · have hload : load bundle (languageFor device) = .ok pa := by
        rwa [languageFor, if_pos hdevice]
      exact speaks_of_load hload
    · have hload : load bundle (languageFor device) = .ok en := by
        rwa [languageFor, if_neg hdevice]
      exact speaks_of_load hload
  · intro h
    obtain ⟨_, en, -, -, -, hen, -⟩ := h none
    obtain ⟨_, pa, -, -, -, hpa, -⟩ := h (some ⟨"pa", ""⟩)
    exact ⟨⟨en, hen⟩, pa, hpa⟩

def heading (path : String) : String :=
  if path = "assets/translations/pa.json" then "ਅਗਲੀਆਂ ਬੱਸਾਂ" else "Next Buses"

def headings : AssetBundle ℚ where
  document path := .ok (.object [("nextBuses", .string (heading path))])

theorem punjabi_device_is_answered : ∃ strings,
    load headings (languageFor (some ⟨"pa", "IN"⟩)) = .ok strings ∧
      ShownBuses.translate strings "nextBuses" = "ਅਗਲੀਆਂ ਬੱਸਾਂ" ∧
      ShownBuses.translate strings "noBusesAvailable" = "noBusesAvailable" := by
  obtain ⟨jsonMap, strings, -, -, hjson, hload, htexts⟩ :=
    (preloaded_iff_speaks headings).mp rfl (some ⟨"pa", "IN"⟩)
  cases hjson
  exact ⟨strings, hload, htexts "nextBuses", htexts "noBusesAvailable"⟩

end Localizations
