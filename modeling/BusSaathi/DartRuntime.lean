import BusSaathi.LinkedMap
import Mathlib.Algebra.Group.Int.Defs
import Mathlib.Algebra.Group.Nat.Defs
import Mathlib.Data.Rat.Defs

/-! The part of the Dart runtime the app leans on: values with reified types, casts,
checked copies of collections, and JSON. A JSON text is represented by its document
tree, so layout and escaping are left out. -/
namespace DartRuntime

open LinkedMaps

inductive DartError where
  | typeError
  | noSuchMethod
  | formatException
  | rangeError
  | stateError
  | lateInitializationError
  | unsupportedJson
  | databaseException
  deriving DecidableEq, Repr

theorem bind_eq_ok {α β : Type} {x : Except DartError α} {f : α → Except DartError β} {b : β} :
    (x >>= f) = .ok b ↔ ∃ a, x = .ok a ∧ f a = .ok b := by
  cases x with
  | error e => exact iff_of_false (fun h => by cases h) fun ⟨_, h, _⟩ => by cases h
  | ok a => exact ⟨fun h => ⟨a, rfl, h⟩, fun ⟨_, h, hf⟩ => by cases h; exact hf⟩

theorem step_of_foldlM {S E : Type} {step : S → E → Except DartError S} {events : List E} {s t : S}
    (h : events.foldlM step s = .ok t) {e : E} (he : e ∈ events) : ∃ u v, step u e = .ok v := by
  induction events generalizing s with
  | nil => cases he
  | cons e' events ih =>
    rw [List.foldlM_cons] at h
    obtain ⟨u, hu, hrest⟩ := bind_eq_ok.mp h
    rcases List.mem_cons.mp he with rfl | he
    · exact ⟨s, u, hu⟩
    · exact ih hrest he

/-- `l.where(test).toList()`; what the test throws comes through. -/
def whereToList {α : Type} (test : α → Except DartError Bool) : List α → Except DartError (List α)
  | [] => .ok []
  | a :: l => do
    let keep ← test a
    let kept ← whereToList test l
    return if keep then a :: kept else kept

def takeToList {α : Type} (count : ℤ) (l : List α) : Except DartError (List α) :=
  if count < 0 then .error .rangeError else .ok (l.take count.toNat)

theorem whereToList_ok {α : Type} {test : α → Except DartError Bool} {p : α → Bool} {l : List α}
    (h : ∀ a ∈ l, test a = .ok (p a)) : whereToList test l = .ok (l.filter p) := by
  induction l with
  | nil => rfl
  | cons a l ih =>
    have hrest := ih fun b hb => h b (List.mem_cons_of_mem a hb)
    refine bind_eq_ok.mpr ⟨p a, h a List.mem_cons_self, bind_eq_ok.mpr ⟨l.filter p, hrest, ?_⟩⟩
    rw [List.filter_cons]
    rfl

theorem whereToList_ne_ok {α : Type} {test : α → Except DartError Bool} {l kept : List α} {a : α}
    {e : DartError} (ha : a ∈ l) (h : test a = .error e) : whereToList test l ≠ .ok kept := by
  induction l generalizing kept with
  | nil => cases ha
  | cons b l ih =>
    intro hok
    obtain ⟨keep, hkeep, hok⟩ := bind_eq_ok.mp hok
    obtain ⟨rest, hrest, -⟩ := bind_eq_ok.mp hok
    rcases List.mem_cons.mp ha with rfl | ha
    · rw [h] at hkeep
      cases hkeep
    · exact ih ha hrest

/-- `double`, with the operations the program applies to it. -/
class DartDouble (D : Type) extends OfScientific D, Add D, Sub D, Div D where
  ofInt : ℤ → D
  isFinite : D → Bool
  toText : D → String
  /-- A literal with few digits and a decimal point is a finite double. -/
  literal_finite : ∀ m e, m < 2 ^ 53 → isFinite (OfScientific.ofScientific m true e) = true

class DartDateTime (T : Type) where
  toIso8601String : T → String
  parse : String → Option T

/-- Exact rationals stand in for doubles when a run is evaluated. -/
instance : DartDouble ℚ where
  ofInt := fun n => n
  isFinite := fun _ => true
  toText := toString
  literal_finite := fun _ _ _ => rfl

/-- An instant given by its ISO 8601 text, for evaluated runs. -/
structure IsoInstant where
  text : String
  deriving DecidableEq, Repr

instance : DartDateTime IsoInstant where
  toIso8601String := IsoInstant.text
  parse := fun s => some ⟨s⟩

/-- Reified types; the keys of every map of the program are strings. -/
inductive DartType where
  | dynamic
  | null
  | bool
  | int
  | double
  | string
  | list (elem : DartType)
  | map (value : DartType)
  deriving DecidableEq, Repr

/-- Generic types are covariant, and everything is a `dynamic`. -/
def DartType.isSubtype : DartType → DartType → Bool
  | _, .dynamic => true
  | .list s, .list t => s.isSubtype t
  | .map s, .map t => s.isSubtype t
  | s, t => s == t

/-- A value as it stands in a `dynamic` variable; collections know their type arguments. -/
inductive Value (D : Type) where
  | null
  | bool (b : Bool)
  | int (n : ℤ)
  | double (d : D)
  | string (s : String)
  | list (elem : DartType) (items : List (Value D))
  | map (value : DartType) (entries : List (String × Value D))

abbrev JsonMap (D : Type) := List (String × Value D)

variable {D : Type}

namespace Value

def runtimeType : Value D → DartType
  | null => .null
  | bool _ => .bool
  | int _ => .int
  | double _ => .double
  | string _ => .string
  | list t _ => .list t
  | map t _ => .map t

def isA (t : DartType) (v : Value D) : Bool := v.runtimeType.isSubtype t

def asString : Value D → Except DartError String
  | string s => .ok s
  | _ => .error .typeError

theorem asString_eq_ok {v : Value D} {s : String} : v.asString = .ok s ↔ v = .string s := by
  cases v <;> simp [asString]

def asInt : Value D → Except DartError ℤ
  | int n => .ok n
  | _ => .error .typeError

def asDouble : Value D → Except DartError D
  | double d => .ok d
  | _ => .error .typeError

/-- Assignment to a `double?`. -/
def asDoubleOrNull : Value D → Except DartError (Option D)
  | null => .ok none
  | double d => .ok (some d)
  | _ => .error .typeError

def asList : Value D → Except DartError (List (Value D))
  | list _ items => .ok items
  | _ => .error .typeError

def asMap : Value D → Except DartError (JsonMap D)
  | map _ entries => .ok entries
  | _ => .error .typeError

def toDouble [DartDouble D] : Value D → Except DartError D
  | int n => .ok (DartDouble.ofInt n)
  | double d => .ok d
  | _ => .error .noSuchMethod

def orElse (v w : Value D) : Value D :=
  match v with
  | null => w
  | _ => v

end Value

def JsonMap.get (m : JsonMap D) (key : String) : Value D := (m.lookup key).getD .null

/-- `v['key']` called on a `dynamic`. -/
def Value.index (v : Value D) (key : String) : Except DartError (Value D) :=
  match v with
  | .map _ entries => .ok (JsonMap.get entries key)
  | .list _ _ | .string _ => .error .typeError
  | _ => .error .noSuchMethod

section Text

variable [DartDouble D]

mutual

def Value.toText : Value D → String
  | .null => "null"
  | .bool b => toString b
  | .int n => toString n
  | .double d => DartDouble.toText d
  | .string s => s
  | .list _ items => "[" ++ String.intercalate ", " (itemTexts items) ++ "]"
  | .map _ entries => "\x7b" ++ String.intercalate ", " (entryTexts entries) ++ "\x7d"

def itemTexts : List (Value D) → List String
  | [] => []
  | v :: items => v.toText :: itemTexts items

def entryTexts : JsonMap D → List String
  | [] => []
  | (k, v) :: entries => (k ++ ": " ++ v.toText) :: entryTexts entries

end

end Text

/-- `List<T>.from(v)`: every element is checked against `T`. -/
def listFrom (t : DartType) (v : Value D) : Except DartError (List (Value D)) := do
  let items ← v.asList
  if items.all (Value.isA t) then return items else throw .typeError

/-- `Map<String, V>.from(v)`: every value is checked against `V`. -/
def mapFrom (t : DartType) (v : Value D) : Except DartError (JsonMap D) := do
  let entries ← v.asMap
  if entries.all (fun e => e.2.isA t) then return entries else throw .typeError

inductive Json (D : Type) where
  | null
  | bool (b : Bool)
  | int (n : ℤ)
  | double (d : D)
  | string (s : String)
  | array (items : List (Json D))
  | object (members : List (String × Json D))

section Encoding

variable [DartDouble D]

mutual

/-- `json.encode`, which has no text for a double that is not finite. -/
def jsonEncode : Value D → Except DartError (Json D)
  | .null => .ok .null
  | .bool b => .ok (.bool b)
  | .int n => .ok (.int n)
  | .double d => if DartDouble.isFinite d then .ok (.double d) else .error .unsupportedJson
  | .string s => .ok (.string s)
  | .list _ items => do return .array (← jsonEncodeItems items)
  | .map _ entries => do return .object (← jsonEncodeMembers entries)

def jsonEncodeItems : List (Value D) → Except DartError (List (Json D))
  | [] => .ok []
  | v :: items => do return (← jsonEncode v) :: (← jsonEncodeItems items)

def jsonEncodeMembers : JsonMap D → Except DartError (List (String × Json D))
  | [] => .ok []
  | (k, v) :: entries => do return (k, ← jsonEncode v) :: (← jsonEncodeMembers entries)

end

end Encoding

mutual

/-- `json.decode`: every collection it builds has `dynamic` elements. -/
def jsonDecode : Json D → Value D
  | .null => .null
  | .bool b => .bool b
  | .int n => .int n
  | .double d => .double d
  | .string s => .string s
  | .array items => .list .dynamic (jsonDecodeItems items)
  | .object members => .map .dynamic (jsonDecodeMembers members)

def jsonDecodeItems : List (Json D) → List (Value D)
  | [] => []
  | j :: items => jsonDecode j :: jsonDecodeItems items

def jsonDecodeMembers : List (String × Json D) → JsonMap D
  | [] => []
  | (k, j) :: members => (k, jsonDecode j) :: jsonDecodeMembers members

end

end DartRuntime
