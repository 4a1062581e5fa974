import Orderbook.F64

/-!
# JSON values and derived deserialisers

`serde_json` reads a text as one JSON value, and a deserialiser derived by `serde` takes from the
value what its type names. The texts are `serde_json`'s business; the derived part, which decides
what a message is taken for, is written out here for the types the exchanges borrow from a text.
-/

namespace Orderbook

namespace Json

/-- A string in a JSON text: its characters, and whether the text spells all of them as they are,
without an escape. -/
structure Str where
  text : Text
  plain : Bool
  deriving DecidableEq

/-- A JSON value, its members and items in the order of the text. -/
inductive Value where
  | null
  | bool (b : Bool)
  | number (text : Text)
  | string (s : Str)
  | array (items : List Value)
  | object (members : List (Str × Value))

/-- The values an object gives for one key; a text may repeat a key. -/
def valuesOf (name : Text) (members : List (Str × Value)) : List Value :=
  (members.filter fun member => member.1.text == name).map Prod.snd

end Json

namespace Serde

open Json

variable {α : Type}

/-- `&str`, which borrows from the text and so takes no string with an escape. -/
def str : Value → Option Text
  | .string s => if s.plain then some s.text else none
  | _ => none

/-- `u64`: digits alone, of a number that fits. A number with a sign, a fraction or an exponent is
none, and neither is a larger one. -/
def u64 : Value → Option Nat
  | .number text =>
      if !text.isEmpty && text.all Char.isDigit && decide (F64.digitsValue text < 2 ^ 64) then
        some (F64.digitsValue text)
      else none
  | _ => none

/-- `Option<T>`. -/
def option (read : Value → Option α) : Value → Option (Option α)
  | .null => some none
  | value => (read value).map some

/-- `Vec<T>`. -/
def vec (read : Value → Option α) : Value → Option (List α)
  | .array items => items.mapM read
  | _ => none

/-- `[T; 2]`. -/
def pair (read : Value → Option α) : Value → Option (α × α)
  | .array [first, second] => do
      let first ← read first
      let second ← read second
      return (first, second)
  | _ => none

/-- The value of an object's field, if it has one; it may not have two. -/
def field (name : Text) (members : List (Str × Value)) : Option (Option Value) :=
  match valuesOf name members with
  | [] => some none
  | [value] => some (some value)
  | _ => none

/-- What a derived struct finds for its fields, in the order of their declaration: in an object
the value under each name; in an array the items in order, of which there may not be more than
fields. -/
def fields (names : List Text) : Value → Option (List (Option Value))
  | .object members => names.mapM fun name => field name members
  | .array items =>
      if items.length ≤ names.length then
        some (items.map some ++ List.replicate (names.length - items.length) none)
      else none
  | _ => none

/-- A field that may not be missing. -/
def required (read : Value → Option α) (field : Option Value) : Option α := field.bind read

/-- A field under `#[serde(default)]`. -/
def withDefault (default : α) (read : Value → Option α) : Option Value → Option α
  | none => some default
  | some value => read value

/-! ## What is read -/

theorem mapM_isSome {β : Type} {read : β → Option α} {items : List β} :
    (items.mapM read).isSome = true ↔ ∀ item ∈ items, (read item).isSome = true := by
  induction items with
  | nil => simp
  | cons item items ih =>
    rw [List.forall_mem_cons, ← ih, List.mapM_cons]
    cases read item with
    | none => simp
    | some first => cases items.mapM read <;> simp

theorem str_isSome {value : Value} :
    (str value).isSome = true ↔ ∃ text, value = .string ⟨text, true⟩ := by
  refine ⟨?_, ?_⟩
  · intro found
    cases value with
    | string s =>
      obtain ⟨text, plain⟩ := s
      cases plain with
      | false => simp [str] at found
      | true => exact ⟨text, rfl⟩
    | _ => simp [str] at found
  · rintro ⟨text, rfl⟩
    rfl

theorem pair_isSome {read : Value → Option α} {value : Value} :
    (pair read value).isSome = true ↔
      ∃ first second, value = .array [first, second] ∧
        (read first).isSome = true ∧ (read second).isSome = true := by
  refine ⟨?_, ?_⟩
  · intro found
    unfold pair at found
    split at found
    · rename_i first second
      refine ⟨first, second, rfl, ?_⟩
      cases readFirst : read first <;> cases readSecond : read second <;>
        simp [readFirst, readSecond] at found ⊢
    · cases found
  · rintro ⟨first, second, rfl, firstSome, secondSome⟩
    obtain ⟨x, readFirst⟩ := Option.isSome_iff_exists.mp firstSome
    obtain ⟨y, readSecond⟩ := Option.isSome_iff_exists.mp secondSome
    simp [pair, readFirst, readSecond]

theorem vec_isSome {read : Value → Option α} {value : Value} :
    (vec read value).isSome = true ↔
      ∃ items, value = .array items ∧ ∀ item ∈ items, (read item).isSome = true := by
  refine ⟨?_, ?_⟩
  · intro found
    cases value with
    | array items => exact ⟨items, rfl, mapM_isSome.mp found⟩
    | _ => simp [vec] at found
  · rintro ⟨items, rfl, each⟩
    exact mapM_isSome.mpr each

theorem field_eq_none_iff {name : Text} {members : List (Str × Value)} :
    field name members = some none ↔ valuesOf name members = [] := by
  rw [field]
  split <;> simp_all

theorem field_eq_some_iff {name : Text} {members : List (Str × Value)} {value : Value} :
    field name members = some (some value) ↔ valuesOf name members = [value] := by
  rw [field]
  split <;> simp_all

theorem fields_object (first second : Text) (members : List (Str × Value)) :
    fields [first, second] (.object members) =
      (field first members).bind fun a => (field second members).map fun b => [a, b] := by
  simp only [fields, List.mapM_cons, List.mapM_nil, Option.pure_def, Option.bind_eq_bind]
  cases field first members <;> cases field second members <;> rfl

/-- A struct of two fields has both exactly in an object that gives each once and in an array of
two. -/
theorem fields_both_iff {first second : Text} {value a b : Value} :
    fields [first, second] value = some [some a, some b] ↔
      (∃ members, value = .object members ∧ valuesOf first members = [a] ∧
        valuesOf second members = [b]) ∨ value = .array [a, b] := by
  cases value with
  | object members =>
    rw [fields_object]
    have fieldA : field first members = some (some a) ↔ valuesOf first members = [a] :=
      field_eq_some_iff
    have fieldB : field second members = some (some b) ↔ valuesOf second members = [b] :=
      field_eq_some_iff
    cases foundA : field first members <;> cases foundB : field second members <;>
      simp_all
  | array items =>
    match items with
    | [] => simp [fields]
    | [_] => simp [fields]
    | [_, _] => simp [fields]
    | _ :: _ :: _ :: _ => simp [fields]
  | _ => simp [fields]

theorem fields_two {first second : Text} {value : Value} {found : List (Option Value)}
    (read : fields [first, second] value = some found) : ∃ a b, found = [a, b] := by
  cases value with
  | object members =>
    rw [fields_object] at read
    obtain ⟨a, -, read⟩ := Option.bind_eq_some_iff.mp read
    obtain ⟨b, -, rfl⟩ := Option.map_eq_some_iff.mp read
    exact ⟨a, b, rfl⟩
  | array items =>
    simp only [fields] at read
    split at read
    · rename_i short
      obtain rfl := Option.some.inj read
      match items with
      | [] => exact ⟨none, none, rfl⟩
      | [a] => exact ⟨some a, none, rfl⟩
      | [a, b] => exact ⟨some a, some b, rfl⟩
      | _ :: _ :: _ :: more =>
        simp only [List.length_cons, List.length_nil] at short
        omega
    · cases read
  | _ => simp [fields] at read

theorem option_isSome {read : Value → Option α} {value : Value} :
    (option read value).isSome = true ↔ value = .null ∨ (read value).isSome = true := by
  cases value <;> simp [option]

end Serde

end Orderbook
