import Egressfox.Lib.Text

/-!
# JSON values

JSON values as trees, and what `json.Unmarshal` stores in a target of a given type.

A target keeps its value where the JSON value is `null`.  The fields of an object are kept in
the order of the text.  A key may occur in it several times: a map of raw values takes the last
one, while a struct stores one occurrence after the other, which differs if one of them is
`null` or of the wrong type.

The values written by this development have every key once.  For these, both readings follow
from the list `values` of the values of a key, which `simp` computes from the list of fields.
-/

namespace Egressfox.Lib

/-- A JSON value.  A number is the integer it is the literal of, or one with a fraction or an
exponent. -/
inductive JsonValue where
  | null
  | bool (value : Bool)
  | number (value : Int)
  | fraction
  | string (text : Bytes)
  | array (items : List JsonValue)
  | object (fields : List (String × JsonValue))

/-- The fields of an object. -/
abbrev JsonFields := List (String × JsonValue)

namespace JsonValue

/-- An object or array without contents, or `null`. -/
def isEmpty : JsonValue → Bool
  | .null | .array [] | .object [] => true
  | _ => false

/-! ## Targets -/

/-- A `string`. -/
def unmarshalString (current : Bytes) : JsonValue → Option Bytes
  | .null => some current
  | .string text => some text
  | _ => none

/-- An `int` of 64 bits. -/
def unmarshalInt (current : Int) : JsonValue → Option Int
  | .null => some current
  | .number value => if -(2 ^ 63) ≤ value ∧ value < 2 ^ 63 then some value else none
  | _ => none

/-- A `bool`. -/
def unmarshalBool (current : Bool) : JsonValue → Option Bool
  | .null => some current
  | .bool value => some value
  | _ => none

/-- The items of a `[]string`, each stored over the item of the slice at its place. -/
def unmarshalItems : List Bytes → List JsonValue → Option (List Bytes)
  | _, [] => some []
  | current, item :: items => do
      let text ← item.unmarshalString (current.headD [])
      let rest ← unmarshalItems current.tail items
      return text :: rest

/-- A `[]string`. -/
def unmarshalStrings (current : List Bytes) : JsonValue → Option (List Bytes)
  | .null => some []
  | .array items => unmarshalItems current items
  | _ => none

/-- An entry of a `map[string]string`. -/
def storeEntry (entries : List (String × Bytes)) (field : String × JsonValue) :
    Option (List (String × Bytes)) := do
  let text ← field.2.unmarshalString []
  return entries.filter (fun entry => entry.1 ≠ field.1) ++ [(field.1, text)]

/-- A `map[string]string`. -/
def unmarshalStringMap (current : List (String × Bytes)) :
    JsonValue → Option (List (String × Bytes))
  | .null => some []
  | .object fields => fields.foldlM storeEntry current
  | _ => none

/-- The fields that are stored in a struct or in a map of raw values. -/
def unmarshalFields : JsonValue → Option JsonFields
  | .null => some []
  | .object fields => some fields
  | _ => none

theorem unmarshalInt_number {current value : Int} (h : -(2 ^ 63) ≤ value ∧ value < 2 ^ 63) :
    (JsonValue.number value).unmarshalInt current = some value := if_pos h

@[simp] theorem unmarshalItems_strings (texts : List Bytes) :
    unmarshalItems [] (texts.map .string) = some texts := by
  induction texts with
  | nil => rfl
  | cons text texts ih =>
    rw [List.map_cons, unmarshalItems, List.tail_nil, ih]
    rfl

end JsonValue

/-! ## Fields -/

namespace JsonFields

/-- The values of a key, in order. -/
def values (key : String) (fields : JsonFields) : List JsonValue :=
  fields.filterMap fun field => if field.1 = key then some field.2 else none

/-- The value of a key in a map of raw values. -/
def get? (key : String) (fields : JsonFields) : Option JsonValue := (values key fields).getLast?

/-- A field of a struct. -/
def read {α : Type} (unmarshal : α → JsonValue → Option α) (zero : α) (key : String)
    (fields : JsonFields) : Option α := (values key fields).foldlM unmarshal zero

/-- Every key is among the given ones. -/
def only (allowed : List String) (fields : JsonFields) : Bool :=
  fields.all fun field => field.1 ∈ allowed

/-- A field that is written if a condition holds, as with `omitempty`. -/
def fieldIf (present : Bool) (key : String) (value : JsonValue) : JsonFields :=
  if present then [(key, value)] else []

theorem getLast?_toList {α : Type} (o : Option α) : o.toList.getLast? = o := by
  cases o with
  | none => rfl
  | some a => rfl

@[simp] theorem values_nil (key : String) : values key [] = [] := rfl

@[simp] theorem values_append (key : String) (fields fields' : JsonFields) :
    values key (fields ++ fields') = values key fields ++ values key fields' :=
  List.filterMap_append

@[simp] theorem values_cons (key : String) (field : String × JsonValue) (fields : JsonFields) :
    values key (field :: fields) =
      if field.1 = key then field.2 :: values key fields else values key fields := by
  unfold values
  split_ifs with h
  · rw [List.filterMap_cons_some (by rw [if_pos h])]
  · rw [List.filterMap_cons_none (by rw [if_neg h])]

@[simp] theorem values_fieldIf (key : String) (present : Bool) (key' : String)
    (value : JsonValue) :
    values key (fieldIf present key' value) =
      if key' = key then (if present then [value] else []) else [] := by
  cases present with
  | false | true => simp [fieldIf]

@[simp] theorem only_nil (allowed : List String) : only allowed [] = true := rfl

@[simp] theorem only_cons (allowed : List String) (field : String × JsonValue)
    (fields : JsonFields) :
    only allowed (field :: fields) = (decide (field.1 ∈ allowed) && only allowed fields) := rfl

@[simp] theorem only_append (allowed : List String) (fields fields' : JsonFields) :
    only allowed (fields ++ fields') = (only allowed fields && only allowed fields') :=
  List.all_append

@[simp] theorem only_fieldIf (allowed : List String) (present : Bool) (key : String)
    (value : JsonValue) :
    only allowed (fieldIf present key value) = (!present || decide (key ∈ allowed)) := by
  cases present with
  | false => rfl
  | true => simp [fieldIf]

end JsonFields

/-- What a text becomes when it is written as a JSON string and read back.  Bytes that are no
valid UTF-8 are replaced; nothing else is changed. -/
structure JsonWire where
  carry : Bytes → Bytes
  faithful : ∀ text, validUTF8 text = true → carry text = text

theorem JsonWire.carry_nil (wire : JsonWire) : wire.carry [] = [] := wire.faithful [] rfl

end Egressfox.Lib
