import Egressfox.Lib.Base64

/-!
# Writing JSON

The texts `encoding/json` writes for the values of this development: objects with fixed
keys, arrays, numbers, strings and byte slices in base64.  Only the writer is recalled;
a value is stored as itself, and what is used of its text is the length.
-/

namespace Egressfox.Lib.Json

/-- A character of a string: quotes, backslashes, control characters and the characters
with a meaning in HTML are escaped. -/
def escape (b : Byte) : Bytes :=
  if b = 34 then ascii "\\\""
  else if b = 92 then ascii "\\\\"
  else if b = 10 then ascii "\\n"
  else if b = 13 then ascii "\\r"
  else if b = 9 then ascii "\\t"
  else if b = 8 then ascii "\\b"
  else if b = 12 then ascii "\\f"
  else if b.val < 0x20 || b = 60 || b = 62 || b = 38 then ascii "\\u00" ++ hexEncode [b]
  else [b]

/-- A string. -/
def string (text : Bytes) : Bytes := [34] ++ text.flatMap escape ++ [34]

/-- A number. -/
def number (value : Int) : Bytes := itoa value

/-- A byte slice. -/
def bytes (b : Bytes) : Bytes := string (Base64.std.encode b)

/-- An object, with the texts of its fields in order. -/
def object (fields : List (String × Bytes)) : Bytes :=
  [123] ++ [44].intercalate (fields.map fun field => string (ascii field.1) ++ [58] ++ field.2) ++
    [125]

/-- A slice of values: `null` when it is nil. -/
def array (items : List Bytes) : Bytes :=
  if items = [] then ascii "null" else [91] ++ [44].intercalate items ++ [93]

/-! ## Lengths -/

/-- A text without characters that are escaped. -/
def Plain (text : Bytes) : Prop := ∀ b ∈ text, escape b = [b]

instance (text : Bytes) : Decidable (Plain text) := inferInstanceAs (Decidable (∀ b ∈ text, _))

theorem length_string {text : Bytes} (h : Plain text) : (string text).length = text.length + 2 := by
  have hbody : text.flatMap escape = text := by
    induction text with
    | nil => rfl
    | cons b text ih =>
      rw [List.flatMap_cons, h b (by simp), ih fun c hc => h c (by simp [hc])]
      rfl
  simp only [string, hbody, List.length_append, List.length_singleton]
  omega

theorem length_escape_le : ∀ b : Byte, (escape b).length ≤ 6 := by decide +kernel

/-- A character takes at most six. -/
theorem length_string_le (text : Bytes) : (string text).length ≤ 6 * text.length + 2 := by
  have hbody : (text.flatMap escape).length ≤ 6 * text.length := by
    induction text with
    | nil => simp
    | cons b text ih =>
      have hb := length_escape_le b
      rw [List.flatMap_cons, List.length_append, List.length_cons]
      omega
  simp only [string, List.length_append, List.length_singleton]
  omega

theorem plain_base64Std : Plain base64Std := by decide +kernel

theorem length_bytes_le (b : Bytes) : (bytes b).length ≤ (8 * b.length + 5) / 6 + 5 := by
  have htext : Base64.std.encode b =
      encodeDigits 6 base64Std b ++ Base64.padding (encodeDigits 6 base64Std b).length := rfl
  have hplain : Plain (Base64.std.encode b) := by
    intro c hc
    rcases List.mem_append.mp (htext ▸ hc) with hc | hc
    · exact plain_base64Std c (mem_of_mem_encodeDigits alphabet_base64Std hc)
    · rw [List.eq_of_mem_replicate hc]
      decide
  rw [bytes, length_string hplain, htext, List.length_append, Base64.padding,
    List.length_replicate, length_encodeDigits]
  omega

theorem length_object_le (fields : List (String × Bytes)) :
    (object fields).length ≤
      (fields.map fun field => (string (ascii field.1)).length + field.2.length + 2).sum + 2 := by
  have hbody := length_intercalate_le_sum [44]
    (fields.map fun field => string (ascii field.1) ++ [58] ++ field.2)
  have hsum : (fun field : String × Bytes =>
      (string (ascii field.1) ++ [58] ++ field.2).length + 1) =
      fun field => (string (ascii field.1)).length + field.2.length + 2 := by
    funext field
    simp only [List.length_append, List.length_singleton]
    omega
  rw [List.map_map, List.length_singleton, Function.comp_def, hsum] at hbody
  simp only [object, List.length_append, List.length_singleton]
  omega

/-- An array of texts of at most `k` characters each. -/
theorem length_array_le {items : List Bytes} {k : Nat} (h : ∀ item ∈ items, item.length ≤ k) :
    (array items).length ≤ items.length * (k + 1) + 4 := by
  have hbody := length_intercalate_le [44] h
  unfold array
  split_ifs
  · have : (ascii "null").length = 4 := by decide
    omega
  · rw [List.length_singleton] at hbody
    simp only [List.length_append, List.length_singleton]
    omega

end Egressfox.Lib.Json
