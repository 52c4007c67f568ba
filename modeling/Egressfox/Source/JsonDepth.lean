import Egressfox.Source.VMess

/-!
# The depth guard on JSON texts

`boundedJSONDepth` reads bytes and knows nothing of the grammar of JSON.  On every text of
the grammar it accepts exactly the depths up to its bound (`boundedJSONDepth_iff`): over a
part of a text the scanner comes back to the depth it started with, unless the part is too
deep (`JsonText.scan_append`).
-/

namespace Egressfox.Source

open Lib

/-! ## The grammar -/

/-- White space between tokens. -/
def JsonSpace (text : Bytes) : Prop := ∀ c ∈ text, c ∈ ascii " \t\n\r"

/-- Numbers and literals, by the bytes they are made of. -/
def JsonScalar (text : Bytes) : Prop :=
  text ≠ [] ∧ ∀ c ∈ text, c ∈ ascii "0123456789+-.eEtrufalsn"

/-- What is between the quotes of a string: bytes other than quotes and backslashes, and
backslashes with the byte they escape. -/
inductive JsonChars : Bytes → Prop
  | nil : JsonChars []
  | plain {c : Byte} {chars : Bytes} (hquote : c ≠ 34) (hbackslash : c ≠ 92)
      (h : JsonChars chars) : JsonChars (c :: chars)
  | escape {c : Byte} {chars : Bytes} (h : JsonChars chars) : JsonChars (92 :: c :: chars)

/-- A value, or the items of an array or, with keys, of an object. -/
inductive JsonPart where
  | value
  | items (keyed : Bool)

/-- `items` in the brackets of an array or the braces of an object. -/
def inBrackets (keyed : Bool) (items : Bytes) : Bytes :=
  if keyed then 123 :: (items ++ [125]) else 91 :: (items ++ [93])

/-- The texts of a part, with the nesting depth of their arrays and objects. -/
inductive JsonText : JsonPart → Nat → Bytes → Prop
  | scalar {text : Bytes} (h : JsonScalar text) : JsonText .value 0 text
  | string {chars : Bytes} (h : JsonChars chars) : JsonText .value 0 (34 :: (chars ++ [34]))
  | empty {keyed : Bool} {space : Bytes} (h : JsonSpace space) :
      JsonText .value 1 (inBrackets keyed space)
  | nest {keyed : Bool} {depth : Nat} {text : Bytes} (h : JsonText (.items keyed) depth text) :
      JsonText .value (depth + 1) (inBrackets keyed text)
  | spaced {depth : Nat} {before text behind : Bytes} (hbefore : JsonSpace before)
      (h : JsonText .value depth text) (hbehind : JsonSpace behind) :
      JsonText .value depth (before ++ (text ++ behind))
  | element {depth : Nat} {text : Bytes} (h : JsonText .value depth text) :
      JsonText (.items false) depth text
  | member {depth : Nat} {before key behind text : Bytes} (hbefore : JsonSpace before)
      (hkey : JsonChars key) (hbehind : JsonSpace behind) (h : JsonText .value depth text) :
      JsonText (.items true) depth (before ++ 34 :: (key ++ 34 :: (behind ++ 58 :: text)))
  | items {keyed : Bool} {depth depth' : Nat} {text text' : Bytes}
      (h : JsonText (.items keyed) depth text) (h' : JsonText (.items keyed) depth' text') :
      JsonText (.items keyed) (max depth depth') (text ++ 44 :: text')

/-! ## The scanner -/

section

variable {max depth : Int} {text chars rest : Bytes} {levels : Nat}

/-- The scanner outside of strings. -/
abbrev scan (max depth : Int) (text : Bytes) : Bool :=
  boundedJSONDepthFrom max depth false false text

/-- Only quotes and brackets matter there. -/
theorem scan_skip (h : ∀ c ∈ text, c ∉ ([34, 91, 93, 123, 125] : Bytes)) :
    scan max depth (text ++ rest) = scan max depth rest := by
  induction text with
  | nil => rfl
  | cons c text ih =>
    obtain ⟨hc, htext⟩ := List.forall_mem_cons.mp h
    simp only [List.mem_cons, List.not_mem_nil, or_false, not_or] at hc
    rw [List.cons_append, scan, boundedJSONDepthFrom]
    simp [hc, ih htext]

theorem JsonSpace.scan_append (h : JsonSpace text) :
    scan max depth (text ++ rest) = scan max depth rest := by
  refine scan_skip fun c hc => ?_
  have hspace : ∀ c ∈ ascii " \t\n\r", c ∉ ([34, 91, 93, 123, 125] : Bytes) := by decide +kernel
  exact hspace c (h c hc)

/-- A string ends at its closing quote, not at an escaped one. -/
theorem JsonChars.scan_quoted (h : JsonChars chars) :
    scan max depth (34 :: (chars ++ 34 :: rest)) = scan max depth rest := by
  change boundedJSONDepthFrom max depth true false _ = _
  induction h with
  | nil => rfl
  | plain hquote hbackslash _ ih =>
    rw [List.cons_append, boundedJSONDepthFrom, if_neg hbackslash, decide_eq_true hquote]
    exact ih
  | escape _ ih => exact ih

/-- Between brackets a text is scanned one level deeper. -/
theorem scan_inBrackets (keyed : Bool) (hdepth : 0 ≤ depth)
    (h : ∀ rest, depth + 1 ≤ max → scan max (depth + 1) (text ++ rest) =
      (decide (depth + 1 + levels ≤ max) && scan max (depth + 1) rest)) :
    scan max depth (inBrackets keyed text ++ rest) =
      (decide (depth + (levels + 1 : Nat) ≤ max) && scan max depth rest) := by
  have hopen : ∃ close, scan max depth (inBrackets keyed text ++ rest) =
        (if depth + 1 > max then false else scan max (depth + 1) (text ++ close :: rest)) ∧
      scan max (depth + 1) (close :: rest) =
        if depth + 1 - 1 < 0 then false else scan max (depth + 1 - 1) rest := by
    cases keyed with
    | false => exact ⟨93, by rw [← List.singleton_append, ← List.append_assoc]; rfl, rfl⟩
    | true => exact ⟨125, by rw [← List.singleton_append, ← List.append_assoc]; rfl, rfl⟩
  obtain ⟨close, hopen, hclose⟩ := hopen
  rw [hopen]
  split
  · rw [decide_eq_false (by omega), Bool.false_and]
  · rw [h _ (by omega), hclose, Int.add_sub_cancel, if_neg (not_lt.mpr hdepth)]
    push_cast
    rw [add_assoc, add_comm (1 : Int)]

/-- Over a part of a text the scanner comes back to its depth, if the part is not too deep. -/
theorem JsonText.scan_append {part : JsonPart} (h : JsonText part levels text) :
    ∀ (depth : Int) (rest : Bytes), 0 ≤ depth → depth ≤ max → scan max depth (text ++ rest) =
      (decide (depth + levels ≤ max) && scan max depth rest) := by
  have hflat : ∀ {depth : Int} {rest : Bytes} {found : Bool}, depth ≤ max →
      found = scan max depth rest →
        found = (decide (depth + (0 : Nat) ≤ max) && scan max depth rest) := by
    intro depth rest found hmax hfound
    rw [hfound, decide_eq_true (by omega), Bool.true_and]
  induction h with
  | scalar h =>
    have hscalar : ∀ c ∈ ascii "0123456789+-.eEtrufalsn",
        c ∉ ([34, 91, 93, 123, 125] : Bytes) := by decide +kernel
    exact fun depth rest _ hmax => hflat hmax (scan_skip fun c hc => hscalar c (h.2 c hc))
  | string h =>
    intro depth rest _ hmax
    rw [List.cons_append, List.append_assoc]
    exact hflat hmax h.scan_quoted
  | empty h => exact fun depth rest hdepth _ =>
      scan_inBrackets _ hdepth fun rest hmax => hflat hmax h.scan_append
  | nest _ ih => exact fun depth rest hdepth _ =>
      scan_inBrackets _ hdepth fun rest hmax => ih _ rest (by omega) hmax
  | spaced hbefore _ hbehind ih =>
    intro depth rest hdepth hmax
    rw [List.append_assoc, List.append_assoc, hbefore.scan_append, ih _ _ hdepth hmax,
      hbehind.scan_append]
  | element _ ih => exact ih
  | member hbefore hkey hbehind _ ih =>
    intro depth rest hdepth hmax
    simp only [List.append_assoc, List.cons_append]
    rw [hbefore.scan_append, hkey.scan_quoted, hbehind.scan_append]
    exact ih depth rest hdepth hmax
  | items _ _ ih ih' =>
    intro depth rest hdepth hmax
    have hcomma : ∀ text, scan max depth (44 :: text) = scan max depth text := fun _ => rfl
    rw [List.append_assoc, ih _ _ hdepth hmax, List.cons_append, hcomma, ih' _ _ hdepth hmax,
      ← Bool.and_assoc, ← Bool.decide_and]
    congr 1
    exact decide_eq_decide.mpr (by push_cast; omega)

/-- **The guard is exact on well-formed texts.** -/
theorem boundedJSONDepth_iff (h : JsonText .value levels text) (hmax : 0 ≤ max) :
    boundedJSONDepth text max = true ↔ (levels : Int) ≤ max := by
  have hscan := h.scan_append 0 [] le_rfl hmax
  rw [List.append_nil] at hscan
  change scan max 0 text = true ↔ _
  rw [hscan]
  simp [boundedJSONDepthFrom]

/-- A bracket and an escaped quote in a string count for nothing. -/
theorem boundedJSONDepth_iff_quoted :
    boundedJSONDepth (ascii "[\"]\\\"\"]") 1 = true ↔ ((1 : Nat) : Int) ≤ 1 :=
  boundedJSONDepth_iff (.nest (.element (.string (.plain (by decide) (by decide)
    (.escape .nil))))) (by decide)

end

end Egressfox.Source
