import Egressfox.Lib.Codec

/-!
# Texts as byte strings

Go strings are byte strings, and the functions of its standard library that look at
their characters are recalled here as functions on `Bytes`: decoding UTF-8, letter
case, surrounding white space, decimal and hexadecimal numerals, and the digit
encodings base32 and base64.

The digit encodings are one construction.  The bits of the message, most significant
first, are cut into digits of `k` bits, the last one padded with zeros, and each digit
is written with an alphabet (`encodeDigits`).  A decoder reads the digits back and
drops the padding bits, which number fewer than `k`; whether it looks at them is its
own business (`decodeDigits` does not).

Three tables of the Unicode standard are left abstract, in `Unicode`: the case mappings
of a code point outside ASCII, and the category of format characters.
-/

namespace Egressfox.Lib

/-- The tables of the Unicode standard used on text. -/
structure Unicode where
  /-- The lower-case mapping of a code point. -/
  toLower : Nat → Nat
  /-- The upper-case mapping of a code point. -/
  toUpper : Nat → Nat
  /-- Membership in the category `Cf` of format characters. -/
  isFormat : Nat → Bool

/-! ## UTF-8 -/

/-- What a decoder yields for a byte that starts no well-formed sequence. -/
def runeError : Nat := 0xFFFD

/-- A continuation byte. -/
def isContinuation (b : Byte) : Bool := 0x80 ≤ b.val && b.val ≤ 0xBF

/-- The second byte of a three- or four-byte sequence: overlong forms, surrogates and
code points above `U+10FFFF` are excluded by the byte after the first. -/
def isSecond (first second : Byte) : Bool :=
  isContinuation second &&
    !(first = 0xE0 && second.val < 0xA0) && !(first = 0xED && 0xA0 ≤ second.val) &&
    !(first = 0xF0 && second.val < 0x90) && !(first = 0xF4 && 0x90 ≤ second.val)

/-- The code point at the front of a text and the text behind it; the code point is
absent when the first byte starts no well-formed sequence. -/
def decodeRune : Bytes → Option (Option Nat × Bytes)
  | [] => none
  | a :: rest =>
    if a.val < 0x80 then some (some a.val, rest)
    else
      match rest with
      | b :: rest₂ =>
        if 0xC2 ≤ a.val && a.val ≤ 0xDF && isContinuation b then
          some (some ((a.val - 0xC0) * 64 + (b.val - 0x80)), rest₂)
        else
          match rest₂ with
          | c :: rest₃ =>
            if 0xE0 ≤ a.val && a.val ≤ 0xEF && isSecond a b && isContinuation c then
              some (some (((a.val - 0xE0) * 64 + (b.val - 0x80)) * 64 + (c.val - 0x80)),
                rest₃)
            else
              match rest₃ with
              | d :: rest₄ =>
                if 0xF0 ≤ a.val && a.val ≤ 0xF4 && isSecond a b && isContinuation c &&
                    isContinuation d then
                  some (some ((((a.val - 0xF0) * 64 + (b.val - 0x80)) * 64 +
                    (c.val - 0x80)) * 64 + (d.val - 0x80)), rest₄)
                else some (none, rest)
              | [] => some (none, rest)
          | [] => some (none, rest)
      | [] => some (none, rest)

/-- The code points of a text, at most `fuel` of them. -/
def runesUpTo : Nat → Bytes → List (Option Nat)
  | 0, _ => []
  | fuel + 1, text =>
    match decodeRune text with
    | none => []
    | some (rune, rest) => rune :: runesUpTo fuel rest

/-- The code points of a text, as a `range` loop visits them. -/
def runes (text : Bytes) : List (Option Nat) := runesUpTo text.length text

/-- `utf8.ValidString`. -/
def validUTF8 (text : Bytes) : Bool := (runes text).all Option.isSome

/-- Some code point of the text satisfies `p`. -/
def anyRune (p : Nat → Bool) (text : Bytes) : Bool :=
  (runes text).any fun rune => p (rune.getD runeError)

/-- `utf8.AppendRune` for a valid code point. -/
def encodeRune (rune : Nat) : Bytes :=
  if rune < 0x80 then [Fin.ofNat 256 rune]
  else if rune < 0x800 then
    [Fin.ofNat 256 (0xC0 + rune / 64), Fin.ofNat 256 (0x80 + rune % 64)]
  else if rune < 0x10000 then
    [Fin.ofNat 256 (0xE0 + rune / 4096), Fin.ofNat 256 (0x80 + rune / 64 % 64),
      Fin.ofNat 256 (0x80 + rune % 64)]
  else
    [Fin.ofNat 256 (0xF0 + rune / 262144), Fin.ofNat 256 (0x80 + rune / 4096 % 64),
      Fin.ofNat 256 (0x80 + rune / 64 % 64), Fin.ofNat 256 (0x80 + rune % 64)]

/-! ## Letters, spaces and separators -/

/-- An ASCII letter in lower case, any other byte unchanged. -/
def lowerASCII (b : Byte) : Byte :=
  if 65 ≤ b.val && b.val ≤ 90 then Fin.ofNat 256 (b.val + 32) else b

/-- An ASCII letter in upper case, any other byte unchanged. -/
def upperASCII (b : Byte) : Byte :=
  if 97 ≤ b.val && b.val ≤ 122 then Fin.ofNat 256 (b.val - 32) else b

/-- The case conversions of `strings`: byte-wise on ASCII texts, by code point on all
others. -/
def convertCase (byte : Byte → Byte) (rune : Nat → Nat) (text : Bytes) : Bytes :=
  if text.all fun b => b.val < 0x80 then text.map byte
  else (runes text).flatMap fun r => encodeRune (rune (r.getD runeError))

/-- `strings.ToLower`. -/
def toLower (unicode : Unicode) : Bytes → Bytes := convertCase lowerASCII unicode.toLower

/-- `strings.ToUpper`. -/
def toUpper (unicode : Unicode) : Bytes → Bytes := convertCase upperASCII unicode.toUpper

/-- On an ASCII text a case conversion keeps every byte in its place. -/
theorem convertCase_of_ascii {byte : Byte → Byte} {rune : Nat → Nat} {text : Bytes}
    (h : ∀ b ∈ text, b.val < 0x80) : convertCase byte rune text = text.map byte := by
  rw [convertCase, if_pos (by simpa using h)]

/-- The code points of the Unicode property `White_Space`. -/
def whiteSpace : List Nat :=
  [0x09, 0x0A, 0x0B, 0x0C, 0x0D, 0x20, 0x85, 0xA0, 0x1680, 0x2000, 0x2001, 0x2002, 0x2003, 0x2004,
    0x2005, 0x2006, 0x2007, 0x2008, 0x2009, 0x200A, 0x2028, 0x2029, 0x202F, 0x205F, 0x3000]

/-- `strings.TrimSpace` would remove something: the text starts or ends with a white
space character. -/
def hasSurroundingSpace (text : Bytes) : Bool :=
  whiteSpace.any fun rune =>
    (encodeRune rune).isPrefixOf text || (encodeRune rune).isSuffixOf text

/-- A white space character in front of a text is taken off, at most `fuel` times. -/
def trimLeftUpTo : Nat → Bytes → Bytes
  | 0, text => text
  | fuel + 1, text =>
    match decodeRune text with
    | some (some rune, rest) => if rune ∈ whiteSpace then trimLeftUpTo fuel rest else text
    | _ => text

/-- The text without the white space at its end, if it has at most `fuel` code points. -/
def trimRightUpTo : Nat → Bytes → Bytes
  | 0, text => text
  | fuel + 1, text =>
    match decodeRune text with
    | none => []
    | some (rune, rest) =>
      let kept := trimRightUpTo fuel rest
      if kept = [] && rune.any (· ∈ whiteSpace) then []
      else text.take (text.length - rest.length) ++ kept

/-- `bytes.TrimSpace`. -/
def trimSpace (text : Bytes) : Bytes :=
  trimRightUpTo text.length (trimLeftUpTo text.length text)

/-- `strings.ContainsAny` for a set of ASCII characters. -/
def containsAny (text chars : Bytes) : Bool := text.any fun b => b ∈ chars

/-- One to 128 ASCII letters, digits, dots, slashes, underscores and hyphens.  Every admitted
rune is a single byte and every byte of a longer rune is rejected, so a scan over runes
is a scan over bytes. -/
def safeText (value : Bytes) : Bool :=
  decide (value.length ≠ 0) && decide (value.length ≤ 128) &&
    value.all fun b => b ∈
      ascii "abcdefghijklmnopqrstuvwxyzABCDEFGHIJKLMNOPQRSTUVWXYZ0123456789./_-"

theorem length_intercalate_le_sum (sep : Bytes) :
    ∀ l : List Bytes, (sep.intercalate l).length ≤ (l.map fun s => s.length + sep.length).sum
  | [] => by simp
  | [s] => by simp
  | s :: t :: l => by
      have ih := length_intercalate_le_sum sep (t :: l)
      rw [List.intercalate_cons_cons, List.length_append, List.length_append, List.map_cons,
        List.sum_cons]
      omega

theorem length_intercalate_le (sep : Bytes) {k : Nat} {l : List Bytes}
    (h : ∀ s ∈ l, s.length ≤ k) : (sep.intercalate l).length ≤ l.length * (k + sep.length) := by
  refine (length_intercalate_le_sum sep l).trans ?_
  have hsum := List.sum_le_card_nsmul (l.map fun s => s.length + sep.length) (k + sep.length) (by
    intro n hn
    obtain ⟨s, hs, rfl⟩ := List.mem_map.mp hn
    exact Nat.add_le_add_right (h s hs) _)
  simpa using hsum

theorem mem_intercalate {b : Byte} {separator : Bytes} :
    ∀ {parts : List Bytes}, b ∈ separator.intercalate parts →
      b ∈ separator ∨ ∃ part ∈ parts, b ∈ part
  | [], h => by simp at h
  | [part], h => .inr ⟨part, by simp, by simpa using h⟩
  | part :: next :: parts, h => by
      rw [List.intercalate_cons_cons, List.mem_append, List.mem_append] at h
      rcases h with (h | h) | h
      · exact .inr ⟨part, by simp, h⟩
      · exact .inl h
      · rcases mem_intercalate h with h | ⟨found, hfound, h⟩
        · exact .inl h
        · exact .inr ⟨found, List.mem_cons_of_mem _ hfound, h⟩

/-! ## Numerals -/

/-- The decimal numeral of a number, without leading zeros. -/
def decimal (n : Nat) : Bytes :=
  if n = 0 then ascii "0" else ((Nat.digits 10 n).map fun d => Fin.ofNat 256 (48 + d)).reverse

theorem length_decimal_le {n k : Nat} (hk : 0 < k) (h : n < 10 ^ k) : (decimal n).length ≤ k := by
  unfold decimal
  split
  · exact hk
  · rw [List.length_reverse, List.length_map]
    exact (Nat.digits_length_le_iff (by norm_num) n).mpr h

/-- `strconv.Itoa`. -/
def itoa (i : Int) : Bytes := if i < 0 then ascii "-" ++ decimal i.natAbs else decimal i.natAbs

/-- The value of a string of decimal digits, if it is one. -/
def decimalValue (text : Bytes) : Option Nat :=
  if text ≠ [] ∧ ∀ b ∈ text, 48 ≤ b.val ∧ b.val ≤ 57 then
    some (text.foldl (fun acc b => acc * 10 + (b.val - 48)) 0)
  else none

/-- `strconv.Atoi`: an optional sign and decimal digits, within the range of `int64`. -/
def atoi (text : Bytes) : Option Int :=
  let value : Option Int :=
    match text with
    | [] => none
    | sign :: digits =>
      if sign = 43 then (decimalValue digits).map fun n => (n : Int)
      else if sign = 45 then (decimalValue digits).map fun n => -(n : Int)
      else (decimalValue text).map fun n => (n : Int)
  value.filter fun i => -(2 ^ 63) ≤ i ∧ i < 2 ^ 63

/-- The value of a hexadecimal digit. -/
def hexValue (b : Byte) : Option Nat :=
  if 48 ≤ b.val ∧ b.val ≤ 57 then some (b.val - 48)
  else if 97 ≤ b.val ∧ b.val ≤ 102 then some (b.val - 87)
  else if 65 ≤ b.val ∧ b.val ≤ 70 then some (b.val - 55)
  else none

/-- `hex.DecodeString`. -/
def hexDecode : Bytes → Option Bytes
  | [] => some []
  | [_] => none
  | high :: low :: rest =>
    match hexValue high, hexValue low, hexDecode rest with
    | some h, some l, some decoded => some (Fin.ofNat 256 (16 * h + l) :: decoded)
    | _, _, _ => none

/-- A hexadecimal digit, in lower case. -/
def hexDigit (n : Nat) : Byte := Fin.ofNat 256 (if n < 10 then 48 + n else 87 + n)

/-- `hex.EncodeToString`. -/
def hexEncode (b : Bytes) : Bytes :=
  b.flatMap fun v => [hexDigit (v.val / 16), hexDigit (v.val % 16)]

@[simp] theorem length_hexEncode (b : Bytes) : (hexEncode b).length = 2 * b.length := by
  induction b with
  | nil => rfl
  | cons v b ih =>
    rw [hexEncode, List.flatMap_cons, List.length_append, ← hexEncode, ih]
    simp only [List.length_cons, List.length_nil]
    omega

/-- What can be decoded consists of hexadecimal digits. -/
theorem isSome_of_hexDecode {text decoded : Bytes} (h : hexDecode text = some decoded) :
    ∀ b ∈ text, (hexValue b).isSome = true := by
  induction text using List.twoStepInduction generalizing decoded with
  | nil => simp
  | singleton => cases h
  | cons_cons high low rest ih =>
    rw [hexDecode] at h
    split at h
    · rename_i hhigh hlow hrest
      simp only [List.mem_cons, forall_eq_or_imp]
      exact ⟨by rw [hhigh]; rfl, by rw [hlow]; rfl, ih hrest⟩
    · cases h

theorem ascii_of_hexDecode {text decoded : Bytes} (h : hexDecode text = some decoded) :
    ∀ b ∈ text, b.val < 0x80 := by
  intro b hb
  have hdigit := isSome_of_hexDecode h b hb
  unfold hexValue at hdigit
  split_ifs at hdigit
  any_goals omega
  cases hdigit

/-! ## Digit encodings -/

/-- The `width` low-order bits of `v`, most significant first. -/
def bitsOf : Nat → Nat → List Bool
  | 0, _ => []
  | width + 1, v => v.testBit width :: bitsOf width v

@[simp] theorem length_bitsOf (width v : Nat) : (bitsOf width v).length = width := by
  induction width with
  | zero => rfl
  | succ width ih => rw [bitsOf, List.length_cons, ih]

/-- The number with the given bits, most significant first. -/
def ofBits (bits : List Bool) : Nat := bits.foldl (fun acc bit => acc * 2 + bit.toNat) 0

/-- The bits of a byte string. -/
def toBits (b : Bytes) : List Bool := b.flatMap fun v => bitsOf 8 v.val

@[simp] theorem length_toBits (b : Bytes) : (toBits b).length = 8 * b.length := by
  induction b with
  | nil => rfl
  | cons v b ih =>
    rw [toBits, List.flatMap_cons, List.length_append, ← toBits, ih, length_bitsOf,
      List.length_cons]
    ring

/-- The first `count` digits of `k` bits each, padded with zeros. -/
def digitsOf (k : Nat) : Nat → List Bool → List Nat
  | 0, _ => []
  | count + 1, bits =>
    ofBits (bits.take k ++ List.replicate (k - bits.length) false) ::
      digitsOf k count (bits.drop k)

@[simp] theorem length_digitsOf (k count : Nat) (bits : List Bool) :
    (digitsOf k count bits).length = count := by
  induction count generalizing bits with
  | zero => rfl
  | succ count ih => rw [digitsOf, List.length_cons, ih]

/-- The digits of `k` bits of a byte string, written with an alphabet. -/
def encodeDigits (k : Nat) (alphabet : Bytes) (b : Bytes) : Bytes :=
  (digitsOf k ((8 * b.length + k - 1) / k) (toBits b)).map fun d => alphabet.getD d 0

@[simp] theorem length_encodeDigits (k : Nat) (alphabet b : Bytes) :
    (encodeDigits k alphabet b).length = (8 * b.length + k - 1) / k := by
  rw [encodeDigits, List.length_map, length_digitsOf]

/-- The first `count` whole bytes of a bit string. -/
def bytesOf : Nat → List Bool → Bytes
  | 0, _ => []
  | count + 1, bits => Fin.ofNat 256 (ofBits (bits.take 8)) :: bytesOf count (bits.drop 8)

/-- Read digits of `k` bits back.  Line breaks are skipped; a digit outside the alphabet,
or a last digit that holds no bit of a whole byte, is an error. -/
def decodeDigits (k : Nat) (alphabet : Bytes) (text : Bytes) : Option Bytes := do
  let digits ← (text.filter fun b => b ≠ 10 ∧ b ≠ 13).mapM fun b =>
    let d := alphabet.idxOf b
    if d < alphabet.length then some d else none
  let bits := digits.flatMap (bitsOf k)
  if k ≤ bits.length % 8 then none else some (bytesOf (bits.length / 8) bits)

/-! ### Decoding what was encoded -/

theorem ofBits_cons (bit : Bool) (bits : List Bool) :
    ofBits (bit :: bits) = 2 ^ bits.length * bit.toNat + ofBits bits := by
  have hloop : ∀ (l : List Bool) (acc : Nat),
      l.foldl (fun acc b => acc * 2 + b.toNat) acc = 2 ^ l.length * acc + ofBits l := by
    intro l
    induction l with
    | nil => intro acc; simp [ofBits]
    | cons b l ih =>
      intro acc
      have hcons : ofBits (b :: l) = 2 ^ l.length * (0 * 2 + b.toNat) + ofBits l := ih _
      rw [List.foldl_cons, ih, hcons, List.length_cons, pow_succ]
      ring
  rw [ofBits, List.foldl_cons, hloop, zero_mul, zero_add]

theorem ofBits_lt (bits : List Bool) : ofBits bits < 2 ^ bits.length := by
  induction bits with
  | nil => simp [ofBits]
  | cons bit bits ih =>
    rw [ofBits_cons, List.length_cons, pow_succ]
    cases bit <;> simp <;> omega

/-- The low-order bits do not depend on what is added above them. -/
theorem bitsOf_add {width n a v : Nat} (hwidth : width ≤ n) (hv : v < 2 ^ n) :
    bitsOf width (2 ^ n * a + v) = bitsOf width v := by
  induction width with
  | zero => rfl
  | succ width ih =>
    rw [bitsOf, bitsOf, ih (by omega), Nat.testBit_two_pow_mul_add a hv, if_pos (by omega)]

theorem bitsOf_ofBits (bits : List Bool) : bitsOf bits.length (ofBits bits) = bits := by
  induction bits with
  | nil => rfl
  | cons bit bits ih =>
    rw [ofBits_cons, List.length_cons, bitsOf, bitsOf_add le_rfl (ofBits_lt bits), ih,
      Nat.testBit_two_pow_mul_add _ (ofBits_lt bits), if_neg (lt_irrefl _), Nat.sub_self]
    cases bit <;> rfl

theorem ofBits_bitsOf (width v : Nat) : ofBits (bitsOf width v) = v % 2 ^ width := by
  induction width with
  | zero => simp [bitsOf, ofBits, Nat.mod_one]
  | succ width ih =>
    rw [bitsOf, ofBits_cons, ih, length_bitsOf, Nat.toNat_testBit, Nat.mod_pow_succ, add_comm]

/-- The digits of a bit string spell it out, padded with zeros. -/
theorem flatMap_bitsOf_digitsOf (k count : Nat) (bits : List Bool)
    (h : bits.length ≤ k * count) :
    (digitsOf k count bits).flatMap (bitsOf k) =
      bits ++ List.replicate (k * count - bits.length) false := by
  induction count generalizing bits with
  | zero =>
    obtain rfl := List.length_eq_zero_iff.mp (Nat.le_zero.mp h)
    rfl
  | succ count ih =>
    have hchunk : (bits.take k ++ List.replicate (k - bits.length) false).length = k := by
      rw [List.length_append, List.length_take, List.length_replicate]
      omega
    have hbits := bitsOf_ofBits (bits.take k ++ List.replicate (k - bits.length) false)
    rw [hchunk] at hbits
    rw [Nat.mul_succ] at h
    rw [digitsOf, List.flatMap_cons, hbits, ih _ (by rw [List.length_drop]; omega),
      List.length_drop, Nat.mul_succ]
    rcases Nat.le_total k bits.length with hlong | hshort
    · rw [Nat.sub_eq_zero_of_le hlong, List.replicate_zero, List.append_nil, ← List.append_assoc,
        List.take_append_drop]
      congr 2
      omega
    · rw [List.take_of_length_le hshort, List.drop_of_length_le hshort, List.nil_append,
        List.append_assoc, List.replicate_append_replicate]
      congr 2
      omega

theorem bytesOf_toBits (b : Bytes) (rest : List Bool) :
    bytesOf b.length (toBits b ++ rest) = b := by
  induction b with
  | nil => rfl
  | cons v b ih =>
    have hbits : toBits (v :: b) ++ rest = bitsOf 8 v.val ++ (toBits b ++ rest) := by
      rw [toBits, List.flatMap_cons, ← toBits, List.append_assoc]
    rw [List.length_cons, bytesOf, hbits, List.take_left' (length_bitsOf 8 v.val),
      List.drop_left' (length_bitsOf 8 v.val), ih, ofBits_bitsOf]
    congr 1
    exact Fin.ext (by simp [Fin.ofNat])

theorem lt_of_mem_digitsOf {k count : Nat} {bits : List Bool} {d : Nat}
    (h : d ∈ digitsOf k count bits) : d < 2 ^ k := by
  induction count generalizing bits with
  | zero => cases h
  | succ count ih =>
    rcases List.mem_cons.mp h with rfl | h
    · refine lt_of_lt_of_eq (ofBits_lt _) ?_
      rw [List.length_append, List.length_take, List.length_replicate]
      congr 1
      omega
    · exact ih h

/-- An alphabet for digits of `k` bits. -/
structure Alphabet (k : Nat) (alphabet : Bytes) : Prop where
  length : alphabet.length = 2 ^ k
  nodup : alphabet.Nodup
  noBreak : ∀ b ∈ alphabet, b ≠ 10 ∧ b ≠ 13

theorem mem_of_mem_encodeDigits {k : Nat} {alphabet : Bytes} (h : Alphabet k alphabet) {b : Bytes}
    {c : Byte} (hc : c ∈ encodeDigits k alphabet b) : c ∈ alphabet := by
  obtain ⟨d, hd, rfl⟩ := List.mem_map.mp hc
  have hlt : d < alphabet.length := h.length ▸ lt_of_mem_digitsOf hd
  rw [List.getD_eq_getElem _ _ hlt]
  exact List.getElem_mem hlt

theorem length_flatMap_bitsOf {k : Nat} (digits : List Nat) :
    (digits.flatMap (bitsOf k)).length = k * digits.length := by
  induction digits with
  | nil => rfl
  | cons d digits ih =>
    rw [List.flatMap_cons, List.length_append, length_bitsOf, ih, List.length_cons]
    ring

/-- A text without its line breaks. -/
def unbroken (text : Bytes) : Bytes := text.filter fun b => b ≠ 10 ∧ b ≠ 13

theorem unbroken_eq_self {text : Bytes} (h : ∀ b ∈ text, b ≠ 10 ∧ b ≠ 13) :
    unbroken text = text := by
  rw [unbroken, List.filter_eq_self]
  intro b hb
  simpa using h b hb

/-- **What is decoded.**  Line breaks apart, the characters are digits, and the last of them holds
a bit of the last byte. -/
theorem decodeDigits_eq_some_iff {k : Nat} {alphabet text decoded : Bytes} :
    decodeDigits k alphabet text = some decoded ↔
      (∀ b ∈ unbroken text, b ∈ alphabet) ∧ k * (unbroken text).length % 8 < k ∧
        decoded = bytesOf (k * (unbroken text).length / 8)
          (((unbroken text).map alphabet.idxOf).flatMap (bitsOf k)) := by
  have hread : ∀ (text : Bytes) (digits : List Nat),
      (text.mapM fun b => if b ∈ alphabet then some (alphabet.idxOf b) else none) = some digits ↔
        (∀ b ∈ text, b ∈ alphabet) ∧ digits = text.map alphabet.idxOf := by
    intro text
    induction text with
    | nil => simp [eq_comm]
    | cons c text ih =>
      intro digits
      by_cases hc : c ∈ alphabet
      · simp [Option.bind_eq_some_iff, ih, hc, and_assoc, @eq_comm _ digits]
      · simp [hc]
  unfold decodeDigits
  rw [← unbroken]
  simp only [List.idxOf_lt_length_iff, Option.bind_eq_bind, Option.bind_eq_some_iff, hread,
    length_flatMap_bitsOf]
  constructor
  · rintro ⟨digits, ⟨hmem, rfl⟩, h⟩
    rw [List.length_map] at h
    split_ifs at h with hk
    exact ⟨hmem, not_le.mp hk, (Option.some.inj h).symm⟩
  · rintro ⟨hmem, hk, rfl⟩
    refine ⟨_, ⟨hmem, rfl⟩, ?_⟩
    rw [List.length_map, if_neg (not_le.mpr hk)]

/-- **Decoding undoes encoding.** -/
theorem decodeDigits_encodeDigits {k : Nat} {alphabet : Bytes} (h : Alphabet k alphabet)
    (hk : 0 < k) (hk8 : k ≤ 8) (b : Bytes) :
    decodeDigits k alphabet (encodeDigits k alphabet b) = some b := by
  have hmem : ∀ c ∈ encodeDigits k alphabet b, c ∈ alphabet := fun c hc =>
    mem_of_mem_encodeDigits h hc
  -- the digits hold the bits of the message and fewer than `k` zeros
  set count := (8 * b.length + k - 1) / k with hcount
  have hcover : 8 * b.length ≤ k * count ∧ k * count < 8 * b.length + k := by
    have hdiv := Nat.div_add_mod (8 * b.length + k - 1) k
    have hmod := Nat.mod_lt (8 * b.length + k - 1) hk
    rw [← hcount] at hdiv
    omega
  have hdigits : (encodeDigits k alphabet b).map alphabet.idxOf = digitsOf k count (toBits b) := by
    rw [encodeDigits, List.map_map]
    conv_rhs => rw [← List.map_id (digitsOf k count (toBits b))]
    refine List.map_congr_left fun d hd => ?_
    have hlt : d < alphabet.length := h.length ▸ lt_of_mem_digitsOf hd
    rw [Function.comp_apply, List.getD_eq_getElem _ _ hlt]
    exact h.nodup.idxOf_getElem d hlt
  have hbits := flatMap_bitsOf_digitsOf k count (toBits b) (by simpa using hcover.1)
  rw [decodeDigits_eq_some_iff, unbroken_eq_self fun c hc => h.noBreak c (hmem c hc),
    length_encodeDigits, ← hcount, hdigits, hbits]
  have hwhole : k * count / 8 = b.length := by omega
  exact ⟨hmem, by omega, by rw [hwhole, bytesOf_toBits]⟩

/-- The alphabet of `base64.RawURLEncoding`. -/
def base64URL : Bytes := ascii "ABCDEFGHIJKLMNOPQRSTUVWXYZabcdefghijklmnopqrstuvwxyz0123456789-_"

/-- The alphabet of `base64.StdEncoding`. -/
def base64Std : Bytes := ascii "ABCDEFGHIJKLMNOPQRSTUVWXYZabcdefghijklmnopqrstuvwxyz0123456789+/"

/-- The alphabet of `base32.StdEncoding`. -/
def base32Std : Bytes := ascii "ABCDEFGHIJKLMNOPQRSTUVWXYZ234567"

theorem alphabet_base32Std : Alphabet 5 base32Std where
  length := by decide
  nodup := by decide +kernel
  noBreak := by decide +kernel

theorem alphabet_base64Std : Alphabet 6 base64Std where
  length := by decide
  nodup := by decide +kernel
  noBreak := by decide +kernel

theorem alphabet_base64URL : Alphabet 6 base64URL where
  length := by decide
  nodup := by decide +kernel
  noBreak := by decide +kernel

end Egressfox.Lib
