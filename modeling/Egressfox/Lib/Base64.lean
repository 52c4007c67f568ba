import Egressfox.Lib.Text

/-!
# Base 64

The encodings of `encoding/base64`, with and without padding.  The decoder skips line breaks and
does not look at the bits of the last digit that belong to no byte.

A text may be readable in several of these encodings.  What was written in one of them is read
in another as the same bytes or not at all (`Base64.eq_of_decode`), because two alphabets that
share a character have it for the same digit.
-/

namespace Egressfox.Lib

/-- What can be decoded consists of characters of the alphabet, and line breaks. -/
theorem mem_of_decodeDigits {k : Nat} {alphabet text decoded : Bytes}
    (h : decodeDigits k alphabet text = some decoded) {c : Byte} (hc : c ∈ text)
    (hbreak : c ≠ 10 ∧ c ≠ 13) : c ∈ alphabet :=
  (decodeDigits_eq_some_iff.mp h).1 c (List.mem_filter.mpr ⟨hc, by simpa using hbreak⟩)

/-- The last digit has all its bits set only if the last byte has. -/
theorem mod_of_getLast?_digitsOf {b : Bytes} {v : Byte}
    (h : (digitsOf 6 ((8 * (b ++ [v]).length + 6 - 1) / 6) (toBits (b ++ [v]))).getLast? =
      some 63) : v.val % 64 = 63 := by
  obtain ⟨front, hfront⟩ := List.getLast?_eq_some_iff.mp h
  have hcover : (toBits (b ++ [v])).length ≤ 6 * ((8 * (b ++ [v]).length + 6 - 1) / 6) := by
    rw [length_toBits]
    omega
  have hbits := flatMap_bitsOf_digitsOf 6 _ (toBits (b ++ [v])) hcover
  have hones : bitsOf 6 63 = List.replicate 6 true := by decide
  have hlast : toBits (b ++ [v]) =
      toBits b ++ [v.val.testBit 7, v.val.testBit 6] ++ bitsOf 6 v.val := by
    rw [toBits, List.flatMap_append, ← toBits, List.append_assoc]
    rfl
  rw [hfront, List.flatMap_append, List.flatMap_singleton, hones, hlast] at hbits
  cases hzeros : 6 * ((8 * (b ++ [v]).length + 6 - 1) / 6) - (toBits b ++
      [v.val.testBit 7, v.val.testBit 6] ++ bitsOf 6 v.val).length with
  | zero =>
    rw [hzeros, List.replicate_zero, List.append_nil] at hbits
    have hsame := (List.append_inj' hbits (by rw [length_bitsOf, List.length_replicate])).2
    have hvalue := ofBits_bitsOf 6 v.val
    rw [← hsame, ← hones, ofBits_bitsOf] at hvalue
    exact hvalue.symm
  | succ zeros =>
    have hone : List.replicate 6 true = List.replicate 5 true ++ [true] := by decide
    have hzero : List.replicate (zeros + 1) false = List.replicate zeros false ++ [false] :=
      List.replicate_succ'
    rw [hzeros, hone, hzero, ← List.append_assoc, ← List.append_assoc] at hbits
    cases (List.append_inj' hbits rfl).2

/-- An encoding: an alphabet, with or without padding. -/
structure Base64 where
  alphabet : Bytes
  padded : Bool
deriving DecidableEq, Repr

namespace Base64

/-- `base64.StdEncoding`. -/
def std : Base64 := ⟨base64Std, true⟩

/-- `base64.RawStdEncoding`. -/
def rawStd : Base64 := ⟨base64Std, false⟩

/-- `base64.URLEncoding`. -/
def url : Base64 := ⟨base64URL, true⟩

/-- `base64.RawURLEncoding`. -/
def rawURL : Base64 := ⟨base64URL, false⟩

/-- The padding behind a number of digits. -/
def padding (digits : Nat) : Bytes := List.replicate ((4 - digits % 4) % 4) 61

/-- `EncodeToString`. -/
def encode (e : Base64) (b : Bytes) : Bytes :=
  let digits := encodeDigits 6 e.alphabet b
  if e.padded then digits ++ padding digits.length else digits

/-- A text without one padding character at its end. -/
def dropPad (text : Bytes) : Bytes := if text.getLast? = some 61 then text.dropLast else text

/-- `DecodeString`. -/
def decode (e : Base64) (text : Bytes) : Option Bytes :=
  let text := text.filter fun b => b ≠ 10 ∧ b ≠ 13
  if e.padded then
    if text.length % 4 ≠ 0 then none else decodeDigits 6 e.alphabet (dropPad (dropPad text))
  else decodeDigits 6 e.alphabet text

/-- An alphabet without the padding character. -/
structure Standard (e : Base64) : Prop where
  alphabet : Alphabet 6 e.alphabet
  noPad : 61 ∉ e.alphabet

section Padding

variable {digits : Bytes}

theorem dropPad_eq_self (h : 61 ∉ digits) : dropPad digits = digits := by
  rw [dropPad, if_neg]
  intro hlast
  exact h (List.mem_of_getLast? hlast)

theorem dropPad_concat (text : Bytes) : dropPad (text ++ [61]) = text := by
  rw [dropPad, if_pos (by simp), List.dropLast_concat]

/-- Up to two padding characters are taken off. -/
theorem dropPad_dropPad (h : 61 ∉ digits) {n : Nat} (hn : n ≤ 2) :
    dropPad (dropPad (digits ++ List.replicate n 61)) = digits := by
  obtain rfl | rfl | rfl : n = 0 ∨ n = 1 ∨ n = 2 := by omega
  · rw [List.replicate_zero, List.append_nil, dropPad_eq_self h, dropPad_eq_self h]
  · rw [List.replicate_one, dropPad_concat, dropPad_eq_self h]
  · rw [List.replicate_succ', ← List.append_assoc, List.replicate_one, dropPad_concat,
      dropPad_concat]

/-- The digits of whole bytes and their padding fill groups of four. -/
theorem padding_spec (n : Nat) : (4 - (8 * n + 6 - 1) / 6 % 4) % 4 ≤ 2 ∧
    ((8 * n + 6 - 1) / 6 + (4 - (8 * n + 6 - 1) / 6 % 4) % 4) % 4 = 0 := by
  omega

end Padding

variable {e f : Base64}

/-- The text of an encoding has no line breaks. -/
theorem filter_encode (he : e.Standard) (b : Bytes) :
    (e.encode b).filter (fun c => c ≠ 10 ∧ c ≠ 13) = e.encode b := by
  have hdigits : ∀ c ∈ encodeDigits 6 e.alphabet b, c ≠ 10 ∧ c ≠ 13 := fun c hc =>
    he.alphabet.noBreak c (mem_of_mem_encodeDigits he.alphabet hc)
  rw [List.filter_eq_self]
  intro c hc
  rw [decide_eq_true_eq]
  unfold encode at hc
  dsimp only at hc
  split_ifs at hc
  · rcases List.mem_append.mp hc with hc | hc
    · exact hdigits c hc
    · rw [List.eq_of_mem_replicate hc]
      decide
  · exact hdigits c hc

/-- What the decoder of one encoding does to a text of another: it reads the digits, if it reads
the text at all. -/
theorem decode_encode_eq_some (he : e.Standard) (hf : f.Standard) {b decoded : Bytes}
    (h : f.decode (e.encode b) = some decoded) :
    decodeDigits 6 f.alphabet (encodeDigits 6 e.alphabet b) = some decoded := by
  have hfree : 61 ∉ encodeDigits 6 e.alphabet b := fun hmem =>
    he.noPad (mem_of_mem_encodeDigits he.alphabet hmem)
  obtain ⟨hpads, -⟩ := padding_spec b.length
  unfold decode at h
  rw [filter_encode he] at h
  unfold encode padding at h
  dsimp only at h
  rw [length_encodeDigits] at h
  cases hef : e.padded with
  | false =>
    simp only [hef, Bool.false_eq_true, if_false] at h
    cases hff : f.padded with
    | false =>
      rw [hff] at h
      exact h
    | true =>
      rw [hff, if_pos rfl] at h
      split_ifs at h
      rwa [dropPad_eq_self hfree, dropPad_eq_self hfree] at h
  | true =>
    simp only [hef, if_true] at h
    cases hff : f.padded with
    | true =>
      rw [hff, if_pos rfl] at h
      split_ifs at h
      rwa [dropPad_dropPad hfree hpads] at h
    | false =>
      simp only [hff, Bool.false_eq_true, if_false] at h
      -- padding is no digit
      have hnone : (4 - (8 * b.length + 6 - 1) / 6 % 4) % 4 = 0 := by
        by_contra hsome
        refine hf.noPad (mem_of_decodeDigits h (List.mem_append_right _ ?_) (by decide))
        rw [List.mem_replicate]
        exact ⟨hsome, rfl⟩
      rwa [hnone, List.replicate_zero, List.append_nil] at h

/-- **Decoding undoes encoding.** -/
theorem decode_encode (he : e.Standard) (b : Bytes) : e.decode (e.encode b) = some b := by
  have hfree : 61 ∉ encodeDigits 6 e.alphabet b := fun hmem =>
    he.noPad (mem_of_mem_encodeDigits he.alphabet hmem)
  have hdigits := decodeDigits_encodeDigits he.alphabet (by norm_num) (by norm_num) b
  obtain ⟨hpads, hwhole⟩ := padding_spec b.length
  unfold decode
  rw [filter_encode he]
  unfold encode padding
  dsimp only
  rw [length_encodeDigits]
  cases hpadded : e.padded with
  | false =>
    simp only [Bool.false_eq_true, if_false]
    exact hdigits
  | true =>
    simp only [if_true]
    rw [if_neg, dropPad_dropPad hfree hpads]
    · exact hdigits
    · rw [List.length_append, List.length_replicate, length_encodeDigits]
      exact not_not.mpr hwhole

/-- A character of both alphabets stands for the same digit in both. -/
def Agree (e f : Base64) : Prop :=
  ∀ d < 64, e.alphabet.getD d 0 ∈ f.alphabet → e.alphabet.getD d 0 = f.alphabet.getD d 0

/-- **A text is read in another encoding as the same bytes, or not at all.** -/
theorem eq_of_decode (he : e.Standard) (hf : f.Standard) (hagree : Agree e f) {b decoded : Bytes}
    (h : f.decode (e.encode b) = some decoded) : decoded = b := by
  have hdecode := decode_encode_eq_some he hf h
  have hsame : encodeDigits 6 e.alphabet b = encodeDigits 6 f.alphabet b := by
    unfold encodeDigits
    apply List.map_congr_left
    intro d hd
    have hlt : d < 64 := lt_of_mem_digitsOf hd
    have hmem : e.alphabet.getD d 0 ∈ encodeDigits 6 e.alphabet b := List.mem_map_of_mem hd
    have hbreak := he.alphabet.noBreak _ (mem_of_mem_encodeDigits he.alphabet hmem)
    exact hagree d hlt (mem_of_decodeDigits hdecode hmem hbreak)
  rw [hsame, decodeDigits_encodeDigits hf.alphabet (by norm_num) (by norm_num)] at hdecode
  exact (Option.some.inj hdecode).symm

/-- The four encodings of the package. -/
def all : List Base64 := [std, rawStd, url, rawURL]

theorem standard_of_mem_all (h : e ∈ all) : e.Standard := by
  have hstd : 61 ∉ base64Std := by decide +kernel
  have hurl : 61 ∉ base64URL := by decide +kernel
  simp only [all, List.mem_cons, List.not_mem_nil, or_false] at h
  rcases h with rfl | rfl | rfl | rfl
  · exact ⟨alphabet_base64Std, hstd⟩
  · exact ⟨alphabet_base64Std, hstd⟩
  · exact ⟨alphabet_base64URL, hurl⟩
  · exact ⟨alphabet_base64URL, hurl⟩

theorem alphabet_of_mem_all (h : e ∈ all) : e.alphabet = base64Std ∨ e.alphabet = base64URL := by
  simp only [all, List.mem_cons, List.not_mem_nil, or_false] at h
  rcases h with rfl | rfl | rfl | rfl
  · exact .inl rfl
  · exact .inl rfl
  · exact .inr rfl
  · exact .inr rfl

theorem agree_of_mem_all (he : e ∈ all) (hf : f ∈ all) : Agree e f := by
  have hstd : ∀ d < 64, base64Std.getD d 0 ∈ base64URL →
      base64Std.getD d 0 = base64URL.getD d 0 := by decide +kernel
  have hurl : ∀ d < 64, base64URL.getD d 0 ∈ base64Std →
      base64URL.getD d 0 = base64Std.getD d 0 := by decide +kernel
  intro d hd hmem
  rcases alphabet_of_mem_all he with he | he <;> rcases alphabet_of_mem_all hf with hf | hf
  · rw [he, hf]
  · rw [he, hf] at hmem ⊢
    exact hstd d hd hmem
  · rw [he, hf] at hmem ⊢
    exact hurl d hd hmem
  · rw [he, hf]

/-- A text in which the last six bits are not all set is not written with a slash at its end. -/
theorem getLast?_encode_ne (he : e ∈ all) {b : Bytes} {v : Byte} (hv : v.val % 64 ≠ 63) :
    (e.encode (b ++ [v])).getLast? ≠ some 47 := by
  have hdigits : (encodeDigits 6 e.alphabet (b ++ [v])).getLast? ≠ some 47 := by
    intro h
    rw [encodeDigits, List.getLast?_map, Option.map_eq_some_iff] at h
    obtain ⟨d, hd, hslash⟩ := h
    have hlt : d < 64 := lt_of_mem_digitsOf (List.mem_of_getLast? hd)
    have hstd : ∀ d < 64, base64Std.getD d 0 = 47 → d = 63 := by decide +kernel
    have hurl : ∀ d < 64, base64URL.getD d 0 ≠ 47 := by decide +kernel
    rcases alphabet_of_mem_all he with halphabet | halphabet
    · rw [halphabet] at hslash
      rw [hstd d hlt hslash] at hd
      exact hv (mod_of_getLast?_digitsOf hd)
    · rw [halphabet] at hslash
      exact hurl d hlt hslash
  unfold encode
  dsimp only
  split
  · unfold padding
    cases (4 - (encodeDigits 6 e.alphabet (b ++ [v])).length % 4) % 4 with
    | zero =>
      rw [List.replicate_zero, List.append_nil]
      exact hdigits
    | succ n =>
      rw [List.replicate_succ', ← List.append_assoc, List.getLast?_concat]
      decide
  · exact hdigits

end Base64

end Egressfox.Lib
