import Egressfox.Source.Parse

/-!
# The base64 envelope

`decodeEnvelope` of `internal/source/parse.go` drops white space, refuses a text whose estimated
length is above the limit, and then decodes it with and without padding.

The estimate is `base64.StdEncoding.DecodedLen`, three bytes for every four characters.  It is no
more than the length of the message if the text has no padding (`estimate_raw_le`), and counts the
padding as bytes if it has some (`estimate_padded`).  So a padded text whose message just fits the
limit is refused.
-/

namespace Egressfox.Source

open Lib

/-- The text arises from another by inserting white space. -/
inductive Spaced : Bytes → Bytes → Prop where
  | nil : Spaced [] []
  | space {b : Byte} {encoded text : Bytes} :
      b ∈ ascii " \n\r\t" → Spaced encoded text → Spaced encoded (b :: text)
  | char {c : Byte} {encoded text : Bytes} : Spaced encoded text → Spaced (c :: encoded) (c :: text)

theorem Spaced.filter_eq {encoded text : Bytes} (h : Spaced encoded text)
    (hencoded : ∀ c ∈ encoded, c ∉ ascii " \n\r\t") :
    text.filter (fun value => value ∉ ascii " \n\r\t") = encoded := by
  induction h with
  | nil => rfl
  | space hb _ ih =>
    rw [List.filter_cons_of_neg (by simpa using hb)]
    exact ih hencoded
  | char _ ih =>
    rw [List.filter_cons_of_pos (by simpa using hencoded _ List.mem_cons_self)]
    congr 1
    exact ih fun c hc => hencoded c (List.mem_cons_of_mem _ hc)

/-- The standard encoding with or without padding. -/
def envelope (padded : Bool) : Base64 := ⟨base64Std, padded⟩

theorem envelope_mem_all (padded : Bool) : envelope padded ∈ Base64.all := by
  cases padded <;> decide +kernel

/-- The text of an envelope has no white space. -/
theorem notMem_space_of_mem_encode {padded : Bool} {x : Bytes} {c : Byte}
    (h : c ∈ (envelope padded).encode x) : c ∉ ascii " \n\r\t" := by
  have hdigit : ∀ c ∈ base64Std, c ∉ ascii " \n\r\t" := by decide +kernel
  have hdigits : c ∈ encodeDigits 6 base64Std x → c ∉ ascii " \n\r\t" := fun hc =>
    hdigit c (mem_of_mem_encodeDigits alphabet_base64Std hc)
  unfold Base64.encode at h
  dsimp only at h
  split_ifs at h
  · rcases List.mem_append.mp h with h | h
    · exact hdigits h
    · rw [List.eq_of_mem_replicate h]
      decide
  · exact hdigits h

/-- One of the two decoders reads the text, and both that do read the message. -/
theorem decode_envelope (padded : Bool) (x : Bytes) :
    (Base64.std.decode ((envelope padded).encode x)).or
      (Base64.rawStd.decode ((envelope padded).encode x)) = some x := by
  have hmem := envelope_mem_all padded
  have hsame : ∀ {f : Base64} {decoded : Bytes}, f ∈ Base64.all →
      f.decode ((envelope padded).encode x) = some decoded → decoded = x := fun hf =>
    Base64.eq_of_decode (Base64.standard_of_mem_all hmem) (Base64.standard_of_mem_all hf)
      (Base64.agree_of_mem_all hmem hf)
  have hself := Base64.decode_encode (Base64.standard_of_mem_all hmem) x
  cases hstd : Base64.std.decode ((envelope padded).encode x) with
  | some decoded =>
    rw [Option.some_or, hsame (by decide +kernel) hstd]
  | none =>
    cases padded with
    | true => exact absurd (hself.symm.trans hstd) (by simp)
    | false => exact hself

/-! ## The estimate -/

/-- Without padding the estimate is at most the length of the message. -/
theorem estimate_raw_le (x : Bytes) : ((envelope false).encode x).length / 4 * 3 ≤ x.length := by
  change (encodeDigits 6 base64Std x).length / 4 * 3 ≤ x.length
  rw [length_encodeDigits]
  omega

/-- With padding the estimate is the length of the message rounded up to a multiple of three. -/
theorem estimate_padded (x : Bytes) :
    ((envelope true).encode x).length / 4 * 3 = (x.length + 2) / 3 * 3 := by
  change (encodeDigits 6 base64Std x ++
    Base64.padding (encodeDigits 6 base64Std x).length).length / 4 * 3 = _
  rw [List.length_append, Base64.padding, List.length_replicate, length_encodeDigits]
  omega

/-- What is decoded, in terms of the estimate. -/
theorem decodeEnvelope_eq {padded : Bool} {x text : Bytes}
    (h : Spaced ((envelope padded).encode x) text) (max : Int) :
    decodeEnvelope text max =
      if (((envelope padded).encode x).length / 4 * 3 : Nat) > max then none
      else if x.length > max then none else some x := by
  have hcompact := h.filter_eq fun c hc => notMem_space_of_mem_encode hc
  unfold decodeEnvelope
  dsimp only
  rw [hcompact, decode_envelope]

/-- The envelope of a message is decoded exactly up to a limit. -/
def DecodedUpTo (max : Int) (x text : Bytes) : Prop :=
  (x.length ≤ max → decodeEnvelope text max = some x) ∧
    (x.length > max → decodeEnvelope text max = none)

/-- **An envelope is decoded exactly up to the limit, unless padding is counted as bytes.** -/
theorem decoded_up_to_iff {padded : Bool} {x text : Bytes} (max : Int)
    (h : Spaced ((envelope padded).encode x) text) :
    DecodedUpTo max x text ↔
      (padded = true → x.length ≤ max → ((x.length + 2) / 3 * 3 : Nat) ≤ max) := by
  unfold DecodedUpTo
  rw [decodeEnvelope_eq h]
  have hlong : x.length > max → (if (((envelope padded).encode x).length / 4 * 3 : Nat) > max
      then none else if x.length > max then none else some x) = none := by
    intro hlong
    split_ifs
    · rfl
    · rfl
  cases padded with
  | false =>
    refine iff_of_true ⟨fun hfits => ?_, hlong⟩ fun hpadded => nomatch hpadded
    have hestimate := estimate_raw_le x
    rw [if_neg (by omega), if_neg (by omega)]
  | true =>
    rw [estimate_padded] at hlong ⊢
    constructor
    · rintro ⟨hfits, -⟩ - hlength
      by_contra hestimate
      have hsome := hfits hlength
      rw [if_pos (by omega)] at hsome
      cases hsome
    · intro hestimate
      refine ⟨fun hlength => ?_, hlong⟩
      have hle := hestimate rfl hlength
      rw [if_neg (by omega), if_neg (by omega)]

namespace Sample

/-- A message of three bytes on two lines. -/
theorem decoded_up_to_iff_lines :
    Spaced ((envelope true).encode (ascii "abc")) (ascii "YW\nJj") ∧
      (DecodedUpTo 3 (ascii "abc") (ascii "YW\nJj") ↔
        (true = true → ((ascii "abc").length : Int) ≤ 3 →
          (((ascii "abc").length + 2) / 3 * 3 : Nat) ≤ (3 : Int))) := by
  have hspaced : Spaced ((envelope true).encode (ascii "abc")) (ascii "YW\nJj") :=
    .char (.char (.space (by decide) (.char (.char .nil))))
  exact ⟨hspaced, decoded_up_to_iff 3 hspaced⟩

/-- A message of one byte is refused by a limit of one byte. -/
theorem padded_byte_refused :
    (envelope true).encode (ascii "a") = ascii "YQ==" ∧
      decodeEnvelope (ascii "YQ==") 1 = none ∧
      decodeEnvelope (ascii "YQ") 1 = some (ascii "a") := by
  decide +kernel

end Sample

end Egressfox.Source
