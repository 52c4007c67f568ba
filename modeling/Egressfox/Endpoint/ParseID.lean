import Egressfox.Lib.Ascii
import Egressfox.Lib.Digits
import Egressfox.Endpoint.Canonical

/-!
# Endpoint IDs read back

`ParseID` of `internal/endpoint/identity.go`.  An ID is issued in one of two ways, by
`Configuration.Identity` or by `ParseID`; either way its text is accepted again
(`parseID_identity`, `ID.Issued`).
-/

namespace Egressfox.Endpoint

open Lib

/-- The versions of an endpoint ID. -/
def idVersions : List Bytes := [ascii "ef1_", ascii "ef2_", ascii "ef3_"]

/-- `ParseID`. -/
def parseID (unicode : Unicode) (value : Bytes) : Except Error ID :=
  if !idVersions.any (fun version => version.isPrefixOf value) then
    invalid "endpoint.id" "has an unsupported identity version"
  else
    let encoded := value.drop 4
    match decodeDigits 5 base32Std (toUpper unicode encoded) with
    | none => invalid "endpoint.id" "is not a canonical endpoint identifier"
    | some decoded =>
      if decoded.length ≠ 32 || toLower unicode encoded ≠ encoded then
        invalid "endpoint.id" "is not a canonical endpoint identifier"
      else .ok ⟨value⟩

/-- The ID is accepted by `ParseID`. -/
def ID.Issued (unicode : Unicode) (id : ID) : Prop := parseID unicode id.value = .ok id

variable {unicode : Unicode} {value version : Bytes} {id : ID}

theorem length_of_mem_idVersions (h : version ∈ idVersions) : version.length = 4 := by
  have hall : ∀ v ∈ idVersions, v.length = 4 := by decide
  exact hall version h

/-- Thirty-two bytes are decoded from 52 digits. -/
theorem exists_decodeDigits_iff {text : Bytes} :
    (∃ decoded, decodeDigits 5 base32Std text = some decoded ∧ decoded.length = 32) ↔
      (unbroken text).length = 52 ∧ ∀ b ∈ unbroken text, b ∈ base32Std := by
  simp only [decodeDigits_eq_some_iff]
  constructor
  · rintro ⟨_, ⟨hmem, hk, rfl⟩, hlength⟩
    rw [length_bytesOf] at hlength
    exact ⟨by omega, hmem⟩
  · rintro ⟨hlength, hmem⟩
    exact ⟨_, ⟨hmem, by omega, rfl⟩, by rw [length_bytesOf, hlength]⟩

/-- A version, and behind it a text that is its own lower case and whose upper case consists of 52
base32 digits and of line breaks. -/
def Readable (unicode : Unicode) (value : Bytes) : Prop :=
  ∃ version ∈ idVersions, ∃ encoded, value = version ++ encoded ∧
    toLower unicode encoded = encoded ∧ (unbroken (toUpper unicode encoded)).length = 52 ∧
    ∀ b ∈ unbroken (toUpper unicode encoded), b ∈ base32Std

theorem parseID_eq_ok_iff :
    parseID unicode value = .ok id ↔ Readable unicode value ∧ id = ⟨value⟩ := by
  constructor
  · intro h
    obtain ⟨hknown, h⟩ := ite_invalid_eq_ok.mp h
    simp only [Bool.not_eq_true', Bool.not_eq_false, List.any_eq_true] at hknown
    obtain ⟨version, hversion, hfront⟩ := hknown
    obtain ⟨encoded, rfl⟩ := List.isPrefixOf_iff_prefix.mp hfront
    simp only [List.drop_left' (length_of_mem_idVersions hversion)] at h
    split at h
    · cases h
    · rename_i decoded hdecoded
      obtain ⟨hcanonical, h⟩ := ite_invalid_eq_ok.mp h
      simp only [Bool.or_eq_true, decide_eq_true_eq, not_or, not_not] at hcanonical
      obtain ⟨hlength, hlower⟩ := hcanonical
      exact ⟨⟨version, hversion, encoded, rfl, hlower,
        exists_decodeDigits_iff.mp ⟨decoded, hdecoded, hlength⟩⟩, (Except.ok.inj h).symm⟩
  · rintro ⟨⟨version, hversion, encoded, rfl, hlower, hdigits⟩, rfl⟩
    obtain ⟨decoded, hdecoded, hlength⟩ := exists_decodeDigits_iff.mpr hdigits
    have hknown : idVersions.any (fun v => v.isPrefixOf (version ++ encoded)) = true := by
      rw [List.any_eq_true]
      exact ⟨version, hversion, List.isPrefixOf_iff_prefix.mpr (List.prefix_append _ _)⟩
    simp [parseID, hknown, List.drop_left' (length_of_mem_idVersions hversion), hdecoded, hlength,
      hlower]

/-- The Unicode tables are used on texts outside ASCII only. -/
theorem parseID_congr (h : ∀ b ∈ value, b.val < 0x80) (unicode other : Unicode) :
    parseID unicode value = parseID other value := by
  have hencoded : ∀ b ∈ value.drop 4, b.val < 0x80 := fun b hb => h b (List.mem_of_mem_drop hb)
  simp only [parseID, toUpper, toLower, convertCase_of_ascii hencoded]

/-- An issued ID is printed as it is. -/
theorem ID.Issued.string_eq (h : id.Issued unicode) : id.string = id.value := by
  obtain ⟨hversion, -⟩ := ite_invalid_eq_ok.mp h
  have hne : id.value ≠ [] := by
    intro hnil
    rw [hnil] at hversion
    exact hversion (by decide)
  rw [ID.string, if_neg hne]

/-- The text of the zero ID is not that of an issued one. -/
theorem ID.Issued.string_ne (h : id.Issued unicode) : id.string ≠ invalidID := by
  rw [h.string_eq]
  intro hvalue
  obtain ⟨hversion, -⟩ := ite_invalid_eq_ok.mp h
  rw [hvalue] at hversion
  exact hversion (by decide)

/-- The letters and digits of base32: lower case in IDs, upper case in the alphabet. -/
theorem base32Std_case : ∀ b ∈ base32Std,
    b.val < 0x80 ∧ (lowerASCII b).val < 0x80 ∧ upperASCII (lowerASCII b) = b ∧
      lowerASCII (lowerASCII b) = lowerASCII b := by decide +kernel

/-- A version and the lower-case base32 of a digest make an ID. -/
theorem issued_of_digest (hversion : version ∈ idVersions) (digest : Digest) :
    ID.Issued unicode ⟨version ++ (encodeDigits 5 base32Std digest.val).map lowerASCII⟩ := by
  set encoded := encodeDigits 5 base32Std digest.val with hencoded
  have hcase : ∀ b ∈ encoded, _ := fun b hb =>
    base32Std_case b (mem_of_mem_encodeDigits alphabet_base32Std hb)
  have hascii : ∀ b ∈ encoded.map lowerASCII, b.val < 0x80 := by
    intro b hb
    obtain ⟨c, hc, rfl⟩ := List.mem_map.mp hb
    exact (hcase c hc).2.1
  have hupper : toUpper unicode (encoded.map lowerASCII) = encoded := by
    rw [toUpper, convertCase_of_ascii hascii, List.map_map]
    conv_rhs => rw [← List.map_id encoded]
    exact List.map_congr_left fun b hb => (hcase b hb).2.2.1
  have hlower : toLower unicode (encoded.map lowerASCII) = encoded.map lowerASCII := by
    rw [toLower, convertCase_of_ascii hascii, List.map_map]
    exact List.map_congr_left fun b hb => (hcase b hb).2.2.2
  have hdigits : (unbroken encoded).length = 52 ∧ ∀ b ∈ unbroken encoded, b ∈ base32Std :=
    exists_decodeDigits_iff.mp ⟨digest.val, decodeDigits_encodeDigits alphabet_base32Std
      (by norm_num) (by norm_num) digest.val, digest.property⟩
  refine parseID_eq_ok_iff.mpr ⟨⟨version, hversion, _, rfl, hlower, ?_⟩, rfl⟩
  rw [hupper]
  exact hdigits

/-- **The ID of a valid configuration is accepted by `ParseID`.** -/
theorem parseID_identity {sum256 : Bytes → Digest} {c : Configuration} (h : c.valid = true) :
    (c.identity sum256).id.Issued unicode := by
  rw [Configuration.identity, dif_pos h]
  apply issued_of_digest
  unfold Configuration.idVersion
  split_ifs <;> decide

/-! ## Canonical texts -/

/-- The text of an endpoint ID: a version and the base32 digits of a digest in lower case. -/
def idText (version : Bytes) (digest : Digest) : Bytes :=
  version ++ (encodeDigits 5 base32Std digest.val).map lowerASCII

/-- Lower-casing loses nothing of a text of base32 digits. -/
theorem map_upper_map_lower {text : Bytes} (h : ∀ b ∈ text, b ∈ base32Std) :
    (text.map lowerASCII).map upperASCII = text := by
  rw [List.map_map]
  conv_rhs => rw [← List.map_id text]
  exact List.map_congr_left fun b hb => (base32Std_case b (h b hb)).2.2.1

/-- **The text of an ID tells its version and its digest.** -/
theorem idText_injective {version' : Bytes} {digest digest' : Digest}
    (hversion : version ∈ idVersions) (hversion' : version' ∈ idVersions)
    (h : idText version digest = idText version' digest') :
    version = version' ∧ digest = digest' := by
  have hlength : version.length = version'.length := by
    rw [length_of_mem_idVersions hversion, length_of_mem_idVersions hversion']
  obtain ⟨hsame, hdigits⟩ := List.append_inj h hlength
  have hupper := congrArg (List.map upperASCII) hdigits
  rw [map_upper_map_lower fun b hb => mem_of_mem_encodeDigits alphabet_base32Std hb,
    map_upper_map_lower fun b hb => mem_of_mem_encodeDigits alphabet_base32Std hb] at hupper
  have hdecode : ∀ b, decodeDigits 5 base32Std (encodeDigits 5 base32Std b) = some b :=
    decodeDigits_encodeDigits alphabet_base32Std (by norm_num) (by norm_num)
  refine ⟨hsame, Subtype.ext (Option.some.inj ?_)⟩
  rw [← hdecode digest.val, hupper, hdecode]

/-- Only ASCII characters, no line breaks, and zeros for the bits of the last digit that belong
to no byte. -/
def PlainID (value : Bytes) : Prop :=
  (∀ b ∈ value, b.val < 0x80 ∧ b ≠ 10 ∧ b ≠ 13) ∧
    (value.getLast? = some 97 ∨ value.getLast? = some 113)

/-- The bits behind 32 bytes are those of the last of 52 digits. -/
theorem drop_flatMap_bitsOf {front : List Nat} {last : Nat} (h : front.length = 51) :
    ((front ++ [last]).flatMap (bitsOf 5)).drop 256 = (bitsOf 5 last).drop 1 := by
  have hfront : (front.flatMap (bitsOf 5)).length = 255 := by
    rw [length_flatMap_bitsOf, h]
  rw [List.flatMap_append, show 256 = 255 + 1 from rfl, ← List.drop_drop, List.drop_left' hfront]
  simp

/-- Of the base32 digits, `A` and `Q` have zeros for their last four bits. -/
theorem bitsOf_drop_eq_zeros : ∀ d < 32,
    ((bitsOf 5 d).drop 1 = List.replicate 4 false ↔
      lowerASCII (base32Std.getD d 0) = 97 ∨ lowerASCII (base32Std.getD d 0) = 113) := by
  decide +kernel

/-- The canonical text of an ID is plain. -/
theorem plainID_idText (hversion : version ∈ idVersions) (digest : Digest) :
    PlainID (idText version digest) := by
  have hbits := flatMap_bitsOf_digitsOf 5 52 (toBits digest.val) (by
    rw [length_toBits, digest.property]
    norm_num)
  rw [length_toBits, digest.property] at hbits
  have hencode : encodeDigits 5 base32Std digest.val =
      (digitsOf 5 52 (toBits digest.val)).map fun d => base32Std.getD d 0 := by
    rw [encodeDigits, digest.property]
  have hlt : ∀ d ∈ digitsOf 5 52 (toBits digest.val), d < 32 := fun d hd => lt_of_mem_digitsOf hd
  have hcount : (digitsOf 5 52 (toBits digest.val)).length = 52 := length_digitsOf 5 52 _
  constructor
  · have hversions : ∀ v ∈ idVersions, ∀ b ∈ v, b.val < 0x80 ∧ b ≠ 10 ∧ b ≠ 13 := by
      decide +kernel
    have hletters : ∀ c ∈ base32Std, (lowerASCII c).val < 0x80 ∧ lowerASCII c ≠ 10 ∧
        lowerASCII c ≠ 13 := by decide +kernel
    intro b hb
    rcases List.mem_append.mp hb with hb | hb
    · exact hversions version hversion b hb
    · obtain ⟨c, hc, rfl⟩ := List.mem_map.mp hb
      exact hletters c (mem_of_mem_encodeDigits alphabet_base32Std hc)
  · rw [idText, hencode]
    generalize digitsOf 5 52 (toBits digest.val) = digits at hbits hlt hcount
    rcases List.eq_nil_or_concat' digits with rfl | ⟨front, last, rfl⟩
    · cases hcount
    have hfront : front.length = 51 := by simpa using hcount
    have hzero : (bitsOf 5 last).drop 1 = List.replicate 4 false := by
      rw [← drop_flatMap_bitsOf hfront, hbits,
        List.drop_left' (by rw [length_toBits, digest.property])]
    have hlast := (bitsOf_drop_eq_zeros last (hlt last (by simp))).mp hzero
    simpa using hlast

/-- **A plain text that can be read is canonical.** -/
theorem exists_idText_of_plainID (h : Readable unicode value) (hplain : PlainID value) :
    ∃ version ∈ idVersions, ∃ digest, value = idText version digest := by
  obtain ⟨version, hversion, encoded, rfl, hlower, hlength, hmem⟩ := h
  obtain ⟨hchars, hlast⟩ := hplain
  have hchars : ∀ b ∈ encoded, b.val < 0x80 ∧ b ≠ 10 ∧ b ≠ 13 := fun b hb =>
    hchars b (List.mem_append_right _ hb)
  have hascii : ∀ b ∈ encoded, b.val < 0x80 := fun b hb => (hchars b hb).1
  have hunbroken : unbroken (toUpper unicode encoded) = encoded.map upperASCII := by
    have hbreak : ∀ b : Byte, b ≠ 10 ∧ b ≠ 13 → upperASCII b ≠ 10 ∧ upperASCII b ≠ 13 := by
      decide +kernel
    rw [toUpper, convertCase_of_ascii hascii]
    refine unbroken_eq_self fun c hc => ?_
    obtain ⟨b, hb, rfl⟩ := List.mem_map.mp hc
    exact hbreak b (hchars b hb).2
  rw [hunbroken] at hlength hmem
  rw [toLower, convertCase_of_ascii hascii] at hlower
  have htext := map_getD_idxOf hmem
  have hlt : ∀ d ∈ (encoded.map upperASCII).map base32Std.idxOf, d < 2 ^ 5 := by
    intro d hd
    obtain ⟨b, hb, rfl⟩ := List.mem_map.mp hd
    exact List.idxOf_lt_length_of_mem (hmem b hb)
  have hcount : ((encoded.map upperASCII).map base32Std.idxOf).length = 52 := by
    rwa [List.length_map]
  generalize (encoded.map upperASCII).map base32Std.idxOf = digits at htext hlt hcount
  -- lower case is what upper-casing loses
  have hencoded : encoded = (digits.map fun d => base32Std.getD d 0).map lowerASCII := by
    have hback : ∀ b : Byte, lowerASCII b = b → lowerASCII (upperASCII b) = b := by
      decide +kernel
    rw [htext, List.map_map]
    conv_lhs => rw [← List.map_id encoded]
    refine List.map_congr_left fun b hb => (hback b ?_).symm
    exact List.map_inj_left.mp (hlower.trans (List.map_id encoded).symm) b hb
  have hzero : ∀ bit ∈ (digits.flatMap (bitsOf 5)).drop (8 * (5 * digits.length / 8)),
      bit = false := by
    rw [hcount]
    rcases List.eq_nil_or_concat' digits with rfl | ⟨front, last, rfl⟩
    · cases hcount
    have hfront : front.length = 51 := by simpa using hcount
    have hdigit : lowerASCII (base32Std.getD last 0) = 97 ∨
        lowerASCII (base32Std.getD last 0) = 113 := by
      rw [hencoded] at hlast
      simpa using hlast
    rw [drop_flatMap_bitsOf hfront, (bitsOf_drop_eq_zeros last (hlt last (by simp))).mpr hdigit]
    exact fun bit hbit => List.eq_of_mem_replicate hbit
  refine ⟨version, hversion, ⟨bytesOf (5 * digits.length / 8) (digits.flatMap (bitsOf 5)), ?_⟩, ?_⟩
  · rw [length_bytesOf, hcount]
  · rw [idText, encodeDigits_bytesOf hlt (by omega) hzero, ← hencoded]

/-- **`ParseID` accepts exactly the canonical IDs as far as what can be read is plain.**  A text is
accepted if and only if it is that of one version and one digest, unless it has the digits of a
digest and is not plain. -/
theorem parseID_canonical_iff (unicode : Unicode) (value : Bytes) :
    ((parseID unicode value).isOk = true ↔
      ∃! id : Bytes × Digest, id.1 ∈ idVersions ∧ value = idText id.1 id.2) ↔
      ¬(Readable unicode value ∧ ¬PlainID value) := by
  have hok : (parseID unicode value).isOk = true ↔ Readable unicode value := by
    constructor
    · intro h
      obtain ⟨id, hparse⟩ := exists_of_isOk h
      exact (parseID_eq_ok_iff.mp hparse).1
    · intro h
      rw [parseID_eq_ok_iff.mpr ⟨h, rfl⟩]
      rfl
  rw [hok]
  constructor
  · rintro hexact ⟨hreadable, hplain⟩
    obtain ⟨⟨version, digest⟩, ⟨hversion, rfl⟩, -⟩ := hexact.mp hreadable
    exact hplain (plainID_idText hversion digest)
  · intro hplain
    constructor
    · intro hreadable
      obtain ⟨version, hversion, digest, rfl⟩ :=
        exists_idText_of_plainID hreadable (not_not.mp fun h => hplain ⟨hreadable, h⟩)
      refine ⟨(version, digest), ⟨hversion, rfl⟩, ?_⟩
      rintro ⟨version', digest'⟩ ⟨hversion', hsame⟩
      obtain ⟨rfl, rfl⟩ := idText_injective hversion hversion' hsame
      rfl
    · rintro ⟨⟨version, digest⟩, ⟨hversion, rfl⟩, -⟩
      exact (parseID_eq_ok_iff.mp (issued_of_digest hversion digest)).1

namespace Sample

/-- The ID of the zero digest, with a last digit whose low bits are not zero. -/
def trailingID : Bytes := ascii "ef1_aaaaaaaaaaaaaaaaaaaaaaaaaaaaaaaaaaaaaaaaaaaaaaaaaaab"

/-- The ID of the zero digest, broken into two lines. -/
def brokenID : Bytes := ascii "ef1_aaaaaaaaaaaaaaaaaaaaaaaaaa\naaaaaaaaaaaaaaaaaaaaaaaaaa"

/-- Both texts are accepted although no version and digest have them. -/
theorem lenient_id_accepted :
    (∀ unicode : Unicode, ∀ value ∈ [trailingID, brokenID], parseID unicode value = .ok ⟨value⟩) ∧
    ∀ value ∈ [trailingID, brokenID], ∀ version ∈ idVersions, ∀ digest,
      value ≠ idText version digest := by
  constructor
  · intro unicode value hvalue
    have haccepted : ∀ value ∈ [trailingID, brokenID], value.all (fun b => b.val < 0x80) = true ∧
        parseID ⟨id, id, fun _ => false⟩ value = .ok ⟨value⟩ := by decide +kernel
    obtain ⟨hascii, hok⟩ := haccepted value hvalue
    rw [parseID_congr (by simpa using hascii) unicode ⟨id, id, fun _ => false⟩, hok]
  · intro value hvalue version hversion digest hsame
    have hplain : ¬PlainID value := by
      simp only [List.mem_cons, List.not_mem_nil, or_false] at hvalue
      rcases hvalue with rfl | rfl
      · exact fun h => absurd h.2 (by decide +kernel)
      · exact fun h => (h.1 10 (by decide +kernel)).2.1 rfl
    rw [hsame] at hplain
    exact hplain (plainID_idText hversion digest)

end Sample

end Egressfox.Endpoint
