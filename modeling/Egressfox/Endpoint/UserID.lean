import Egressfox.Endpoint.Renew

/-!
# The user IDs of VLESS and VMess

`NewVLESSCredential` and `NewVMessCredential` accept a UUID in letters of either case and keep
its text in lower case.  `canonicalUUID` looks for the four hyphens of a UUID and then drops
every hyphen, so a hyphen may also stand in the place of a digit; the bytes that are missing at
the end are zeros.  Apart from these texts (`Padded`), what is accepted are the UUIDs other than
the nil one, and of them nothing is lost.
-/

namespace Egressfox.Endpoint

open Lib

/-- Hexadecimal digits in groups of 8, 4, 4, 4 and 12, separated by single hyphens. -/
def IsUUID (text : Bytes) : Prop :=
  ∃ a b c d e : Bytes, a.length = 8 ∧ b.length = 4 ∧ c.length = 4 ∧ d.length = 4 ∧
    e.length = 12 ∧ (∀ x ∈ a ++ b ++ c ++ d ++ e, (hexValue x).isSome = true) ∧
    text = a ++ ascii "-" ++ b ++ ascii "-" ++ c ++ ascii "-" ++ d ++ ascii "-" ++ e

/-- The nil UUID. -/
def nilUUID : Bytes := ascii "00000000-0000-0000-0000-000000000000"

/-! ## Shapes -/

/-- The text of a UUID from its groups. -/
theorem hyphenated_append {a b c d e : Bytes} (ha : a.length = 8) (hb : b.length = 4)
    (hc : c.length = 4) (hd : d.length = 4) :
    hyphenated (a ++ (b ++ (c ++ (d ++ e)))) =
      a ++ 45 :: (b ++ 45 :: (c ++ 45 :: (d ++ 45 :: e))) := by
  have h8 : (a ++ (b ++ (c ++ (d ++ e)))).drop 8 = b ++ (c ++ (d ++ e)) := List.drop_left' ha
  have h12 : (a ++ (b ++ (c ++ (d ++ e)))).drop 12 = c ++ (d ++ e) := by
    rw [show 12 = 8 + 4 from rfl, ← List.drop_drop, h8, List.drop_left' hb]
  have h16 : (a ++ (b ++ (c ++ (d ++ e)))).drop 16 = d ++ e := by
    rw [show 16 = 12 + 4 from rfl, ← List.drop_drop, h12, List.drop_left' hc]
  have h20 : (a ++ (b ++ (c ++ (d ++ e)))).drop 20 = e := by
    rw [show 20 = 16 + 4 from rfl, ← List.drop_drop, h16, List.drop_left' hd]
  simp only [hyphenated, h8, h12, h16, h20, List.take_left' ha, List.take_left' hb,
    List.take_left' hc, List.take_left' hd]

/-- A UUID is its digits with hyphens in between. -/
theorem isUUID_iff_hyphenated {text : Bytes} : IsUUID text ↔
    ∃ digits : Bytes, digits.length = 32 ∧ (∀ x ∈ digits, (hexValue x).isSome = true) ∧
      text = hyphenated digits := by
  have hdash : ascii "-" = [45] := by decide
  constructor
  · rintro ⟨a, b, c, d, e, ha, hb, hc, hd, he, hhex, rfl⟩
    refine ⟨a ++ b ++ c ++ d ++ e, by simp [ha, hb, hc, hd, he], hhex, ?_⟩
    simp only [List.append_assoc, hyphenated_append ha hb hc hd, hdash, List.cons_append,
      List.nil_append]
  · rintro ⟨digits, hlength, hhex, rfl⟩
    have htake : ∀ m ≤ 28, ((digits.drop m).take 4).length = 4 := by
      intro m hm
      rw [List.length_take, List.length_drop]
      omega
    have hglue : ∀ m, (digits.drop m).take 4 ++ digits.drop (m + 4) = digits.drop m := by
      intro m
      rw [← List.drop_drop, List.take_append_drop]
    refine ⟨digits.take 8, (digits.drop 8).take 4, (digits.drop 12).take 4,
      (digits.drop 16).take 4, digits.drop 20, by rw [List.length_take]; omega,
      htake 8 (by decide), htake 12 (by decide), htake 16 (by decide),
      by rw [List.length_drop]; omega, ?_, ?_⟩
    · simp only [List.append_assoc]
      rw [hglue 16, hglue 12, hglue 8, List.take_append_drop]
      exact hhex
    · simp [hyphenated, hdash]

/-- A text cut at a hyphen. -/
theorem eq_take_hyphen_drop {text : Bytes} {n : Nat} (h : text.getD n 0 = 45) :
    text = text.take n ++ 45 :: text.drop (n + 1) := by
  have hlt : n < text.length := by
    by_contra hle
    rw [List.getD_eq_default _ _ (not_lt.mp hle)] at h
    exact absurd h (by decide)
  rw [List.getD_eq_getElem _ _ hlt] at h
  conv_lhs => rw [← List.take_append_drop n text]
  rw [List.drop_eq_getElem_cons hlt, h]

/-- With four hyphens, all of them separators, a text is made of its digits. -/
theorem eq_hyphenated {raw : Bytes} (hlength : raw.length = 36) (h8 : raw.getD 8 0 = 45)
    (h13 : raw.getD 13 0 = 45) (h18 : raw.getD 18 0 = 45) (h23 : raw.getD 23 0 = 45)
    (hcount : raw.count 45 = 4) :
    (raw.filter (· ≠ 45)).length = 32 ∧ raw = hyphenated (raw.filter (· ≠ 45)) := by
  have hcut : ∀ m, m + 5 ≤ 24 → raw.getD (m + 4) 0 = 45 → ((raw.drop m).take 4).length = 4 ∧
      raw.drop m = (raw.drop m).take 4 ++ 45 :: raw.drop (m + 5) := by
    intro m hm h45
    have hget : (raw.drop m).getD 4 0 = 45 := by
      rw [← h45, List.getD_eq_getElem?_getD, List.getElem?_drop, ← List.getD_eq_getElem?_getD]
    refine ⟨by rw [List.length_take, List.length_drop]; omega, ?_⟩
    have hhyphen := eq_take_hyphen_drop hget
    rwa [List.drop_drop] at hhyphen
  obtain ⟨hb, hb'⟩ := hcut 9 (by decide) h13
  obtain ⟨hc, hc'⟩ := hcut 14 (by decide) h18
  obtain ⟨hd, hd'⟩ := hcut 19 (by decide) h23
  have ha : (raw.take 8).length = 8 := by rw [List.length_take]; omega
  have hraw := eq_take_hyphen_drop h8
  rw [hb', hc', hd'] at hraw
  generalize raw.take 8 = a at ha hraw
  generalize (raw.drop 9).take 4 = b at hb hraw
  generalize (raw.drop 14).take 4 = c at hc hraw
  generalize (raw.drop 19).take 4 = d at hd hraw
  generalize raw.drop (19 + 5) = e at hraw
  -- no hyphen is left for the groups
  rw [hraw] at hcount
  simp only [List.count_append, List.count_cons_self] at hcount
  have hfree : ∀ part : Bytes, part.count 45 = 0 → part.filter (· ≠ 45) = part := by
    intro part hpart
    rw [List.filter_eq_self]
    intro x hx
    rw [decide_eq_true_eq]
    rintro rfl
    exact List.count_eq_zero.mp hpart hx
  have hcons : ∀ rest : Bytes, (45 :: rest).filter (· ≠ 45) = rest.filter (· ≠ 45) := fun rest =>
    List.filter_cons_of_neg (by decide)
  have hfilter : raw.filter (· ≠ 45) = a ++ (b ++ (c ++ (d ++ e))) := by
    rw [hraw]
    simp only [List.filter_append, hcons, hfree a (by omega), hfree b (by omega),
      hfree c (by omega), hfree d (by omega), hfree e (by omega)]
  have he : e.length = 12 := by
    rw [hraw] at hlength
    simp only [List.length_append, List.length_cons] at hlength
    omega
  rw [hfilter, hyphenated_append ha hb hc hd]
  exact ⟨by simp [ha, hb, hc, hd, he], hraw⟩

theorem map_hyphenated {f : Byte → Byte} (hf : f 45 = 45) (digits : Bytes) :
    (hyphenated digits).map f = hyphenated (digits.map f) := by
  simp only [hyphenated, List.map_append, List.map_cons, hf, List.map_take, List.map_drop]

/-! ## The accepted user IDs -/

/-- Only zeros stand for zero bytes. -/
theorem decoded_zero_iff {digits decoded : Bytes} (h : hexDecode digits = some decoded) :
    decoded.all (· = 0) = true ↔ ∀ b ∈ digits, b = 48 := by
  have hvalue : ∀ {b : Byte} {d : Nat}, hexValue b = some d → (d = 0 ↔ b = 48) := by
    intro b d hd
    rw [show b = 48 ↔ b.val = 48 from Fin.ext_iff]
    unfold hexValue at hd
    split_ifs at hd <;> simp only [Option.some.injEq] at hd <;> omega
  induction digits using List.twoStepInduction generalizing decoded with
  | nil =>
    obtain rfl := Option.some.inj h
    simp
  | singleton => cases h
  | cons_cons high low rest ih =>
    rw [hexDecode] at h
    split at h
    · rename_i d e tail hhigh hlow hrest
      obtain rfl := Option.some.inj h
      have hd := (hexDigit_of_hexValue hhigh).1
      have he := (hexDigit_of_hexValue hlow).1
      have hzero : Fin.ofNat 256 (16 * d + e) = 0 ↔ d = 0 ∧ e = 0 := by
        rw [Fin.ext_iff, Fin.val_ofNat, Nat.mod_eq_of_lt (by omega), Fin.val_zero]
        omega
      have htail : tail.all (· = 0) = true ↔ ∀ b ∈ rest, b = 48 := ih hrest
      rw [List.all_cons, Bool.and_eq_true, decide_eq_true_iff, hzero, htail, hvalue hhigh,
        hvalue hlow, and_assoc, List.forall_mem_cons, List.forall_mem_cons]
    · cases h

/-- A UUID other than the nil one is accepted, and kept in lower case. -/
theorem canonicalUUID_of_isUUID {raw : Bytes} (h : IsUUID raw) (hnil : raw ≠ nilUUID) :
    canonicalUUID raw = .ok (raw.map lowerASCII) := by
  obtain ⟨digits, hlength, hhex, rfl⟩ := isUUID_iff_hyphenated.mp h
  obtain ⟨h36, h8, h13, h18, h23⟩ := getD_hyphenated hlength
  have hfilter : (hyphenated digits).filter (· ≠ 45) = digits := by
    refine filter_hyphenated fun c hc => ?_
    rintro rfl
    exact absurd (hhex 45 hc) (by decide)
  obtain ⟨decoded, hdecoded⟩ := exists_hexDecode hhex (by omega)
  have hsixteen : decoded.length = 16 := by
    have := length_of_hexDecode hdecoded
    omega
  have hzero : ¬decoded.all (· = 0) = true := by
    intro hzero
    apply hnil
    rw [List.eq_replicate_iff.mpr ⟨hlength, (decoded_zero_iff hdecoded).mp hzero⟩]
    decide
  have hencoded : (hexEncode decoded).length = 32 := by rw [length_hexEncode, hsixteen]
  simp only [canonicalUUID, h36, h8, h13, h18, h23, hfilter, hdecoded, hsixteen, Nat.sub_self,
    List.replicate_zero, List.append_nil, if_neg hzero]
  rw [hyphenated_eq hencoded, hexEncode_of_hexDecode hdecoded, map_hyphenated (by decide)]
  rfl

/-- A text with hyphens in the place of the separators and of some of the digits: of an even
number of them, while the others are hexadecimal digits and not all zeros. -/
structure Padded (raw : Bytes) : Prop where
  length : raw.length = 36
  separators : raw.getD 8 0 = 45 ∧ raw.getD 13 0 = 45 ∧ raw.getD 18 0 = 45 ∧ raw.getD 23 0 = 45
  further : 4 < raw.count 45
  even : raw.count 45 % 2 = 0
  digits : ∀ b ∈ raw, b ≠ 45 → (hexValue b).isSome = true
  nonzero : ∃ b ∈ raw, b ≠ 45 ∧ b ≠ 48

/-- Such a text is accepted. -/
theorem Padded.accepted {raw : Bytes} (h : Padded raw) :
    ∃ canonical, canonicalUUID raw = .ok canonical := by
  obtain ⟨h36, ⟨h8, h13, h18, h23⟩, -, heven, hhex, b, hb, hhyphen, hzero⟩ := h
  have hlength := length_filter_hyphen raw
  have hfilter : ∀ b ∈ raw.filter (· ≠ 45), (hexValue b).isSome = true := by
    intro b hb
    exact hhex b (List.mem_of_mem_filter hb) (by simpa using List.of_mem_filter hb)
  obtain ⟨decoded, hdecoded⟩ := exists_hexDecode hfilter (by omega)
  have hall : ¬(decoded ++ List.replicate (16 - decoded.length) 0).all (· = 0) = true := by
    rw [List.all_append, Bool.and_eq_true, decoded_zero_iff hdecoded]
    exact fun h => hzero (h.1 b (List.mem_filter.mpr ⟨hb, decide_eq_true hhyphen⟩))
  simp only [canonicalUUID, h36, h8, h13, h18, h23, hdecoded, if_neg hall]
  exact ⟨_, if_neg (by decide)⟩

/-- An accepted text has no hyphens but the separators, or further ones in an even number. -/
theorem count_hyphen_of_canonicalUUID {raw canonical : Bytes}
    (h : canonicalUUID raw = .ok canonical) (hpadded : ¬Padded raw) : raw.count 45 = 4 := by
  obtain ⟨⟨hlength, hseparators⟩, digits, _, hdigits, rfl, -, hzero, -⟩ := canonicalUUID_eq h
  obtain ⟨h8, h13, h18, h23⟩ := hseparators
  by_contra hcount
  have hfour := four_le_count_hyphen h8 h13 h18 h23
  have hfilter := length_filter_hyphen raw
  have hhex := length_of_hexDecode hdigits
  refine hpadded ⟨hlength, ⟨h8, h13, h18, h23⟩, by omega, by omega, ?_, ?_⟩
  · intro b hb hhyphen
    exact isSome_of_hexDecode hdigits b (List.mem_filter.mpr ⟨hb, decide_eq_true hhyphen⟩)
  · -- were all digits zeros, the bytes would be zeros too
    by_contra hnone
    push Not at hnone
    apply hzero
    rw [List.all_append, Bool.and_eq_true, decoded_zero_iff hdigits]
    refine ⟨fun b hb => hnone b (List.mem_of_mem_filter hb) (by simpa using List.of_mem_filter hb),
      by simp⟩

/-- An accepted text without further hyphens is a UUID. -/
theorem isUUID_of_canonicalUUID {raw canonical : Bytes} (h : canonicalUUID raw = .ok canonical)
    (hcount : raw.count 45 = 4) : IsUUID raw ∧ raw ≠ nilUUID := by
  obtain ⟨⟨hlength, h8, h13, h18, h23⟩, decoded, -, hdecoded, -⟩ := canonicalUUID_eq h
  obtain ⟨hdigits, hraw⟩ := eq_hyphenated hlength h8 h13 h18 h23 hcount
  refine ⟨isUUID_iff_hyphenated.mpr ⟨_, hdigits, isSome_of_hexDecode hdecoded, hraw⟩, ?_⟩
  rintro rfl
  have hnil : (canonicalUUID nilUUID).isOk = false := by decide
  rw [h] at hnil
  cases hnil

/-- A UUID has four hyphens. -/
theorem IsUUID.count_hyphen {raw : Bytes} (h : IsUUID raw) : raw.count 45 = 4 := by
  obtain ⟨a, b, c, d, e, -, -, -, -, -, hhex, rfl⟩ := h
  have hfree : (a ++ b ++ c ++ d ++ e).count 45 = 0 := by
    rw [List.count_eq_zero]
    exact fun hmem => absurd (hhex 45 hmem) (by decide)
  have hdash : (ascii "-").count 45 = 1 := by decide
  simp only [List.count_append, hdash] at hfree ⊢
  omega

/-! ## Credentials -/

/-- A constructor of user IDs treats a text as a UUID: it accepts UUIDs other than the nil one
only, and reveals the accepted text in lower case, which it accepts again as the same
credential. -/
def TakesUUID (new : Bytes → Except Error Credential) (raw : Bytes) : Prop :=
  ((∃ c, new raw = .ok c) ↔ IsUUID raw ∧ raw ≠ nilUUID) ∧
    ∀ c, new raw = .ok c → c.reveal = raw.map lowerASCII ∧ new c.reveal = .ok c

/-- Two texts, if accepted, give one credential exactly if they differ in letter case only. -/
def Distinguishes (new : Bytes → Except Error Credential) (raw other : Bytes) : Prop :=
  ∀ c c', new raw = .ok c → new other = .ok c' →
    (c = c' ↔ raw.map lowerASCII = other.map lowerASCII)

section Constructor

-- the two constructors differ in the protocol of the credential only
variable {new : Bytes → Except Error Credential} {protocol : Protocol}
  (hnew : ∀ raw, new raw = (canonicalUUID raw).map fun text => ⟨protocol, some text, []⟩)

include hnew

theorem new_eq_ok_iff {raw : Bytes} {c : Credential} :
    new raw = .ok c ↔ ∃ text, canonicalUUID raw = .ok text ∧ c = ⟨protocol, some text, []⟩ := by
  rw [hnew]
  cases canonicalUUID raw with
  | error e => simp [Except.map]
  | ok text => simp [Except.map, eq_comm]

/-- A text is taken as a UUID unless hyphens stand for digits. -/
theorem takesUUID_of_not_padded {raw : Bytes} (h : ¬Padded raw) : TakesUUID new raw := by
  refine ⟨⟨?_, ?_⟩, ?_⟩
  · rintro ⟨c, hc⟩
    obtain ⟨text, htext, -⟩ := (new_eq_ok_iff hnew).mp hc
    exact isUUID_of_canonicalUUID htext (count_hyphen_of_canonicalUUID htext h)
  · rintro ⟨huuid, hnil⟩
    exact ⟨_, (new_eq_ok_iff hnew).mpr ⟨_, canonicalUUID_of_isUUID huuid hnil, rfl⟩⟩
  · intro c hc
    obtain ⟨text, htext, rfl⟩ := (new_eq_ok_iff hnew).mp hc
    obtain ⟨huuid, hnil⟩ :=
      isUUID_of_canonicalUUID htext (count_hyphen_of_canonicalUUID htext h)
    refine ⟨?_, (new_eq_ok_iff hnew).mpr ⟨text, canonicalUUID_canonical htext, rfl⟩⟩
    exact (Except.ok.inj ((canonicalUUID_of_isUUID huuid hnil).symm.trans htext)).symm

theorem not_padded_of_takesUUID {raw : Bytes} (h : TakesUUID new raw) : ¬Padded raw := by
  intro hpadded
  obtain ⟨text, htext⟩ := hpadded.accepted
  have huuid := (h.1.mp ⟨_, (new_eq_ok_iff hnew).mpr ⟨text, htext, rfl⟩⟩).1
  exact absurd huuid.count_hyphen hpadded.further.ne'

theorem distinguishes_of_not_padded {raw other : Bytes} (hraw : ¬Padded raw)
    (hother : ¬Padded other) : Distinguishes new raw other := by
  intro c c' hc hc'
  have hreveal := ((takesUUID_of_not_padded hnew hraw).2 c hc).1
  have hreveal' := ((takesUUID_of_not_padded hnew hother).2 c' hc').1
  rw [← hreveal, ← hreveal']
  obtain ⟨text, -, rfl⟩ := (new_eq_ok_iff hnew).mp hc
  obtain ⟨text', -, rfl⟩ := (new_eq_ok_iff hnew).mp hc'
  simp [Credential.reveal]

end Constructor

theorem newVLESSCredential_eq_map (raw : Bytes) :
    newVLESSCredential raw = (canonicalUUID raw).map fun text => ⟨.vless, some text, []⟩ := by
  unfold newVLESSCredential
  cases canonicalUUID raw <;> rfl

theorem newVMessCredential_eq_map (raw : Bytes) :
    newVMessCredential raw = (canonicalUUID raw).map fun text => ⟨.vmess, some text, []⟩ := by
  unfold newVMessCredential
  cases canonicalUUID raw <;> rfl

/-- **User IDs are kept exactly as far as no hyphens stand for digits.**  Of any two texts, both
constructors take each as a UUID and tell them apart up to letter case, if and only if neither
is padded with hyphens. -/
theorem user_id_kept_iff (raw other : Bytes) :
    (∀ new ∈ [newVLESSCredential, newVMessCredential],
      TakesUUID new raw ∧ TakesUUID new other ∧ Distinguishes new raw other) ↔
      ¬Padded raw ∧ ¬Padded other := by
  constructor
  · intro h
    obtain ⟨hraw, hother, -⟩ := h newVLESSCredential (by simp)
    exact ⟨not_padded_of_takesUUID newVLESSCredential_eq_map hraw,
      not_padded_of_takesUUID newVLESSCredential_eq_map hother⟩
  · rintro ⟨hraw, hother⟩ new hnew
    obtain ⟨protocol, hmap⟩ : ∃ protocol, ∀ raw,
        new raw = (canonicalUUID raw).map fun text => ⟨protocol, some text, []⟩ := by
      simp only [List.mem_cons, List.not_mem_nil, or_false] at hnew
      rcases hnew with rfl | rfl
      · exact ⟨.vless, newVLESSCredential_eq_map⟩
      · exact ⟨.vmess, newVMessCredential_eq_map⟩
    exact ⟨takesUUID_of_not_padded hmap hraw, takesUUID_of_not_padded hmap hother,
      distinguishes_of_not_padded hmap hraw hother⟩

namespace Sample

/-- A user ID with two hyphens in the place of its last digits. -/
def shortUserID : Bytes := ascii "11111111-1111-1111-1111-1111111111--"

/-- The user ID is accepted although it is no UUID, and its last byte becomes zero. -/
theorem short_user_id_accepted :
    newVLESSCredential shortUserID =
        .ok ⟨.vless, some (ascii "11111111-1111-1111-1111-111111111100"), []⟩ ∧
      newVLESSCredential (ascii "11111111-1111-1111-1111-111111111100") =
        newVLESSCredential shortUserID ∧
      ¬IsUUID shortUserID := by
  refine ⟨by decide, by decide, fun h => ?_⟩
  exact absurd h.count_hyphen (by decide)

end Sample

end Egressfox.Endpoint
