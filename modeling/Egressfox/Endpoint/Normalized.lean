import Egressfox.Lib.Ascii
import Egressfox.Lib.NetipRoundTrip
import Egressfox.Endpoint.Built

/-!
# Normalised values stay as they are

The constructors of `internal/endpoint` rewrite some of their arguments: a host into its
canonical text, a user ID into lower-case digits, a Reality short ID into lower case, a port
entry into a port or a range.  Each rewriting is idempotent, so that a value which has gone
through a constructor goes through it again unchanged.

For a host this is `normalizeHost_normal`.  `NormalHost` names the texts in question; the kind
of the host can be read off the text, so two addresses with the same text and port are equal.
-/

namespace Egressfox.Endpoint

open Lib

/-! ## Hosts -/

/-- A host in canonical form: the text of an IP address without a zone, or a DNS name that
does not read as an IP address. -/
inductive NormalHost : Bytes → HostKind → Prop where
  | ip {a : Addr} : a.zone = [] → NormalHost a.string (ipKind a)
  | dns {text : Bytes} : text.length ≠ 0 → text.length ≤ 253 →
      (text.splitOn 46).findSome? checkLabel = none → parseAddr text = none → NormalHost text .dns

/-- A character of a DNS name that has passed the checks. -/
def IsNameByte (b : Byte) : Prop :=
  97 ≤ b.val ∧ b.val ≤ 122 ∨ 48 ≤ b.val ∧ b.val ≤ 57 ∨ b = 45 ∨ b = 46

/-- A DNS label in lower case. -/
structure IsLabel (label : Bytes) : Prop where
  ne_nil : label ≠ []
  length_le : label.length ≤ 63
  chars : ∀ b ∈ label, 97 ≤ b.val ∧ b.val ≤ 122 ∨ 48 ≤ b.val ∧ b.val ≤ 57 ∨ b = 45
  head : label.head? ≠ some 45
  last : label.getLast? ≠ some 45

theorem labelProblem_eq_none_iff {length index : Nat} {b : Byte} :
    labelProblem length b index = none ↔
      (97 ≤ b.val ∧ b.val ≤ 122 ∨ 48 ≤ b.val ∧ b.val ≤ 57 ∨ b = 45) ∧
        (b = 45 → index ≠ 0 ∧ index ≠ length - 1) := by
  by_cases hdash : b = 45
  · simp [labelProblem, hdash]
  · simp [labelProblem, hdash]
    omega

/-- **The check passes exactly the labels.** -/
theorem checkLabel_eq_none_iff {label : Bytes} : checkLabel label = none ↔ IsLabel label := by
  unfold checkLabel
  constructor
  · intro h
    split at h
    · cases h
    next hbounds =>
      simp only [Bool.or_eq_true, decide_eq_true_eq, not_or, not_lt] at hbounds
      rw [List.findSome?_eq_none_iff] at h
      have hat : ∀ {i : Nat} {b : Byte}, label[i]? = some b → _ := fun hi =>
        labelProblem_eq_none_iff.mp (h (_, _) (List.mem_zipIdx_iff_getElem?.mpr hi))
      refine ⟨fun hnil => hbounds.1 (by rw [hnil]; rfl), hbounds.2, ?_, ?_, ?_⟩
      · intro b hb
        obtain ⟨i, hi⟩ := List.mem_iff_getElem?.mp hb
        exact (hat hi).1
      · intro hhead
        rw [List.head?_eq_getElem?] at hhead
        exact ((hat hhead).2 rfl).1 rfl
      · intro hlast
        rw [List.getLast?_eq_getElem?] at hlast
        exact ((hat hlast).2 rfl).2 rfl
  · rintro ⟨hne, hlength, hchars, hhead, hlast⟩
    rw [if_neg (by simpa using ⟨hne, hlength⟩), List.findSome?_eq_none_iff]
    rintro ⟨b, i⟩ hmem
    have hi : label[i]? = some b := List.mem_zipIdx_iff_getElem?.mp hmem
    refine labelProblem_eq_none_iff.mpr ⟨hchars b (List.mem_of_getElem? hi), ?_⟩
    rintro rfl
    constructor
    · rintro rfl
      exact hhead (by rw [List.head?_eq_getElem?]; exact hi)
    · rintro rfl
      exact hlast (by rw [List.getLast?_eq_getElem?]; exact hi)

variable {text host raw canonical : Bytes} {unicode : Unicode} {field : String} {kind : HostKind}
  {port : Int}

theorem isNameByte_of_labels (h : (text.splitOn 46).findSome? checkLabel = none) {b : Byte}
    (hb : b ∈ text) : IsNameByte b := by
  have htext : [46].intercalate (text.splitOn 46) = text := List.intercalate_splitOn 46
  rw [← htext] at hb
  rcases mem_intercalate hb with hb | ⟨label, hlabel, hb⟩
  · exact .inr (.inr (.inr (List.mem_singleton.mp hb)))
  · have hlabel := checkLabel_eq_none_iff.mp (List.findSome?_eq_none_iff.mp h label hlabel)
    rcases hlabel.chars b hb with hb | hb | hb
    · exact .inl hb
    · exact .inr (.inl hb)
    · exact .inr (.inr (.inl hb))

/-- A name without an empty label has no trailing dot. -/
theorem trimDot_of_labels (h : (text.splitOn 46).findSome? checkLabel = none) :
    trimDot text = text := by
  rw [trimDot, if_neg]
  intro hlast
  obtain ⟨init, rfl⟩ := List.getLast?_eq_some_iff.mp hlast
  have hempty : [] ∈ (init ++ [46]).splitOn 46 := by
    rw [List.splitOn_append_cons_self]
    simp
  exact absurd (List.findSome?_eq_none_iff.mp h [] hempty) (by decide)

/-- A text of name characters reads as an IP address only if it consists of digits and dots. -/
theorem numeric_of_parseAddr (hname : ∀ b ∈ text, IsNameByte b) {a : Addr}
    (h : parseAddr text = some a) : ∀ b ∈ text, 48 ≤ b.val ∧ b.val ≤ 57 ∨ b = 46 := by
  unfold parseAddr at h
  split at h
  · rename_i c hfind
    split_ifs at h with hdot hcolon
    · simp only [parseIPv4, Option.bind_eq_bind, Option.bind_eq_some_iff] at h
      obtain ⟨fields, hfields, -⟩ := h
      exact numeric_of_ipv4Fields hfields
    · have hbyte := hname c (List.mem_of_find?_eq_some hfind)
      rw [hcolon] at hbyte
      exact absurd hbyte (by unfold IsNameByte; decide)
  · cases h

section

variable (hunicode : unicode.KeepsNumerals)
include hunicode

/-- A name stays without a reading as an IP address when it is lower-cased. -/
theorem parseAddr_toLower (hparse : parseAddr host = none)
    (hname : ∀ b ∈ toLower unicode host, IsNameByte b) :
    parseAddr (toLower unicode host) = none := by
  cases h : parseAddr (toLower unicode host) with
  | none => rfl
  | some a =>
    have hsame := toLower_eq_self_of_numeric hunicode (numeric_of_parseAddr hname h)
    rw [hsame, hparse] at h
    cases h

/-- What `normalizeHost` returns is in canonical form. -/
theorem normal_of_normalizeHost (h : normalizeHost unicode raw field = .ok (text, kind)) :
    NormalHost text kind := by
  obtain ⟨bare, bracketed, -, hreading⟩ := reading_of_normalizeHost h
  cases hreading with
  | address _ hzone | dotted _ _ _ hzone => exact .ip hzone
  | name _ _ hparse hlength hlabels =>
    refine .dns (fun hempty => ?_) hlength hlabels
      (parseAddr_toLower hunicode hparse fun b hb => isNameByte_of_labels hlabels hb)
    rw [List.length_eq_zero_iff.mp hempty] at hlabels
    exact absurd hlabels (by decide)

end

section

variable (h : NormalHost text kind)
include h

/-- A host in canonical form is printable, and without brackets. -/
theorem NormalHost.printable : ∀ b ∈ text, (0x21 ≤ b.val ∧ b.val ≤ 0x7e) ∧ b ≠ 91 ∧ b ≠ 93 := by
  intro b hb
  cases h with
  | ip hzone =>
    have hbyte : ∀ b : Byte, (hexValue b).isSome = true ∨ b = 58 ∨ b = 46 →
        (0x21 ≤ b.val ∧ b.val ≤ 0x7e) ∧ b ≠ 91 ∧ b ≠ 93 := by decide +kernel
    exact hbyte b (Addr.of_mem_string hzone hb)
  | dns _ _ hlabels _ =>
    have hname : IsNameByte b := isNameByte_of_labels hlabels hb
    unfold IsNameByte at hname
    rcases hname with hname | hname | rfl | rfl
    · exact ⟨by omega, fun h => by simp [h] at hname, fun h => by simp [h] at hname⟩
    · exact ⟨by omega, fun h => by simp [h] at hname, fun h => by simp [h] at hname⟩
    · decide
    · decide

theorem NormalHost.ne_nil : text ≠ [] := by
  cases h with
  | ip hzone => exact Addr.string_ne_nil hzone
  | dns hempty => exact fun h => hempty (by rw [h]; rfl)

/-- **A host in canonical form is normalised to itself.** -/
theorem normalizeHost_normal (field : String) :
    normalizeHost unicode text field = .ok (text, kind) := by
  have hprintable := h.printable
  have hbrackets : ¬(text.head? = some 91 || text.getLast? = some 93) = true := by
    simp only [Bool.or_eq_true, decide_eq_true_eq, not_or]
    exact ⟨fun h => (hprintable _ (List.mem_of_mem_head? h)).2.1 rfl,
      fun h => (hprintable _ (List.mem_of_mem_getLast? h)).2.2 rfl⟩
  rw [normalizeHost, if_neg h.ne_nil,
    hasSurroundingSpace_eq_false (fun b hb => (hprintable b (List.mem_of_mem_head? hb)).1)
      (fun b hb => (hprintable b (List.mem_of_mem_getLast? hb)).1), if_neg Bool.false_ne_true,
    if_neg hbrackets]
  cases h with
  | ip hzone =>
    simp only [normalizeBare, Addr.parseAddr_string hzone, hzone, ne_eq, not_true_eq_false,
      if_false, Bool.false_and, Bool.false_eq_true]
  | dns hempty hlength hlabels hparse =>
    have hname : ∀ b ∈ text, IsNameByte b := fun b hb => isNameByte_of_labels hlabels hb
    have hseparators : ¬containsAny text (ascii ":[]") = true := by
      rw [containsAny, List.any_eq_true]
      rintro ⟨b, hb, hmem⟩
      have hnot : ∀ b ∈ ascii ":[]", ¬IsNameByte b := by unfold IsNameByte; decide +kernel
      exact hnot b (by simpa using hmem) (hname b hb)
    have hlower : toLower unicode text = text := by
      apply toLower_eq_self
      intro b hb
      have hb := hname b hb
      unfold IsNameByte at hb
      rcases hb with hb | hb | rfl | rfl
      · omega
      · omega
      · decide
      · decide
    have hlimits : ¬(text.length = 0 || 253 < text.length) = true := by
      simp [hlength, List.length_eq_zero_iff.not.mp hempty]
    simp only [normalizeBare, hparse, if_neg hseparators, trimDot_of_labels hlabels,
      normalizeName, hlower, if_neg hlimits, hlabels]

/-- The kind of a host in canonical form can be read off its text. -/
theorem NormalHost.kind_unique {kind' : HostKind} (h' : NormalHost text kind') : kind = kind' := by
  have hnormal : normalizeHost ⟨id, id, fun _ => false⟩ text "" = .ok (text, kind) :=
    normalizeHost_normal h ""
  rw [normalizeHost_normal h' ""] at hnormal
  exact (Prod.mk.inj (Except.ok.inj hnormal)).2.symm

theorem NormalHost.validUTF8 : validUTF8 text = true :=
  validUTF8_of_ascii fun b hb => lt_of_le_of_lt (h.printable b hb).1.2 (by decide)

end

theorem newAddress_normal (h : NormalHost host kind) (hlow : 1 ≤ port) (hhigh : port ≤ 65535) :
    newAddress unicode host port = .ok ⟨host, Fin.ofNat 65536 port.toNat, kind⟩ := by
  have hrange : ¬(port < 1 || 65535 < port) = true := by
    simp only [Bool.or_eq_true, decide_eq_true_eq, not_or]
    omega
  unfold newAddress
  rw [normalizeHost_normal h]
  exact if_neg hrange

/-- **An address goes through its constructor unchanged.** -/
theorem newAddress_address {a : Address} (h : NormalHost a.host a.kind) (hport : a.port ≠ 0) :
    newAddress unicode a.host a.port.val = .ok a := by
  have hpos : a.port.val ≠ 0 := fun hzero => hport (Fin.ext hzero)
  have hmax := a.port.isLt
  rw [newAddress_normal h (by omega) (by omega), Int.toNat_natCast]
  congr 1
  exact Address.ext rfl (Fin.ofNat_val_eq_self a.port) rfl

/-- A constructed address other than the zero value has a canonical host. -/
theorem Address.Built.normal (hunicode : unicode.KeepsNumerals) {a : Address} (h : a.Built unicode)
    (hvalid : a.valid = true) : NormalHost a.host a.kind := by
  cases h with
  | zero => cases hvalid
  | new h =>
    obtain ⟨⟨normalized, kind⟩, hhost, h⟩ := bind_eq_ok.mp h
    obtain ⟨-, h⟩ := ite_invalid_eq_ok.mp h
    obtain rfl := Except.ok.inj h
    exact normal_of_normalizeHost hunicode hhost

/-- A host that may be left out, in canonical form. -/
def NormalOptionalHost (text : Bytes) : Prop := text = [] ∨ ∃ kind, NormalHost text kind

theorem normal_of_normalizeOptionalHost (hunicode : unicode.KeepsNumerals)
    (h : normalizeOptionalHost unicode host field = .ok text) : NormalOptionalHost text := by
  unfold normalizeOptionalHost at h
  split_ifs at h
  · exact .inl (Except.ok.inj h).symm
  · obtain ⟨kind, hhost⟩ := map_fst_eq_ok.mp h
    exact .inr ⟨kind, normal_of_normalizeHost hunicode hhost⟩

theorem normalizeOptionalHost_normal (h : NormalOptionalHost text) (field : String) :
    normalizeOptionalHost unicode text field = .ok text := by
  unfold normalizeOptionalHost
  rcases h with rfl | ⟨kind, h⟩
  · rfl
  · rw [if_neg h.ne_nil, normalizeHost_normal h]
    rfl

theorem NormalOptionalHost.validUTF8 (h : NormalOptionalHost text) : validUTF8 text = true := by
  rcases h with rfl | ⟨kind, h⟩
  · rfl
  · exact h.validUTF8

/-! ## User IDs -/

/-- The digits written by `hex.EncodeToString` are no hyphens. -/
theorem ne_hyphen_of_mem_hexEncode {b : Bytes} {c : Byte} (h : c ∈ hexEncode b) :
    c ≠ 45 ∧ c.val < 0x80 := by
  obtain ⟨v, -, hc⟩ := List.mem_flatMap.mp h
  have hdigit : ∀ d < 16, hexDigit d ≠ 45 ∧ (hexDigit d).val < 0x80 := by decide
  have hv := v.isLt
  simp only [List.mem_cons, List.not_mem_nil, or_false] at hc
  rcases hc with rfl | rfl
  · exact hdigit _ (by omega)
  · exact hdigit _ (by omega)

/-- The text of a UUID with the given digits. -/
def hyphenated (digits : Bytes) : Bytes :=
  digits.take 8 ++ 45 :: ((digits.drop 8).take 4 ++ 45 :: ((digits.drop 12).take 4 ++
    45 :: ((digits.drop 16).take 4 ++ 45 :: digits.drop 20)))

/-- Four hyphens at different places. -/
theorem four_le_count_hyphen (h8 : raw.getD 8 0 = 45) (h13 : raw.getD 13 0 = 45)
    (h18 : raw.getD 18 0 = 45) (h23 : raw.getD 23 0 = 45) : 4 ≤ raw.count 45 := by
  have hstep : ∀ {n : Nat}, raw.getD n 0 = 45 →
      (raw.drop n).count 45 = (raw.drop (n + 1)).count 45 + 1 := by
    intro n hn
    have hlt : n < raw.length := by
      by_contra hle
      rw [List.getD_eq_default _ _ (not_lt.mp hle)] at hn
      exact absurd hn (by decide)
    rw [List.getD_eq_getElem _ _ hlt] at hn
    rw [List.drop_eq_getElem_cons hlt, hn, List.count_cons_self]
  have hmono : ∀ {m n : Nat}, m ≤ n → (raw.drop n).count 45 ≤ (raw.drop m).count 45 :=
    fun hmn => (List.drop_sublist_drop_left raw hmn).count_le 45
  have hall : (raw.drop 8).count 45 ≤ raw.count 45 := (List.drop_sublist 8 raw).count_le 45
  have := hstep h8
  have := hstep h13
  have := hstep h18
  have := hstep h23
  have := hmono (show 8 + 1 ≤ 13 by decide)
  have := hmono (show 13 + 1 ≤ 18 by decide)
  have := hmono (show 18 + 1 ≤ 23 by decide)
  omega

theorem filter_hyphenated {digits : Bytes} (h : ∀ c ∈ digits, c ≠ 45) :
    (hyphenated digits).filter (· ≠ 45) = digits := by
  have hpart : ∀ part : Bytes, part ⊆ digits → part.filter (· ≠ 45) = part := by
    intro part hpart
    rw [List.filter_eq_self]
    intro c hc
    simpa using h c (hpart hc)
  have htake : ∀ m n, (digits.drop m).take n ⊆ digits := fun m n =>
    List.Subset.trans (List.take_subset n _) (List.drop_subset m _)
  have hglue : ∀ m, (digits.drop m).take 4 ++ digits.drop (m + 4) = digits.drop m := by
    intro m
    rw [← List.drop_drop, List.take_append_drop]
  have hcons : ∀ rest : Bytes, (45 :: rest).filter (· ≠ 45) = rest.filter (· ≠ 45) := fun rest =>
    List.filter_cons_of_neg (by decide)
  simp only [hyphenated, List.filter_append, hcons, hpart _ (htake _ _),
    hpart _ (List.take_subset 8 digits), hpart _ (List.drop_subset 20 digits)]
  rw [hglue 16, hglue 12, hglue 8, List.take_append_drop]

theorem getD_hyphenated {digits : Bytes} (h : digits.length = 32) :
    (hyphenated digits).length = 36 ∧ (hyphenated digits).getD 8 0 = 45 ∧
      (hyphenated digits).getD 13 0 = 45 ∧ (hyphenated digits).getD 18 0 = 45 ∧
      (hyphenated digits).getD 23 0 = 45 := by
  have hskip : ∀ (part rest : Bytes) (n : Nat), part.length = n → ∀ i,
      (part ++ 45 :: rest).getD (n + 1 + i) 0 = rest.getD i 0 := by
    intro part rest n hn i
    rw [List.getD_append_right _ _ _ _ (by omega), hn, show n + 1 + i - n = i + 1 by omega,
      List.getD_cons_succ]
  have hhere : ∀ (part rest : Bytes) (n : Nat), part.length = n →
      (part ++ 45 :: rest).getD n 0 = 45 := by
    intro part rest n hn
    rw [List.getD_append_right _ _ _ _ hn.le, hn, Nat.sub_self, List.getD_cons_zero]
  have h₀ : (digits.take 8).length = 8 := by rw [List.length_take]; omega
  have h₁ : ∀ m ≤ 28, ((digits.drop m).take 4).length = 4 := by
    intro m hm
    rw [List.length_take, List.length_drop]
    omega
  refine ⟨?_, hhere _ _ 8 h₀, ?_, ?_, ?_⟩
  · simp only [hyphenated, List.length_append, List.length_cons, h₀, h₁ 8 (by decide),
      h₁ 12 (by decide), h₁ 16 (by decide), List.length_drop, h]
  · rw [hyphenated, hskip _ _ 8 h₀ 4, hhere _ _ 4 (h₁ 8 (by decide))]
  · rw [hyphenated, hskip _ _ 8 h₀ 9, hskip _ _ 4 (h₁ 8 (by decide)) 4,
      hhere _ _ 4 (h₁ 12 (by decide))]
  · rw [hyphenated, hskip _ _ 8 h₀ 14, hskip _ _ 4 (h₁ 8 (by decide)) 9,
      hskip _ _ 4 (h₁ 12 (by decide)) 4, hhere _ _ 4 (h₁ 16 (by decide))]

theorem length_filter_hyphen (raw : Bytes) :
    (raw.filter (· ≠ 45)).length + raw.count 45 = raw.length := by
  rw [← List.countP_eq_length_filter, List.count, add_comm,
    List.length_eq_countP_add_countP (· == 45)]
  simp [beq_eq_decide]

/-- The parts of a UUID as `canonicalUUID` cuts them. -/
theorem hyphenated_eq {encoded : Bytes} (h : encoded.length = 32) :
    (encoded.take 8).drop 0 ++ ascii "-" ++ (encoded.take 12).drop 8 ++ ascii "-" ++
      (encoded.take 16).drop 12 ++ ascii "-" ++ (encoded.take 20).drop 16 ++ ascii "-" ++
      (encoded.take 32).drop 20 = hyphenated encoded := by
  have hdash : ascii "-" = [45] := by decide
  rw [List.take_of_length_le h.le]
  simp [hyphenated, hdash, List.drop_take]

section

variable (h : canonicalUUID raw = .ok canonical)
include h

/-- An accepted user ID has its hyphens, and its canonical text is that of sixteen bytes which
are not all zero: the digits, with zeros for the missing ones. -/
theorem canonicalUUID_eq :
    (raw.length = 36 ∧ raw.getD 8 0 = 45 ∧ raw.getD 13 0 = 45 ∧ raw.getD 18 0 = 45 ∧
      raw.getD 23 0 = 45) ∧
    ∃ digits decoded : Bytes, hexDecode (raw.filter (· ≠ 45)) = some digits ∧
      decoded = digits ++ List.replicate (16 - digits.length) 0 ∧ decoded.length = 16 ∧
      ¬(decoded.all (· = 0)) = true ∧ canonical = hyphenated (hexEncode decoded) := by
  simp only [canonicalUUID, ite_invalid_eq_ok, Bool.or_eq_true, decide_eq_true_eq, not_or,
    not_not] at h
  obtain ⟨⟨⟨⟨⟨hlength, h8⟩, h13⟩, h18⟩, h23⟩, h⟩ := h
  refine ⟨⟨hlength, h8, h13, h18, h23⟩, ?_⟩
  split at h
  · cases h
  · rename_i digits hdigits
    obtain ⟨hzero, h⟩ := ite_invalid_eq_ok.mp h
    have hsixteen : (digits ++ List.replicate (16 - digits.length) 0).length = 16 := by
      -- the hyphens leave at most 32 digits
      have hcount := four_le_count_hyphen h8 h13 h18 h23
      have hhex := length_of_hexDecode hdigits
      have hfilter := length_filter_hyphen raw
      rw [List.length_append, List.length_replicate]
      omega
    refine ⟨digits, _, hdigits, rfl, hsixteen, hzero, ?_⟩
    rw [← hyphenated_eq (by rw [length_hexEncode, hsixteen])]
    exact (Except.ok.inj h).symm

/-- **A user ID keeps its digits exactly if it has all of them.**  Further hyphens are dropped
like the four that belong there, and zeros take the place of the missing digits. -/
theorem canonicalUUID_digits :
    canonical.filter (· ≠ 45) = (raw.filter (· ≠ 45)).map lowerASCII ↔
      (raw.filter (· ≠ 45)).length = 32 := by
  obtain ⟨-, digits, decoded, hdigits, hdecoded, hlength, -, hcanonical⟩ := canonicalUUID_eq h
  have hfilter : canonical.filter (· ≠ 45) = hexEncode decoded := by
    rw [hcanonical]
    exact filter_hyphenated fun c hc => (ne_hyphen_of_mem_hexEncode hc).1
  rw [hfilter]
  constructor
  · intro hsame
    have hlengths := congrArg List.length hsame
    rw [length_hexEncode, hlength, List.length_map] at hlengths
    exact hlengths.symm
  · intro hall
    have hsixteen : digits.length = 16 := by
      have hhex := length_of_hexDecode hdigits
      omega
    rw [hdecoded, hsixteen, Nat.sub_self, List.replicate_zero, List.append_nil]
    exact hexEncode_of_hexDecode hdigits

/-- **A canonical user ID is canonicalised to itself.** -/
theorem canonicalUUID_canonical : canonicalUUID canonical = .ok canonical := by
  obtain ⟨-, -, decoded, -, -, hlength, hzero, rfl⟩ := canonicalUUID_eq h
  have hdigits : (hexEncode decoded).length = 32 := by rw [length_hexEncode, hlength]
  obtain ⟨h36, h8, h13, h18, h23⟩ := getD_hyphenated hdigits
  have hfilter : (hyphenated (hexEncode decoded)).filter (· ≠ 45) = hexEncode decoded :=
    filter_hyphenated fun c hc => (ne_hyphen_of_mem_hexEncode hc).1
  simp only [canonicalUUID, h36, h8, h13, h18, h23, hfilter, hexDecode_hexEncode, hlength,
    Nat.sub_self, List.replicate_zero, List.append_nil, if_neg hzero]
  rw [hyphenated_eq hdigits]
  rfl

theorem validUTF8_canonicalUUID : validUTF8 canonical = true := by
  obtain ⟨-, -, decoded, -, -, -, -, rfl⟩ := canonicalUUID_eq h
  apply validUTF8_of_ascii
  intro b hb
  by_cases hhyphen : b = 45
  · rw [hhyphen]
    decide
  · -- what is no hyphen is a digit
    have hmem : b ∈ (hyphenated (hexEncode decoded)).filter (· ≠ 45) :=
      List.mem_filter.mpr ⟨hb, decide_eq_true hhyphen⟩
    rw [filter_hyphenated fun c hc => (ne_hyphen_of_mem_hexEncode hc).1] at hmem
    exact (ne_hyphen_of_mem_hexEncode hmem).2

end

/-! ## Reality -/

/-- What the two texts of a Reality part satisfy. -/
structure Reality.Normal (unicode : Unicode) (r : Reality) : Prop where
  renew : newReality unicode r.publicKey r.shortID = .ok r
  publicKey : validUTF8 r.publicKey = true
  shortID : validUTF8 r.shortID = true

/-- **A Reality part goes through its constructor unchanged.** -/
theorem newReality_normal {publicKey shortID : Bytes} {r : Reality}
    (h : newReality unicode publicKey shortID = .ok r) : r.Normal unicode := by
  unfold newReality at h
  split at h
  · cases h
  · rename_i decoded hdecoded
    obtain ⟨hkey, h⟩ := ite_invalid_eq_ok.mp h
    obtain ⟨hlength, h⟩ := ite_invalid_eq_ok.mp h
    split at h
    · cases h
    · rename_i bytes hhex
      have hlower : toLower unicode shortID = shortID.map lowerASCII :=
        convertCase_of_ascii (ascii_of_hexDecode hhex)
      have hspec : ∀ b ∈ shortID.map lowerASCII, b.val < 0x80 ∧ ¬(65 ≤ b.val ∧ b.val ≤ 90) := by
        intro b hb
        obtain ⟨c, hc, rfl⟩ := List.mem_map.mp hb
        exact lowerASCII_spec (ascii_of_hexDecode hhex c hc)
      rw [hlower] at h
      obtain rfl := Except.ok.inj h
      refine ⟨?_, ?_, validUTF8_of_ascii fun b hb => (hspec b hb).1⟩
      · simp only [newReality, hdecoded, if_neg hkey, List.length_map, if_neg hlength,
          hexDecode_map_lowerASCII hhex, toLower_eq_self hspec]
      · simp only [Bool.or_eq_true, decide_eq_true_eq, not_or, not_not] at hkey
        rw [← hkey.2]
        apply validUTF8_of_ascii
        intro b hb
        have hascii : ∀ b ∈ base64URL, b.val < 0x80 := by decide +kernel
        exact hascii b (mem_of_mem_encodeDigits alphabet_base64URL hb)

/-! ## Ports -/

theorem parsePort_itoa {low : Int} (hlow : low ≤ port) (hpos : 0 ≤ port) (hhigh : port ≤ 65535) :
    parsePort low (itoa port) = some port := by
  rw [parsePort, atoi_itoa hpos (by omega), Option.filter_some, if_pos]
  simp [hlow, hhigh]

theorem colon_notMem_itoa (h : 0 ≤ port) : 58 ∉ itoa port := by
  intro hmem
  have hdigit := digit_of_mem_itoa h hmem
  exact absurd hdigit (by decide)

theorem splitOn_itoa (h : 0 ≤ port) : (itoa port).splitOn 58 = [itoa port] :=
  List.splitOn_eq_singleton (colon_notMem_itoa h)

/-- The text of a range with both ends written out. -/
theorem splitOn_range {first last : Int} (hfirst : 0 ≤ first) (hlast : 0 ≤ last) :
    (itoa first ++ 58 :: itoa last).splitOn 58 = [itoa first, itoa last] := by
  rw [List.splitOn_append_cons_self, splitOn_itoa hfirst, splitOn_itoa hlast]
  rfl

theorem parsePortRange_range_text {first last : Int} (hfirst : 1 ≤ first) (hle : first ≤ last)
    (hlast : last ≤ 65535) : parsePortRange (itoa first ++ 58 :: itoa last) =
      .ok (first, last) := by
  rw [parsePortRange, splitOn_range (by omega) (by omega)]
  simp only [parsePort_itoa hfirst (by omega) (hle.trans hlast),
    parsePort_itoa hle (by omega) hlast]

theorem parsePortRange_portRangeText {first last : Int} (hfirst : 1 ≤ first) (hle : first ≤ last)
    (hlast : last ≤ 65535) : parsePortRange (portRangeText first last) = .ok (first, last) := by
  have hcolon : ascii ":" = [58] := by decide
  unfold portRangeText
  split_ifs with hsame
  · rw [parsePortRange, splitOn_itoa (by omega)]
    simp only [parsePort_itoa hfirst (by omega) (hle.trans hlast), hsame]
  · rw [hcolon, List.append_assoc]
    exact parsePortRange_range_text hfirst hle hlast

/-- Port entries that parse as the collected ranges are collected to the same texts. -/
theorem collectPorts_collected {write : Bytes → Bytes}
    (hwrite : ∀ first last : Int, 1 ≤ first → first ≤ last → last ≤ 65535 →
      parsePortRange (write (portRangeText first last)) = .ok (first, last))
    {count : Int} {entries collected : List Bytes}
    (h : collectPorts count entries = .ok collected) :
    collectPorts count (collected.map write) = .ok collected := by
  obtain ⟨ranges, hdenote, hfits, rfl⟩ := collectPorts_eq_ok_iff.mp h
  refine collectPorts_eq_ok_iff.mpr ⟨ranges, ?_, hfits, rfl⟩
  rw [Denote, rangeTexts, List.map_map, List.forall₂_map_left_iff, List.forall₂_same]
  intro range hrange
  obtain ⟨hfirst, hle, hlast⟩ := hdenote.bounds range hrange
  exact hwrite range.1 range.2 hfirst hle hlast

end Egressfox.Endpoint
