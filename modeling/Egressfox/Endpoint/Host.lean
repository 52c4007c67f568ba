import Egressfox.Lib.Cut
import Egressfox.Endpoint.Normalized

/-!
# The admitted hosts

What `normalizeHost` accepts.

Some texts get through that the checks were meant to keep out (`Overlooked`).  The brackets are
forgotten once their content is no IP address, so a DNS name, or an IPv4 address with a dot behind
it, is accepted in brackets; and a name is checked in lower case, so a character outside ASCII with
an ASCII lower-case form is taken for that form.  `lawfulHost_iff` says that there are no others.
-/

namespace Egressfox.Endpoint

open Lib

/-! ## Names -/

/-- An ASCII letter, a digit or a hyphen. -/
def IsLabelByte (b : Byte) : Prop :=
  97 ≤ b.val ∧ b.val ≤ 122 ∨ 65 ≤ b.val ∧ b.val ≤ 90 ∨ 48 ≤ b.val ∧ b.val ≤ 57 ∨ b = 45

/-- A DNS name: at most 253 letters, digits, hyphens and dots that form labels of one to 63
characters, none of which starts or ends with a hyphen, and that do not read as an IP
address. -/
structure IsDNSName (text : Bytes) : Prop where
  length_le : text.length ≤ 253
  chars : ∀ b ∈ text, IsLabelByte b ∨ b = 46
  labels : ∀ label ∈ text.splitOn 46, label ≠ [] ∧ label.length ≤ 63 ∧
    label.head? ≠ some 45 ∧ label.getLast? ≠ some 45
  not_address : parseAddr text = none

/-- A name as it is checked: at most 253 characters that form labels in lower case. -/
def IsLowerName (text : Bytes) : Prop :=
  text.length ≤ 253 ∧ ∀ label ∈ text.splitOn 46, IsLabel label

theorem isLowerName_iff {text : Bytes} : IsLowerName text ↔
    text.length ≤ 253 ∧ (text.splitOn 46).findSome? checkLabel = none := by
  simp only [IsLowerName, List.findSome?_eq_none_iff, checkLabel_eq_none_iff]

theorem IsLowerName.ne_nil {text : Bytes} (h : IsLowerName text) : text ≠ [] := by
  rintro rfl
  exact (h.2 [] (by simp)).ne_nil rfl

/-- Names are compared and checked up to letter case. -/
theorem isDNSName_of_lower {text : Bytes} (hlength : text.length ≤ 253)
    (hlabels : ((text.map lowerASCII).splitOn 46).findSome? checkLabel = none)
    (haddress : parseAddr text = none) : IsDNSName text := by
  have hdot : ∀ b : Byte, lowerASCII b = 46 ↔ b = 46 := by decide +kernel
  have hdash : ∀ b : Byte, lowerASCII b = 45 ↔ b = 45 := by decide +kernel
  refine ⟨hlength, ?_, ?_, haddress⟩
  · intro b hb
    have hname : IsNameByte (lowerASCII b) :=
      isNameByte_of_labels hlabels (List.mem_map_of_mem hb)
    unfold IsNameByte at hname
    rw [hdash, hdot] at hname
    unfold IsLabelByte
    by_cases hletter : 65 ≤ b.val ∧ b.val ≤ 90
    · exact .inl (.inr (.inl hletter))
    · rw [lowerASCII_eq_self hletter] at hname
      rcases hname with hname | hname | hname | hname
      · exact .inl (.inl hname)
      · exact .inl (.inr (.inr (.inl hname)))
      · exact .inl (.inr (.inr (.inr hname)))
      · exact .inr hname
  · intro label hlabel
    rw [splitOn_map hdot, List.findSome?_eq_none_iff] at hlabels
    obtain ⟨hne, hle, -, hhead, hlast⟩ :=
      checkLabel_eq_none_iff.mp (hlabels _ (List.mem_map_of_mem hlabel))
    rw [List.length_map] at hle
    refine ⟨fun hnil => hne (by rw [hnil]; rfl), hle, fun h => hhead ?_, fun h => hlast ?_⟩
    · rw [List.head?_map, h]
      rfl
    · rw [List.getLast?_map, h]
      rfl

/-! ## The law -/

/-- The law of admission for one text: in brackets it is an IPv6 address, and as a DNS name it
is one, up to a trailing dot. -/
structure LawfulHost (unicode : Unicode) (raw : Bytes) (field : String) : Prop where
  brackets : ∀ inner, raw = ascii "[" ++ inner ++ ascii "]" →
    (normalizeHost unicode raw field).isOk = true →
    ∃ a, parseAddr inner = some a ∧ a.is4 = false
  names : ∀ text, normalizeHost unicode raw field = .ok (text, .dns) → IsDNSName (trimDot raw)

/-- The texts that get through: in brackets, an IP address with a dot behind it or a name; and a
name outside ASCII whose lower case is one in ASCII. -/
inductive Overlooked (unicode : Unicode) : Bytes → Prop where
  | brackets {inner : Bytes} : parseAddr inner = none → containsAny inner (ascii ":[]") = false →
      (parseAddr (trimDot inner)).isSome = true ∨ IsLowerName (toLower unicode (trimDot inner)) →
      Overlooked unicode (ascii "[" ++ inner ++ ascii "]")
  | name {raw : Bytes} : (∃ b ∈ raw, 0x80 ≤ b.val) → containsAny raw (ascii ":[]") = false →
      hasSurroundingSpace raw = false → IsLowerName (toLower unicode (trimDot raw)) →
      Overlooked unicode raw

theorem ascii_of_isAddrByte {b : Byte} (h : IsAddrByte b) : b.val < 0x80 := by
  have hall : ∀ b : Byte, (hexValue b).isSome = true ∨ b = 58 ∨ b = 46 → b.val < 0x80 := by
    decide +kernel
  exact hall b h

/-- A trailing dot is an ASCII character. -/
theorem ascii_of_trimDot {raw : Bytes} (h : ∀ b ∈ trimDot raw, b.val < 0x80) :
    ∀ b ∈ raw, b.val < 0x80 := by
  unfold trimDot at h
  split at h
  next hlast =>
    obtain ⟨front, rfl⟩ := List.getLast?_eq_some_iff.mp hlast
    rw [List.dropLast_concat] at h
    intro b hb
    rcases List.mem_append.mp hb with hb | hb
    · exact h b hb
    · rw [List.mem_singleton.mp hb]
      decide
  next => exact h

/-- The text in brackets is determined. -/
theorem eq_of_brackets {inner text : Bytes}
    (h : 91 :: text ++ [93] = ascii "[" ++ inner ++ ascii "]") :
    inner = text := by
  have hopen : ascii "[" = [91] := by decide
  have hclose : ascii "]" = [93] := by decide
  rw [hopen, hclose] at h
  simpa using h.symm

theorem head_of_brackets {inner : Bytes} : (ascii "[" ++ inner ++ ascii "]").head? = some 91 := by
  have hopen : ascii "[" = [91] := by decide
  simp [hopen]

theorem ipKind_ne_dns (a : Addr) : ipKind a ≠ .dns := by
  unfold ipKind
  split <;> decide

theorem IsDNSName.ascii {text : Bytes} (h : IsDNSName text) : ∀ b ∈ text, b.val < 0x80 := by
  intro b hb
  rcases h.chars b hb with hchar | rfl
  · unfold IsLabelByte at hchar
    rcases hchar with hchar | hchar | hchar | rfl
    · omega
    · omega
    · omega
    · decide
  · decide

section

variable {unicode : Unicode} {raw : Bytes} {field : String}

theorem normalizeName_of_isLowerName (h : IsLowerName (toLower unicode raw)) :
    normalizeName unicode raw field = .ok (toLower unicode raw, .dns) := by
  obtain ⟨hlength, hlabels⟩ := isLowerName_iff.mp h
  have hlimits : ¬((toLower unicode raw).length = 0 ||
      253 < (toLower unicode raw).length) = true := by
    simp [hlength, h.ne_nil]
  simp only [normalizeName, if_neg hlimits, hlabels]

/-- A text outside ASCII and without colons is no IP address. -/
theorem parseAddr_eq_none {b : Byte} (hb : b ∈ raw) (hbyte : 0x80 ≤ b.val)
    (hcolon : containsAny raw (ascii ":[]") = false) : parseAddr raw = none := by
  rw [containsAny, List.any_eq_false] at hcolon
  cases h : parseAddr raw with
  | none => rfl
  | some a =>
    have hzone := zone_eq_nil_of_parseAddr h fun hmem => hcolon 58 hmem (by decide)
    exact absurd (ascii_of_isAddrByte (isAddrByte_of_parseAddr h hzone b hb)) (by omega)

/-- A name outside ASCII with an ASCII lower case is accepted. -/
theorem normalizeHost_of_name (houtside : ∃ b ∈ raw, 0x80 ≤ b.val)
    (hseparators : containsAny raw (ascii ":[]") = false)
    (hspace : hasSurroundingSpace raw = false)
    (hname : IsLowerName (toLower unicode (trimDot raw))) :
    normalizeHost unicode raw field = .ok (toLower unicode (trimDot raw), .dns) := by
  obtain ⟨b, hb, hbyte⟩ := houtside
  obtain ⟨c, hc, hbyte'⟩ : ∃ c ∈ trimDot raw, 0x80 ≤ c.val := by
    by_contra hnone
    push Not at hnone
    exact absurd (ascii_of_trimDot hnone b hb) (by omega)
  have hfree := hseparators
  rw [containsAny, List.any_eq_false] at hfree
  have hbrackets : ¬(raw.head? = some 91 || raw.getLast? = some 93) = true := by
    simp only [Bool.or_eq_true, decide_eq_true_eq, not_or]
    exact ⟨fun h => hfree 91 (List.mem_of_mem_head? h) (by decide),
      fun h => hfree 93 (List.mem_of_mem_getLast? h) (by decide)⟩
  have htrim : containsAny (trimDot raw) (ascii ":[]") = false := by
    rw [containsAny, List.any_eq_false]
    exact fun d hd => hfree d (trimDot_subset raw hd)
  rw [normalizeHost, if_neg (List.ne_nil_of_mem hb), hspace, if_neg Bool.false_ne_true,
    if_neg hbrackets, normalizeBare, parseAddr_eq_none hb hbyte hseparators]
  simp only [hseparators, Bool.false_eq_true, if_false, parseAddr_eq_none hc hbyte' htrim]
  exact normalizeName_of_isLowerName hname

/-- What stands in brackets is accepted without them. -/
theorem normalizeHost_of_brackets {inner : Bytes} (hparse : parseAddr inner = none)
    (hseparators : containsAny inner (ascii ":[]") = false)
    (h : (parseAddr (trimDot inner)).isSome = true ∨
      IsLowerName (toLower unicode (trimDot inner))) :
    (normalizeHost unicode (ascii "[" ++ inner ++ ascii "]") field).isOk = true := by
  have hne : inner ≠ [] := by
    rintro rfl
    rcases h with h | h
    · exact absurd h (by decide)
    · exact h.ne_nil rfl
  have hraw : ascii "[" ++ inner ++ ascii "]" = 91 :: inner ++ [93] := by simp [ascii]
  have hlast : (91 :: inner ++ [93]).getLast? = some 93 := List.getLast?_concat
  have hspace : hasSurroundingSpace (91 :: inner ++ [93]) = false :=
    hasSurroundingSpace_eq_false (by simp) (by rw [hlast]; simp)
  have hlength : ¬(91 :: inner ++ [93]).length < 3 := by
    have := List.length_pos_iff.mpr hne
    simp only [List.cons_append, List.length_cons, List.length_append, List.length_nil]
    omega
  rw [hraw, normalizeHost, if_neg (by simp), hspace, if_neg Bool.false_ne_true,
    if_pos (by simp), if_neg (by rw [hlast]; simpa using hlength)]
  simp only [List.cons_append, List.tail_cons, List.dropLast_concat, normalizeBare, hparse,
    hseparators, Bool.false_eq_true, if_false]
  cases hdotted : parseAddr (trimDot inner) with
  | some a => rfl
  | none =>
    rw [hdotted] at h
    simp only [normalizeName_of_isLowerName (h.resolve_left Bool.false_ne_true)]
    rfl

/-- A text that is not overlooked obeys the law. -/
theorem lawfulHost_of_not_overlooked (h : ¬Overlooked unicode raw) :
    LawfulHost unicode raw field where
  brackets := by
    intro inner hraw hok
    obtain ⟨⟨text, kind⟩, hresult⟩ := exists_of_isOk hok
    obtain ⟨bare, bracketed, hbare, hreading⟩ := reading_of_normalizeHost hresult
    cases hbare with
    | plain hhead => exact absurd (by rw [hraw]; exact head_of_brackets) hhead
    | bracketed =>
      obtain rfl := eq_of_brackets hraw
      rw [hraw] at h
      cases hreading with
      | address hparse _ h4 => exact ⟨_, hparse, h4 rfl⟩
      | dotted hparse hseparators hdotted =>
        exact absurd (.brackets hparse hseparators (.inl (by rw [hdotted]; rfl))) h
      | name hparse hseparators _ hlength hlabels =>
        exact absurd (.brackets hparse hseparators
          (.inr (isLowerName_iff.mpr ⟨hlength, hlabels⟩))) h
  names := by
    intro text hresult
    obtain ⟨bare, bracketed, hbare, hreading⟩ := reading_of_normalizeHost hresult
    generalize hkind : HostKind.dns = kind at hreading
    cases hreading with
    | address | dotted => exact absurd hkind.symm (ipKind_ne_dns _)
    | name hparse hseparators hname hlength hlabels =>
      have hlower := isLowerName_iff.mpr ⟨hlength, hlabels⟩
      cases hbare with
      | bracketed =>
        refine absurd ?_ h
        have hover : Overlooked unicode _ := .brackets hparse hseparators (.inr hlower)
        simpa [ascii] using hover
      | plain =>
        have hascii : ∀ b ∈ raw, b.val < 0x80 := by
          by_contra houtside
          push Not at houtside
          simp only [normalizeHost, ite_invalid_eq_ok, Bool.not_eq_true] at hresult
          exact h (.name houtside hseparators hresult.2.1 hlower)
        have hmap : toLower unicode (trimDot raw) = (trimDot raw).map lowerASCII :=
          convertCase_of_ascii fun b hb => hascii b (trimDot_subset raw hb)
        rw [hmap] at hlabels hlength
        rw [List.length_map] at hlength
        exact isDNSName_of_lower hlength hlabels hname

end

/-- **The law of admission holds for a text exactly if the text is not one of those
overlooked.** -/
theorem lawfulHost_iff (unicode : Unicode) (raw : Bytes) (field : String) :
    LawfulHost unicode raw field ↔ ¬Overlooked unicode raw := by
  refine ⟨fun hlaw hover => ?_, lawfulHost_of_not_overlooked⟩
  cases hover with
  | brackets hparse hseparators hinner =>
    obtain ⟨a, ha, -⟩ :=
      hlaw.brackets _ rfl (normalizeHost_of_brackets hparse hseparators hinner)
    rw [hparse] at ha
    cases ha
  | name houtside hseparators hspace hname =>
    have hdns := hlaw.names _ (normalizeHost_of_name houtside hseparators hspace hname)
    obtain ⟨b, hb, hbyte⟩ := houtside
    exact absurd (ascii_of_trimDot hdns.ascii b hb) (by omega)

namespace Sample

/-- Lower case in ASCII, and of the Kelvin sign. -/
def kelvin : Unicode where
  toLower rune := if rune = 0x212A then 0x6B else if 65 ≤ rune ∧ rune ≤ 90 then rune + 32 else rune
  toUpper := id
  isFormat _ := false

/-- `[example.com]`, and a name that starts with the Kelvin sign. -/
def bracketedName : Bytes := ascii "[example.com]"

def kelvinName : Bytes := [0xE2, 0x84, 0xAA] ++ ascii ".example"

/-- A DNS name is accepted in brackets, and one that is not in ASCII. -/
theorem unlawful_hosts_accepted :
    normalizeHost kelvin bracketedName "address.host" = .ok (ascii "example.com", .dns) ∧
      parseAddr (ascii "example.com") = none ∧
      normalizeHost kelvin kelvinName "address.host" = .ok (ascii "k.example", .dns) ∧
      ¬IsDNSName (trimDot kelvinName) := by
  refine ⟨by decide +kernel, by decide +kernel, by decide +kernel, fun h => ?_⟩
  exact absurd (h.ascii 0xE2 (by decide +kernel)) (by decide)

end Sample

end Egressfox.Endpoint
