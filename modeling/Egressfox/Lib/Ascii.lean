import Egressfox.Lib.Text

/-!
# ASCII texts

What the functions of `Egressfox.Lib.Text` do to texts of ASCII characters: such a text is
valid UTF-8, a printable one has no surrounding white space, and lower-casing is byte-wise.

Lower-casing another text can give an ASCII text.  `toLower_eq_self_of_numeric` needs to know
of the Unicode tables that this never gives a digit or a dot where there was none, which is
`Unicode.KeepsNumerals`.  That the tables agree with ASCII on ASCII characters is
`Unicode.KeepsASCII`; the case of ASCII letters then makes no difference in any text
(`toLower_map_lowerASCII`).
-/

namespace Egressfox.Lib

/-- No code point outside ASCII has a digit or a dot as its lower-case form.  (The only ones
with an ASCII lower-case form at all are `U+0130` and `U+212A`.) -/
def Unicode.KeepsNumerals (unicode : Unicode) : Prop :=
  ∀ rune, 0x80 ≤ rune →
    unicode.toLower rune ≠ 46 ∧ ¬(48 ≤ unicode.toLower rune ∧ unicode.toLower rune ≤ 57)

/-- On ASCII characters the table of lower-case forms is that of ASCII. -/
def Unicode.KeepsASCII (unicode : Unicode) : Prop :=
  ∀ b : Byte, b.val < 0x80 → unicode.toLower b.val = (lowerASCII b).val

/-! ## Decoding -/

variable {a b : Byte} {text : Bytes} {unicode : Unicode}

theorem decodeRune_of_ascii (h : a.val < 0x80) (rest : Bytes) :
    decodeRune (a :: rest) = some (some a.val, rest) := by
  unfold decodeRune
  exact if_pos h

/-- **An ASCII text is valid UTF-8.** -/
theorem validUTF8_of_ascii (h : ∀ b ∈ text, b.val < 0x80) : validUTF8 text = true := by
  have hrunes : ∀ (fuel : Nat) (text : Bytes), (∀ b ∈ text, b.val < 0x80) →
      (runesUpTo fuel text).all Option.isSome = true := by
    intro fuel
    induction fuel with
    | zero => intro text _; rfl
    | succ fuel ih =>
      intro text htext
      cases text with
      | nil => rfl
      | cons a rest =>
        rw [runesUpTo, decodeRune_of_ascii (htext a (by simp)), List.all_cons,
          ih rest fun b hb => htext b (by simp [hb])]
        rfl
  exact hrunes text.length text h

/-- A byte outside ASCII is decoded with bytes outside ASCII, to a code point outside ASCII or
to none. -/
theorem decodeRune_longer (ha : ¬a.val < 0x80) (rest : Bytes) :
    ∃ rune taken rest', decodeRune (a :: rest) = some (rune, rest') ∧ rest = taken ++ rest' ∧
      (∀ b ∈ taken, ¬b.val < 0x80) ∧ 0x80 ≤ rune.getD runeError := by
  have herror : ∀ rest : Bytes, ∃ rune taken rest', some (none, rest) = some (rune, rest') ∧
      rest = taken ++ rest' ∧ (∀ b ∈ taken, ¬b.val < 0x80) ∧ 0x80 ≤ rune.getD runeError :=
    fun rest => ⟨none, [], rest, rfl, rfl, by simp, by decide⟩
  unfold decodeRune
  simp only [if_neg ha]
  rcases rest with _ | ⟨b, rest₂⟩
  · exact herror _
  dsimp only
  split_ifs with h₂
  · refine ⟨_, [b], rest₂, rfl, rfl, ?_⟩
    simp only [isContinuation, Bool.and_eq_true, decide_eq_true_eq] at h₂
    simp only [List.mem_singleton, forall_eq, Option.getD_some]
    omega
  rcases rest₂ with _ | ⟨c, rest₃⟩
  · exact herror _
  dsimp only
  split_ifs with h₃
  · refine ⟨_, [b, c], rest₃, rfl, rfl, ?_⟩
    simp only [isSecond, isContinuation, Bool.and_eq_true, Bool.not_eq_true',
      Bool.and_eq_false_iff, decide_eq_true_eq, decide_eq_false_iff_not, not_lt, not_le] at h₃
    obtain ⟨⟨⟨ha₁, ha₂⟩, ⟨⟨⟨⟨hb₁, hb₂⟩, hE0⟩, -⟩, -⟩, -⟩, hc₁, hc₂⟩ := h₃
    simp only [List.forall_mem_cons, Option.getD_some]
    rcases hE0 with hne | hA0
    · have : a.val ≠ 0xE0 := fun h => hne (Fin.ext h)
      exact ⟨⟨by omega, by omega, by simp⟩, by omega⟩
    · exact ⟨⟨by omega, by omega, by simp⟩, by omega⟩
  rcases rest₃ with _ | ⟨d, rest₄⟩
  · exact herror _
  dsimp only
  split_ifs with h₄
  · refine ⟨_, [b, c, d], rest₄, rfl, rfl, ?_⟩
    simp only [isSecond, isContinuation, Bool.and_eq_true, Bool.not_eq_true',
      Bool.and_eq_false_iff, decide_eq_true_eq, decide_eq_false_iff_not, not_lt, not_le] at h₄
    obtain ⟨⟨⟨⟨ha₁, ha₂⟩, ⟨⟨⟨⟨hb₁, hb₂⟩, -⟩, -⟩, hF0⟩, -⟩, hc₁, hc₂⟩, hd₁, hd₂⟩ := h₄
    simp only [List.forall_mem_cons, Option.getD_some]
    rcases hF0 with hne | h90
    · have : a.val ≠ 0xF0 := fun h => hne (Fin.ext h)
      exact ⟨⟨by omega, by omega, by omega, by simp⟩, by omega⟩
    · exact ⟨⟨by omega, by omega, by omega, by simp⟩, by omega⟩
  · exact herror _

/-- A text that is not ASCII has a code point outside ASCII. -/
theorem exists_rune_outside (h : ¬∀ b ∈ text, b.val < 0x80) :
    ∃ rune ∈ runes text, 0x80 ≤ rune.getD runeError := by
  -- an ASCII byte is one code point, so there is fuel left for the others
  have hrunes : ∀ (fuel : Nat) (text : Bytes), text.length ≤ fuel → (¬∀ b ∈ text, b.val < 0x80) →
      ∃ rune ∈ runesUpTo fuel text, 0x80 ≤ rune.getD runeError := by
    intro fuel
    induction fuel with
    | zero =>
      intro text hlength htext
      obtain rfl := List.length_eq_zero_iff.mp (Nat.le_zero.mp hlength)
      exact absurd (by simp) htext
    | succ fuel ih =>
      intro text hlength htext
      cases text with
      | nil => exact absurd (by simp) htext
      | cons a rest =>
        by_cases ha : a.val < 0x80
        · obtain ⟨rune, hrune, hout⟩ := ih rest (by simpa using hlength) (by
            intro hall
            exact htext (by simpa [ha] using hall))
          rw [runesUpTo, decodeRune_of_ascii ha]
          exact ⟨rune, List.mem_cons_of_mem _ hrune, hout⟩
        · obtain ⟨rune, _, _, hdecode, -, -, hout⟩ := decodeRune_longer ha rest
          rw [runesUpTo, hdecode]
          exact ⟨rune, List.mem_cons_self, hout⟩
  exact hrunes text.length text le_rfl h

/-! ## Lower case -/

theorem lowerASCII_eq_self (h : ¬(65 ≤ b.val ∧ b.val ≤ 90)) : lowerASCII b = b := by
  rw [lowerASCII, if_neg (by simpa using h)]

theorem val_lowerASCII (h : 65 ≤ b.val ∧ b.val ≤ 90) : (lowerASCII b).val = b.val + 32 := by
  rw [lowerASCII, if_pos (by simpa using h)]
  exact Nat.mod_eq_of_lt (by omega)

/-- A lower-cased ASCII character is no upper-case letter. -/
theorem lowerASCII_spec (h : b.val < 0x80) :
    (lowerASCII b).val < 0x80 ∧ ¬(65 ≤ (lowerASCII b).val ∧ (lowerASCII b).val ≤ 90) := by
  by_cases hletter : 65 ≤ b.val ∧ b.val ≤ 90
  · rw [val_lowerASCII hletter]
    omega
  · rw [lowerASCII_eq_self hletter]
    exact ⟨h, hletter⟩

theorem hexValue_lowerASCII (h : (hexValue b).isSome = true) :
    hexValue (lowerASCII b) = hexValue b := by
  by_cases hletter : 65 ≤ b.val ∧ b.val ≤ 90
  · have hrange : b.val ≤ 70 := by
      unfold hexValue at h
      split_ifs at h
      · omega
      · omega
      · omega
      · cases h
    rw [hexValue, hexValue, val_lowerASCII hletter, if_neg (by omega), if_pos (by omega),
      if_neg (by omega), if_neg (by omega), if_pos (by omega)]
    congr 1
  · rw [lowerASCII_eq_self hletter]

/-- The lower-case form of a hexadecimal text stands for the same bytes. -/
theorem hexDecode_map_lowerASCII {decoded : Bytes} (h : hexDecode text = some decoded) :
    hexDecode (text.map lowerASCII) = some decoded := by
  induction text using List.twoStepInduction generalizing decoded with
  | nil => exact h
  | singleton => cases h
  | cons_cons high low rest ih =>
    rw [hexDecode] at h
    split at h
    · rename_i hhigh hlow hrest
      rw [List.map_cons, List.map_cons, hexDecode,
        hexValue_lowerASCII (by rw [hhigh]; rfl), hexValue_lowerASCII (by rw [hlow]; rfl), hhigh,
        hlow, ih hrest]
      exact h
    · cases h

theorem hexDigit_of_hexValue {d : Nat} (h : hexValue b = some d) :
    d < 16 ∧ hexDigit d = lowerASCII b := by
  have hb := b.isLt
  unfold hexValue at h
  split_ifs at h with hdigit hlower hupper
  · obtain rfl := Option.some.inj h
    refine ⟨by omega, Fin.ext ?_⟩
    rw [lowerASCII_eq_self (by omega), hexDigit, if_pos (by omega)]
    simp only [Fin.ofNat]
    omega
  · obtain rfl := Option.some.inj h
    refine ⟨by omega, Fin.ext ?_⟩
    rw [lowerASCII_eq_self (by omega), hexDigit, if_neg (by omega)]
    simp only [Fin.ofNat]
    omega
  · obtain rfl := Option.some.inj h
    refine ⟨by omega, Fin.ext ?_⟩
    rw [val_lowerASCII (by omega), hexDigit, if_neg (by omega)]
    simp only [Fin.ofNat]
    omega

/-- Decoding and encoding puts a hexadecimal text in lower case. -/
theorem hexEncode_of_hexDecode {decoded : Bytes} (h : hexDecode text = some decoded) :
    hexEncode decoded = text.map lowerASCII := by
  induction text using List.twoStepInduction generalizing decoded with
  | nil =>
    obtain rfl := Option.some.inj h
    rfl
  | singleton => cases h
  | cons_cons high low rest ih =>
    rw [hexDecode] at h
    split at h
    · rename_i d e decoded' hhigh hlow hrest
      obtain rfl := Option.some.inj h
      obtain ⟨hd, hdigit⟩ := hexDigit_of_hexValue hhigh
      obtain ⟨he, hdigit'⟩ := hexDigit_of_hexValue hlow
      have hval : (Fin.ofNat 256 (16 * d + e)).val = 16 * d + e :=
        Nat.mod_eq_of_lt (by omega)
      have hcons : hexEncode (Fin.ofNat 256 (16 * d + e) :: decoded') =
          hexDigit ((16 * d + e) / 16) :: hexDigit ((16 * d + e) % 16) :: hexEncode decoded' := by
        rw [hexEncode, List.flatMap_cons, hval]
        rfl
      rw [hcons, ih hrest, show (16 * d + e) / 16 = d by omega,
        show (16 * d + e) % 16 = e by omega, hdigit, hdigit', List.map_cons, List.map_cons]
    · cases h

/-- A text of ASCII characters other than upper-case letters is its own lower-case form. -/
theorem toLower_eq_self (h : ∀ b ∈ text, b.val < 0x80 ∧ ¬(65 ≤ b.val ∧ b.val ≤ 90)) :
    toLower unicode text = text := by
  rw [toLower, convertCase_of_ascii fun b hb => (h b hb).1]
  conv_rhs => rw [← List.map_id text]
  exact List.map_congr_left fun b hb => lowerASCII_eq_self (h b hb).2

/-- The code of a code point outside ASCII ends in a byte outside ASCII. -/
theorem exists_mem_encodeRune {rune : Nat} (h : 0x80 ≤ rune) :
    ∃ b ∈ encodeRune rune, 0x80 ≤ b.val := by
  refine ⟨Fin.ofNat 256 (0x80 + rune % 64), ?_, ?_⟩
  · unfold encodeRune
    rw [if_neg (by omega)]
    split_ifs
    · simp
    · simp
    · simp
  · simp only [Fin.ofNat]
    omega

/-- A text whose lower-case form consists of digits and dots is that form. -/
theorem toLower_eq_self_of_numeric (hunicode : unicode.KeepsNumerals)
    (h : ∀ b ∈ toLower unicode text, 48 ≤ b.val ∧ b.val ≤ 57 ∨ b = 46) :
    toLower unicode text = text := by
  have hascii : ∀ b ∈ text, b.val < 0x80 := by
    by_contra hnot
    obtain ⟨rune, hrune, hout⟩ := exists_rune_outside hnot
    have hlower : toLower unicode text =
        (runes text).flatMap fun r => encodeRune (unicode.toLower (r.getD runeError)) := by
      rw [toLower, convertCase, if_neg (by simpa using hnot)]
    have hmem : ∀ b ∈ encodeRune (unicode.toLower (rune.getD runeError)),
        48 ≤ b.val ∧ b.val ≤ 57 ∨ b = 46 := by
      intro b hb
      apply h
      rw [hlower]
      exact List.mem_flatMap.mpr ⟨rune, hrune, hb⟩
    obtain ⟨hdot, hdigit⟩ := hunicode _ hout
    generalize unicode.toLower (rune.getD runeError) = lower at hmem hdot hdigit
    by_cases hsmall : lower < 0x80
    · have hb := hmem (Fin.ofNat 256 lower) (by rw [encodeRune, if_pos hsmall]; simp)
      have hval : (Fin.ofNat 256 lower).val = lower := Nat.mod_eq_of_lt (by omega)
      rcases hb with hb | hb
      · rw [hval] at hb
        exact hdigit hb
      · have := congrArg Fin.val hb
        rw [hval] at this
        exact hdot this
    · obtain ⟨b, hb, hbig⟩ := exists_mem_encodeRune (not_lt.mp hsmall)
      rcases hmem b hb with hb | rfl
      · omega
      · exact absurd hbig (by decide)
  have hlower : toLower unicode text = text.map lowerASCII := convertCase_of_ascii hascii
  rw [hlower] at h ⊢
  conv_rhs => rw [← List.map_id text]
  refine List.map_congr_left fun b hb => ?_
  have hnumeric := h (lowerASCII b) (List.mem_map_of_mem hb)
  by_cases hletter : 65 ≤ b.val ∧ b.val ≤ 90
  · -- the lower-case form of a letter is a letter
    have hval := val_lowerASCII hletter
    rcases hnumeric with hnumeric | hnumeric
    · omega
    · rw [hnumeric] at hval
      exact absurd hval (by have : (46 : Byte).val = 46 := rfl; omega)
  · exact lowerASCII_eq_self hletter

/-! ### Letter case in other texts -/

/-- A code point with an ASCII letter in lower case. -/
def lowerRune (rune : Nat) : Nat :=
  if rune < 0x80 then (lowerASCII (Fin.ofNat 256 rune)).val else rune

theorem lowerASCII_of_continuation (h : isContinuation b = true) : lowerASCII b = b := by
  simp only [isContinuation, Bool.and_eq_true, decide_eq_true_eq] at h
  exact lowerASCII_eq_self (by omega)

@[simp] theorem isContinuation_lowerASCII (b : Byte) :
    isContinuation (lowerASCII b) = isContinuation b := by
  revert b
  decide +kernel

@[simp] theorem isSecond_lowerASCII (a b : Byte) : isSecond a (lowerASCII b) = isSecond a b := by
  cases h : isContinuation b with
  | true => rw [lowerASCII_of_continuation h]
  | false => simp [isSecond, h]

theorem lowerRune_of_le {rune : Nat} (h : 0x80 ≤ rune) : lowerRune rune = rune :=
  if_neg (not_lt.mpr h)

/-- A longer sequence has no ASCII letters. -/
theorem decodeRune_cons_map_lowerASCII (ha : ¬a.val < 0x80) (rest : Bytes) :
    decodeRune (a :: rest.map lowerASCII) =
      (decodeRune (a :: rest)).map fun next => (next.1, next.2.map lowerASCII) := by
  unfold decodeRune
  simp only [if_neg ha]
  rcases rest with _ | ⟨b, rest₂⟩
  · rfl
  simp only [List.map_cons, isContinuation_lowerASCII]
  by_cases htwo : (decide (0xC2 ≤ a.val) && decide (a.val ≤ 0xDF) && isContinuation b) = true
  · have hb : isContinuation b = true := by
      simp only [Bool.and_eq_true] at htwo
      exact htwo.2
    rw [if_pos htwo, if_pos htwo, lowerASCII_of_continuation hb]
    rfl
  rw [if_neg htwo, if_neg htwo]
  rcases rest₂ with _ | ⟨c, rest₃⟩
  · rfl
  simp only [List.map_cons, isContinuation_lowerASCII, isSecond_lowerASCII]
  by_cases hthree : (decide (0xE0 ≤ a.val) && decide (a.val ≤ 0xEF) && isSecond a b &&
      isContinuation c) = true
  · have hbc : isContinuation b = true ∧ isContinuation c = true := by
      simp only [isSecond, Bool.and_eq_true] at hthree
      exact ⟨hthree.1.2.1.1.1.1, hthree.2⟩
    rw [if_pos hthree, if_pos hthree, lowerASCII_of_continuation hbc.1,
      lowerASCII_of_continuation hbc.2]
    rfl
  rw [if_neg hthree, if_neg hthree]
  rcases rest₃ with _ | ⟨d, rest₄⟩
  · rfl
  simp only [List.map_cons, isContinuation_lowerASCII]
  by_cases hfour : (decide (0xF0 ≤ a.val) && decide (a.val ≤ 0xF4) && isSecond a b &&
      isContinuation c && isContinuation d) = true
  · have hbcd : isContinuation b = true ∧ isContinuation c = true ∧ isContinuation d = true := by
      simp only [isSecond, Bool.and_eq_true] at hfour
      exact ⟨hfour.1.1.2.1.1.1.1, hfour.1.2, hfour.2⟩
    rw [if_pos hfour, if_pos hfour, lowerASCII_of_continuation hbcd.1,
      lowerASCII_of_continuation hbcd.2.1, lowerASCII_of_continuation hbcd.2.2]
    rfl
  rw [if_neg hfour, if_neg hfour]
  rfl

/-- Lower-casing the ASCII letters of a text lower-cases its first code point and its rest. -/
theorem decodeRune_map_lowerASCII (text : Bytes) :
    decodeRune (text.map lowerASCII) =
      (decodeRune text).map fun next => (next.1.map lowerRune, next.2.map lowerASCII) := by
  cases text with
  | nil => rfl
  | cons a rest =>
    by_cases ha : a.val < 0x80
    · rw [List.map_cons, decodeRune_of_ascii (lowerASCII_spec ha).1, decodeRune_of_ascii ha]
      simp [lowerRune, ha]
    · have hself : lowerASCII a = a := lowerASCII_eq_self (by omega)
      obtain ⟨rune, _, rest', hdecode, -, -, hout⟩ := decodeRune_longer ha rest
      rw [List.map_cons, hself, decodeRune_cons_map_lowerASCII ha, hdecode]
      cases rune with
      | none => rfl
      | some rune => simp [lowerRune_of_le (show 0x80 ≤ rune from hout)]

theorem runes_map_lowerASCII (text : Bytes) :
    runes (text.map lowerASCII) = (runes text).map (Option.map lowerRune) := by
  have hrunes : ∀ (fuel : Nat) (text : Bytes),
      runesUpTo fuel (text.map lowerASCII) = (runesUpTo fuel text).map (Option.map lowerRune) := by
    intro fuel
    induction fuel with
    | zero => exact fun text => rfl
    | succ fuel ih =>
      intro text
      rw [runesUpTo, runesUpTo, decodeRune_map_lowerASCII]
      cases decodeRune text with
      | none => rfl
      | some next => simp [ih]
  rw [runes, runes, List.length_map]
  exact hrunes text.length text

theorem lowerASCII_lowerASCII (b : Byte) : lowerASCII (lowerASCII b) = lowerASCII b := by
  revert b
  decide +kernel

/-- **Lower-casing does not depend on the case of ASCII letters.** -/
theorem toLower_map_lowerASCII (hunicode : unicode.KeepsASCII) (text : Bytes) :
    toLower unicode (text.map lowerASCII) = toLower unicode text := by
  have hbyte : ∀ b : Byte, (lowerASCII b).val < 0x80 ↔ b.val < 0x80 := by decide +kernel
  have hall : ((text.map lowerASCII).all fun b => b.val < 0x80) =
      text.all fun b => b.val < 0x80 := by
    rw [List.all_map]
    congr 1
    funext b
    exact decide_eq_decide.mpr (hbyte b)
  unfold toLower convertCase
  rw [hall]
  split
  · rw [List.map_map]
    exact List.map_congr_left fun b _ => lowerASCII_lowerASCII b
  · rw [runes_map_lowerASCII, List.flatMap_map]
    congr 1
    funext rune
    cases rune with
    | none => rfl
    | some rune =>
      by_cases hrune : rune < 0x80
      · have hval : (Fin.ofNat 256 rune).val = rune := Nat.mod_eq_of_lt (by omega)
        have hlower := hunicode (Fin.ofNat 256 rune) (by rw [hval]; exact hrune)
        have hlower' := hunicode (lowerASCII (Fin.ofNat 256 rune)) (by
          rw [hbyte, hval]
          exact hrune)
        rw [lowerASCII_lowerASCII] at hlower'
        rw [hval] at hlower
        change encodeRune (unicode.toLower (lowerRune rune)) = encodeRune (unicode.toLower rune)
        rw [lowerRune, if_pos hrune, hlower', hlower]
      · simp [lowerRune_of_le (not_lt.mp hrune)]

/-- An ASCII character of a text is a code point of it. -/
theorem mem_runes_of_ascii (hb : b ∈ text) (hascii : b.val < 0x80) : some b.val ∈ runes text := by
  have hrunes : ∀ (fuel : Nat) (text : Bytes), text.length ≤ fuel → b ∈ text →
      some b.val ∈ runesUpTo fuel text := by
    intro fuel
    induction fuel with
    | zero =>
      intro text hlength hb
      rw [List.length_eq_zero_iff.mp (Nat.le_zero.mp hlength)] at hb
      cases hb
    | succ fuel ih =>
      intro text hlength hb
      cases text with
      | nil => cases hb
      | cons a rest =>
        rw [List.length_cons] at hlength
        by_cases ha : a.val < 0x80
        · rw [runesUpTo, decodeRune_of_ascii ha]
          rcases List.mem_cons.mp hb with rfl | hb
          · exact List.mem_cons_self
          · exact List.mem_cons_of_mem _ (ih rest (by omega) hb)
        · -- a longer sequence takes no ASCII characters
          obtain ⟨rune, taken, rest', hdecode, rfl, htaken, -⟩ := decodeRune_longer ha rest
          rw [runesUpTo, hdecode]
          rw [List.length_append] at hlength
          refine List.mem_cons_of_mem _ (ih rest' (by omega) ?_)
          rcases List.mem_cons.mp hb with rfl | hb
          · exact absurd hascii ha
          · exact (List.mem_append.mp hb).resolve_left fun hb => htaken b hb hascii
  exact hrunes text.length text le_rfl hb

/-- The ASCII characters of a text are found in its lower-case form. -/
theorem lowerASCII_mem_toLower (hunicode : unicode.KeepsASCII) (hb : b ∈ text)
    (hascii : b.val < 0x80) : lowerASCII b ∈ toLower unicode text := by
  unfold toLower convertCase
  split
  · exact List.mem_map_of_mem hb
  · refine List.mem_flatMap.mpr ⟨some b.val, mem_runes_of_ascii hb hascii, ?_⟩
    rw [Option.getD_some, hunicode b hascii, encodeRune, if_pos (lowerASCII_spec hascii).1,
      Fin.ofNat_val_eq_self]
    exact List.mem_singleton.mpr rfl

/-! ## White space -/

/-- A text that starts and ends with printable ASCII characters has no surrounding white space. -/
theorem hasSurroundingSpace_eq_false
    (hfirst : ∀ b ∈ text.head?, 0x21 ≤ b.val ∧ b.val ≤ 0x7e)
    (hlast : ∀ b ∈ text.getLast?, 0x21 ≤ b.val ∧ b.val ≤ 0x7e) :
    hasSurroundingSpace text = false := by
  have hends : ∀ rune ∈ whiteSpace,
      (∃ b ∈ (encodeRune rune).head?, ¬(0x21 ≤ b.val ∧ b.val ≤ 0x7e)) ∧
        ∃ b ∈ (encodeRune rune).getLast?, ¬(0x21 ≤ b.val ∧ b.val ≤ 0x7e) := by decide +kernel
  rw [hasSurroundingSpace, List.any_eq_false]
  intro rune hrune
  obtain ⟨⟨first, hhead, hout⟩, last, hend, hout'⟩ := hends rune hrune
  rw [Bool.or_eq_true, not_or]
  constructor
  · intro hpre
    obtain ⟨rest, rfl⟩ := List.isPrefixOf_iff_prefix.mp hpre
    exact hout (hfirst first (by simp [Option.mem_def.mp hhead]))
  · intro hsuf
    obtain ⟨rest, rfl⟩ := List.isSuffixOf_iff_suffix.mp hsuf
    exact hout' (hlast last (by simp [Option.mem_def.mp hend]))

end Egressfox.Lib
