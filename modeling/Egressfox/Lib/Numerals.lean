import Egressfox.Lib.Netip

/-!
# Reading numerals back

Numerals are written from `Nat.digits`, most significant digit first, and read by the loop
`acc * b + digit`.  `foldl_numeral` says that the loop undoes the printing in every base; the
readers of decimal and hexadecimal numerals are instances of it.
-/

namespace Egressfox.Lib

/-- Reading the digits of a number, most significant first, gives the number back. -/
theorem foldl_numeral {b : Nat} (hb : 2 ≤ b) {write : Nat → Byte} {read : Byte → Nat}
    (h : ∀ d < b, read (write d) = d) (n : Nat) :
    ((Nat.digits b n).map write).reverse.foldl (fun acc c => acc * b + read c) 0 = n := by
  have hdigits : ∀ l : List Nat, (∀ d ∈ l, d < b) →
      (l.map write).foldr (fun c acc => acc * b + read c) 0 = Nat.ofDigits b l := by
    intro l hl
    induction l with
    | nil => rfl
    | cons d l ih =>
      rw [List.map_cons, List.foldr_cons, ih fun e he => hl e (by simp [he]), h d (hl d (by simp)),
        Nat.ofDigits_cons, Nat.add_comm, Nat.mul_comm]
  rw [List.foldl_reverse, hdigits _ fun d hd => Nat.digits_lt_base hb hd, Nat.ofDigits_digits]

/-! ## Decimal -/

/-- A decimal numeral is made of digits. -/
theorem digit_of_mem_decimal {n : Nat} {c : Byte} (h : c ∈ decimal n) :
    48 ≤ c.val ∧ c.val ≤ 57 := by
  unfold decimal at h
  split_ifs at h
  · obtain rfl : c = 48 := by simpa [ascii] using h
    decide
  · rw [List.mem_reverse] at h
    obtain ⟨d, hd, rfl⟩ := List.mem_map.mp h
    have := Nat.digits_lt_base (by norm_num) hd
    simp only [Fin.ofNat]
    omega

theorem decimal_ne_nil (n : Nat) : decimal n ≠ [] := by
  unfold decimal
  split_ifs with h
  · decide
  · simpa [Nat.digits_eq_nil_iff_eq_zero] using h

theorem decimalValue_decimal (n : Nat) : decimalValue (decimal n) = some n := by
  have hread : ∀ d < 10, (Fin.ofNat 256 (48 + d)).val - 48 = d := by decide
  have hvalue : (decimal n).foldl (fun acc b => acc * 10 + (b.val - 48)) 0 = n := by
    unfold decimal
    split_ifs with h
    · rw [h]
      decide
    · exact foldl_numeral (by norm_num) hread n
  rw [decimalValue, if_pos ⟨decimal_ne_nil n, fun b hb => digit_of_mem_decimal hb⟩, hvalue]

/-- `strconv.Atoi` undoes `strconv.Itoa` on the numbers that are not negative. -/
theorem atoi_itoa {i : Int} (h : 0 ≤ i) (hmax : i < 2 ^ 63) : atoi (itoa i) = some i := by
  obtain ⟨n, rfl⟩ := Int.eq_ofNat_of_zero_le h
  have htext : itoa (n : Int) = decimal n := by
    rw [itoa, if_neg (not_lt.mpr h), Int.natAbs_natCast]
  obtain ⟨sign, digits, hcons⟩ := List.exists_cons_of_ne_nil (decimal_ne_nil n)
  have hsign : 48 ≤ sign.val := (digit_of_mem_decimal (by rw [hcons]; simp)).1
  have hplus : sign ≠ 43 := by rintro rfl; exact absurd hsign (by decide)
  have hminus : sign ≠ 45 := by rintro rfl; exact absurd hsign (by decide)
  have hvalue := decimalValue_decimal n
  rw [htext]
  rw [hcons] at hvalue ⊢
  have hrange : -(2 ^ 63) ≤ (n : Int) ∧ (n : Int) < 2 ^ 63 := by omega
  simp only [atoi, hplus, hminus, if_false, hvalue]
  change Option.filter _ (some (n : Int)) = some (n : Int)
  rw [Option.filter_some, if_pos (decide_eq_true hrange)]

theorem digit_of_mem_itoa {i : Int} (h : 0 ≤ i) {c : Byte} (hc : c ∈ itoa i) :
    48 ≤ c.val ∧ c.val ≤ 57 := by
  rw [itoa, if_neg (not_lt.mpr h)] at hc
  exact digit_of_mem_decimal hc

/-! ## Hexadecimal -/

theorem hexValue_hexDigit {d : Nat} (h : d < 16) : hexValue (hexDigit d) = some d := by
  revert h
  revert d
  decide

theorem hexNumeral_ne_nil (n : Nat) : hexNumeral n ≠ [] := by
  unfold hexNumeral
  split_ifs with h
  · decide
  · simpa [Nat.digits_eq_nil_iff_eq_zero] using h

/-- A hexadecimal numeral is made of hexadecimal digits. -/
theorem hexValue_of_mem_hexNumeral {n : Nat} {c : Byte} (h : c ∈ hexNumeral n) :
    (hexValue c).isSome = true := by
  unfold hexNumeral at h
  split_ifs at h
  · obtain rfl : c = 48 := by simpa [ascii] using h
    decide
  · rw [List.mem_reverse] at h
    obtain ⟨d, hd, rfl⟩ := List.mem_map.mp h
    rw [hexValue_hexDigit (Nat.digits_lt_base (by norm_num) hd)]
    rfl

theorem foldl_hexNumeral (n : Nat) :
    (hexNumeral n).foldl (fun acc c => acc * 16 + (hexValue c).getD 0) 0 = n := by
  unfold hexNumeral
  split_ifs with h
  · rw [h]
    decide
  · exact foldl_numeral (by norm_num) (fun d hd => by rw [hexValue_hexDigit hd]; rfl) n

theorem length_of_hexDecode {text decoded : Bytes} (h : hexDecode text = some decoded) :
    text.length = 2 * decoded.length := by
  induction text using List.twoStepInduction generalizing decoded with
  | nil =>
    obtain rfl := Option.some.inj h
    rfl
  | singleton => cases h
  | cons_cons high low rest ih =>
    rw [hexDecode] at h
    split at h
    · rename_i hrest
      obtain rfl := Option.some.inj h
      simp only [List.length_cons, ih hrest]
      omega
    · cases h

/-- An even number of hexadecimal digits can be decoded. -/
theorem exists_hexDecode {text : Bytes} (h : ∀ b ∈ text, (hexValue b).isSome = true)
    (heven : text.length % 2 = 0) : ∃ decoded, hexDecode text = some decoded := by
  induction text using List.twoStepInduction with
  | nil => exact ⟨[], rfl⟩
  | singleton => cases heven
  | cons_cons high low rest ih =>
    simp only [List.mem_cons, forall_eq_or_imp] at h
    obtain ⟨hhigh, hlow, hrest⟩ := h
    obtain ⟨d, hd⟩ := Option.isSome_iff_exists.mp hhigh
    obtain ⟨e, he⟩ := Option.isSome_iff_exists.mp hlow
    obtain ⟨decoded, hdecoded⟩ := ih hrest (by simp only [List.length_cons] at heven; omega)
    exact ⟨Fin.ofNat 256 (16 * d + e) :: decoded, by rw [hexDecode, hd, he, hdecoded]⟩

theorem hexDecode_hexEncode (b : Bytes) : hexDecode (hexEncode b) = some b := by
  induction b with
  | nil => rfl
  | cons v b ih =>
    have hcons : hexEncode (v :: b) =
        hexDigit (v.val / 16) :: hexDigit (v.val % 16) :: hexEncode b := rfl
    have hv := v.isLt
    rw [hcons, hexDecode, hexValue_hexDigit (by omega), hexValue_hexDigit (by omega), ih]
    simp only [Nat.div_add_mod, Option.some.injEq, List.cons.injEq, and_true]
    exact Fin.ofNat_val_eq_self v

end Egressfox.Lib
