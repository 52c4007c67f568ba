import Egressfox.Lib.Text

/-!
# The canonical texts of a digit encoding

A decoder of base32 or base64 digits accepts more texts than the encoder writes: line breaks are
skipped, and the bits of the last digit that belong to no byte are not looked at.  Digits with
zeros for these bits are those the encoder writes (`encodeDigits_bytesOf`).
-/

namespace Egressfox.Lib

variable {k : Nat} {alphabet text : Bytes}

/-! ## Bits and bytes -/

@[simp] theorem length_bytesOf (n : Nat) (bits : List Bool) : (bytesOf n bits).length = n := by
  induction n generalizing bits with
  | zero => rfl
  | succ n ih => rw [bytesOf, List.length_cons, ih]

theorem toBits_bytesOf {n : Nat} {bits : List Bool} (h : 8 * n ≤ bits.length) :
    toBits (bytesOf n bits) = bits.take (8 * n) := by
  induction n generalizing bits with
  | zero => simp [bytesOf, toBits]
  | succ n ih =>
    have hlength : (bits.take 8).length = 8 := by
      rw [List.length_take]
      omega
    have hbyte : bitsOf 8 (Fin.ofNat 256 (ofBits (bits.take 8))).val = bits.take 8 := by
      have hlt : ofBits (bits.take 8) < 256 := by
        have := ofBits_lt (bits.take 8)
        rwa [hlength] at this
      have hbits := bitsOf_ofBits (bits.take 8)
      rw [hlength] at hbits
      rwa [Fin.val_ofNat, Nat.mod_eq_of_lt hlt]
    have hrest : toBits (bytesOf n (bits.drop 8)) = (bits.drop 8).take (8 * n) :=
      ih (by rw [List.length_drop]; omega)
    rw [bytesOf, toBits, List.flatMap_cons, ← toBits, hbyte, hrest,
      show 8 * (n + 1) = 8 + 8 * n by ring, List.take_add]

/-- Digits do not depend on zeros behind the bits. -/
theorem digitsOf_append_replicate (count : Nat) (bits : List Bool) (zeros : Nat) :
    digitsOf k count (bits ++ List.replicate zeros false) = digitsOf k count bits := by
  induction count generalizing bits zeros with
  | zero => rfl
  | succ count ih =>
    rw [digitsOf, digitsOf, List.drop_append, List.drop_replicate, ih, List.take_append,
      List.take_replicate, List.append_assoc, List.replicate_append_replicate,
      List.length_append, List.length_replicate]
    congr 5
    omega

/-- The digits of the bits of digits are these digits. -/
theorem digitsOf_flatMap_bitsOf {digits : List Nat} (h : ∀ d ∈ digits, d < 2 ^ k) :
    digitsOf k digits.length (digits.flatMap (bitsOf k)) = digits := by
  induction digits with
  | nil => rfl
  | cons d digits ih =>
    have hd : ofBits (bitsOf k d) = d := by
      rw [ofBits_bitsOf, Nat.mod_eq_of_lt (h d (by simp))]
    rw [List.length_cons, digitsOf, List.flatMap_cons, List.take_left' (length_bitsOf k d),
      List.drop_left' (length_bitsOf k d), ih fun e he => h e (by simp [he]),
      List.length_append, length_bitsOf, Nat.sub_eq_zero_of_le (Nat.le_add_right _ _),
      List.replicate_zero, List.append_nil, hd]

/-! ## Decoded texts -/

/-- The digits of a text stand for its characters. -/
theorem map_getD_idxOf (h : ∀ b ∈ text, b ∈ alphabet) :
    (text.map alphabet.idxOf).map (fun d => alphabet.getD d 0) = text := by
  rw [List.map_map]
  conv_rhs => rw [← List.map_id text]
  refine List.map_congr_left fun b hb => ?_
  have hlt := List.idxOf_lt_length_of_mem (h b hb)
  rw [Function.comp_apply, List.getD_eq_getElem _ _ hlt, List.getElem_idxOf, id]

/-- **What is decoded from digits with zeros behind the last byte is encoded as these digits.** -/
theorem encodeDigits_bytesOf {digits : List Nat} (hlt : ∀ d ∈ digits, d < 2 ^ k)
    (hk : k * digits.length % 8 < k)
    (hzero : ∀ bit ∈ (digits.flatMap (bitsOf k)).drop (8 * (k * digits.length / 8)), bit = false) :
    encodeDigits k alphabet (bytesOf (k * digits.length / 8) (digits.flatMap (bitsOf k))) =
      digits.map fun d => alphabet.getD d 0 := by
  set bits := digits.flatMap (bitsOf k) with hbits
  set whole := k * digits.length / 8 with hwhole
  have hlength : bits.length = k * digits.length := length_flatMap_bitsOf digits
  have htoBits : toBits (bytesOf whole bits) = bits.take (8 * whole) :=
    toBits_bytesOf (by rw [hlength]; omega)
  have hcount : (8 * whole + k - 1) / k = digits.length := by
    apply Nat.div_eq_of_lt_le
    · rw [mul_comm]
      omega
    · rw [add_mul, one_mul, mul_comm digits.length k]
      omega
  have hsplit : bits =
      bits.take (8 * whole) ++ List.replicate (bits.drop (8 * whole)).length false := by
    conv_lhs => rw [← List.take_append_drop (8 * whole) bits]
    congr 1
    exact List.eq_replicate_of_mem hzero
  have hdigits : digitsOf k digits.length bits = digits := digitsOf_flatMap_bitsOf hlt
  rw [encodeDigits, length_bytesOf, hcount, htoBits, ← digitsOf_append_replicate, ← hsplit, hdigits]

end Egressfox.Lib
