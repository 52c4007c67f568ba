import Mathlib

/-!
# Byte strings and prefix-free encodings

A record is usually encoded by writing its fields one after the other into a
buffer.  What makes such an encoding invertible is that every field is written by
a *prefix-free* code: no code word is a proper prefix of another, so the end of a
field can be read off the bytes.  `PrefixFree` states this in the form in which it
is used, as a cancellation law for appending, and the lemmas below say which codes
have it: fixed-width codes, length-prefixed strings, counted lists.

Field codes are only prefix-free on the values they can represent (a four-byte
length cannot tell apart strings of length `n` and `n + 2 ^ 32`), so `PrefixFree`
carries the domain of admissible values.
-/

universe u

namespace Egressfox.Lib

/-- A byte. -/
abbrev Byte := Fin 256

/-- A byte string. -/
abbrev Bytes := List Byte

-- as constants, these instances leave no proof terms in the definitions that use them
instance neZero_256 : NeZero 256 := ⟨by decide⟩

instance neZero_65536 : NeZero 65536 := ⟨by decide⟩

instance : LawfulBEq Byte := inferInstance

instance : LawfulBEq Bytes := inferInstance

/-- The bytes of an ASCII text. -/
def ascii (s : String) : Bytes := s.toList.map fun c => Fin.ofNat 256 c.toNat

/-! ## Big-endian integers -/

/-- The `width` low-order bytes of `v`, most significant first. -/
def bigEndian : Nat → Nat → Bytes
  | 0, _ => []
  | width + 1, v => Fin.ofNat 256 (v / 256 ^ width) :: bigEndian width v

@[simp] theorem length_bigEndian (width v : Nat) : (bigEndian width v).length = width := by
  induction width with
  | zero => rfl
  | succ width ih => simp [bigEndian, ih]

/-- Two numbers with the same bytes agree modulo the range of the width. -/
theorem mod_eq_of_bigEndian_eq {width v v' : Nat} (h : bigEndian width v = bigEndian width v') :
    v % 256 ^ width = v' % 256 ^ width := by
  induction width with
  | zero => simp [Nat.mod_one]
  | succ width ih =>
    obtain ⟨hhead, htail⟩ := List.cons.inj h
    have hdigit : v / 256 ^ width % 256 = v' / 256 ^ width % 256 := by
      simpa [Fin.ofNat, Fin.ext_iff] using hhead
    rw [pow_succ, Nat.mod_mul, Nat.mod_mul, ih htail, hdigit]

/-- A number that fits the width is determined by its bytes. -/
theorem bigEndian_inj {width v v' : Nat} (hv : v < 256 ^ width) (hv' : v' < 256 ^ width)
    (h : bigEndian width v = bigEndian width v') : v = v' := by
  have hmod := mod_eq_of_bigEndian_eq h
  rwa [Nat.mod_eq_of_lt hv, Nat.mod_eq_of_lt hv'] at hmod

/-! ## Prefix-free codes -/

variable {α : Type u}

/-- On the values satisfying `ok`, a code word can be split off the front of a byte
string in at most one way. -/
def PrefixFree (enc : α → Bytes) (ok : α → Prop) : Prop :=
  ∀ ⦃a b : α⦄ ⦃x y : Bytes⦄, ok a → ok b → enc a ++ x = enc b ++ y → a = b ∧ x = y

/-- Code words of one length are prefix-free as soon as they are distinct. -/
theorem PrefixFree.of_length {enc : α → Bytes} {ok : α → Prop} {n : Nat}
    (hlen : ∀ a, (enc a).length = n) (hinj : ∀ a b, ok a → ok b → enc a = enc b → a = b) :
    PrefixFree enc ok := by
  intro a b x y ha hb h
  obtain ⟨henc, hrest⟩ := List.append_inj h ((hlen a).trans (hlen b).symm)
  exact ⟨hinj a b ha hb henc, hrest⟩

/-- A four-byte length followed by the string itself. -/
def lengthPrefixed (s : Bytes) : Bytes := bigEndian 4 s.length ++ s

theorem prefixFree_lengthPrefixed : PrefixFree lengthPrefixed fun s => s.length < 2 ^ 32 := by
  intro a b x y ha hb h
  simp only [lengthPrefixed, List.append_assoc] at h
  obtain ⟨hlen, hrest⟩ := List.append_inj h (by simp)
  have hab : a.length = b.length := bigEndian_inj ha hb hlen
  exact List.append_inj hrest hab

/-- A string of any length is split off a short rest: the total length tells its length. -/
theorem lengthPrefixed_append_inj {a b x y : Bytes} (hx : x.length < 2 ^ 32)
    (hy : y.length < 2 ^ 32) (h : lengthPrefixed a ++ x = lengthPrefixed b ++ y) :
    a = b ∧ x = y := by
  simp only [lengthPrefixed, List.append_assoc] at h
  obtain ⟨hlen, hrest⟩ := List.append_inj h (by simp)
  have hmod := mod_eq_of_bigEndian_eq hlen
  have htotal : a.length + x.length = b.length + y.length := by
    simpa using congrArg List.length hrest
  exact List.append_inj hrest (by omega)

/-- One byte. -/
theorem prefixFree_byte : PrefixFree (fun b : Byte => [b]) fun _ => True :=
  PrefixFree.of_length (n := 1) (fun _ => rfl) fun _ _ _ _ h => List.singleton_inj.mp h

/-- Fixed-width integers. -/
theorem prefixFree_bigEndian (width : Nat) :
    PrefixFree (bigEndian width) fun v => v < 256 ^ width :=
  PrefixFree.of_length (length_bigEndian width) fun _ _ ha hb h => bigEndian_inj ha hb h

/-- Code words written one after the other are split off together, provided their
number is known. -/
theorem PrefixFree.flatMap {enc : α → Bytes} {ok : α → Prop} (henc : PrefixFree enc ok)
    {l l' : List α} {x y : Bytes} (hlen : l.length = l'.length) (hl : ∀ a ∈ l, ok a)
    (hl' : ∀ a ∈ l', ok a) (h : l.flatMap enc ++ x = l'.flatMap enc ++ y) : l = l' ∧ x = y := by
  induction l generalizing l' with
  | nil =>
    obtain rfl := List.length_eq_zero_iff.mp hlen.symm
    exact ⟨rfl, h⟩
  | cons a l ih =>
    cases l' with
    | nil => simp at hlen
    | cons b l' =>
      simp only [List.flatMap_cons, List.append_assoc] at h
      obtain ⟨rfl, hrest⟩ := henc (hl a (by simp)) (hl' b (by simp)) h
      obtain ⟨rfl, hxy⟩ := ih (by simpa using hlen) (fun c hc => hl c (by simp [hc]))
        (fun c hc => hl' c (by simp [hc])) hrest
      exact ⟨rfl, hxy⟩

end Egressfox.Lib
