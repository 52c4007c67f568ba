import Egressfox.Lib.Codec

/-!
# Machine types shared by every package

* Go strings and byte slices are byte strings (`Lib.Bytes`).
* `[sha256.Size]byte` is `Digest`.  SHA-256 itself is never computed here: whatever
  hashes takes the hash function as a parameter.
* `time.Time` is the number of nanoseconds since Go's zero time (January 1, year 1),
  so that `IsZero` is `= 0`; instants before year 1 are negative.  `time.Duration` is
  a number of nanoseconds.
* `int64` arithmetic that can overflow goes through `int64`.
-/

namespace Egressfox

open Lib

/-- A SHA-256 digest, `[sha256.Size]byte`. -/
abbrev Digest := { b : Bytes // b.length = 32 }

/-- The all-zero digest. -/
def Digest.zero : Digest := ⟨List.replicate 32 0, by simp⟩

theorem Digest.length_ones : (List.replicate 32 (1 : Byte)).length = 32 := List.length_replicate

/-- `bytes.Compare` and `strings.Compare`. -/
def bytesCompare (left right : Bytes) : Ordering :=
  if left < right then .lt else if right < left then .gt else .eq

@[simp] theorem bytesCompare_self (value : Bytes) : bytesCompare value value = .eq := by
  simp [bytesCompare]

theorem bytesCompare_eq_lt_iff {left right : Bytes} :
    bytesCompare left right = .lt ↔ left < right := by
  unfold bytesCompare
  by_cases h : left < right
  · simp [h]
  · simp only [h, if_false, iff_false]
    split <;> simp

/-- An instant, in nanoseconds since Go's zero time. -/
abbrev Time := Int

/-- A span of time in nanoseconds. -/
abbrev Duration := Int

namespace Duration

def second : Duration := 1000000000
def minute : Duration := 60 * second
def hour : Duration := 60 * minute

end Duration

/-- Two's-complement wrap-around of an `int64` result. -/
def int64 (x : Int) : Int := Int.bmod x (2 ^ 64)

/-- The values an `int64` has: an operation whose exact result is one does not overflow. -/
def FitsInt64 (x : Int) : Prop := -(2 ^ 63) ≤ x ∧ x < 2 ^ 63

theorem int64_eq_self {x : Int} (h : FitsInt64 x) : int64 x = x :=
  Int.bmod_eq_of_le (by have := h.1; norm_num at this ⊢; omega)
    (by have := h.2; norm_num at this ⊢; omega)

theorem int64_add_int64 (x y : Int) : int64 (int64 x + y) = int64 (x + y) := Int.bmod_add_bmod

/-- A sequence of two fallible steps succeeds when both do. -/
theorem bind_eq_ok {ε α β : Type} {x : Except ε α} {f : α → Except ε β} {b : β} :
    (x >>= f) = .ok b ↔ ∃ a, x = .ok a ∧ f a = .ok b := by
  cases x with
  | error e =>
    constructor
    · rintro ⟨⟩
    · rintro ⟨a, ⟨⟩, -⟩
  | ok a =>
    constructor
    · intro h
      exact ⟨a, rfl, h⟩
    · rintro ⟨a', h, hf⟩
      cases h
      exact hf

/-- What every step of a loop keeps holds at its end. -/
theorem foldlM_invariant {ε α β : Type} {step : β → α → Except ε β} {P : β → Prop} {l : List α}
    (hstep : ∀ a ∈ l, ∀ b b', P b → step b a = .ok b' → P b') {b b' : β} (hb : P b)
    (h : l.foldlM step b = .ok b') : P b' := by
  induction l generalizing b with
  | nil =>
    obtain rfl : b = b' := Except.ok.inj h
    exact hb
  | cons a l ih =>
    rw [List.foldlM_cons] at h
    obtain ⟨next, hnext, h⟩ := bind_eq_ok.mp h
    have hnext : P next := hstep a List.mem_cons_self b next hb hnext
    exact ih (fun a ha => hstep a (List.mem_cons_of_mem _ ha)) hnext h

/-- A mapped result is one of a success. -/
theorem map_eq_ok {ε α β : Type} {f : α → β} {x : Except ε α} {b : β} :
    x.map f = .ok b ↔ ∃ a, x = .ok a ∧ f a = b := by
  cases x with
  | error e | ok a => simp [Except.map]

theorem map_fst_eq_ok {ε α β : Type} {x : Except ε (α × β)} {a : α} :
    x.map Prod.fst = .ok a ↔ ∃ b, x = .ok (a, b) := by
  rw [map_eq_ok]
  simp

theorem exists_of_isOk {ε α : Type} {x : Except ε α} (h : x.isOk = true) : ∃ a, x = .ok a := by
  cases x with
  | error e => cases h
  | ok a => exact ⟨a, rfl⟩

theorem toOption_eq_some_iff {ε α : Type} {x : Except ε α} {a : α} :
    x.toOption = some a ↔ x = .ok a := by
  cases x with
  | error e | ok b => simp [Except.toOption]

theorem exists_of_any {ε α : Type} {x : Except ε α} {p : α → Bool}
    (h : x.toOption.any p = true) : ∃ a, x = .ok a ∧ p a = true := by
  cases x with
  | error e => cases h
  | ok a => exact ⟨a, rfl, h⟩

theorem forall_mem_concat {α : Type} {p : α → Prop} {l : List α} {a : α} :
    (∀ x ∈ l ++ [a], p x) ↔ (∀ x ∈ l, p x) ∧ p a := by
  rw [List.forall_mem_append, List.forall_mem_singleton]

/-- A loop all of whose steps succeed. -/
theorem mapM_eq_some_map {α β : Type} {f : α → Option β} {g : α → β} {l : List α}
    (h : ∀ a ∈ l, f a = some (g a)) : l.mapM f = some (l.map g) := by
  induction l with
  | nil => rfl
  | cons a l ih =>
    rw [List.mapM_cons, h a (by simp), ih fun b hb => h b (by simp [hb])]
    rfl

/-- A loop with a step that fails. -/
theorem mapM_eq_none {α β : Type} {f : α → Option β} {l : List α} {a : α} (ha : a ∈ l)
    (h : f a = none) : l.mapM f = none := by
  induction l with
  | nil => cases ha
  | cons b l ih =>
    rw [List.mapM_cons]
    rcases List.mem_cons.mp ha with rfl | ha
    · rw [h]
      rfl
    · rw [ih ha]
      cases f b <;> rfl

end Egressfox
