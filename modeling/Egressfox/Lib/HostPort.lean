import Egressfox.Lib.Codec
import Egressfox.Lib.Cut

/-!
# Hosts and ports

`net.JoinHostPort` and `net.SplitHostPort` of Go's standard library.  A host with a colon is put
in brackets, and `splitHostPort_joinHostPort` says that a host without brackets and a port
without separators are found again.
-/

namespace Egressfox.Lib

/-- `net.JoinHostPort`. -/
def joinHostPort (host port : Bytes) : Bytes :=
  if 58 ∈ host then ascii "[" ++ host ++ ascii "]:" ++ port else host ++ ascii ":" ++ port

/-- `net.SplitHostPort`. -/
def splitHostPort (text : Bytes) : Option (Bytes × Bytes) :=
  match cutLast 58 text with
  | none => none
  | some (front, port) =>
    if text.head? = some 91 then
      -- the first closing bracket stands right before the last colon
      match cut 93 text with
      | none => none
      | some (opened, _) =>
        if opened.length + 1 ≠ front.length then none
        else if 91 ∈ text.drop 1 ∨ 93 ∈ text.drop (opened.length + 1) then none
        else some (opened.drop 1, port)
    else if 58 ∈ front then none
    else if 91 ∈ text ∨ 93 ∈ text then none
    else some (front, port)

/-- **Splitting undoes joining.** -/
theorem splitHostPort_joinHostPort {host port : Bytes} (hhost : ∀ b ∈ host, b ≠ 91 ∧ b ≠ 93)
    (hport : ∀ b ∈ port, b ≠ 58 ∧ b ≠ 91 ∧ b ≠ 93) :
    splitHostPort (joinHostPort host port) = some (host, port) := by
  have hopen : ascii "[" = [91] := by decide
  have hclose : ascii "]:" = [93, 58] := by decide
  have hcolon : ascii ":" = [58] := by decide
  have hlast : ∀ front : Bytes, cutLast 58 (front ++ 58 :: port) = some (front, port) :=
    fun front => cutLast_eq_some_iff.mpr ⟨rfl, fun hmem => (hport 58 hmem).1 rfl⟩
  have h91 : 91 ∉ host := fun hmem => (hhost 91 hmem).1 rfl
  have h93 : 93 ∉ host := fun hmem => (hhost 93 hmem).2 rfl
  have h91' : 91 ∉ port := fun hmem => (hport 91 hmem).2.1 rfl
  have h93' : 93 ∉ port := fun hmem => (hport 93 hmem).2.2 rfl
  unfold joinHostPort
  split
  · have htext : ascii "[" ++ host ++ ascii "]:" ++ port = (91 :: host ++ [93]) ++ 58 :: port := by
      simp [hopen, hclose]
    have hcut : cut 93 ((91 :: host ++ [93]) ++ 58 :: port) = some (91 :: host, 58 :: port) :=
      cut_eq_some_iff.mpr ⟨by simp, by simpa using h93⟩
    have hfree : ¬(91 ∈ ((91 :: host ++ [93]) ++ 58 :: port).drop 1 ∨
        93 ∈ ((91 :: host ++ [93]) ++ 58 :: port).drop ((91 :: host).length + 1)) := by
      have hbehind : ((91 :: host ++ [93]) ++ 58 :: port).drop ((91 :: host).length + 1) =
          58 :: port := List.drop_left' (by simp)
      rw [hbehind]
      simp [h91, h91', h93']
    rw [htext, splitHostPort, hlast, hcut]
    simp only [List.cons_append, List.head?_cons, if_true]
    rw [if_neg (by simp), if_neg (by simpa using hfree)]
    rfl
  · rename_i hnot
    have htext : host ++ ascii ":" ++ port = host ++ 58 :: port := by simp [hcolon]
    have hhead : (host ++ 58 :: port).head? ≠ some 91 := by
      cases host with
      | nil => simp
      | cons b host => simpa using (hhost b (by simp)).1
    rw [htext, splitHostPort, hlast]
    simp only [if_neg hhead, if_neg hnot]
    rw [if_neg (by simp [h91, h93, h91', h93'])]

end Egressfox.Lib
