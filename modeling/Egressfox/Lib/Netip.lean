import Egressfox.Lib.Text

/-!
# IP addresses and their texts

`netip.ParseAddr` and `netip.Addr.String` of Go's standard library, with the loops of
the original turned into structural recursions.  An address is four octets, or sixteen
with an optional zone.

The parser of IPv6 texts reads at most eight groups of hexadecimal digits and keeps the
position of the `::` it has passed; a trailing dotted quad takes the place of the last
two groups.  The printer compresses the first longest run of at least two zero groups.
-/

namespace Egressfox.Lib

/-- `netip.Addr`, valid addresses only. -/
inductive Addr where
  /-- An IPv4 address. -/
  | v4 (octets : { b : Bytes // b.length = 4 })
  /-- An IPv6 address; the empty zone stands for no zone. -/
  | v6 (octets : { b : Bytes // b.length = 16 }) (zone : Bytes)
deriving DecidableEq, Repr

namespace Addr

/-- `Addr.Is4`. -/
def is4 : Addr → Bool
  | .v4 _ => true
  | .v6 _ _ => false

/-- `Addr.Zone`. -/
def zone : Addr → Bytes
  | .v4 _ => []
  | .v6 _ zone => zone

end Addr

/-! ## Reading -/

/-- The loop of `parseIPv4Fields`: the fields read so far, and the value and number of
digits of the current one.  A dot needs a digit before it and something behind it. -/
def ipv4Fields : Bytes → Nat → Nat → Bytes → Option Bytes
  | fields, val, _, [] => if fields.length < 3 then none else some (fields ++ [Fin.ofNat 256 val])
  | fields, val, digits, c :: rest =>
    if 48 ≤ c.val ∧ c.val ≤ 57 then
      if digits = 1 ∧ val = 0 then none
      else
        let val := val * 10 + (c.val - 48)
        if 255 < val then none else ipv4Fields fields val (digits + 1) rest
    else if c = 46 then
      if digits = 0 ∨ rest = [] then none
      else if fields.length = 3 then none
      else ipv4Fields (fields ++ [Fin.ofNat 256 val]) 0 0 rest
    else none

/-- `parseIPv4`. -/
def parseIPv4 (text : Bytes) : Option Addr := do
  let fields ← ipv4Fields [] 0 0 text
  if h : fields.length = 4 then some (.v4 ⟨fields, h⟩) else none

/-- The group loop of `parseIPv6`, with the octets read so far, the position of the
ellipsis and the text left; `fuel` is the number of groups that still fit. -/
def ipv6Groups : Nat → Bytes → Option Nat → Bytes → Option (Bytes × Option Nat × Bytes)
  | 0, octets, ellipsis, text => some (octets, ellipsis, text)
  | fuel + 1, octets, ellipsis, text =>
    let group := text.takeWhile fun c => (hexValue c).isSome
    let rest := text.drop group.length
    if 4 < group.length ∨ group = [] then none
    else if rest.head? = some 46 then
      -- a trailing dotted quad
      if ellipsis = none ∧ octets.length ≠ 12 then none
      else if 16 < octets.length + 4 then none
      else (ipv4Fields [] 0 0 text).map fun fields => (octets ++ fields, ellipsis, [])
    else
      let acc := group.foldl (fun acc c => acc * 16 + (hexValue c).getD 0) 0
      let octets := octets ++ bigEndian 2 acc
      match rest with
      | [] => some (octets, ellipsis, [])
      | colon :: rest =>
        if colon ≠ 58 then none
        else
          match rest with
          | [] => none
          | next :: tail =>
            if next = 58 then
              if ellipsis.isSome then none
              else if tail = [] then some (octets, some octets.length, [])
              else ipv6Groups fuel octets (some octets.length) tail
            else ipv6Groups fuel octets ellipsis rest

/-- The tail of `parseIPv6`: an ellipsis stands for at least one group of zeros. -/
def expandEllipsis (octets : Bytes) (ellipsis : Option Nat) : Option Bytes :=
  match ellipsis with
  | none => if octets.length < 16 then none else some octets
  | some i =>
    if octets.length < 16 then
      some (octets.take i ++ List.replicate (16 - octets.length) 0 ++ octets.drop i)
    else none

/-- `parseIPv6`. -/
def parseIPv6 (text : Bytes) : Option Addr := do
  let address := text.takeWhile fun c => c ≠ 37
  let zone := text.drop (address.length + 1)
  if address.length < text.length ∧ zone = [] then none
  else
    let (octets, ellipsis, rest) ←
      if (ascii "::").isPrefixOf address then
        if address.length = 2 then some ([], some 0, [])
        else ipv6Groups 8 [] (some 0) (address.drop 2)
      else ipv6Groups 8 [] none address
    if rest ≠ [] then none
    else
      let octets ← expandEllipsis octets ellipsis
      if h : octets.length = 16 then some (.v6 ⟨octets, h⟩ zone) else none

/-- `netip.ParseAddr`: the first separator decides which kind of address it may be. -/
def parseAddr (text : Bytes) : Option Addr :=
  match text.find? fun c => c = 46 || c = 58 || c = 37 with
  | some c => if c = 46 then parseIPv4 text else if c = 58 then parseIPv6 text else none
  | none => none

/-- Only a text with a colon can carry a zone. -/
theorem zone_eq_nil_of_parseAddr {text : Bytes} {a : Addr} (h : parseAddr text = some a)
    (hcolon : 58 ∉ text) : a.zone = [] := by
  unfold parseAddr at h
  split at h
  · rename_i c hfind
    split_ifs at h with hdot hc
    · -- a dotted quad has no zone at all
      simp only [parseIPv4, Option.bind_eq_bind, Option.bind_eq_some_iff] at h
      obtain ⟨fields, -, h⟩ := h
      split_ifs at h
      obtain rfl := Option.some.inj h
      rfl
    · exact absurd (hc ▸ List.mem_of_find?_eq_some hfind) hcolon
  · cases h

/-! ## Printing -/

/-- A number in hexadecimal, without leading zeros. -/
def hexNumeral (n : Nat) : Bytes :=
  if n = 0 then ascii "0" else ((Nat.digits 16 n).map hexDigit).reverse

theorem length_hexNumeral_le {n : Nat} (h : n < 2 ^ 16) : (hexNumeral n).length ≤ 4 := by
  unfold hexNumeral
  split
  · decide
  · rw [List.length_reverse, List.length_map]
    exact (Nat.digits_length_le_iff (by norm_num) n).mpr (by norm_num at h ⊢; exact h)

/-- The dotted quad of four octets. -/
def dottedQuad (octets : Bytes) : Bytes :=
  (ascii ".").intercalate (octets.map fun b => decimal b.val)

/-- The eight groups of sixteen octets. -/
def groupsOf : Bytes → List Nat
  | high :: low :: rest => (high.val * 256 + low.val) :: groupsOf rest
  | _ => []

theorem lt_of_mem_groupsOf {octets : Bytes} : ∀ g ∈ groupsOf octets, g < 2 ^ 16 := by
  induction octets using List.twoStepInduction with
  | nil | singleton => simp [groupsOf]
  | cons_cons high low rest ih =>
    simp only [groupsOf, List.mem_cons, forall_eq_or_imp]
    have := high.isLt
    have := low.isLt
    exact ⟨by norm_num; omega, ih⟩

/-- The first longest run of at least two zero groups, as a half-open interval; both ends
are `255` when there is none. -/
def zeroRun (groups : List Nat) : Nat × Nat :=
  (List.range 8).foldl (fun (best : Nat × Nat) i =>
    let l := ((groups.drop i).takeWhile (· = 0)).length
    if 2 ≤ l ∧ best.2 - best.1 < l then (i, i + l) else best) (255, 255)

/-- The printing loop of `Addr.appendTo6` from group `i`. -/
def printGroups (groups : List Nat) (run : Nat × Nat) : Nat → Nat → Bytes
  | 0, _ => []
  | fuel + 1, i =>
    if 8 ≤ i then []
    else if i = run.1 then
      if 8 ≤ run.2 then ascii "::"
      else ascii "::" ++ hexNumeral (groups.getD run.2 0) ++ printGroups groups run fuel (run.2 + 1)
    else
      (if 0 < i then ascii ":" else []) ++ hexNumeral (groups.getD i 0) ++
        printGroups groups run fuel (i + 1)

theorem length_printGroups_le {groups : List Nat} (hgroups : ∀ g ∈ groups, g < 2 ^ 16)
    (run : Nat × Nat) (fuel i : Nat) : (printGroups groups run fuel i).length ≤ 6 * fuel := by
  have hnumeral : ∀ j, (hexNumeral (groups.getD j 0)).length ≤ 4 := by
    intro j
    apply length_hexNumeral_le
    rw [List.getD_eq_getElem?_getD]
    cases hj : groups[j]? with
    | none => simp
    | some g => exact hgroups g (List.mem_of_getElem? hj)
  have hcolons : (ascii "::").length = 2 := by decide
  induction fuel generalizing i with
  | zero => simp [printGroups]
  | succ fuel ih =>
    rw [printGroups]
    split_ifs
    · simp
    · omega
    · have := hnumeral run.2
      have := ih (run.2 + 1)
      simp only [List.length_append]
      omega
    · have := hnumeral i
      have := ih (i + 1)
      have : (ascii ":").length = 1 := by decide
      simp only [List.length_append]
      omega
    · have := hnumeral i
      have := ih (i + 1)
      simp only [List.length_append, List.length_nil]
      omega

namespace Addr

/-- `Addr.String`. -/
def string : Addr → Bytes
  | .v4 octets => dottedQuad octets.val
  | .v6 octets zone =>
    let text :=
      -- an IPv4-mapped address keeps the dotted quad
      if octets.val.take 12 = List.replicate 10 0 ++ [255, 255] then
        ascii "::ffff:" ++ dottedQuad (octets.val.drop 12)
      else
        let groups := groupsOf octets.val
        printGroups groups (zeroRun groups) 8 0
    if zone = [] then text else text ++ ascii "%" ++ zone

theorem length_dottedQuad_le {octets : Bytes} (h : octets.length = 4) :
    (dottedQuad octets).length ≤ 16 := by
  have hoctet : ∀ s ∈ octets.map fun b => decimal b.val, s.length ≤ 3 := by
    intro s hs
    obtain ⟨b, -, rfl⟩ := List.mem_map.mp hs
    exact length_decimal_le (by norm_num) (by have := b.isLt; norm_num; omega)
  have hle := length_intercalate_le (ascii ".") hoctet
  have hdot : (ascii ".").length = 1 := by decide
  rw [List.length_map, h, hdot] at hle
  exact hle

/-- Without a zone the text of an address is short. -/
theorem length_string_le {a : Addr} (h : a.zone = []) : a.string.length ≤ 48 := by
  cases a with
  | v4 octets => exact (length_dottedQuad_le octets.property).trans (by norm_num)
  | v6 octets zone =>
    obtain rfl : zone = [] := h
    rw [string, if_pos rfl]
    split_ifs
    · have hquad : (dottedQuad (octets.val.drop 12)).length ≤ 16 :=
        length_dottedQuad_le (by rw [List.length_drop, octets.property])
      have : (ascii "::ffff:").length = 7 := by decide
      rw [List.length_append]
      omega
    · exact length_printGroups_le lt_of_mem_groupsOf _ 8 0

end Addr

end Egressfox.Lib
