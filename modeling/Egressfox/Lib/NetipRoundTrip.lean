import Egressfox.Lib.Numerals

/-!
# Texts of IP addresses are read back

`parseAddr_string`: the text of an address without a zone parses as that address.

The text of an IPv6 address is a sequence of groups (`joined`) with at most one `::` in it,
which stands for a run of zero groups.  `ipv6Groups_joined` reads a sequence of groups and
`ipv6Groups_ellipsis` one that is followed by the `::`; `printGroups_eq` says which sequences
the printer writes.  That the printer chooses the first longest run is of no importance, only
that what it leaves out is zero (`zeroRun_spec`).
-/

namespace Egressfox.Lib

/-! ## Dotted quads -/

/-- A decimal numeral of one to three digits without a leading zero, and its value. -/
def isOctetNumeral (n : Nat) : Bytes → Bool
  | [a] => 48 ≤ a.val && a.val ≤ 57 && a.val - 48 = n
  | [a, b] => 49 ≤ a.val && a.val ≤ 57 && 48 ≤ b.val && b.val ≤ 57 &&
      (a.val - 48) * 10 + (b.val - 48) = n
  | [a, b, c] => 49 ≤ a.val && a.val ≤ 57 && 48 ≤ b.val && b.val ≤ 57 && 48 ≤ c.val &&
      c.val ≤ 57 && ((a.val - 48) * 10 + (b.val - 48)) * 10 + (c.val - 48) = n
  | _ => false

theorem isOctetNumeral_decimal : ∀ n : Byte, isOctetNumeral n.val (decimal n.val) = true := by
  decide +kernel

/-- The reader takes a digit in. -/
theorem ipv4Fields_digit {fields rest : Bytes} {val digits : Nat} {c : Byte}
    (hdigit : 48 ≤ c.val ∧ c.val ≤ 57) (hzero : ¬(digits = 1 ∧ val = 0))
    (hval : val * 10 + (c.val - 48) ≤ 255) :
    ipv4Fields fields val digits (c :: rest) =
      ipv4Fields fields (val * 10 + (c.val - 48)) (digits + 1) rest := by
  rw [ipv4Fields, if_pos hdigit, if_neg hzero]
  exact if_neg (not_lt.mpr hval)

/-- The reader takes the numeral of an octet in. -/
theorem ipv4Fields_decimal (fields : Bytes) (n : Byte) (rest : Bytes) :
    ∃ digits, 0 < digits ∧
      ipv4Fields fields 0 0 (decimal n.val ++ rest) = ipv4Fields fields n.val digits rest := by
  have hnumeral := isOctetNumeral_decimal n
  have hn := n.isLt
  revert hnumeral
  generalize decimal n.val = text
  intro hnumeral
  match text, hnumeral with
  | [a], hnumeral =>
    simp only [isOctetNumeral, Bool.and_eq_true, decide_eq_true_eq] at hnumeral
    obtain ⟨ha, hvalue⟩ := hnumeral
    refine ⟨1, by norm_num, ?_⟩
    rw [List.singleton_append, ipv4Fields_digit ha (by omega) (by omega), zero_mul, zero_add,
      hvalue]
  | [a, b], hnumeral =>
    simp only [isOctetNumeral, Bool.and_eq_true, decide_eq_true_eq] at hnumeral
    obtain ⟨⟨⟨⟨ha, ha'⟩, hb⟩, hb'⟩, hvalue⟩ := hnumeral
    refine ⟨2, by norm_num, ?_⟩
    rw [List.cons_append, List.singleton_append,
      ipv4Fields_digit ⟨by omega, ha'⟩ (by omega) (by omega), zero_mul, zero_add,
      ipv4Fields_digit ⟨hb, hb'⟩ (by omega) (by omega), hvalue]
  | [a, b, c], hnumeral =>
    simp only [isOctetNumeral, Bool.and_eq_true, decide_eq_true_eq] at hnumeral
    obtain ⟨⟨⟨⟨⟨⟨ha, ha'⟩, hb⟩, hb'⟩, hc⟩, hc'⟩, hvalue⟩ := hnumeral
    refine ⟨3, by norm_num, ?_⟩
    rw [List.cons_append, List.cons_append, List.singleton_append,
      ipv4Fields_digit ⟨by omega, ha'⟩ (by omega) (by omega), zero_mul, zero_add,
      ipv4Fields_digit ⟨hb, hb'⟩ (by omega) (by omega),
      ipv4Fields_digit ⟨hc, hc'⟩ (by omega) (by omega), hvalue]

variable {rest octets text : Bytes} {b : Byte} {gs : List Nat} {fuel : Nat} {a : Addr}

/-- A dot ends a field. -/
theorem ipv4Fields_dot {fields : Bytes} {n : Byte} {digits : Nat} (hdigits : 0 < digits)
    (hrest : rest ≠ []) (hfields : fields.length < 3) :
    ipv4Fields fields n.val digits (46 :: rest) = ipv4Fields (fields ++ [n]) 0 0 rest := by
  have hn : Fin.ofNat 256 n.val = n := Fin.ofNat_val_eq_self n
  rw [ipv4Fields, if_neg (by decide), if_pos rfl, if_neg (by simp [hdigits.ne', hrest]),
    if_neg (by omega), hn]

theorem dottedQuad_eq (a b c d : Byte) : dottedQuad [a, b, c, d] =
    decimal a.val ++ 46 :: (decimal b.val ++ 46 :: (decimal c.val ++ 46 :: decimal d.val)) := by
  have hdot : ascii "." = [46] := by decide
  simp [dottedQuad, hdot, List.intercalate]

/-- **Dotted quads are read back.** -/
theorem ipv4Fields_dottedQuad (h : octets.length = 4) :
    ipv4Fields [] 0 0 (dottedQuad octets) = some octets := by
  match octets, h with
  | [a, b, c, d], _ =>
    obtain ⟨da, hda, ha⟩ := ipv4Fields_decimal [] a
      (46 :: (decimal b.val ++ 46 :: (decimal c.val ++ 46 :: decimal d.val)))
    obtain ⟨db, hdb, hb⟩ := ipv4Fields_decimal [a] b (46 :: (decimal c.val ++ 46 :: decimal d.val))
    obtain ⟨dc, hdc, hc⟩ := ipv4Fields_decimal [a, b] c (46 :: decimal d.val)
    obtain ⟨dd, -, hd⟩ := ipv4Fields_decimal [a, b, c] d []
    rw [List.append_nil] at hd
    rw [dottedQuad_eq, ha, ipv4Fields_dot hda (by simp [decimal_ne_nil]) (by simp),
      List.nil_append, hb, ipv4Fields_dot hdb (by simp [decimal_ne_nil]) (by simp),
      List.singleton_append, hc, ipv4Fields_dot hdc (decimal_ne_nil _) (by simp),
      List.cons_append, List.singleton_append, hd]
    simp [ipv4Fields]

/-- What reads as a dotted quad consists of digits and dots. -/
theorem numeric_of_ipv4Fields {fields : Bytes} {val digits : Nat}
    (h : ipv4Fields fields val digits text = some octets) :
    ∀ b ∈ text, 48 ≤ b.val ∧ b.val ≤ 57 ∨ b = 46 := by
  induction text generalizing fields val digits with
  | nil => simp
  | cons c rest ih =>
    rw [ipv4Fields] at h
    rw [List.forall_mem_cons]
    split_ifs at h with hdigit _ hdot
    · simp only [Option.ite_none_left_eq_some] at h
      exact ⟨.inl hdigit, ih h.2⟩
    · exact ⟨.inr hdot, ih h⟩

/-- The bytes of a dotted quad. -/
theorem of_mem_dottedQuad (h : octets.length = 4) (hb : b ∈ dottedQuad octets) :
    48 ≤ b.val ∧ b.val ≤ 57 ∨ b = 46 := by
  match octets, h with
  | [o₁, o₂, o₃, o₄], _ =>
    rw [dottedQuad_eq] at hb
    simp only [List.mem_append, List.mem_cons] at hb
    rcases hb with hb | hb | hb | hb | hb | hb | hb
    all_goals first
      | exact .inl (digit_of_mem_decimal hb)
      | exact .inr hb

/-! ## Groups -/

/-- Groups separated by colons. -/
def joined : List Nat → Bytes
  | [] => []
  | [g] => hexNumeral g
  | g :: g' :: gs => hexNumeral g ++ 58 :: joined (g' :: gs)

/-- The octets of groups. -/
def octetsOf (groups : List Nat) : Bytes := groups.flatMap (bigEndian 2)

@[simp] theorem octetsOf_cons (g : Nat) (gs : List Nat) :
    octetsOf (g :: gs) = bigEndian 2 g ++ octetsOf gs := List.flatMap_cons

@[simp] theorem length_octetsOf (gs : List Nat) : (octetsOf gs).length = 2 * gs.length := by
  induction gs with
  | nil => rfl
  | cons g gs ih =>
    rw [octetsOf_cons, List.length_append, ih, length_bigEndian, List.length_cons]
    omega

/-- The groups of an even number of octets. -/
theorem octetsOf_groupsOf (h : octets.length % 2 = 0) : octetsOf (groupsOf octets) = octets := by
  induction octets using List.twoStepInduction with
  | nil => rfl
  | singleton => simp at h
  | cons_cons high low rest ih =>
    have hpair : bigEndian 2 (high.val * 256 + low.val) = [high, low] := by
      have := high.isLt
      have := low.isLt
      simp only [bigEndian, List.cons.injEq, and_true, Fin.ext_iff, Fin.ofNat, pow_one, pow_zero]
      omega
    rw [groupsOf, octetsOf_cons, hpair, ih (by simp at h; omega)]
    rfl

theorem length_groupsOf (octets : Bytes) : (groupsOf octets).length = octets.length / 2 := by
  induction octets using List.twoStepInduction with
  | nil => rfl
  | singleton => simp [groupsOf]
  | cons_cons high low rest ih =>
    rw [groupsOf, List.length_cons, ih, List.length_cons, List.length_cons]
    omega

/-- A sequence of groups starts with a hexadecimal digit. -/
theorem joined_cons_eq (g : Nat) (gs : List Nat) :
    ∃ c rest, joined (g :: gs) = c :: rest ∧ (hexValue c).isSome = true := by
  obtain ⟨c, rest, hcons⟩ := List.exists_cons_of_ne_nil (hexNumeral_ne_nil g)
  have hc : (hexValue c).isSome = true := hexValue_of_mem_hexNumeral (by rw [hcons]; simp)
  cases gs with
  | nil => exact ⟨c, rest, hcons, hc⟩
  | cons g' gs => exact ⟨c, rest ++ 58 :: joined (g' :: gs), by rw [joined, hcons]; rfl, hc⟩

/-- The bytes of a sequence of groups. -/
theorem of_mem_joined (hb : b ∈ joined gs) : (hexValue b).isSome = true ∨ b = 58 := by
  induction gs with
  | nil => cases hb
  | cons g gs ih =>
    cases gs with
    | nil => exact .inl (hexValue_of_mem_hexNumeral hb)
    | cons g' gs =>
      rcases List.mem_append.mp hb with hb | hb
      · exact .inl (hexValue_of_mem_hexNumeral hb)
      · rcases List.mem_cons.mp hb with hb | hb
        · exact .inr hb
        · exact ih hb

section Reading

variable {fuel : Nat} {octets : Bytes} {ellipsis : Option Nat} {g : Nat}

/-- The text of a group is taken as a whole when a colon or nothing follows. -/
theorem takeWhile_hexNumeral (g : Nat) (hrest : ∀ c ∈ rest.head?, c = 58) :
    (hexNumeral g ++ rest).takeWhile (fun c => (hexValue c).isSome) = hexNumeral g := by
  have hstop : rest.takeWhile (fun c => (hexValue c).isSome) = [] := by
    cases rest with
    | nil => rfl
    | cons c rest =>
      obtain rfl : c = 58 := hrest c rfl
      rfl
  rw [List.takeWhile_append_of_pos fun c hc => hexValue_of_mem_hexNumeral hc, hstop,
    List.append_nil]

/-- Reading one group. -/
theorem ipv6Groups_numeral (hg : g < 2 ^ 16) (hrest : ∀ c ∈ rest.head?, c = 58) :
    ipv6Groups (fuel + 1) octets ellipsis (hexNumeral g ++ rest) =
      match rest with
      | [] => some (octets ++ bigEndian 2 g, ellipsis, [])
      | _ :: [] => none
      | _ :: next :: tail =>
        if next = 58 then
          if ellipsis.isSome then none
          else if tail = [] then
            some (octets ++ bigEndian 2 g, some (octets ++ bigEndian 2 g).length, [])
          else ipv6Groups fuel (octets ++ bigEndian 2 g)
            (some (octets ++ bigEndian 2 g).length) tail
        else ipv6Groups fuel (octets ++ bigEndian 2 g) ellipsis (next :: tail) := by
  have hlength : ¬(4 < (hexNumeral g).length ∨ hexNumeral g = []) :=
    not_or.mpr ⟨not_lt.mpr (length_hexNumeral_le hg), hexNumeral_ne_nil g⟩
  have hdot : ¬rest.head? = some 46 := by
    intro h
    exact absurd (hrest 46 h) (by decide)
  rw [ipv6Groups]
  simp only [takeWhile_hexNumeral g hrest, List.drop_left, if_neg hlength, if_neg hdot,
    foldl_hexNumeral]
  match rest, hrest with
  | [], _ => rfl
  | colon :: rest, hrest =>
    obtain rfl : colon = 58 := hrest colon rfl
    match rest with
    | [] => rfl
    | next :: tail => rfl

/-- Reading a sequence of groups. -/
theorem ipv6Groups_joined (hne : gs ≠ []) (hgs : ∀ g ∈ gs, g < 2 ^ 16) (hfuel : gs.length ≤ fuel) :
    ipv6Groups fuel octets ellipsis (joined gs) = some (octets ++ octetsOf gs, ellipsis, []) := by
  induction gs generalizing fuel octets with
  | nil => exact absurd rfl hne
  | cons g gs ih =>
    obtain ⟨fuel, rfl⟩ : ∃ n, fuel = n + 1 := Nat.exists_eq_add_one.mpr (by simp at hfuel; omega)
    have hg := hgs g (by simp)
    cases gs with
    | nil =>
      have hread : ipv6Groups (fuel + 1) octets ellipsis (hexNumeral g ++ []) =
          some (octets ++ bigEndian 2 g, ellipsis, []) := ipv6Groups_numeral hg (by simp)
      rw [List.append_nil] at hread
      rw [joined, hread]
      simp [octetsOf]
    | cons g' gs =>
      obtain ⟨c, rest, hcons, hc⟩ := joined_cons_eq g' gs
      have hne : c ≠ 58 := by
        rintro rfl
        exact absurd hc (by decide)
      rw [joined, ipv6Groups_numeral hg (by simp), hcons]
      simp only [hne, if_false]
      rw [← hcons, ih (by simp) (fun x hx => hgs x (by simp [hx])) (by simp at hfuel ⊢; omega),
        List.append_assoc, ← octetsOf_cons]

/-- Reading a sequence of groups before the ellipsis. -/
theorem ipv6Groups_ellipsis (hne : gs ≠ []) (hgs : ∀ g ∈ gs, g < 2 ^ 16) (hfuel : gs.length ≤ fuel)
    (tail : Bytes) :
    ipv6Groups fuel octets none (joined gs ++ 58 :: 58 :: tail) =
      if tail = [] then some (octets ++ octetsOf gs, some (octets ++ octetsOf gs).length, [])
      else ipv6Groups (fuel - gs.length) (octets ++ octetsOf gs)
        (some (octets ++ octetsOf gs).length) tail := by
  induction gs generalizing fuel octets with
  | nil => exact absurd rfl hne
  | cons g gs ih =>
    obtain ⟨fuel, rfl⟩ : ∃ n, fuel = n + 1 := Nat.exists_eq_add_one.mpr (by simp at hfuel; omega)
    have hg := hgs g (by simp)
    cases gs with
    | nil =>
      rw [joined, ipv6Groups_numeral hg (by simp)]
      simp [octetsOf]
    | cons g' gs =>
      obtain ⟨c, rest, hcons, hc⟩ := joined_cons_eq g' gs
      have hne : c ≠ 58 := by
        rintro rfl
        exact absurd hc (by decide)
      rw [joined, List.append_assoc, List.cons_append, ipv6Groups_numeral hg (by simp), hcons,
        List.cons_append]
      simp only [hne, if_false]
      rw [← List.cons_append, ← hcons, ih (by simp) (fun x hx => hgs x (by simp [hx]))
        (by simp at hfuel ⊢; omega), List.append_assoc, ← octetsOf_cons]
      simp

end Reading

/-! ## Printing -/

theorem joined_cons (g : Nat) (gs : List Nat) :
    joined (g :: gs) = hexNumeral g ++ gs.flatMap fun g => 58 :: hexNumeral g := by
  induction gs generalizing g with
  | nil => simp [joined]
  | cons g' gs ih => rw [joined, ih, List.flatMap_cons, List.cons_append]

/-- Nothing, or a stretch of zero groups. -/
def IsZeroRun (groups : List Nat) (run : Nat × Nat) : Prop :=
  run = (255, 255) ∨ ∃ i l, run = (i, i + l) ∧ 0 < l ∧ i + l ≤ groups.length ∧
    groups = groups.take i ++ (List.replicate l 0 ++ groups.drop (i + l))

/-- What the printer leaves out is zero. -/
theorem isZeroRun_zeroRun (groups : List Nat) : IsZeroRun groups (zeroRun groups) := by
  refine List.foldlRecOn (motive := IsZeroRun groups) _ _ (.inl rfl) fun best hbest i _ => ?_
  dsimp only
  set zeros := (groups.drop i).takeWhile (· = 0)
  split_ifs with h
  · refine .inr ⟨i, _, rfl, by omega, ?_, ?_⟩
    · have hle : zeros.length ≤ (groups.drop i).length := (List.takeWhile_prefix _).length_le
      rw [List.length_drop] at hle
      omega
    · have hzeros : zeros = List.replicate zeros.length 0 := by
        refine List.eq_replicate_of_mem fun g hg => ?_
        simpa using List.mem_takeWhile_imp hg
      have hsplit : zeros ++ (groups.drop i).drop zeros.length = groups.drop i :=
        List.prefix_iff_eq_append.mp (List.takeWhile_prefix _)
      rw [← hzeros, ← List.drop_drop, hsplit, List.take_append_drop]
  · exact hbest

section Printing

variable {groups : List Nat} {run : Nat × Nat} {i l : Nat}

theorem drop_eq_getD_cons (h : i < groups.length) :
    groups.drop i = groups.getD i 0 :: groups.drop (i + 1) := by
  rw [List.drop_eq_getElem_cons h, List.getD_eq_getElem _ _ h]

/-- Printing from a group behind the run: every group with its colon. -/
theorem printGroups_behind (hlength : groups.length = 8) (hi : 0 < i)
    (hfuel : 8 ≤ i + fuel) (hrun : ∀ k, i ≤ k → k < 8 → k ≠ run.1) :
    printGroups groups run fuel i = (groups.drop i).flatMap fun g => 58 :: hexNumeral g := by
  have hcolon : ascii ":" = [58] := by decide
  induction fuel generalizing i with
  | zero =>
    rw [List.drop_eq_nil_of_le (by omega)]
    rfl
  | succ fuel ih =>
    rw [printGroups]
    by_cases hend : 8 ≤ i
    · rw [if_pos hend, List.drop_eq_nil_of_le (by omega)]
      rfl
    · rw [if_neg hend, if_neg (hrun i le_rfl (by omega)), if_pos hi,
        drop_eq_getD_cons (by omega), List.flatMap_cons,
        ih (by omega) (by omega) fun k hk => hrun k (by omega), hcolon]
      rfl

/-- Printing from the run on. -/
theorem printGroups_run (hlength : groups.length = 8) (hl : 0 < l) (hbound : i + l ≤ 8)
    (hfuel : 7 ≤ i + fuel) :
    printGroups groups (i, i + l) (fuel + 1) i = 58 :: 58 :: joined (groups.drop (i + l)) := by
  have hcolons : ascii "::" = [58, 58] := by decide
  rw [printGroups, if_neg (by omega), if_pos rfl, hcolons]
  by_cases hend : 8 ≤ i + l
  · rw [if_pos hend, List.drop_eq_nil_of_le (by omega)]
    rfl
  · rw [if_neg hend, drop_eq_getD_cons (by omega), joined_cons,
      printGroups_behind hlength (by omega) (by omega) (by intro k hk _; simp only; omega)]
    rfl

/-- Printing from a group up to the run, when there is one. -/
theorem printGroups_before (hlength : groups.length = 8) (hl : 0 < l)
    (hbound : i + l ≤ 8) {k : Nat} (hk : 0 < k) (hki : k ≤ i) (hfuel : 8 ≤ k + fuel) :
    printGroups groups (i, i + l) fuel k =
      ((groups.take i).drop k).flatMap (fun g => 58 :: hexNumeral g) ++
        58 :: 58 :: joined (groups.drop (i + l)) := by
  have hcolon : ascii ":" = [58] := by decide
  induction fuel generalizing k with
  | zero => omega
  | succ fuel ih =>
    rcases hki.eq_or_lt with rfl | hlt
    · have hnone : (groups.take k).drop k = [] := List.drop_eq_nil_of_le (by simp)
      rw [printGroups_run hlength hl hbound (by omega), hnone, List.flatMap_nil, List.nil_append]
    · have hcons : (groups.take i).drop k = groups.getD k 0 :: (groups.take i).drop (k + 1) := by
        rw [List.drop_eq_getElem_cons (by simp; omega), List.getElem_take,
          List.getD_eq_getElem _ _ (by omega)]
      rw [printGroups, if_neg (by omega), if_neg hlt.ne, if_pos hk, hcons, List.flatMap_cons,
        ih (by omega) hlt (by omega), hcolon]
      simp

/-- **What the printer writes**: all groups, or those around a run of zeros. -/
theorem printGroups_eq (hlength : groups.length = 8) (hrun : IsZeroRun groups run) :
    printGroups groups run 8 0 = joined groups ∨
      ∃ front back l, 0 < l ∧ groups = front ++ (List.replicate l 0 ++ back) ∧
        printGroups groups run 8 0 = joined front ++ 58 :: 58 :: joined back := by
  have hcons : groups = groups.getD 0 0 :: groups.drop 1 := drop_eq_getD_cons (i := 0) (by omega)
  rcases hrun with rfl | ⟨i, l, rfl, hl, hbound, hgroups⟩
  · left
    conv_rhs => rw [hcons, joined_cons]
    rw [printGroups, if_neg (by norm_num), if_neg (by norm_num), if_neg (by norm_num),
      printGroups_behind hlength (by norm_num) (by norm_num) (by intro k _ hk; simp only; omega)]
    rfl
  · right
    refine ⟨groups.take i, groups.drop (i + l), l, hl, hgroups, ?_⟩
    rw [hlength] at hbound
    rcases Nat.eq_zero_or_pos i with rfl | hi
    · rw [printGroups_run hlength hl hbound le_rfl]
      rfl
    · have hfront : groups.take i = groups.getD 0 0 :: (groups.take i).drop 1 := by
        conv_lhs => rw [← List.drop_zero (l := groups.take i),
          List.drop_eq_getElem_cons (by simp; omega)]
        rw [List.getElem_take, List.getD_eq_getElem _ _ (by omega)]
      rw [hfront, joined_cons, List.append_assoc, printGroups, if_neg (by norm_num),
        if_neg (by simp only; omega), if_neg (by norm_num),
        printGroups_before hlength hl hbound (by norm_num) hi (by norm_num)]
      rfl

end Printing

/-! ## Whole texts -/

/-- The end of the reader, on what was read around the ellipsis. -/
theorem expandEllipsis_octetsOf {front back : List Nat} {l : Nat} (hl : 0 < l)
    (hlength : (front ++ (List.replicate l 0 ++ back)).length = 8) :
    expandEllipsis (octetsOf front ++ octetsOf back) (some (octetsOf front).length) =
      some (octetsOf (front ++ (List.replicate l 0 ++ back))) := by
  simp only [List.length_append, List.length_replicate] at hlength
  have hzeros : octetsOf (List.replicate l 0) = List.replicate (2 * l) 0 := by
    clear hlength hl
    induction l with
    | zero => rfl
    | succ l ih =>
      rw [List.replicate_succ, octetsOf_cons, ih, Nat.mul_succ, Nat.add_comm, List.replicate_add]
      rfl
  have happend : ∀ gs hs, octetsOf (gs ++ hs) = octetsOf gs ++ octetsOf hs :=
    fun gs hs => List.flatMap_append
  have hcount : 16 - (octetsOf front ++ octetsOf back).length = 2 * l := by
    simp only [List.length_append, length_octetsOf]
    omega
  rw [expandEllipsis, if_pos (by simp only [List.length_append, length_octetsOf]; omega), hcount,
    List.take_left, List.drop_left, happend, happend, hzeros, List.append_assoc]

/-- Reading a text without a percent sign. -/
theorem parseIPv6_of_groups {read : Bytes} {ellipsis : Option Nat} (hlength : octets.length = 16)
    (hzone : (37 : Byte) ∉ text)
    (hread : (if (ascii "::").isPrefixOf text then
        if text.length = 2 then some ([], some 0, []) else ipv6Groups 8 [] (some 0) (text.drop 2)
      else ipv6Groups 8 [] none text) = some (read, ellipsis, []))
    (hexpand : expandEllipsis read ellipsis = some octets) :
    parseIPv6 text = some (.v6 ⟨octets, hlength⟩ []) := by
  have haddress : text.takeWhile (fun c => decide (c ≠ 37)) = text := by
    refine List.takeWhile_eq_self_iff.mpr fun c hc => ?_
    simpa using fun h : c = 37 => hzone (h ▸ hc)
  unfold parseIPv6
  simp only [haddress, List.drop_eq_nil_of_le (Nat.le_succ text.length), lt_irrefl, false_and,
    if_false]
  split_ifs at hread ⊢
  · obtain ⟨rfl, rfl, -⟩ : [] = read ∧ some 0 = ellipsis ∧ True := by simpa using hread
    simp [hexpand, hlength]
  · simp [hread, hexpand, hlength]
  · simp [hread, hexpand, hlength]

/-- The first separator of a text with a colon and no other one. -/
theorem parseAddr_eq_parseIPv6 (hcolon : 58 ∈ text) (hothers : ∀ b ∈ text, b ≠ 46 ∧ b ≠ 37) :
    parseAddr text = parseIPv6 text := by
  obtain ⟨c, hfind⟩ : ∃ c, text.find? (fun c => c = 46 || c = 58 || c = 37) = some c :=
    Option.isSome_iff_exists.mp (List.find?_isSome.mpr ⟨58, hcolon, by decide⟩)
  have hc := List.find?_some hfind
  have hmem := List.mem_of_find?_eq_some hfind
  obtain rfl : c = 58 := by
    simpa [(hothers c hmem).1, (hothers c hmem).2] using hc
  rw [parseAddr, hfind]
  rfl

/-- A hexadecimal digit is no separator. -/
theorem ne_of_hexValue (h : (hexValue b).isSome = true) : b ≠ 46 ∧ b ≠ 37 ∧ b ≠ 58 := by
  revert h
  revert b
  decide +kernel

/-- The groups of an address are read back from its text. -/
theorem parseAddr_printGroups (hlength : octets.length = 16) :
    parseAddr (printGroups (groupsOf octets) (zeroRun (groupsOf octets)) 8 0) =
      some (.v6 ⟨octets, hlength⟩ []) := by
  have hgroups : (groupsOf octets).length = 8 := by rw [length_groupsOf, hlength]
  have hall : ∀ g ∈ groupsOf octets, g < 2 ^ 16 := lt_of_mem_groupsOf
  have hoctets : octetsOf (groupsOf octets) = octets := octetsOf_groupsOf (by rw [hlength])
  have hseparators : ∀ {gs : List Nat} {b : Byte}, b ∈ joined gs → b ≠ 46 ∧ b ≠ 37 := by
    intro gs b hb
    rcases of_mem_joined hb with hb | rfl
    · exact ⟨(ne_of_hexValue hb).1, (ne_of_hexValue hb).2.1⟩
    · decide
  rcases printGroups_eq hgroups (isZeroRun_zeroRun _) with
    htext | ⟨front, back, l, hl, hsplit, htext⟩
  · -- eight groups
    obtain ⟨g, g', gs, hcons⟩ : ∃ g g' gs, groupsOf octets = g :: g' :: gs := by
      match groupsOf octets, hgroups with
      | g :: g' :: gs, _ => exact ⟨g, g', gs, rfl⟩
    have hcolon : (58 : Byte) ∈ joined (groupsOf octets) := by
      rw [hcons, joined]
      simp
    rw [htext, parseAddr_eq_parseIPv6 hcolon fun b hb => hseparators hb]
    refine parseIPv6_of_groups hlength (fun h => (hseparators h).2 rfl) ?_
      (show expandEllipsis octets none = some octets by rw [expandEllipsis, if_neg (by omega)])
    obtain ⟨c, rest, hstart, hc⟩ := joined_cons_eq g (g' :: gs)
    have hprefix : ¬(ascii "::").isPrefixOf (joined (groupsOf octets)) = true := by
      have hfirst : ascii "::" = [58, 58] := by decide
      rw [hcons, hstart, hfirst, List.isPrefixOf_cons_cons]
      simp [(ne_of_hexValue hc).2.2.symm]
    rw [if_neg hprefix, ipv6Groups_joined (by rw [hcons]; simp) hall (by rw [hgroups]),
      List.nil_append, hoctets]
  · -- a run of zeros is left out
    have hlengths : front.length + (l + back.length) = 8 := by
      rw [hsplit] at hgroups
      simpa using hgroups
    have hfront : ∀ g ∈ front, g < 2 ^ 16 := fun g hg => hall g (by rw [hsplit]; simp [hg])
    have hback : ∀ g ∈ back, g < 2 ^ 16 := fun g hg => hall g (by rw [hsplit]; simp [hg])
    have hothers : ∀ b ∈ joined front ++ 58 :: 58 :: joined back, b ≠ 46 ∧ b ≠ 37 := by
      intro b hb
      simp only [List.mem_append, List.mem_cons] at hb
      rcases hb with hb | rfl | rfl | hb
      · exact hseparators hb
      · decide
      · decide
      · exact hseparators hb
    have hexpand : expandEllipsis (octetsOf front ++ octetsOf back)
        (some (octetsOf front).length) = some octets := by
      rw [expandEllipsis_octetsOf hl (by rw [← hsplit, hgroups]), ← hsplit, hoctets]
    have hfirst : ascii "::" = [58, 58] := by decide
    have hnil : joined back = [] ↔ back = [] := by
      cases back with
      | nil => simp [joined]
      | cons g gs =>
        obtain ⟨c, rest, hstart, -⟩ := joined_cons_eq g gs
        simp [hstart]
    rw [htext, parseAddr_eq_parseIPv6 (by simp) hothers]
    refine parseIPv6_of_groups hlength (fun h => (hothers _ h).2 rfl) ?_ hexpand
    cases front with
    | nil =>
      -- nothing before the run: the text starts with the ellipsis
      rw [joined, List.nil_append, hfirst, if_pos (by simp)]
      by_cases hempty : back = []
      · rw [hempty]
        rfl
      · rw [if_neg (by simpa [hnil] using hempty)]
        exact ipv6Groups_joined hempty hback (by omega)
    | cons g gs =>
      obtain ⟨c, rest, hstart, hc⟩ := joined_cons_eq g gs
      have hprefix : ¬(ascii "::").isPrefixOf
          (joined (g :: gs) ++ 58 :: 58 :: joined back) = true := by
        rw [hstart, hfirst, List.cons_append, List.isPrefixOf_cons_cons]
        simp [(ne_of_hexValue hc).2.2.symm]
      rw [if_neg hprefix, ipv6Groups_ellipsis (by simp) hfront (by omega), List.nil_append]
      by_cases hempty : back = []
      · rw [if_pos (hnil.mpr hempty), hempty]
        simp [octetsOf]
      · rw [if_neg fun h => hempty (hnil.mp h)]
        exact ipv6Groups_joined hempty hback (by omega)

/-- An IPv4-mapped address is read back. -/
theorem parseAddr_mapped (hlength : octets.length = 16)
    (hmapped : octets.take 12 = List.replicate 10 0 ++ [255, 255]) :
    parseAddr (ascii "::ffff:" ++ dottedQuad (octets.drop 12)) =
      some (.v6 ⟨octets, hlength⟩ []) := by
  have hquad : (octets.drop 12).length = 4 := by rw [List.length_drop, hlength]
  have hpre : ascii "::ffff:" = [58, 58, 102, 102, 102, 102, 58] := by decide
  have hfirst : ascii "::" = [58, 58] := by decide
  have hzone : (37 : Byte) ∉ ascii "::ffff:" ++ dottedQuad (octets.drop 12) := by
    intro h
    rcases List.mem_append.mp h with h | h
    · exact absurd h (by decide)
    · rcases of_mem_dottedQuad hquad h with h | h
      · exact absurd h (by decide)
      · exact absurd h (by decide)
  have hparse : parseAddr (ascii "::ffff:" ++ dottedQuad (octets.drop 12)) =
      parseIPv6 (ascii "::ffff:" ++ dottedQuad (octets.drop 12)) := by
    rw [hpre]
    rfl
  have hexpand : expandEllipsis ([255, 255] ++ octets.drop 12) (some 0) = some octets := by
    have hcount : ([255, 255] ++ octets.drop 12 : Bytes).length = 6 := by simp [hquad]
    rw [expandEllipsis, if_pos (by omega), hcount]
    conv_rhs => rw [← List.take_append_drop 12 octets, hmapped]
    simp
  rw [hparse]
  refine parseIPv6_of_groups hlength hzone ?_ hexpand
  -- the group `ffff`, then the quad
  match hoctets : octets.drop 12, hquad with
  | [a, b, c, d], hquad =>
    obtain ⟨first, rest, hcons⟩ := List.exists_cons_of_ne_nil (decimal_ne_nil a.val)
    have hdigit := digit_of_mem_decimal (n := a.val) (c := first) (by rw [hcons]; simp)
    have hne : first ≠ 58 := by
      rintro rfl
      exact absurd hdigit (by decide)
    have hstart : ∃ tail, dottedQuad [a, b, c, d] = first :: tail := by
      rw [dottedQuad_eq, hcons]
      exact ⟨_, rfl⟩
    have hgroup : (dottedQuad [a, b, c, d]).takeWhile (fun c => (hexValue c).isSome) =
        decimal a.val := by
      rw [dottedQuad_eq, List.takeWhile_append_of_pos]
      · have hstop : (hexValue 46).isSome = false := by decide
        rw [List.takeWhile_cons_of_neg (by simp [hstop]), List.append_nil]
      · intro c hc
        have := digit_of_mem_decimal hc
        rw [hexValue, if_pos this]
        rfl
    have hshort : (decimal a.val).length ≤ 3 :=
      length_decimal_le (by norm_num) (by have := a.isLt; norm_num; omega)
    have hread : ipv6Groups 7 [255, 255] (some 0) (dottedQuad [a, b, c, d]) =
        some ([255, 255] ++ [a, b, c, d], some 0, []) := by
      rw [ipv6Groups]
      simp only [hgroup]
      rw [if_neg (not_or.mpr ⟨by omega, decimal_ne_nil _⟩), if_pos]
      · rw [if_neg (by simp), if_neg (by simp), ipv4Fields_dottedQuad (by simp)]
        rfl
      · rw [dottedQuad_eq, List.drop_left]
        rfl
    obtain ⟨tail, htail⟩ := hstart
    have hffff : hexNumeral 65535 = [102, 102, 102, 102] := by decide +kernel
    have hoctet : bigEndian 2 65535 = [255, 255] := by decide
    have hdrop : (ascii "::ffff:" ++ dottedQuad [a, b, c, d]).drop 2 =
        hexNumeral 65535 ++ 58 :: dottedQuad [a, b, c, d] := by
      rw [hpre, hffff]
      rfl
    rw [if_pos (by rw [hpre, hfirst]; simp), if_neg (by rw [hpre]; simp), hdrop,
      ipv6Groups_numeral (by norm_num) (by simp), htail]
    simp only [hne, if_false]
    rw [← htail, hoctet, List.nil_append, hread]

namespace Addr

/-- **The text of an address is read back.** -/
theorem parseAddr_string (h : a.zone = []) : parseAddr a.string = some a := by
  cases a with
  | v4 octets =>
    have hfields := ipv4Fields_dottedQuad octets.property
    have hparse : parseAddr (dottedQuad octets.val) = parseIPv4 (dottedQuad octets.val) := by
      obtain ⟨c, hfind⟩ : ∃ c, (dottedQuad octets.val).find?
          (fun c => c = 46 || c = 58 || c = 37) = some c := by
        match octets with
        | ⟨[a, b, c, d], _⟩ =>
          refine Option.isSome_iff_exists.mp (List.find?_isSome.mpr ⟨46, ?_, by decide⟩)
          rw [dottedQuad_eq]
          simp
      have hc : c = 46 ∨ c = 58 ∨ c = 37 := by simpa [or_assoc] using List.find?_some hfind
      have hmem := of_mem_dottedQuad octets.property (List.mem_of_find?_eq_some hfind)
      obtain rfl : c = 46 := by
        rcases hc with rfl | rfl | rfl
        · rfl
        · exact absurd hmem (by decide)
        · exact absurd hmem (by decide)
      rw [parseAddr, hfind]
      rfl
    rw [string, hparse, parseIPv4, hfields]
    simp [octets.property]
  | v6 octets zone =>
    obtain rfl : zone = [] := h
    rw [string, if_pos rfl]
    split_ifs with hmapped
    · exact parseAddr_mapped octets.property hmapped
    · exact parseAddr_printGroups octets.property

theorem string_ne_nil (h : a.zone = []) : a.string ≠ [] := by
  intro hnil
  have hparse := parseAddr_string h
  rw [hnil] at hparse
  cases hparse

end Addr

/-! ## The characters of an address -/

/-- A character of the text of an address without a zone. -/
def IsAddrByte (b : Byte) : Prop := (hexValue b).isSome = true ∨ b = 58 ∨ b = 46

theorem isAddrByte_of_numeric (h : 48 ≤ b.val ∧ b.val ≤ 57 ∨ b = 46) : IsAddrByte b := by
  rcases h with h | h
  · exact .inl (by rw [hexValue, if_pos h]; rfl)
  · exact .inr (.inr h)

theorem isAddrByte_of_ipv6Groups {octets' : Bytes} {ellipsis ellipsis' : Option Nat}
    (h : ipv6Groups fuel octets ellipsis text = some (octets', ellipsis', [])) :
    ∀ b ∈ text, IsAddrByte b := by
  induction fuel generalizing octets ellipsis text with
  | zero =>
    obtain rfl : text = [] := by
      have h := Option.some.inj h
      simp only [Prod.mk.injEq] at h
      exact h.2.2
    simp
  | succ fuel ih =>
    have hcolon : IsAddrByte 58 := .inr (.inl rfl)
    have hsplit : (text.takeWhile fun c => (hexValue c).isSome) ++
        (text.dropWhile fun c => (hexValue c).isSome) = text :=
      List.takeWhile_append_dropWhile
    have hgroup : ∀ b ∈ text.takeWhile fun c => (hexValue c).isSome, IsAddrByte b :=
      fun b hb => .inl (by simpa using List.mem_takeWhile_imp hb)
    have hrest : text.drop (text.takeWhile fun c => (hexValue c).isSome).length =
        text.dropWhile fun c => (hexValue c).isSome := by
      have hdrop : ∀ front back : Bytes, (front ++ back).drop front.length = back :=
        fun front back => List.drop_left
      have hdrop := hdrop (text.takeWhile fun c => (hexValue c).isSome)
        (text.dropWhile fun c => (hexValue c).isSome)
      rwa [hsplit] at hdrop
    -- the bytes of the text are those of the group and of the rest
    have hall : (∀ b ∈ text.dropWhile fun c => (hexValue c).isSome, IsAddrByte b) →
        ∀ b ∈ text, IsAddrByte b := by
      intro hdrop b hb
      rw [← hsplit] at hb
      rcases List.mem_append.mp hb with hb | hb
      · exact hgroup b hb
      · exact hdrop b hb
    rw [ipv6Groups] at h
    dsimp only at h
    rw [hrest] at h
    split at h
    · cases h
    split at h
    · -- a trailing dotted quad
      split_ifs at h
      obtain ⟨fields, hfields, -⟩ := Option.map_eq_some_iff.mp h
      exact fun b hb => isAddrByte_of_numeric (numeric_of_ipv4Fields hfields b hb)
    apply hall
    split at h
    next hnil =>
      rw [hnil]
      simp
    next colon rest hcons =>
      rw [hcons]
      split at h
      · cases h
      next hcolonEq =>
        rw [not_not.mp hcolonEq]
        refine List.forall_mem_cons.mpr ⟨hcolon, ?_⟩
        split at h
        · cases h
        next next tail =>
          split at h
          next hnext =>
            rw [hnext]
            refine List.forall_mem_cons.mpr ⟨hcolon, ?_⟩
            split at h
            · cases h
            split at h
            next hend =>
              rw [hend]
              simp
            next => exact ih h
          next => exact ih h

/-- The groups are read to their end, and what is behind them is the zone. -/
theorem eq_of_parseIPv6_tail {read : Option (Bytes × Option Nat × Bytes)} {zone : Bytes}
    (h : (do
      let (octets, ellipsis, rest) ← read
      if rest ≠ [] then none else
      let octets ← expandEllipsis octets ellipsis
      if h : octets.length = 16 then some (Addr.v6 ⟨octets, h⟩ zone) else none) = some a) :
    (∃ octets ellipsis, read = some (octets, ellipsis, [])) ∧ a.zone = zone := by
  obtain ⟨⟨octets, ellipsis, rest⟩, hread, h⟩ := Option.bind_eq_some_iff.mp h
  dsimp only at h
  split at h
  · cases h
  next hrest =>
    obtain ⟨octets', -, h⟩ := Option.bind_eq_some_iff.mp h
    split at h
    next hlength =>
      obtain rfl := Option.some.inj h
      exact ⟨⟨octets, ellipsis, by rw [hread, not_not.mp hrest]⟩, rfl⟩
    next => cases h

theorem isAddrByte_of_parseIPv6 (h : parseIPv6 text = some a) (hzone : a.zone = []) :
    ∀ b ∈ text, IsAddrByte b := by
  unfold parseIPv6 at h
  dsimp only at h
  split at h
  · cases h
  next hempty =>
    -- without a zone the whole text has been read
    have haddress : text.drop ((text.takeWhile fun c => c ≠ 37).length + 1) = [] →
        (text.takeWhile fun c => c ≠ 37) = text := by
      intro hnil
      have hle := (List.takeWhile_sublist (fun c : Byte => c ≠ 37) (l := text)).length_le
      refine (List.takeWhile_prefix _).eq_of_length (le_antisymm hle (not_lt.mp ?_))
      exact fun hlt => hempty ⟨hlt, hnil⟩
    split at h
    next hellipsis =>
      have hcolons : ∀ b ∈ ascii "::", IsAddrByte b := by
        unfold IsAddrByte
        decide +kernel
      split at h
      next htwo =>
        obtain ⟨-, hrest⟩ := eq_of_parseIPv6_tail h
        rw [haddress (hrest.symm.trans hzone)] at hellipsis htwo
        rw [← (List.isPrefixOf_iff_prefix.mp hellipsis).eq_of_length htwo.symm]
        exact hcolons
      next =>
        obtain ⟨⟨octets, ellipsis, hgroups⟩, hrest⟩ := eq_of_parseIPv6_tail h
        rw [haddress (hrest.symm.trans hzone)] at hellipsis hgroups
        obtain ⟨tail, rfl⟩ := List.isPrefixOf_iff_prefix.mp hellipsis
        rw [List.drop_left' (by decide)] at hgroups
        intro b hb
        rcases List.mem_append.mp hb with hb | hb
        · exact hcolons b hb
        · exact isAddrByte_of_ipv6Groups hgroups b hb
    next =>
      obtain ⟨⟨octets, ellipsis, hgroups⟩, hrest⟩ := eq_of_parseIPv6_tail h
      rw [haddress (hrest.symm.trans hzone)] at hgroups
      exact isAddrByte_of_ipv6Groups hgroups

/-- **What reads as an address without a zone consists of hexadecimal digits, colons and dots.** -/
theorem isAddrByte_of_parseAddr (h : parseAddr text = some a) (hzone : a.zone = []) :
    ∀ b ∈ text, IsAddrByte b := by
  unfold parseAddr at h
  split at h
  · split_ifs at h
    · simp only [parseIPv4, Option.bind_eq_bind, Option.bind_eq_some_iff] at h
      obtain ⟨fields, hfields, -⟩ := h
      exact fun b hb => isAddrByte_of_numeric (numeric_of_ipv4Fields hfields b hb)
    · exact isAddrByte_of_parseIPv6 h hzone
  · cases h

/-- The bytes of the text of an address. -/
theorem Addr.of_mem_string (h : a.zone = []) (hb : b ∈ a.string) : IsAddrByte b :=
  isAddrByte_of_parseAddr (parseAddr_string h) h b hb

end Egressfox.Lib
