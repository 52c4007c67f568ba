import Egressfox.Lib.HostPort
import Egressfox.Endpoint.Host

/-!
# The texts of an address

`Address.String` and `decimalPort` of `internal/endpoint/address.go`.

An address is canonical: its own host and port make the same address again, so do the two parts of
its text, and the spellings of one host make one address (`newAddress_canonical`).  The last point
needs the tables of Unicode to agree with ASCII, because a name that is not in ASCII may be
accepted; the first needs that lower-casing makes no digits and dots.
-/

namespace Egressfox.Endpoint

open Lib

/-! ## Printing -/

/-- The loop of `decimalPort`, with the part of the buffer that is filled; `fuel` is the length
of the part that is not. -/
def decimalPortLoop : Nat → Nat → Bytes → Bytes
  | 0, _, buffer => buffer
  | fuel + 1, port, buffer =>
    if port = 0 then buffer
    else decimalPortLoop fuel (port / 10) (Fin.ofNat 256 (48 + port % 10) :: buffer)

/-- `decimalPort`. -/
def decimalPort (port : Fin 65536) : Bytes := decimalPortLoop 5 port.val []

/-- `Address.String`. -/
def Address.string (a : Address) : Bytes :=
  if !a.valid then ascii "<invalid-address>" else joinHostPort a.host (decimalPort a.port)

theorem decimalPortLoop_eq {fuel port : Nat} (h : port < 10 ^ fuel) (buffer : Bytes) :
    decimalPortLoop fuel port buffer =
      ((Nat.digits 10 port).map fun d => Fin.ofNat 256 (48 + d)).reverse ++ buffer := by
  induction fuel generalizing port buffer with
  | zero =>
    obtain rfl : port = 0 := by simpa using h
    simp [decimalPortLoop]
  | succ fuel ih =>
    rw [decimalPortLoop]
    split
    next hzero => simp [hzero]
    next hpos =>
      have hdigits : Nat.digits 10 port = port % 10 :: Nat.digits 10 (port / 10) :=
        Nat.digits_def' (by norm_num) (Nat.pos_of_ne_zero hpos)
      have hlt : port / 10 < 10 ^ fuel := by
        rw [pow_succ] at h
        omega
      rw [ih hlt, hdigits, List.map_cons, List.reverse_cons, List.append_assoc]
      rfl

/-- A port is printed in decimal. -/
theorem decimalPort_eq {port : Fin 65536} (h : port ≠ 0) : decimalPort port = decimal port.val := by
  have hpos : port.val ≠ 0 := fun hzero => h (Fin.ext hzero)
  have hlt := port.isLt
  rw [decimalPort, decimalPortLoop_eq (by norm_num; omega), decimal, if_neg hpos, List.append_nil]

/-! ## Spellings -/

/-- The IP address that a host text stands for: as it is, or without a trailing dot, and with or
without brackets. -/
def ipValue (raw : Bytes) : Option Addr :=
  let bare := if raw.head? = some 91 ∧ raw.getLast? = some 93 then raw.tail.dropLast else raw
  (parseAddr bare).or (parseAddr (trimDot bare))

/-- Two texts differ in the case of ASCII letters and in a trailing dot at most. -/
def SameName (host other : Bytes) : Prop :=
  (trimDot host).map lowerASCII = (trimDot other).map lowerASCII

theorem getLast?_brackets (text : Bytes) : (91 :: text ++ [93]).getLast? = some 93 := by
  rw [List.getLast?_append, List.getLast?_singleton, Option.some_or]

theorem Bare.ipValue_eq {raw bare : Bytes} {bracketed : Bool} (h : Bare raw bare bracketed) :
    ipValue raw = (parseAddr bare).or (parseAddr (trimDot bare)) := by
  unfold ipValue
  cases h with
  | plain hhead => rw [if_neg fun hboth => hhead hboth.1]
  | bracketed =>
    rw [if_pos ⟨rfl, getLast?_brackets _⟩]
    simp

section

variable {unicode : Unicode} {raw other bare bare' text text' : Bytes} {bracketed bracketed' : Bool}
  {kind : HostKind}

/-- A text that stands for an IP address is read as that address. -/
theorem Reading.eq_of_ipValue (h : Reading unicode bare bracketed text kind) {a : Addr}
    (ha : (parseAddr bare).or (parseAddr (trimDot bare)) = some a) :
    text = a.string ∧ kind = ipKind a := by
  cases h with
  | address hparse =>
    rw [hparse, Option.some_or] at ha
    obtain rfl := Option.some.inj ha
    exact ⟨rfl, rfl⟩
  | dotted hparse _ hdotted =>
    rw [hparse, Option.none_or, hdotted] at ha
    obtain rfl := Option.some.inj ha
    exact ⟨rfl, rfl⟩
  | name hparse _ hname =>
    rw [hparse, Option.none_or, hname] at ha
    cases ha

/-- A text that is read as a name is lower-cased without its trailing dot. -/
theorem Reading.eq_of_dns (h : Reading unicode bare bracketed text .dns) :
    text = toLower unicode (trimDot bare) := by
  generalize hkind : HostKind.dns = kind at h
  cases h with
  | address | dotted => exact absurd hkind.symm (ipKind_ne_dns _)
  | name => rfl

theorem lowerASCII_eq_iff {c : Byte} (hc : ¬(97 ≤ c.val ∧ c.val ≤ 122) ∧ ¬(65 ≤ c.val ∧ c.val ≤ 90))
    (b : Byte) : lowerASCII b = c ↔ b = c := by
  by_cases hb : 65 ≤ b.val ∧ b.val ≤ 90
  · have hval := val_lowerASCII hb
    constructor
    · rintro rfl
      omega
    · rintro rfl
      exact absurd hb hc.2
  · rw [lowerASCII_eq_self hb]

theorem trimDot_map_lowerASCII (text : Bytes) :
    trimDot (text.map lowerASCII) = (trimDot text).map lowerASCII := by
  have hdot : (text.map lowerASCII).getLast? = some 46 ↔ text.getLast? = some 46 := by
    rw [List.getLast?_map, Option.map_eq_some_iff]
    constructor
    · rintro ⟨b, hb, hlower⟩
      rwa [(lowerASCII_eq_iff (by decide) b).mp hlower] at hb
    · exact fun h => ⟨46, h, by decide⟩
  unfold trimDot
  by_cases hlast : text.getLast? = some 46
  · rw [if_pos hlast, if_pos (hdot.mpr hlast), List.map_dropLast]
  · rw [if_neg hlast, if_neg fun h => hlast (hdot.mp h)]

theorem trimDot_brackets (text : Bytes) : trimDot (91 :: text ++ [93]) = 91 :: text ++ [93] := by
  rw [trimDot, if_neg (by rw [getLast?_brackets]; decide)]

/-- A text in brackets is not spelt without them. -/
theorem Bare.not_sameName_bracketed (h : Bare raw bare false) :
    ¬SameName raw (91 :: text ++ [93]) := by
  intro hsame
  cases h with
  | plain hhead =>
    unfold SameName at hsame
    rw [trimDot_brackets] at hsame
    apply hhead
    have hfirst := congrArg List.head? hsame
    rw [List.cons_append, List.map_cons, List.head?_cons, List.head?_map,
      Option.map_eq_some_iff] at hfirst
    obtain ⟨b, hb, hlower⟩ := hfirst
    obtain rfl : b = 91 := (lowerASCII_eq_iff (by decide) b).mp hlower
    unfold trimDot at hb
    split at hb
    · obtain ⟨tail, htail⟩ := List.head?_eq_some_iff.mp hb
      cases raw with
      | nil => cases htail
      | cons c raw =>
        cases raw with
        | nil => cases htail
        | cons d raw =>
          exact congrArg some (List.cons.inj htail).1
    · exact hb

/-- The spellings of one name have one name behind the brackets. -/
theorem Bare.sameName (h : Bare raw bare bracketed) (h' : Bare other bare' bracketed')
    (hsame : SameName raw other) : SameName bare bare' := by
  cases h with
  | plain hhead hlast =>
    cases h' with
    | plain => exact hsame
    | bracketed => exact absurd hsame (Bare.not_sameName_bracketed (.plain hhead hlast))
  | bracketed =>
    cases h' with
    | plain hhead hlast =>
      exact absurd (Eq.symm hsame) (Bare.not_sameName_bracketed (.plain hhead hlast))
    | bracketed =>
      unfold SameName at hsame ⊢
      rw [trimDot_brackets, trimDot_brackets] at hsame
      have hinner : bare.map lowerASCII = bare'.map lowerASCII := by simpa using hsame
      rw [← trimDot_map_lowerASCII, ← trimDot_map_lowerASCII, hinner]

/-- A trailing dot is all that `trimDot` takes away. -/
theorem mem_trimDot {b : Byte} (hb : b ∈ bare) (hdot : b ≠ 46) : b ∈ trimDot bare := by
  unfold trimDot
  split
  next hlast =>
    obtain ⟨front, rfl⟩ := List.getLast?_eq_some_iff.mp hlast
    rw [List.dropLast_concat]
    rcases List.mem_append.mp hb with hb | hb
    · exact hb
    · exact absurd (List.mem_singleton.mp hb) hdot
  next => exact hb

/-- The ASCII characters of a host are letters, digits, hyphens, dots and colons. -/
theorem Reading.byte (hascii : unicode.KeepsASCII) (h : Reading unicode bare bracketed text kind)
    {b : Byte} (hb : b ∈ bare) (hb' : b.val < 0x80) : IsLabelByte b ∨ b = 46 ∨ b = 58 := by
  have haddress : ∀ {text : Bytes} {a : Addr}, parseAddr text = some a → a.zone = [] → b ∈ text →
      IsLabelByte b ∨ b = 46 ∨ b = 58 := by
    intro text a hparse hzone hb
    have hall : ∀ b : Byte, (hexValue b).isSome = true ∨ b = 58 ∨ b = 46 →
        (97 ≤ b.val ∧ b.val ≤ 122 ∨ 65 ≤ b.val ∧ b.val ≤ 90 ∨ 48 ≤ b.val ∧ b.val ≤ 57 ∨ b = 45) ∨
          b = 46 ∨ b = 58 := by decide +kernel
    exact hall b (isAddrByte_of_parseAddr hparse hzone b hb)
  by_cases hdot : b = 46
  · exact .inr (.inl hdot)
  cases h with
  | address hparse hzone => exact haddress hparse hzone hb
  | dotted _ _ hdotted hzone => exact haddress hdotted hzone (mem_trimDot hb hdot)
  | name _ _ _ _ hlabels =>
    have hall : ∀ b : Byte, (97 ≤ (lowerASCII b).val ∧ (lowerASCII b).val ≤ 122 ∨
        48 ≤ (lowerASCII b).val ∧ (lowerASCII b).val ≤ 57 ∨ lowerASCII b = 45 ∨
          lowerASCII b = 46) →
        (97 ≤ b.val ∧ b.val ≤ 122 ∨ 65 ≤ b.val ∧ b.val ≤ 90 ∨ 48 ≤ b.val ∧ b.val ≤ 57 ∨
          b = 45) ∨ b = 46 ∨ b = 58 := by decide +kernel
    exact hall b (isNameByte_of_labels hlabels
      (lowerASCII_mem_toLower hascii (mem_trimDot hb hdot) hb'))

end

/-! ## Addresses -/

section

variable {unicode : Unicode} {host other : Bytes} {port : Int} {a a' : Address}

/-- What `NewAddress` accepts. -/
theorem newAddress_eq_ok (h : newAddress unicode host port = .ok a) :
    normalizeHost unicode host "address.host" = .ok (a.host, a.kind) ∧ 1 ≤ port ∧ port ≤ 65535 ∧
      a.port = Fin.ofNat 65536 port.toNat := by
  obtain ⟨⟨normalized, kind⟩, hhost, h⟩ := bind_eq_ok.mp h
  obtain ⟨hrange, h⟩ := ite_invalid_eq_ok.mp h
  obtain rfl := Except.ok.inj h
  simp only [Bool.or_eq_true, decide_eq_true_eq, not_or, not_lt] at hrange
  exact ⟨hhost, hrange.1, hrange.2, rfl⟩

theorem port_val_of_newAddress (h : newAddress unicode host port = .ok a) :
    (a.port.val : Int) = port := by
  obtain ⟨-, hlow, hhigh, hport⟩ := newAddress_eq_ok h
  rw [hport, Fin.val_ofNat, Nat.mod_eq_of_lt (by omega), Int.toNat_of_nonneg (by omega)]

theorem normal_of_newAddress (hunicode : unicode.KeepsNumerals)
    (h : newAddress unicode host port = .ok a) : NormalHost a.host a.kind :=
  normal_of_normalizeHost hunicode (newAddress_eq_ok h).1

theorem NormalHost.kind_ne_invalid {text : Bytes} {kind : HostKind} (h : NormalHost text kind) :
    kind ≠ .invalid := by
  cases h with
  | ip =>
    unfold ipKind
    split
    · decide
    · decide
  | dns => decide

/-- The host and the port of an address make the address. -/
theorem newAddress_host (hunicode : unicode.KeepsNumerals)
    (h : newAddress unicode host port = .ok a) : newAddress unicode a.host port = .ok a := by
  obtain ⟨-, hlow, hhigh, hport⟩ := newAddress_eq_ok h
  rw [newAddress_normal (normal_of_newAddress hunicode h) hlow hhigh, ← hport]

/-- The text of an address is split into its host and its port. -/
theorem splitHostPort_string (hunicode : unicode.KeepsNumerals)
    (h : newAddress unicode host port = .ok a) :
    splitHostPort a.string = some (a.host, itoa port) := by
  obtain ⟨-, hlow, -, -⟩ := newAddress_eq_ok h
  have hnormal := normal_of_newAddress hunicode h
  have hvalue := port_val_of_newAddress h
  have hport : a.port ≠ 0 := fun hzero => by
    rw [hzero] at hvalue
    have : ((0 : Fin 65536).val : Int) = 0 := rfl
    omega
  have hkind : a.kind ≠ .invalid := hnormal.kind_ne_invalid
  have hvalid : a.valid = true := by simp [Address.valid, hnormal.ne_nil, hport, hkind]
  have htext : decimalPort a.port = itoa port := by
    rw [decimalPort_eq hport, ← hvalue, itoa, if_neg (by omega), Int.natAbs_natCast]
  rw [Address.string, hvalid, htext]
  refine splitHostPort_joinHostPort (fun b hb => (hnormal.printable b hb).2) fun b hb => ?_
  have hdigit := digit_of_mem_itoa (by omega) hb
  refine ⟨?_, ?_, ?_⟩
  · rintro rfl
    exact absurd hdigit (by decide)
  · rintro rfl
    exact absurd hdigit (by decide)
  · rintro rfl
    exact absurd hdigit (by decide)

/-- Two addresses with one host text and one port are equal. -/
theorem eq_of_host_eq (h : newAddress unicode host port = .ok a)
    (h' : newAddress unicode other port = .ok a') (hhost : a'.host = a.host)
    (hkind : a'.kind = a.kind) : a' = a :=
  Address.ext hhost ((newAddress_eq_ok h').2.2.2.trans (newAddress_eq_ok h).2.2.2.symm) hkind

/-- The spellings of one IP address make one address. -/
theorem eq_of_ipValue (h : newAddress unicode host port = .ok a)
    (h' : newAddress unicode other port = .ok a') {ip : Addr} (hip : ipValue host = some ip)
    (hip' : ipValue other = some ip) : a' = a := by
  obtain ⟨bare, bracketed, hbare, hreading⟩ := reading_of_normalizeHost (newAddress_eq_ok h).1
  obtain ⟨bare', bracketed', hbare', hreading'⟩ :=
    reading_of_normalizeHost (newAddress_eq_ok h').1
  rw [hbare.ipValue_eq] at hip
  rw [hbare'.ipValue_eq] at hip'
  obtain ⟨htext, hkind⟩ := hreading.eq_of_ipValue hip
  obtain ⟨htext', hkind'⟩ := hreading'.eq_of_ipValue hip'
  exact eq_of_host_eq h h' (htext'.trans htext.symm) (hkind'.trans hkind.symm)

/-- The spellings of one DNS name make one address. -/
theorem eq_of_sameName (hascii : unicode.KeepsASCII) (h : newAddress unicode host port = .ok a)
    (h' : newAddress unicode other port = .ok a') (hkind : a.kind = .dns) (hkind' : a'.kind = .dns)
    (hsame : SameName host other) : a' = a := by
  obtain ⟨bare, bracketed, hbare, hreading⟩ := reading_of_normalizeHost (newAddress_eq_ok h).1
  obtain ⟨bare', bracketed', hbare', hreading'⟩ :=
    reading_of_normalizeHost (newAddress_eq_ok h').1
  rw [hkind] at hreading
  rw [hkind'] at hreading'
  have hname : (trimDot bare).map lowerASCII = (trimDot bare').map lowerASCII :=
    hbare.sameName hbare' hsame
  refine eq_of_host_eq h h' ?_ (hkind'.trans hkind.symm)
  calc a'.host = toLower unicode (trimDot bare') := hreading'.eq_of_dns
    _ = toLower unicode ((trimDot bare').map lowerASCII) := (toLower_map_lowerASCII hascii _).symm
    _ = toLower unicode ((trimDot bare).map lowerASCII) := by rw [hname]
    _ = toLower unicode (trimDot bare) := toLower_map_lowerASCII hascii _
    _ = a.host := hreading.eq_of_dns.symm

end

/-- **Addresses are canonical.**  The host and port of an address make it again, so do the parts
of its text, and every other spelling of the host, as an IP address or as a DNS name, makes
the same address. -/
theorem newAddress_canonical {unicode : Unicode} (hnumerals : unicode.KeepsNumerals)
    (hascii : unicode.KeepsASCII) {host : Bytes} {port : Int} {a : Address}
    (h : newAddress unicode host port = .ok a) :
    newAddress unicode a.host port = .ok a ∧
      (∃ hostText portText n, splitHostPort a.string = some (hostText, portText) ∧
        atoi portText = some n ∧ newAddress unicode hostText n = .ok a) ∧
      ∀ other a', newAddress unicode other port = .ok a' →
        (∀ ip, ipValue host = some ip → ipValue other = some ip → a' = a) ∧
        (a.kind = .dns → a'.kind = .dns → SameName host other → a' = a) := by
  obtain ⟨-, hlow, hhigh, -⟩ := newAddress_eq_ok h
  have hagain := newAddress_host hnumerals h
  refine ⟨hagain, ⟨a.host, itoa port, port, splitHostPort_string hnumerals h, ?_, hagain⟩, ?_⟩
  · exact atoi_itoa (by omega) (by omega)
  · intro other a' h'
    exact ⟨fun ip => eq_of_ipValue h h', eq_of_sameName hascii h h'⟩

namespace Sample

theorem kelvin_keepsNumerals : kelvin.KeepsNumerals := by
  intro rune hrune
  unfold kelvin
  dsimp only
  split_ifs
  · decide
  · omega
  · omega

theorem kelvin_keepsASCII : kelvin.KeepsASCII := by
  unfold Unicode.KeepsASCII
  decide +kernel

/-- A name in mixed case with a trailing dot. -/
theorem newAddress_canonical_name :
    newAddress kelvin (ascii "Edge.Example.COM.") 443 =
        .ok ⟨ascii "edge.example.com", 443, .dns⟩ ∧
      newAddress kelvin (ascii "edge.example.com") 443 =
        .ok ⟨ascii "edge.example.com", 443, .dns⟩ := by
  have h : newAddress kelvin (ascii "Edge.Example.COM.") 443 =
      .ok ⟨ascii "edge.example.com", 443, .dns⟩ := by decide +kernel
  exact ⟨h, (newAddress_canonical kelvin_keepsNumerals kelvin_keepsASCII h).1⟩

end Sample

end Egressfox.Endpoint
