import Egressfox.Endpoint.AddressText
import Egressfox.Lib.Url
import Egressfox.Source.Carried
import Egressfox.Source.Parse

/-!
# Hysteria2 links

`parseHysteria2Raw` and `parseHysteria2URI` of `internal/source/hysteria2.go`.

The port of a link may be a list, which is no port of a URL: it is moved to a query parameter
before the link is read as a URL.  The parameter is appended to the query with an ampersand, or
starts one with a question mark, depending on whether there is a question mark behind the
authority.  The name of the link counts here, although it is no part of the query: a link with a
port list and no query is rejected if its name has a question mark.

The keys of a query are visited in an order that is a parameter.
-/

namespace Egressfox.Source

open Lib Endpoint

/-! ## Queries -/

/-- The order in which a `range` loop visits the keys of a query. -/
structure QueryOrder where
  visit : List Bytes → List Bytes
  perm : ∀ keys, (visit keys).Perm keys

/-- A loop over the keys of a query that returns at the first key with a problem. -/
def checkQuery (order : QueryOrder) (query : Url.Query) (problem : Bytes → Option Diagnostic) :
    Except Diagnostic Unit :=
  match (order.visit query.keys).findSome? problem with
  | some diagnostic => .error diagnostic
  | none => .ok ()

/-- **Whether a query passes does not depend on the order.** -/
theorem checkQuery_eq_ok_iff {order : QueryOrder} {query : Url.Query}
    {problem : Bytes → Option Diagnostic} :
    checkQuery order query problem = .ok () ↔ ∀ key ∈ query.keys, problem key = none := by
  have hmem : ∀ key, key ∈ order.visit query.keys ↔ key ∈ query.keys := fun key =>
    (order.perm query.keys).mem_iff
  unfold checkQuery
  cases hfind : (order.visit query.keys).findSome? problem with
  | none =>
    rw [List.findSome?_eq_none_iff] at hfind
    simpa [hmem] using hfind
  | some diagnostic =>
    obtain ⟨key, hkey, hproblem⟩ := List.exists_of_findSome?_eq_some hfind
    constructor
    · intro h
      cases h
    · intro hall
      rw [hall key ((hmem key).mp hkey)] at hproblem
      cases hproblem

/-! ## Links -/

/-- The map `known`. -/
def hysteria2Parameters : List Bytes :=
  ["sni", "insecure", "allowInsecure", "alpn", "obfs", "obfs-password", "obfsParam", "upmbps",
    "downmbps", "ports"].map ascii

/-- The body of the loop over the query. -/
def hysteria2Problem (query : Url.Query) (key : Bytes) : Option Diagnostic :=
  if key ∉ hysteria2Parameters then some ⟨.unsupported, "hysteria2_uri_option"⟩
  else if (query.values key).length ≠ 1 then some ⟨.malformed, "hysteria2_query_duplicate"⟩
  else none

/-- `strings.ReplaceAll` of hyphens by colons. -/
def colons (text : Bytes) : Bytes := text.map fun c => if c = 45 then 58 else c

/-- The options of a link. -/
def hysteria2Options (query : Url.Query) (up down : Int) (secret : Bytes) :
    Except Error Hysteria2Options :=
  if query.has (ascii "ports") then
    newHysteria2OptionsWithPorts up down secret ((colons (query.get (ascii "ports"))).splitOn 44)
  else newHysteria2Options up down secret

/-- The part of `parseHysteria2URI` behind the loop over the query. -/
def readHysteria2Query (unicode : Unicode) (u : URL) (auth : Bytes) (query : Url.Query) :
    Except Diagnostic Configuration := do
  let get (key : String) : Bytes := query.get (ascii key)
  if query.has (ascii "insecure") && query.has (ascii "allowInsecure") ||
      query.has (ascii "obfs-password") && query.has (ascii "obfsParam") then
    malformed "hysteria2_query_duplicate"
  else
    let port ← orFail (atoi (valueOr u.port (ascii "443"))) (malformed "invalid_port")
    let address ← orElse (newAddress unicode u.hostname port) (invalidInput "invalid_address")
    let credential ← orElse (newHysteria2Credential auth) (invalidInput "invalid_credential")
    let insecure ← orFail (parseBool (valueOr (get "insecure") (get "allowInsecure")))
      (malformed "invalid_boolean")
    let tls ← orElse (newTLS unicode (get "sni") insecure) (invalidInput "invalid_tls")
    let alpn := if get "alpn" = [] then [] else (get "alpn").splitOn 44
    let security ← orElse (newSecurityOptions alpn [] none) (invalidInput "invalid_alpn")
    let secret := valueOr (get "obfs-password") (get "obfsParam")
    if get "obfs" ≠ [] && get "obfs" ≠ ascii "salamander" || get "obfs" = [] && secret ≠ [] ||
        get "obfs" = ascii "salamander" && secret = [] then
      unsupported "hysteria2_obfs"
    else
      let up ← orFail (atoi (valueOr (get "upmbps") (ascii "0"))) (malformed "hysteria2_bandwidth")
      let down ← orFail (atoi (valueOr (get "downmbps") (ascii "0")))
        (malformed "hysteria2_bandwidth")
      let options ← orElse (hysteria2Options query up down secret)
        (invalidInput "hysteria2_options")
      if !options.includesPort address.port then unsupported "hysteria2_port_mismatch"
      else
        orElse (newExtendedConfiguration .hysteria2 address credential newQUICTransport tls
          security .none (some options)) (invalidInput "invalid_endpoint")

/-- The part of `parseHysteria2URI` in front of the loop: the password and the query. -/
def openHysteria2URI (u : URL) : Except Diagnostic (Bytes × Url.Query) :=
  match u.user with
  | none => malformed "invalid_hysteria2_uri"
  | some user =>
    if u.rootless ≠ [] || user.username = [] || u.hostname = [] ||
        u.path ≠ [] && u.path ≠ ascii "/" then
      malformed "invalid_hysteria2_uri"
    else do
      let auth := user.username ++ (user.password.elim [] fun password => ascii ":" ++ password)
      let query ← orFail (Url.parseQuery u.rawQuery) (malformed "hysteria2_query")
      return (auth, query)

/-- `parseHysteria2URI`, without the name. -/
def readHysteria2URI (unicode : Unicode) (order : QueryOrder) (u : URL) :
    Except Diagnostic Configuration := do
  let (auth, query) ← openHysteria2URI u
  checkQuery order query (hysteria2Problem query)
  readHysteria2Query unicode u auth query

/-- `parseHysteria2URI`. -/
def parseHysteria2URI (unicode : Unicode) (order : QueryOrder) (u : URL) :
    Except Diagnostic ParseInput :=
  (readHysteria2URI unicode order u).map fun configuration => ⟨configuration, u.fragment⟩

/-- The characters that end an authority. -/
def endsAuthority (c : Byte) : Bool := c ∈ ascii "/?#"

/-- A host and what follows the colon of its port. -/
def cutHysteria2Port (hostport : Bytes) : Option (Bytes × Bytes) :=
  match cutLast 58 hostport with
  | none => none
  | some (host, portText) =>
    if hostport.head? = some 91 then
      match cut 93 hostport with
      | none => none
      | some (opened, _) => if host.length ≠ opened.length + 1 then none else some (host, portText)
    else some (host, portText)

/-- The port list of an authority, with what stands in front of it. -/
def portList (rest : Bytes) : Option (Bytes × Bytes) :=
  match cutLast 64 (rest.takeWhile fun c => !endsAuthority c) with
  | none => none
  | some (user, hostport) =>
    match cutHysteria2Port hostport with
    | none => none
    | some (host, portText) =>
      if containsAny portText (ascii ",-") then some (user ++ 64 :: (host ++ [58]), portText)
      else none

/-- The first port of a list, as it is written. -/
def firstPort (portText : Bytes) : Bytes :=
  ((((colons portText).splitOn 44).headD []).splitOn 58).headD []

/-- The parameter for a port list. -/
def portsParameter (portText : Bytes) : Bytes :=
  ascii "ports=" ++
    Url.escape .queryComponent ([44].intercalate ((colons portText).splitOn 44))

/-- The text with the first port in the place of the port list, which becomes a parameter. -/
def movePorts (rest : Bytes) : Except Diagnostic Bytes :=
  match portList rest with
  | none => .ok rest
  | some (front, portText) =>
    match newHysteria2OptionsWithPorts 0 0 [] ((colons portText).splitOn 44) with
    | .error _ => invalidInput "hysteria2_ports"
    | .ok _ =>
      let suffix := rest.dropWhile fun c => !endsAuthority c
      let separator := if 63 ∈ suffix then ascii "&" else ascii "?"
      let suffix :=
        match cut 35 suffix with
        | some (before, fragment) =>
          before ++ separator ++ portsParameter portText ++ 35 :: fragment
        | none => suffix ++ separator ++ portsParameter portText
      .ok (front ++ firstPort portText ++ suffix)

/-- A link behind its scheme, after the ports have been moved. -/
def readLink (unicode : Unicode) (order : QueryOrder) (scheme rest : Bytes) :
    Except Diagnostic ParseInput := do
  let u ← orFail (Url.parse (scheme ++ ascii "://" ++ rest)) (malformed "invalid_hysteria2_uri")
  parseHysteria2URI unicode order u

/-- `parseHysteria2Raw`. -/
def parseHysteria2Raw (unicode : Unicode) (order : QueryOrder) (raw : Bytes) :
    Except Diagnostic ParseInput :=
  match Url.cutText (ascii "://") raw with
  | none => malformed "invalid_hysteria2_uri"
  | some (scheme, rest) => do
      let rest ← movePorts rest
      readLink unicode order scheme rest

/-! ## The parts of a link -/

section Parts

variable {rest front portText fragment : Bytes}

/-- What follows the authority. -/
def behind (rest : Bytes) : Bytes := rest.dropWhile fun c => !endsAuthority c

/-- What follows the end of the authority does not matter for the port list. -/
theorem portList_append (rest fragment : Bytes) :
    portList (rest ++ 35 :: fragment) = portList rest := by
  have hend : (35 :: fragment).takeWhile (fun c => !endsAuthority c) = [] :=
    List.takeWhile_cons_of_neg (by decide)
  have hsame : (rest ++ 35 :: fragment).takeWhile (fun c => !endsAuthority c) =
      rest.takeWhile fun c => !endsAuthority c := by
    rw [List.takeWhile_append, hend, List.append_nil]
    split
    next hlength =>
      exact ((List.takeWhile_prefix _).eq_of_length hlength).symm
    next => rfl
  rw [portList, portList, hsame]

theorem behind_append (rest fragment : Bytes) :
    behind (rest ++ 35 :: fragment) = behind rest ++ 35 :: fragment := by
  have hend : (35 :: fragment).dropWhile (fun c => !endsAuthority c) = 35 :: fragment :=
    List.dropWhile_cons_of_neg (by decide)
  rw [behind, List.dropWhile_append, hend]
  split
  next hempty => rw [behind, List.isEmpty_iff.mp hempty, List.nil_append]
  next => rfl

/-- The authority with a port list. -/
structure HasPorts (rest front portText : Bytes) : Prop where
  authority : (rest.takeWhile fun c => !endsAuthority c) = front ++ portText
  noColon : 58 ∉ portText
  noAt : 64 ∉ portText
  host : ∃ user host, front = user ++ 64 :: (host ++ [58]) ∧ 64 ∉ host

theorem hasPorts_of_portList (h : portList rest = some (front, portText)) :
    HasPorts rest front portText := by
  unfold portList at h
  split at h
  next => cases h
  next user hostport hcut =>
    obtain ⟨hauthority, hat⟩ := cutLast_eq_some_iff.mp hcut
    split at h
    next => cases h
    next host portText' hport =>
      have hcolon : cutLast 58 hostport = some (host, portText') := by
        unfold cutHysteria2Port at hport
        split at hport
        next => cases hport
        next host' portText'' hcut =>
          split at hport
          next =>
            split at hport
            next => cases hport
            next =>
              split at hport
              next => cases hport
              next => rw [hcut, hport]
          next => rw [hcut, hport]
      obtain ⟨rfl, hfree⟩ := cutLast_eq_some_iff.mp hcolon
      split at h
      next =>
        obtain ⟨rfl, rfl⟩ := Prod.mk.inj (Option.some.inj h)
        rw [List.mem_append, not_or] at hat
        refine ⟨?_, hfree, fun hmem => hat.2 (List.mem_cons_of_mem _ hmem), user, host, rfl, hat.1⟩
        rw [hauthority]
        simp
      next => cases h

/-- The characters of an authority do not end it. -/
theorem HasPorts.free (h : HasPorts rest front portText) {c : Byte} (hc : endsAuthority c = true) :
    c ∉ front ∧ c ∉ portText := by
  have hall : c ∉ front ++ portText := by
    rw [← h.authority]
    intro hmem
    have hinside := List.mem_takeWhile_imp hmem
    rw [hc] at hinside
    cases hinside
  rw [List.mem_append, not_or] at hall
  exact hall

theorem mem_rest_iff {c : Byte} (hc : endsAuthority c = true) : c ∈ rest ↔ c ∈ behind rest := by
  have hsplit := List.takeWhile_append_dropWhile (p := fun c => !endsAuthority c) (l := rest)
  constructor
  · intro hmem
    rw [← hsplit, List.mem_append] at hmem
    rcases hmem with hmem | hmem
    · have hinside := List.mem_takeWhile_imp hmem
      rw [hc] at hinside
      cases hinside
    · exact hmem
  · exact fun hmem => (List.dropWhile_sublist _).subset hmem

theorem notMem_behind (hrest : 35 ∉ rest) : 35 ∉ behind rest :=
  fun hmem => hrest ((mem_rest_iff (by decide)).mpr hmem)

/-- The authority is followed by a path, a query or nothing. -/
theorem behind_cases (hrest : 35 ∉ rest) :
    behind rest = [] ∨ ∃ c tail, behind rest = c :: tail ∧ (c = 47 ∨ c = 63) := by
  have hends : ∀ c : Byte, endsAuthority c = true → c = 47 ∨ c = 63 ∨ c = 35 := by decide +kernel
  have hmark := notMem_behind hrest
  have hhead := List.head?_dropWhile_not (fun c => !endsAuthority c) rest
  rw [← behind] at hhead
  cases hbehind : behind rest with
  | nil => exact .inl rfl
  | cons c tail =>
    rw [hbehind] at hhead hmark
    rcases hends c (by simpa using hhead) with hc | hc | rfl
    · exact .inr ⟨c, tail, rfl, .inl hc⟩
    · exact .inr ⟨c, tail, rfl, .inr hc⟩
    · exact absurd List.mem_cons_self hmark

/-- The moved ports, with a separator in front of the parameter. -/
def movedPorts (front portText suffix separator : Bytes) : Bytes :=
  front ++ firstPort portText ++ (suffix ++ separator ++ portsParameter portText)

/-- The separator in front of the parameter. -/
def portsSeparator (suffix : Bytes) : Bytes := if 63 ∈ suffix then ascii "&" else ascii "?"

end Parts

/-! ## Ports -/

section Ports

/-- What an entry of the list is collected as: a range of one port is that port. -/
def listedRange (entry : Bytes) : Bytes :=
  match entry.splitOn 45 with
  | [low, high] => if low = high then low else low ++ ascii ":" ++ high
  | _ => entry

theorem itoa_of_parsePort {low port : Int} {text : Bytes} (h : parsePort low text = some port) :
    text = itoa port := by
  simp only [parsePort, Option.filter_eq_some_iff, Bool.and_eq_true, decide_eq_true_eq] at h
  exact h.2.2.symm

theorem splitOn_colons {text : Bytes} (h : 58 ∉ text) :
    (colons text).splitOn 58 = text.splitOn 45 := by
  induction text with
  | nil => rfl
  | cons c text ih =>
    have hc : c ≠ 58 := (List.ne_of_not_mem_cons h).symm
    have htail := ih (List.not_mem_of_not_mem_cons h)
    change ((if c = 45 then 58 else c) :: colons text).splitOn 58 = _
    rw [List.splitOn_cons_eq_if_modifyHead, List.splitOn_cons_eq_if_modifyHead, htail]
    by_cases hdash : c = 45
    · simp [hdash]
    · simp [hdash, hc]

theorem splitOn_comma_colons (text : Bytes) :
    (colons text).splitOn 44 = (text.splitOn 44).map colons :=
  splitOn_map (fun c => by by_cases h : c = 45 <;> simp [h]) text

theorem itoa_injective {a b : Int} (ha : 0 ≤ a) (ha' : a ≤ 65535) (hb : 0 ≤ b) (hb' : b ≤ 65535)
    (h : itoa a = itoa b) : a = b := by
  have hvalue := atoi_itoa hb (by omega)
  rw [← h, atoi_itoa ha (by omega)] at hvalue
  exact Option.some.inj hvalue

/-- An entry that is written with a hyphen. -/
theorem portRangeText_of_parsePortRange {entry : Bytes} {first last : Int} (h58 : 58 ∉ entry)
    (h : parsePortRange (colons entry) = .ok (first, last)) :
    portRangeText first last = listedRange entry ∧
      (((colons entry).splitOn 58).headD []) = itoa first := by
  have hbounds := parsePortRange_range h
  unfold parsePortRange at h
  rw [splitOn_colons h58] at h ⊢
  unfold listedRange
  have hparts : [45].intercalate (entry.splitOn 45) = entry := List.intercalate_splitOn 45
  split at h
  next single hsingle =>
    split at h
    next port hport =>
      obtain ⟨rfl, rfl⟩ := Prod.mk.inj (Except.ok.inj h)
      rw [hsingle] at hparts ⊢
      obtain rfl : single = entry := by simpa using hparts
      have htext := itoa_of_parsePort hport
      exact ⟨by rw [portRangeText, if_pos rfl, htext], htext⟩
    next => cases h
  next low high hpair =>
    split at h
    next => cases h
    next port hlow =>
      split at h
      next => cases h
      next port' hhigh =>
        obtain ⟨rfl, rfl⟩ := Prod.mk.inj (Except.ok.inj h)
        rw [hpair]
        obtain rfl := itoa_of_parsePort hlow
        obtain rfl := itoa_of_parsePort hhigh
        refine ⟨?_, rfl⟩
        dsimp only
        by_cases hsame : port' = port
        · rw [portRangeText, if_pos hsame, if_pos (by rw [hsame])]
        · rw [portRangeText, if_neg hsame, if_neg]
          intro htext
          exact hsame (itoa_injective (by omega) (by omega) (by omega) (by omega) htext).symm
  next => cases h

/-- **The collected entries are those of the list, in order.** -/
theorem collectPorts_listed {count : Int} {entries collected : List Bytes}
    (h58 : ∀ entry ∈ entries, 58 ∉ entry)
    (h : collectPorts count (entries.map colons) = .ok collected) :
    collected = entries.map listedRange := by
  obtain ⟨ranges, hdenote, -, rfl⟩ := collectPorts_eq_ok_iff.mp h
  rw [Denote, List.forall₂_map_left_iff] at hdenote
  clear h
  induction hdenote with
  | nil => rfl
  | cons hrange _ ih =>
    rw [List.forall_mem_cons] at h58
    rw [List.map_cons, ← ih h58.2, ← (portRangeText_of_parsePortRange h58.1 hrange).1]
    rfl

/-- A list that is accepted: its first port, and what its entries are collected as. -/
theorem listed_of_ok {up down : Int} {secret portText : Bytes} {options : Hysteria2Options}
    (h58 : 58 ∉ portText)
    (h : newHysteria2OptionsWithPorts up down secret ((colons portText).splitOn 44) =
      .ok options) :
    (∃ port : Int, 1 ≤ port ∧ port ≤ 65535 ∧ firstPort portText = itoa port) ∧
      options.portRanges = (portText.splitOn 44).map listedRange := by
  obtain ⟨plain, -, h⟩ := bind_eq_ok.mp h
  obtain ⟨-, h⟩ := ite_invalid_eq_ok.mp h
  obtain ⟨collected, hcollected, h⟩ := bind_eq_ok.mp h
  obtain rfl := Except.ok.inj h
  have hentries : ∀ entry ∈ portText.splitOn 44, 58 ∉ entry := fun entry hentry hmem =>
    h58 (mem_of_mem_splitOn hentry hmem)
  rw [splitOn_comma_colons] at hcollected
  refine ⟨?_, collectPorts_listed hentries hcollected⟩
  rw [firstPort, splitOn_comma_colons]
  cases hsplit : portText.splitOn 44 with
  | nil => exact absurd hsplit (List.splitOn_ne_nil _ _)
  | cons entry entries =>
    rw [hsplit] at hcollected hentries
    obtain ⟨⟨first, last⟩, hrange, -⟩ := bind_eq_ok.mp hcollected
    have hbounds := parsePortRange_range hrange
    refine ⟨first, hbounds.1, by omega, ?_⟩
    exact (portRangeText_of_parsePortRange (hentries entry List.mem_cons_self) hrange).2

/-- The parameter for a port list consists of characters of a query. -/
theorem portsParameter_eq (portText : Bytes) :
    portsParameter portText =
      ascii "ports" ++ 61 :: Url.escape .queryComponent (colons portText) := by
  have hjoin : [44].intercalate ((colons portText).splitOn 44) = colons portText :=
    List.intercalate_splitOn 44
  have hkey : ascii "ports=" = ascii "ports" ++ [61] := by decide
  rw [portsParameter, hjoin, hkey, List.append_assoc, List.singleton_append]

theorem notMem_portsParameter {c : Byte} (hc : Url.isQueryByte c = false) (hne : c ≠ 61)
    (portText : Bytes) : c ∉ portsParameter portText := by
  have hkey : ∀ c ∈ ascii "ports", Url.isQueryByte c = true := by decide +kernel
  rw [portsParameter_eq, List.mem_append, List.mem_cons, not_or, not_or]
  refine ⟨fun hmem => ?_, hne, fun hmem => ?_⟩
  · rw [hkey c hmem] at hc
    cases hc
  · rw [Url.isQueryByte_of_mem_escape hmem] at hc
    cases hc

end Ports

/-! ## Names -/

section Names

variable {unicode : Unicode} {order order' : QueryOrder} {scheme rest front portText : Bytes}

/-- The schemes of Hysteria2 links. -/
def hysteria2Schemes : List Bytes := ["hy2", "hysteria2"].map ascii

theorem isScheme_of_mem (h : scheme.map lowerASCII ∈ hysteria2Schemes) :
    Url.isScheme scheme = true := by
  have hall : ∀ text ∈ hysteria2Schemes, Url.isScheme text = true := by decide +kernel
  exact Url.isScheme_of_lower (hall _ h)

theorem parseHysteria2Raw_link (h : 58 ∉ scheme) (rest : Bytes) :
    parseHysteria2Raw unicode order (scheme ++ ascii "://" ++ rest) =
      movePorts rest >>= readLink unicode order scheme := by
  have hmark : ascii "://" = 58 :: [47, 47] := by decide
  rw [parseHysteria2Raw, hmark, Url.cutText_append h]

/-- The result with another name. -/
def ParseInput.rename (name : Bytes) (input : ParseInput) : ParseInput := { input with name }

/-- **A name is left aside by all that follows the ports.** -/
theorem readLink_named {name fragment : Bytes} (hfree : 35 ∉ scheme ++ ascii "://" ++ rest)
    (hname : Url.unescape .fragment fragment = some name) :
    readLink unicode order scheme (rest ++ 35 :: fragment) =
      (readLink unicode order scheme rest).map (ParseInput.rename name) := by
  rw [readLink, readLink, ← List.append_assoc, Url.parse_fragment hfree hname,
    Url.parse_of_free hfree]
  cases Url.parseWithoutFragment (scheme ++ ascii "://" ++ rest) with
  | none => rfl
  | some u =>
    change parseHysteria2URI unicode order { u with fragment := name } =
      (parseHysteria2URI unicode order u).map (ParseInput.rename name)
    unfold parseHysteria2URI
    change (readHysteria2URI unicode order u).map _ = _
    cases readHysteria2URI unicode order u with
    | error d => rfl
    | ok c => rfl

/-- What an accepted query is read as. -/
theorem readHysteria2Query_eq_ok {u : URL} {auth : Bytes} {query : Url.Query} {c : Configuration}
    (h : readHysteria2Query unicode u auth query = .ok c) :
    c.valid = true ∧ ∃ port up down secret options,
      atoi (valueOr u.port (ascii "443")) = some port ∧
      newAddress unicode u.hostname port = .ok c.address ∧
      hysteria2Options query up down secret = .ok options ∧ c.hysteria2 = some options := by
  obtain ⟨-, h⟩ := ite_error_eq_ok h
  obtain ⟨port, hport, h⟩ := bind_eq_ok.mp h
  obtain ⟨address, haddress, h⟩ := bind_eq_ok.mp h
  obtain ⟨credential, -, h⟩ := bind_eq_ok.mp h
  obtain ⟨insecure, -, h⟩ := bind_eq_ok.mp h
  obtain ⟨tls, -, h⟩ := bind_eq_ok.mp h
  obtain ⟨security, -, h⟩ := bind_eq_ok.mp h
  obtain ⟨-, h⟩ := ite_error_eq_ok h
  obtain ⟨up, -, h⟩ := bind_eq_ok.mp h
  obtain ⟨down, -, h⟩ := bind_eq_ok.mp h
  obtain ⟨options, hoptions, h⟩ := bind_eq_ok.mp h
  obtain ⟨-, h⟩ := ite_error_eq_ok h
  have hmade := newExtendedConfiguration_madeOf (orElse_eq_ok h)
  refine ⟨hmade.valid, port, up, down, _, options, orFail_eq_ok hport, ?_, orElse_eq_ok hoptions,
    hmade.hysteria⟩
  rw [hmade.address]
  exact orElse_eq_ok haddress

/-- What an accepted link is read as. -/
theorem readHysteria2URI_eq_ok {u : URL} {c : Configuration}
    (h : readHysteria2URI unicode order u = .ok c) :
    (u.path = [] ∨ u.path = ascii "/") ∧ ∃ auth query, Url.parseQuery u.rawQuery = some query ∧
      (∀ key ∈ query.keys, hysteria2Problem query key = none) ∧
      readHysteria2Query unicode u auth query = .ok c := by
  obtain ⟨⟨auth, query⟩, hopen, h⟩ := bind_eq_ok.mp h
  obtain ⟨⟨⟩, hcheck, h⟩ := bind_eq_ok.mp h
  unfold openHysteria2URI at hopen
  split at hopen
  next => cases hopen
  next user _ =>
    obtain ⟨hshape, hopen⟩ := ite_error_eq_ok hopen
    obtain ⟨query', hquery, hopen⟩ := bind_eq_ok.mp hopen
    obtain ⟨-, rfl⟩ := Prod.mk.inj (Except.ok.inj hopen)
    refine ⟨?_, auth, query', orFail_eq_ok hquery, checkQuery_eq_ok_iff.mp hcheck, h⟩
    simp only [Bool.or_eq_true, Bool.and_eq_true, decide_eq_true_eq, not_or, not_and,
      not_not] at hshape
    by_cases hpath : u.path = []
    · exact .inl hpath
    · exact .inr (hshape.2 hpath)

/-- The order of the keys does not matter for a link that is accepted. -/
theorem readLink_order {input : ParseInput} (h : readLink unicode order scheme rest = .ok input) :
    readLink unicode order' scheme rest = .ok input := by
  obtain ⟨u, hparse, h⟩ := bind_eq_ok.mp h
  refine bind_eq_ok.mpr ⟨u, hparse, ?_⟩
  obtain ⟨c, hread, rfl⟩ := map_eq_ok.mp h
  obtain ⟨parts, hopen, hread⟩ := bind_eq_ok.mp hread
  obtain ⟨⟨⟩, hcheck, hread⟩ := bind_eq_ok.mp hread
  refine map_eq_ok.mpr ⟨c, bind_eq_ok.mpr ⟨parts, hopen, bind_eq_ok.mpr ⟨(), ?_, hread⟩⟩, rfl⟩
  exact checkQuery_eq_ok_iff.mpr (checkQuery_eq_ok_iff.mp hcheck)

theorem notMem_link {text : Bytes} (hscheme : Url.isScheme scheme = true) (htext : 35 ∉ text) :
    35 ∉ scheme ++ ascii "://" ++ text := by
  rw [List.mem_append, List.mem_append, not_or, not_or]
  exact ⟨⟨Url.notMem_of_isScheme hscheme (by decide), by decide⟩, htext⟩

/-- The parts of the URL of an accepted link. -/
theorem readLink_eq_ok {input : ParseInput} (hscheme : Url.isScheme scheme = true)
    (hfree : 35 ∉ rest) (h : readLink unicode order scheme rest = .ok input) :
    ∃ user host path, Url.parseAuthority (Url.authorityOf rest) = some (user, host) ∧
      Url.unescape .path (Url.pathOf rest) = some path ∧
      readHysteria2URI unicode order
        { scheme := scheme.map lowerASCII, user, host, path,
          rawQuery := (Url.cutQuery rest).2, forceQuery := Url.forcesQuery rest } =
        .ok input.configuration := by
  obtain ⟨u, hparse, h⟩ := bind_eq_ok.mp h
  have hparse := orFail_eq_ok hparse
  rw [Url.parse_of_free (notMem_link hscheme hfree), Url.parseWithoutFragment_link hscheme]
    at hparse
  split at hparse
  next => cases hparse
  next =>
    obtain ⟨⟨user, host⟩, hauthority, hparse⟩ := Option.bind_eq_some_iff.mp hparse
    obtain ⟨path, hpath, rfl⟩ := Option.map_eq_some_iff.mp hparse
    obtain ⟨c, hread, rfl⟩ := map_eq_ok.mp h
    exact ⟨user, host, path, hauthority, hpath, hread⟩

end Names

/-! ## Moved ports -/

section Moved

variable {unicode : Unicode} {order : QueryOrder} {scheme rest front portText : Bytes}
  {input : ParseInput} {port : Int}

/-- A list is refused, with and without a name, or its ports are moved.  The name counts for the
separator. -/
theorem movePorts_cases (hrest : 35 ∉ rest) (h : portList rest = some (front, portText)) :
    (movePorts rest = invalidInput "hysteria2_ports" ∧
      ∀ fragment, movePorts (rest ++ 35 :: fragment) = invalidInput "hysteria2_ports") ∨
    ∃ port : Int, 1 ≤ port ∧ port ≤ 65535 ∧ firstPort portText = itoa port ∧
      movePorts rest =
        .ok (movedPorts front portText (behind rest) (portsSeparator (behind rest))) ∧
      ∀ fragment, movePorts (rest ++ 35 :: fragment) =
        .ok (movedPorts front portText (behind rest)
          (portsSeparator (behind rest ++ 35 :: fragment)) ++ 35 :: fragment) := by
  have hbehind := notMem_behind hrest
  simp only [movePorts, portList_append, h]
  cases hoptions : newHysteria2OptionsWithPorts 0 0 [] ((colons portText).splitOn 44) with
  | error e => exact .inl ⟨rfl, fun _ => rfl⟩
  | ok options =>
    obtain ⟨⟨port, hpos, hmax, hfirst⟩, -⟩ :=
      listed_of_ok (hasPorts_of_portList h).noColon hoptions
    refine .inr ⟨port, hpos, hmax, hfirst, ?_, fun fragment => ?_⟩
    · dsimp only
      rw [← behind, cut_eq_none_iff.mpr hbehind]
      rfl
    · dsimp only
      rw [← behind, behind_append, cut_eq_some_iff.mpr ⟨rfl, hbehind⟩]
      simp [movedPorts, portsSeparator]

/-- The first port of a list is written in digits. -/
theorem digits_of_first (hpos : 1 ≤ port) : (itoa port).all Url.isDigit = true := by
  rw [List.all_eq_true]
  intro b hb
  simpa [Url.isDigit] using digit_of_mem_itoa (by omega) hb

theorem notMem_itoa (hpos : 1 ≤ port) {c : Byte} (hc : Url.isDigit c = false) : c ∉ itoa port := by
  intro hmem
  rw [List.all_eq_true.mp (digits_of_first hpos) c hmem] at hc
  cases hc

theorem notMem_front (hports : HasPorts rest front portText) (hpos : 1 ≤ port) {b : Byte}
    (hb : endsAuthority b = true) : b ∉ front ++ itoa port := by
  have hdigit : ∀ b : Byte, endsAuthority b = true → Url.isDigit b = false := by decide +kernel
  rw [List.mem_append, not_or]
  exact ⟨(hports.free hb).1, notMem_itoa hpos (hdigit b hb)⟩

/-- **A parameter that is appended with an ampersand where there is no query is not read as
one**: it becomes a part of the port or of the path, and the link is rejected. -/
theorem readLink_misplaced (hscheme : Url.isScheme scheme = true)
    (hports : HasPorts rest front portText) (hfree : 35 ∉ rest) (hquery : 63 ∉ rest)
    (hpos : 1 ≤ port) (hfirst : firstPort portText = itoa port) :
    readLink unicode order scheme (movedPorts front portText (behind rest) (ascii "&")) ≠
      .ok input := by
  intro h
  have hand : ascii "&" = [38] := by decide
  have hparameter : ∀ {c : Byte}, Url.isQueryByte c = false → c ≠ 38 → c ≠ 61 →
      c ∉ itoa port ++ (ascii "&" ++ portsParameter portText) := by
    intro c hbyte hne hne'
    have hdigit : ∀ c : Byte, Url.isQueryByte c = false → Url.isDigit c = false := by
      decide +kernel
    rw [List.mem_append, List.mem_append, not_or, not_or, hand, List.mem_singleton]
    exact ⟨notMem_itoa hpos (hdigit c hbyte), hne, notMem_portsParameter hbyte hne' portText⟩
  have hends : ∀ c : Byte, endsAuthority c = true →
      Url.isQueryByte c = false ∧ c ≠ 38 ∧ c ≠ 61 := by
    decide +kernel
  rw [movedPorts, hfirst, List.append_assoc] at h
  rcases behind_cases hfree with hsuffix | ⟨c, tail, hsuffix, hc⟩
  · -- the parameter follows the port
    rw [hsuffix, List.nil_append] at h
    have hmark : ∀ {c : Byte}, endsAuthority c = true →
        c ∉ front ++ (itoa port ++ (ascii "&" ++ portsParameter portText)) := by
      intro c hc hmem
      obtain ⟨hbyte, hne, hne'⟩ := hends c hc
      exact (List.mem_append.mp hmem).elim (hports.free hc).1 (hparameter hbyte hne hne')
    obtain ⟨user, host, path, hauthority, -, -⟩ := readLink_eq_ok hscheme (hmark (by decide)) h
    have hwhole := (Url.authorityOf_append (hmark (by decide)) (hmark (by decide)) (.inl rfl)).1
    rw [List.append_nil] at hwhole
    obtain ⟨user', host', hfront, hat⟩ := hports.host
    rw [hwhole, hfront, List.append_assoc, List.cons_append, List.append_assoc,
      List.singleton_append] at hauthority
    have hhost := Url.parseHost_of_parseAuthority (by
      rw [List.mem_append, List.mem_cons, not_or, not_or]
      exact ⟨hat, by decide, hparameter (by decide) (by decide) (by decide)⟩) hauthority
    obtain ⟨hdigits, -⟩ :=
      Url.parseHost_port (hparameter (by decide) (by decide) (by decide)) hhost
    have hdigit := List.all_eq_true.mp hdigits 38 (by simp [hand])
    cases hdigit
  · -- the parameter follows the path
    have hmem : ∀ {b : Byte}, endsAuthority b = true → b ∉ rest → b ∉ c :: tail := by
      intro b hb hnot
      rwa [mem_rest_iff hb, hsuffix] at hnot
    obtain rfl : c = 47 := by
      rcases hc with hc | rfl
      · exact hc
      · exact absurd List.mem_cons_self (hmem (by decide) hquery)
    have hsplit : front ++ (itoa port ++ (47 :: tail ++ ascii "&" ++ portsParameter portText)) =
        front ++ itoa port ++ 47 :: (tail ++ ascii "&" ++ portsParameter portText) := by simp
    have hbody : ∀ {b : Byte}, endsAuthority b = true → b ∉ front ++ itoa port :=
      notMem_front hports hpos
    have htail : ∀ {b : Byte}, endsAuthority b = true → b ∉ rest →
        b ∉ 47 :: (tail ++ ascii "&" ++ portsParameter portText) := by
      intro b hb hnot
      obtain ⟨hbyte, hne, hne'⟩ := hends b hb
      rw [← List.cons_append, ← List.cons_append, List.mem_append, List.mem_append, not_or, not_or,
        hand, List.mem_singleton]
      exact ⟨⟨hmem hb hnot, hne⟩, notMem_portsParameter hbyte hne' portText⟩
    rw [hsuffix, hsplit] at h
    obtain ⟨user, host, path, -, hpath, hread⟩ := readLink_eq_ok hscheme (by
      rw [List.mem_append, not_or]
      exact ⟨hbody (by decide), htail (by decide) hfree⟩) h
    rw [(Url.authorityOf_append (hbody (by decide)) (hbody (by decide))
      (.inr ⟨47, _, rfl, .inl rfl⟩)).2, Url.pathOf,
      Url.cutQuery_of_free (htail (by decide) hquery)] at hpath
    change Url.unescape .path (47 :: (tail ++ ascii "&" ++ portsParameter portText)) = _ at hpath
    rw [Url.unescape_cons (by decide), if_neg (by decide)] at hpath
    obtain ⟨decoded, hdecoded, rfl⟩ := Option.map_eq_some_iff.mp hpath
    have hne := Url.ne_nil_of_unescape (by simp [hand]) hdecoded
    have hslash : ascii "/" = [47] := by decide
    rcases (readHysteria2URI_eq_ok hread).1 with hnil | hone
    · cases hnil
    · rw [hslash] at hone
      exact hne (List.cons.inj hone).2

/-- The first port that is listed. -/
def firstListed (portText : Bytes) : Bytes := (((portText.splitOn 44).headD []).splitOn 45).headD []

/-- A configuration has the ports of a list. -/
structure ListsPorts (c : Configuration) (portText : Bytes) : Prop where
  address : atoi (firstListed portText) = some (c.address.port.val : Int)
  ranges : ∃ options, c.hysteria2 = some options ∧
    options.portRanges = (portText.splitOn 44).map listedRange

theorem firstPort_eq (h58 : 58 ∉ portText) : firstPort portText = firstListed portText := by
  rw [firstPort, firstListed, splitOn_comma_colons]
  cases hsplit : portText.splitOn 44 with
  | nil => exact absurd hsplit (List.splitOn_ne_nil _ _)
  | cons entry entries =>
    rw [List.map_cons, List.headD_cons, List.headD_cons, splitOn_colons]
    intro hmem
    exact h58 (mem_of_mem_splitOn (by rw [hsplit]; exact List.mem_cons_self) hmem)

/-- The query of a link with moved ports ends with the parameter. -/
theorem query_of_moved {suffix : Bytes} {query : Url.Query}
    (h : Url.parseQuery (Url.cutQuery (suffix ++ portsSeparator suffix ++
      portsParameter portText)).2 = some query) :
    ∃ before, query = before ++ [(ascii "ports", colons portText)] := by
  have hparameter : Url.parseParameter (portsParameter portText) =
      some [(ascii "ports", colons portText)] := by
    rw [portsParameter_eq]
    exact Url.parseParameter_escape (by decide) _
  have hfree : 38 ∉ portsParameter portText :=
    notMem_portsParameter (by decide) (by decide) portText
  have hand : ascii "&" = [38] := by decide
  have hask : ascii "?" = [63] := by decide
  unfold portsSeparator at h
  split at h
  next hmem =>
    obtain ⟨before, behind, rfl, hbefore⟩ := List.eq_append_cons_of_mem hmem
    have hcut : Url.cutQuery (before ++ 63 :: behind ++ ascii "&" ++ portsParameter portText) =
        (before, behind ++ 38 :: portsParameter portText) := by
      rw [Url.cutQuery, cut_eq_some_iff.mpr ⟨?_, hbefore⟩]
      · rfl
      · simp [hand]
    rw [hcut] at h
    obtain ⟨front, back, hback, rfl⟩ := Url.parseQuery_append hfree h
    rw [hparameter] at hback
    exact ⟨front, by rw [← Option.some.inj hback]⟩
  next hnot =>
    have hcut : Url.cutQuery (suffix ++ ascii "?" ++ portsParameter portText) =
        (suffix, portsParameter portText) := by
      rw [Url.cutQuery, cut_eq_some_iff.mpr ⟨?_, hnot⟩]
      · rfl
      · simp [hask]
    rw [hcut] at h
    have hquery := Url.parseQuery_singleton hfree h
    rw [hparameter] at hquery
    exact ⟨[], (Option.some.inj hquery).symm⟩

theorem colons_colons (text : Bytes) : colons (colons text) = colons text := by
  unfold colons
  rw [List.map_map]
  refine List.map_congr_left fun c _ => ?_
  by_cases h : c = 45
  · simp [h]
  · simp [h]

/-- A parameter that was written once has its value. -/
theorem get_of_last {before : Url.Query} {key value : Bytes}
    (h : ((before ++ [(key, value)] : Url.Query).values key).length = 1) :
    (before ++ [(key, value)] : Url.Query).get key = value ∧
      (before ++ [(key, value)] : Url.Query).has key = true := by
  have hvalues : (before ++ [(key, value)] : Url.Query).values key =
      Url.Query.values before key ++ [value] := by
    simp [Url.Query.values]
  rw [hvalues, List.length_append, List.length_singleton, Nat.add_eq_right,
    List.length_eq_zero_iff] at h
  rw [h, List.nil_append] at hvalues
  constructor
  · rw [Url.Query.get, hvalues, List.headD_cons]
  · simp [Url.Query.has]

/-- What follows the first port starts a path or a query. -/
theorem moved_tail (hfree : 35 ∉ rest) :
    ∃ c back, behind rest ++ portsSeparator (behind rest) ++ portsParameter portText = c :: back ∧
      (c = 47 ∨ c = 63) := by
  rcases behind_cases hfree with hsuffix | ⟨c, tail, hsuffix, hc⟩
  · rw [hsuffix]
    exact ⟨63, portsParameter portText, rfl, .inr rfl⟩
  · rw [hsuffix]
    exact ⟨c, _, rfl, hc⟩

/-- The moved ports start no name. -/
theorem notMem_movedPorts (hports : HasPorts rest front portText) (hfree : 35 ∉ rest)
    (hpos : 1 ≤ port) (hfirst : firstPort portText = itoa port) (suffix : Bytes) :
    35 ∉ movedPorts front portText (behind rest) (portsSeparator suffix) := by
  have hseparator : 35 ∉ portsSeparator suffix := by
    unfold portsSeparator
    split
    · decide
    · decide
  have hmoved : 35 ∉ behind rest ++ portsSeparator suffix ++ portsParameter portText := by
    rw [List.mem_append, List.mem_append, not_or, not_or]
    exact ⟨⟨notMem_behind hfree, hseparator⟩,
      notMem_portsParameter (by decide) (by decide) portText⟩
  rw [movedPorts, hfirst, List.mem_append, not_or]
  exact ⟨notMem_front hports hpos (by decide), hmoved⟩

/-- **A link with a port list that is accepted has these ports.** -/
theorem listsPorts_of_readLink (hscheme : Url.isScheme scheme = true)
    (hports : HasPorts rest front portText) (hfree : 35 ∉ rest)
    (hpos : 1 ≤ port) (hmax : port ≤ 65535) (hfirst : firstPort portText = itoa port)
    (h : readLink unicode order scheme (movedPorts front portText (behind rest)
      (portsSeparator (behind rest))) = .ok input) :
    ListsPorts input.configuration portText := by
  have hbody : ∀ {b : Byte}, endsAuthority b = true → b ∉ front ++ itoa port :=
    notMem_front hports hpos
  obtain ⟨user, host, path, hauthority, -, hread⟩ :=
    readLink_eq_ok hscheme (notMem_movedPorts hports hfree hpos hfirst _) h
  rw [movedPorts, hfirst] at hauthority hread
  obtain ⟨-, auth, query, hquery, hproblem, hread⟩ := readHysteria2URI_eq_ok hread
  rw [Url.cutQuery_append (hbody (by decide))] at hquery
  obtain ⟨before, rfl⟩ := query_of_moved hquery
  obtain ⟨-, number, up, down, secret, options, hnumber, haddress, hoptions, hhysteria⟩ :=
    readHysteria2Query_eq_ok hread
  constructor
  · -- the port of the URL is the first one
    rw [(Url.authorityOf_append (hbody (by decide)) (hbody (by decide))
      (.inr (moved_tail hfree))).1] at hauthority
    obtain ⟨user', host', hfront, hat⟩ := hports.host
    rw [hfront, List.append_assoc, List.cons_append, List.append_assoc,
      List.singleton_append] at hauthority
    have hhost := Url.parseHost_of_parseAuthority (by
      rw [List.mem_append, List.mem_cons, not_or, not_or]
      exact ⟨hat, by decide, notMem_itoa hpos (by decide)⟩) hauthority
    obtain ⟨hdigits, shown, rfl⟩ := Url.parseHost_port (notMem_itoa hpos (by decide)) hhost
    have hne : itoa port ≠ [] := by
      intro hnil
      have hvalue := atoi_itoa (i := port) (by omega) (by omega)
      rw [hnil] at hvalue
      cases hvalue
    rw [URL.port, Url.cutPort_append hdigits, valueOr, if_neg hne,
      atoi_itoa (by omega) (by omega)] at hnumber
    obtain rfl := Option.some.inj hnumber
    rw [← firstPort_eq hports.noColon, hfirst, atoi_itoa (by omega) (by omega),
      port_val_of_newAddress haddress]
  · -- the parameter has been written once
    have hkey : ascii "ports" ∈
        (before ++ [(ascii "ports", colons portText)] : Url.Query).keys := by
      simp [Url.Query.keys]
    have hone : ((before ++ [(ascii "ports", colons portText)] : Url.Query).values
        (ascii "ports")).length = 1 := by
      by_contra hnot
      have hnone := hproblem _ hkey
      rw [hysteria2Problem, if_neg (by decide +kernel), if_pos hnot] at hnone
      cases hnone
    obtain ⟨hget, hhas⟩ := get_of_last hone
    rw [hysteria2Options, if_pos hhas, hget, colons_colons] at hoptions
    exact ⟨options, hhysteria, (listed_of_ok hports.noColon hoptions).2⟩

end Moved

/-! ## Named links -/

/-- Two results are the same up to the names: both are rejected, or both are accepted with
equivalent configurations. -/
structure SameConnection (plain named : Except Diagnostic ParseInput) : Prop where
  accepted : named.isOk = true ↔ plain.isOk = true
  equivalent : ∀ input input', plain = .ok input → named = .ok input' →
    input.configuration.equivalent input'.configuration = true

section Named

variable {unicode : Unicode} {order order' : QueryOrder} {scheme rest fragment name : Bytes}
  {input : ParseInput}

/-- The links whose name is taken for a query. -/
def NameTaken (rest fragment : Bytes) : Prop :=
  (portList rest).isSome = true ∧ 63 ∉ rest ∧ 63 ∈ fragment

section

variable (hscheme : Url.isScheme scheme = true)
include hscheme

theorem valid_of_parseHysteria2Raw
    (h : parseHysteria2Raw unicode order (scheme ++ ascii "://" ++ rest) = .ok input) :
    input.configuration.valid = true := by
  rw [parseHysteria2Raw_link (Url.notMem_of_isScheme hscheme (by decide))] at h
  obtain ⟨moved, -, h⟩ := bind_eq_ok.mp h
  obtain ⟨u, -, h⟩ := bind_eq_ok.mp h
  obtain ⟨c, hread, rfl⟩ := map_eq_ok.mp h
  obtain ⟨-, auth, query, -, -, hquery⟩ := readHysteria2URI_eq_ok hread
  exact (readHysteria2Query_eq_ok hquery).1

/-- **A name that is not taken for a query changes nothing but the name.** -/
theorem parseHysteria2Raw_named (hrest : 35 ∉ rest)
    (hname : Url.unescape .fragment fragment = some name) (htaken : ¬NameTaken rest fragment) :
    parseHysteria2Raw unicode order (scheme ++ ascii "://" ++ rest ++ 35 :: fragment) =
      (parseHysteria2Raw unicode order (scheme ++ ascii "://" ++ rest)).map
        (ParseInput.rename name) := by
  have hcolon := Url.notMem_of_isScheme hscheme (c := 58) (by decide)
  rw [List.append_assoc, parseHysteria2Raw_link hcolon, parseHysteria2Raw_link hcolon]
  cases hlist : portList rest with
  | none =>
    have hplain : movePorts rest = .ok rest := by rw [movePorts, hlist]
    have hnamed : movePorts (rest ++ 35 :: fragment) = .ok (rest ++ 35 :: fragment) := by
      rw [movePorts, portList_append, hlist]
    rw [hplain, hnamed]
    exact readLink_named (notMem_link hscheme hrest) hname
  | some found =>
    obtain ⟨front, portText⟩ := found
    have hports := hasPorts_of_portList hlist
    rcases movePorts_cases hrest hlist with
      ⟨hplain, hnamed⟩ | ⟨port, hpos, -, hfirst, hplain, hnamed⟩
    · rw [hplain, hnamed]
      rfl
    · have hsame : portsSeparator (behind rest ++ 35 :: fragment) =
          portsSeparator (behind rest) := by
        have hiff : 63 ∈ behind rest ++ 35 :: fragment ↔ 63 ∈ behind rest := by
          rw [List.mem_append, List.mem_cons, or_iff_left_iff_imp]
          rintro (hmark | hmem)
          · exact absurd hmark (by decide)
          · by_contra hnot
            rw [← mem_rest_iff (by decide)] at hnot
            exact htaken ⟨by rw [hlist]; rfl, hnot, hmem⟩
        simp only [portsSeparator, hiff]
      rw [hplain, hnamed, hsame]
      exact readLink_named
        (notMem_link hscheme (notMem_movedPorts hports hrest hpos hfirst _)) hname

/-- A link whose name is taken for a query is rejected. -/
theorem parseHysteria2Raw_taken (hrest : 35 ∉ rest)
    (hname : Url.unescape .fragment fragment = some name) (htaken : NameTaken rest fragment) :
    parseHysteria2Raw unicode order (scheme ++ ascii "://" ++ rest ++ 35 :: fragment) ≠
      .ok input := by
  obtain ⟨hlist, hquery, hmem⟩ := htaken
  obtain ⟨⟨front, portText⟩, hlist⟩ := Option.isSome_iff_exists.mp hlist
  have hports := hasPorts_of_portList hlist
  intro h
  rw [List.append_assoc, parseHysteria2Raw_link (Url.notMem_of_isScheme hscheme (by decide))] at h
  rcases movePorts_cases hrest hlist with ⟨-, hnamed⟩ | ⟨port, hpos, -, hfirst, -, hnamed⟩
  · rw [hnamed] at h
    cases h
  · rw [hnamed] at h
    dsimp only [bind, Except.bind] at h
    rw [readLink_named (notMem_link hscheme (notMem_movedPorts hports hrest hpos hfirst _)) hname]
      at h
    have hseparator : portsSeparator (behind rest ++ 35 :: fragment) = ascii "&" :=
      if_pos (by simp [hmem])
    rw [hseparator] at h
    obtain ⟨found, hread, -⟩ := map_eq_ok.mp h
    exact readLink_misplaced hscheme hports hrest hquery hpos hfirst hread

/-- A link with a port list that is accepted has these ports. -/
theorem listsPorts_of_plain (hrest : 35 ∉ rest) {front portText : Bytes}
    (hlist : portList rest = some (front, portText))
    (h : parseHysteria2Raw unicode order (scheme ++ ascii "://" ++ rest) = .ok input) :
    ListsPorts input.configuration portText := by
  have hports := hasPorts_of_portList hlist
  rw [parseHysteria2Raw_link (Url.notMem_of_isScheme hscheme (by decide))] at h
  rcases movePorts_cases hrest hlist with ⟨hplain, -⟩ | ⟨port, hpos, hmax, hfirst, hplain, -⟩
  · rw [hplain] at h
    cases h
  · rw [hplain] at h
    exact listsPorts_of_readLink hscheme hports hrest hpos hmax hfirst h

theorem parseHysteria2Raw_order
    (h : parseHysteria2Raw unicode order (scheme ++ ascii "://" ++ rest) = .ok input) :
    parseHysteria2Raw unicode order' (scheme ++ ascii "://" ++ rest) = .ok input := by
  have hcolon := Url.notMem_of_isScheme hscheme (c := 58) (by decide)
  rw [parseHysteria2Raw_link hcolon] at h ⊢
  obtain ⟨moved, hmoved, h⟩ := bind_eq_ok.mp h
  exact bind_eq_ok.mpr ⟨moved, hmoved, readLink_order h⟩

end

end Named

/-- **When the name of a link changes its connection**: only if the authority has a port list,
the link has no query, and the name has a question mark.  The link is rejected then.  A link with
a port list that is accepted has the ports of this list. -/
theorem named_link_iff (unicode : Unicode) (order order' : QueryOrder)
    {scheme rest fragment name : Bytes} (hscheme : scheme.map lowerASCII ∈ hysteria2Schemes)
    (hrest : 35 ∉ rest) (hname : Url.unescape .fragment fragment = some name) :
    let link := scheme ++ ascii "://" ++ rest
    let plain := parseHysteria2Raw unicode order link
    let named := parseHysteria2Raw unicode order' (link ++ 35 :: fragment)
    (SameConnection plain named ↔ (NameTaken rest fragment → plain.isOk = false)) ∧
      ∀ front portText, portList rest = some (front, portText) →
        ∀ input, plain = .ok input ∨ named = .ok input →
          ListsPorts input.configuration portText := by
  have hscheme := isScheme_of_mem hscheme
  dsimp only
  have hports : ∀ (order : QueryOrder) {front portText : Bytes} {input : ParseInput},
      portList rest = some (front, portText) →
      parseHysteria2Raw unicode order (scheme ++ ascii "://" ++ rest) = .ok input →
      ListsPorts input.configuration portText := fun _ _ _ _ hlist h =>
    listsPorts_of_plain hscheme hrest hlist h
  by_cases htaken : NameTaken rest fragment
  · cases hnamed : parseHysteria2Raw unicode order'
        (scheme ++ ascii "://" ++ rest ++ 35 :: fragment) with
    | ok input => exact absurd hnamed (parseHysteria2Raw_taken hscheme hrest hname htaken)
    | error d =>
      refine ⟨⟨fun hsame _ => ?_, fun hplain => ⟨?_, fun _ _ _ h => nomatch h⟩⟩, ?_⟩
      · exact Bool.eq_false_iff.mpr fun hplain => nomatch hsame.accepted.mpr hplain
      · rw [hplain htaken]
        exact Iff.rfl
      · rintro front portText hlist input (h | h)
        · exact hports order hlist h
        · cases h
  · rw [parseHysteria2Raw_named hscheme hrest hname htaken]
    cases hplain : parseHysteria2Raw unicode order (scheme ++ ascii "://" ++ rest) with
    | ok input =>
      rw [parseHysteria2Raw_order hscheme hplain]
      refine ⟨⟨fun _ h => absurd h htaken, fun _ => ⟨Iff.rfl, ?_⟩⟩, ?_⟩
      · rintro found found' hfound hfound'
        obtain rfl := Except.ok.inj hfound
        obtain rfl := Except.ok.inj hfound'
        exact Configuration.equivalent_self (valid_of_parseHysteria2Raw hscheme hplain)
      · rintro front portText hlist found (h | h)
        · obtain rfl := Except.ok.inj h
          exact hports order hlist hplain
        · obtain rfl := Except.ok.inj h
          have hlisted := hports order hlist hplain
          exact hlisted
    | error d =>
      cases hother : parseHysteria2Raw unicode order' (scheme ++ ascii "://" ++ rest) with
      | ok input =>
        rw [parseHysteria2Raw_order hscheme hother] at hplain
        cases hplain
      | error d' =>
        refine ⟨⟨fun _ h => absurd h htaken, fun _ => ⟨Iff.rfl, fun _ _ h => nomatch h⟩⟩, ?_⟩
        rintro front portText hlist input (h | h)
        · cases h
        · cases h

namespace Sample

open Endpoint.Sample

/-- The order of the text. -/
def textOrder : QueryOrder := ⟨id, fun _ => .refl _⟩

/-- A link with a port list is accepted, and rejected with a name that has a question mark. -/
theorem named_link_rejected :
    (parseHysteria2Raw kelvin textOrder (ascii "hy2://a@h.example:443,444")).isOk = true ∧
    (parseHysteria2Raw kelvin textOrder (ascii "hy2://a@h.example:443,444#what")).isOk = true ∧
    parseHysteria2Raw kelvin textOrder (ascii "hy2://a@h.example:443,444#what?") =
      malformed "invalid_hysteria2_uri" := by
  decide +kernel

/-- The ports of a link with a name. -/
theorem named_link_iff_list :
    ∃ input, parseHysteria2Raw kelvin textOrder
        (ascii "hy2" ++ ascii "://" ++ ascii "a@h.example:443,5000-5010/?sni=b.example" ++
          35 :: ascii "what?") = .ok input ∧
      ListsPorts input.configuration (ascii "443,5000-5010") := by
  obtain ⟨input, hinput⟩ := exists_of_isOk (x := parseHysteria2Raw kelvin textOrder
    (ascii "hy2" ++ ascii "://" ++ ascii "a@h.example:443,5000-5010/?sni=b.example" ++
      35 :: ascii "what?")) (by decide +kernel)
  have hname : Url.unescape .fragment (ascii "what?") = some (ascii "what?") := by decide +kernel
  exact ⟨input, hinput, (named_link_iff kelvin textOrder textOrder (by decide +kernel)
    (by decide +kernel) hname).2 (ascii "a@h.example:") (ascii "443,5000-5010") (by decide +kernel)
    input (.inr hinput)⟩

end Sample

end Egressfox.Source
