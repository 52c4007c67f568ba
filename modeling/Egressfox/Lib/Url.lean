import Egressfox.Lib.Cut
import Egressfox.Lib.NetipRoundTrip

/-!
# URLs

`url.Parse`, `url.ParseQuery` and the escapes of Go's package `net/url`, with the strict treatment
of colons and brackets in hosts: brackets hold an IPv6 address, and what follows the first colon
of another host is a port.

The results are texts and lists of texts; of an error only its presence is kept.
-/

namespace Egressfox.Lib

namespace Url

/-! ## Escapes -/

/-- The part of a URL that a text is escaped for. -/
inductive Encoding where
  | path
  | pathSegment
  | userPassword
  | host
  | zone
  | queryComponent
  | fragment
deriving DecidableEq, Repr

def isLetter (c : Byte) : Bool := 97 ≤ c.val && c.val ≤ 122 || 65 ≤ c.val && c.val ≤ 90

def isDigit (c : Byte) : Bool := 48 ≤ c.val && c.val ≤ 57

/-- The parts that are checked as hosts. -/
def Encoding.ofHost (mode : Encoding) : Bool := mode = .host || mode = .zone

/-- `shouldEscape`. -/
def shouldEscape (mode : Encoding) (c : Byte) : Bool :=
  if isLetter c || isDigit c then false
  else if mode.ofHost && c ∈ ascii "!$&'()*+,;=:[]<>\"" then false
  else if c ∈ ascii "-_.~" then false
  else if c ∈ ascii "$&+,/:;=?@" then
    match mode with
    | .path => c = 63
    | .pathSegment => c ∈ ascii "/;,?"
    | .userPassword => c ∈ ascii "@/?:"
    | .queryComponent => true
    | .fragment => false
    | .host | .zone => true
  else !(mode = .fragment && c ∈ ascii "!()*")

/-- Whether a byte may be escaped, given by the two digits of the escape. -/
def escapable (mode : Encoding) (high low : Nat) : Bool :=
  match mode with
  | .host => high ≥ 8 || high = 2 && low = 5
  | .zone =>
    high = 2 && low = 5 || high = 2 && low = 0 ||
      !shouldEscape .host (Fin.ofNat 256 (16 * high + low))
  | _ => true

/-- `unescape`. -/
def unescape (mode : Encoding) : Bytes → Option Bytes
  | [] => some []
  | c :: rest =>
    if c = 37 then
      match rest with
      | high :: low :: rest =>
        match hexValue high, hexValue low with
        | some h, some l =>
          if escapable mode h l then
            (unescape mode rest).map (Fin.ofNat 256 (16 * h + l) :: ·)
          else none
        | _, _ => none
      | _ => none
    else if mode.ofHost && c.val < 0x80 && shouldEscape mode c then none
    else (unescape mode rest).map ((if c = 43 && mode = .queryComponent then 32 else c) :: ·)

def upperHex (d : Nat) : Byte := if d < 10 then Fin.ofNat 256 (48 + d) else Fin.ofNat 256 (55 + d)

/-- `escape`. -/
def escape (mode : Encoding) (text : Bytes) : Bytes :=
  text.flatMap fun c =>
    if c = 32 && mode = .queryComponent then [43]
    else if shouldEscape mode c then [37, upperHex (c.val / 16), upperHex (c.val % 16)]
    else [c]

/-! ## Parts -/

/-- `Userinfo`. -/
structure Userinfo where
  username : Bytes
  password : Option Bytes := none
deriving DecidableEq, Repr

/-- `Userinfo.String`. -/
def Userinfo.string (user : Userinfo) : Bytes :=
  escape .userPassword user.username ++
    match user.password with
    | none => []
    | some password => ascii ":" ++ escape .userPassword password

/-- A byte of a scheme. -/
def isSchemeByte (c : Byte) : Bool := isLetter c || isDigit c || c ∈ ascii "+-."

/-- `getScheme`: the scheme and what follows it. -/
def getScheme (raw : Bytes) : Option (Bytes × Bytes) :=
  let name := raw.takeWhile isSchemeByte
  match raw.drop name.length with
  | [] => some ([], raw)
  | c :: rest =>
    if c ≠ 58 then some ([], raw)
    else
      match name with
      | [] => none
      | first :: _ => if isLetter first then some (name, rest) else some ([], raw)

/-- `validUserinfo`. -/
def validUserinfo (text : Bytes) : Bool :=
  text.all fun c => isLetter c || isDigit c || c ∈ ascii "-._:~!$&'()*+,;=%@"

/-- `validOptionalPort`. -/
def validOptionalPort : Bytes → Bool
  | [] => true
  | c :: digits => c = 58 && digits.all isDigit

/-- The text of an address between brackets, with the zone escaped in its own way. -/
def unescapeLiteral (text : Bytes) : Option Bytes :=
  let zone := (List.range text.length).find? fun i => (ascii "%25").isPrefixOf (text.drop i)
  match zone with
  | none => unescape .host text
  | some i => do
      let host ← unescape .host (text.take i)
      let zone ← unescape .zone (text.drop i)
      return host ++ zone

/-- `parseHost`. -/
def parseHost (host : Bytes) : Option Bytes :=
  match cutLast 91 host with
  | some (front, _) =>
    if front ≠ [] then none
    else
      match cutLast 93 host with
      | none => none
      | some (opened, colonPort) =>
        if !validOptionalPort colonPort then none
        else
          match unescapeLiteral (opened.drop 1) with
          | none => none
          | some literal =>
            match parseAddr literal with
            | none => none
            | some addr =>
              if addr.is4 then none
              else some (ascii "[" ++ literal ++ ascii "]" ++ colonPort)
  | none =>
    match cut 58 host with
    | none => unescape .host host
    | some (_, port) =>
      if !validOptionalPort (58 :: port) then none else unescape .host host

/-- The user information in front of a host. -/
def parseUserinfo (text : Bytes) : Option Userinfo :=
  if !validUserinfo text then none
  else
    match cut 58 text with
    | none => (unescape .userPassword text).map fun username => ⟨username, none⟩
    | some (username, password) => do
        let username ← unescape .userPassword username
        let password ← unescape .userPassword password
        return ⟨username, some password⟩

/-- `parseAuthority`. -/
def parseAuthority (authority : Bytes) : Option (Option Userinfo × Bytes) :=
  match cutLast 64 authority with
  | none => (parseHost authority).map fun host => (none, host)
  | some (userinfo, host) => do
      let host ← parseHost host
      let user ← parseUserinfo userinfo
      return (some user, host)

end Url

/-- `url.URL`. -/
structure URL where
  scheme : Bytes := []
  /-- `Opaque`: what follows a scheme if it is not a path. -/
  rootless : Bytes := []
  user : Option Url.Userinfo := none
  host : Bytes := []
  path : Bytes := []
  rawQuery : Bytes := []
  /-- The query is empty, and has its question mark. -/
  forceQuery : Bool := false
  fragment : Bytes := []
deriving DecidableEq, Repr

namespace Url

/-- What follows the scheme, without the query. -/
def parseHierarchy (scheme rest rawQuery : Bytes) : Option URL :=
  if rest.head? ≠ some 47 && scheme ≠ [] then
    some { scheme, rootless := rest, rawQuery }
  else if rest.head? ≠ some 47 && 58 ∈ rest.takeWhile (· ≠ 47) then none
  else if (ascii "//").isPrefixOf rest && (scheme ≠ [] || !(ascii "///").isPrefixOf rest) then do
    let authority := (rest.drop 2).takeWhile (· ≠ 47)
    let (user, host) ← parseAuthority authority
    let path ← unescape .path ((rest.drop 2).dropWhile (· ≠ 47))
    return { scheme, user, host, path, rawQuery }
  else (unescape .path rest).map fun path => { scheme, path, rawQuery }

/-- The text in front of the first question mark, and the query behind it. -/
def cutQuery (rest : Bytes) : Bytes × Bytes := (cut 63 rest).getD (rest, [])

/-- The only question mark of a text is its last character. -/
def forcesQuery (rest : Bytes) : Bool := (cut 63 rest).any fun parts => parts.2 = []

/-- `parse`: a URL without a fragment. -/
def parseWithoutFragment (raw : Bytes) : Option URL :=
  if raw.any fun c => c.val < 0x20 || c = 0x7f then none
  else if raw = ascii "*" then some { path := raw }
  else
    match getScheme raw with
    | none => none
    | some (scheme, rest) =>
      let forceQuery := forcesQuery rest
      let (rest, rawQuery) := cutQuery rest
      (parseHierarchy (scheme.map lowerASCII) rest rawQuery).map fun u => { u with forceQuery }

/-- `url.Parse`. -/
def parse (raw : Bytes) : Option URL :=
  match cut 35 raw with
  | none => parseWithoutFragment raw
  | some (raw, fragment) => do
      let u ← parseWithoutFragment raw
      let fragment ← unescape .fragment fragment
      return { u with fragment }

/-- The port at the end of a host, if there is one. -/
def cutPort (host : Bytes) : Bytes × Bytes :=
  match cutLast 58 host with
  | none => (host, [])
  | some (front, port) => if validOptionalPort (58 :: port) then (front, port) else (host, [])

/-- A text without brackets around it. -/
def trimBrackets (host : Bytes) : Bytes :=
  if host.head? = some 91 && host.getLast? = some 93 then host.tail.dropLast else host

end Url

/-- `URL.Hostname`. -/
def URL.hostname (u : URL) : Bytes := Url.trimBrackets (Url.cutPort u.host).1

/-- `URL.Port`. -/
def URL.port (u : URL) : Bytes := (Url.cutPort u.host).2

namespace Url

/-! ## Queries -/

/-- The parameters of a query, in the order of the text. -/
abbrev Query := List (Bytes × Bytes)

/-- One parameter; `none` is an error, and an empty text is passed over. -/
def parseParameter (text : Bytes) : Option Query :=
  if 59 ∈ text then none
  else if text = [] then some []
  else do
    let (key, value) := (cut 61 text).getD (text, [])
    let key ← unescape .queryComponent key
    let value ← unescape .queryComponent value
    return [(key, value)]

/-- `url.ParseQuery`, with its limit on the number of parameters. -/
def parseQuery (text : Bytes) : Option Query :=
  if text.count 38 + 1 > 10000 then none
  else ((text.splitOn 38).mapM parseParameter).map List.flatten

/-- The values of a parameter. -/
def Query.values (query : Query) (key : Bytes) : List Bytes :=
  (query.filter fun parameter => parameter.1 = key).map Prod.snd

/-- `Values.Has`. -/
def Query.has (query : Query) (key : Bytes) : Bool := query.any fun parameter => parameter.1 = key

/-- `Values.Get`. -/
def Query.get (query : Query) (key : Bytes) : Bytes := (query.values key).headD []

/-- The keys of the map that `url.ParseQuery` returns. -/
def Query.keys (query : Query) : List Bytes := (query.map Prod.fst).dedup

/-! ## Escaped texts -/

section Unescape

variable {mode : Encoding} {text decoded : Bytes}

/-- A character that starts no escape. -/
theorem unescape_cons {c : Byte} (hc : c ≠ 37) (rest : Bytes) :
    unescape mode (c :: rest) =
      if mode.ofHost && c.val < 0x80 && shouldEscape mode c then none
      else
        (unescape mode rest).map ((if c = 43 && mode = .queryComponent then 32 else c) :: ·) := by
  rw [unescape.eq_def]
  simp only [if_neg hc]

/-- An escape. -/
theorem unescape_percent (high low : Byte) (rest : Bytes) :
    unescape mode (37 :: high :: low :: rest) =
      match hexValue high, hexValue low with
      | some h, some l =>
        if escapable mode h l then
          (unescape mode rest).map (Fin.ofNat 256 (16 * h + l) :: ·)
        else none
      | _, _ => none := by
  rw [unescape.eq_def]
  simp only [if_true]

/-- A text without escapes stands for itself, if it may stand there at all. -/
theorem eq_of_unescape (hmode : mode ≠ .queryComponent) (hfree : 37 ∉ text)
    (h : unescape mode text = some decoded) : decoded = text := by
  induction text generalizing decoded with
  | nil => exact (Option.some.inj h).symm
  | cons c rest ih =>
    rw [unescape_cons (List.ne_of_not_mem_cons hfree).symm] at h
    split at h
    · cases h
    · obtain ⟨tail, htail, rfl⟩ := Option.map_eq_some_iff.mp h
      rw [ih (List.not_mem_of_not_mem_cons hfree) htail, if_neg (by simp [hmode])]

/-- A text of characters that need no escape stands for itself. -/
theorem unescape_eq_self (hplus : mode = .queryComponent → 43 ∉ text) (hfree : 37 ∉ text)
    (hplain : mode.ofHost = true → ∀ c ∈ text, shouldEscape mode c = false) :
    unescape mode text = some text := by
  induction text with
  | nil => rfl
  | cons c rest ih =>
    rw [unescape_cons (List.ne_of_not_mem_cons hfree).symm, if_neg,
      ih (fun hmode => List.not_mem_of_not_mem_cons (hplus hmode))
        (List.not_mem_of_not_mem_cons hfree)
        fun hhost b hb => hplain hhost b (List.mem_cons_of_mem _ hb),
      Option.map_some, if_neg]
    · simp only [Bool.and_eq_true, decide_eq_true_eq, not_and]
      intro hc hmode
      exact hplus hmode (by rw [hc]; exact List.mem_cons_self)
    · simp only [Bool.and_eq_true, not_and, Bool.not_eq_true]
      intro hhost
      exact hplain hhost.1 c List.mem_cons_self

/-- What follows an escape or a character is read on its own. -/
theorem exists_step_of_unescape {c : Byte} {rest : Bytes}
    (h : unescape mode (c :: rest) = some decoded) :
    ∃ b used tail, rest = used ++ tail ∧ (∀ d ∈ used, (hexValue d).isSome = true) ∧
      (∀ other, unescape mode (c :: used ++ other) = (unescape mode other).map (b :: ·)) ∧
      (unescape mode tail).map (b :: ·) = some decoded := by
  by_cases hc : c = 37
  · subst hc
    rcases rest with _ | ⟨high, _ | ⟨low, rest⟩⟩
    · cases h
    · cases h
    · rw [unescape_percent] at h
      split at h
      next x y hhigh hlow =>
        split at h
        next hescapable =>
          refine ⟨Fin.ofNat 256 (16 * x + y), [high, low], rest, rfl, ?_, fun other => ?_, h⟩
          · simp [hhigh, hlow]
          · rw [List.cons_append, List.cons_append, List.cons_append, List.nil_append,
              unescape_percent, hhigh, hlow]
            exact if_pos hescapable
        next => cases h
      next => cases h
  · rw [unescape_cons hc] at h
    split at h
    next => cases h
    next hallowed =>
      refine ⟨if c = 43 && mode = .queryComponent then 32 else c, [], rest, rfl, by simp,
        fun other => ?_, h⟩
      rw [List.singleton_append, unescape_cons hc, if_neg hallowed]

theorem ne_nil_of_unescape (htext : text ≠ []) (h : unescape mode text = some decoded) :
    decoded ≠ [] := by
  cases text with
  | nil => exact absurd rfl htext
  | cons c rest =>
    obtain ⟨b, used, tail, -, -, -, hdecoded⟩ := exists_step_of_unescape h
    obtain ⟨front, -, rfl⟩ := Option.map_eq_some_iff.mp hdecoded
    exact List.cons_ne_nil _ _

/-- A character that is no hexadecimal digit ends every escape in front of it. -/
theorem unescape_append {c : Byte} (hc : hexValue c = none) {rest : Bytes}
    (h : unescape mode (text ++ c :: rest) = some decoded) :
    ∃ front back, unescape mode text = some front ∧ unescape mode (c :: rest) = some back ∧
      decoded = front ++ back := by
  induction hlength : text.length using Nat.strong_induction_on generalizing text decoded with
  | _ n ih =>
    cases text with
    | nil => exact ⟨[], decoded, rfl, h, rfl⟩
    | cons a text =>
      obtain ⟨b, used, tail, hsplit, hused, hstep, hdecoded⟩ := exists_step_of_unescape h
      obtain ⟨decoded', hdecoded', rfl⟩ := Option.map_eq_some_iff.mp hdecoded
      -- the digits of an escape lie in front of the character
      obtain ⟨text', rfl, rfl⟩ : ∃ text', text = used ++ text' ∧ tail = text' ++ c :: rest := by
        rcases List.append_eq_append_iff.mp hsplit with ⟨middle, hmiddle, hrest⟩ |
          ⟨middle, hmiddle, htail⟩
        · cases middle with
          | nil => exact ⟨[], by simpa using hmiddle.symm, by simpa using hrest.symm⟩
          | cons d middle =>
            obtain rfl : c = d := (List.cons.inj hrest).1
            have hdigit := hused c (by rw [hmiddle]; simp)
            rw [hc] at hdigit
            cases hdigit
        · exact ⟨middle, hmiddle, htail⟩
      obtain ⟨front, back, hfront, hback, rfl⟩ := ih text'.length (by
        simp only [List.length_cons, List.length_append] at hlength
        omega) hdecoded' rfl
      refine ⟨b :: front, back, ?_, hback, rfl⟩
      rw [← List.cons_append, hstep, hfront, Option.map_some]

end Unescape

/-- The digits of an escape. -/
theorem hexValue_upperHex {d : Nat} (h : d < 16) : hexValue (upperHex d) = some d := by
  revert d
  decide +kernel

/-- **Query components are read as they were written.** -/
theorem unescape_escape (text : Bytes) :
    unescape .queryComponent (escape .queryComponent text) = some text := by
  induction text with
  | nil => rfl
  | cons c text ih =>
    have hescape : escape .queryComponent (c :: text) =
        (if c = 32 && Encoding.queryComponent = .queryComponent then [43]
          else if shouldEscape .queryComponent c then
            [37, upperHex (c.val / 16), upperHex (c.val % 16)]
          else [c]) ++ escape .queryComponent text := rfl
    rw [hescape]
    split
    next hspace =>
      simp only [decide_true, Bool.and_true, decide_eq_true_eq] at hspace
      rw [List.cons_append, List.nil_append, unescape_cons (by decide), if_neg (by decide), ih,
        hspace]
      rfl
    next hspace =>
      split
      next =>
        have hc := c.isLt
        have hvalue : Fin.ofNat 256 (16 * (c.val / 16) + c.val % 16) = c := by
          rw [Nat.div_add_mod]
          exact Fin.ofNat_val_eq_self c
        rw [List.cons_append, List.cons_append, List.cons_append, List.nil_append,
          unescape_percent, hexValue_upperHex (by omega), hexValue_upperHex (by omega)]
        simp only [escapable, if_true, ih, Option.map_some, hvalue]
      next hplain =>
        have hne : c ≠ 37 ∧ c ≠ 43 := by
          constructor <;> rintro rfl <;> exact hplain (by decide)
        rw [List.cons_append, List.nil_append, unescape_cons hne.1,
          if_neg (by simp [Encoding.ofHost]), ih, if_neg (by simp [hne.2])]
        rfl

/-- The characters of a query component. -/
def isQueryByte (c : Byte) : Bool := isLetter c || isDigit c || c ∈ ascii "-_.~+%"

theorem isQueryByte_of_mem_escape {text : Bytes} {b : Byte}
    (h : b ∈ escape .queryComponent text) : isQueryByte b = true := by
  obtain ⟨c, -, hb⟩ := List.mem_flatMap.mp h
  have hhex : ∀ d < 16, isQueryByte (upperHex d) = true := by decide +kernel
  have hc := c.isLt
  split at hb
  · rw [List.mem_singleton.mp hb]
    decide
  · split at hb
    next =>
      rcases List.mem_cons.mp hb with rfl | hb
      · decide
      rcases List.mem_cons.mp hb with rfl | hb
      · exact hhex _ (by omega)
      · rw [List.mem_singleton.mp hb]
        exact hhex _ (by omega)
    next hplain =>
      obtain rfl := List.mem_singleton.mp hb
      have hall : ∀ b : Byte, shouldEscape .queryComponent b = false → isQueryByte b = true := by
        decide +kernel
      exact hall b (by simpa using hplain)

/-! ## Links -/

/-- A text that may be a scheme. -/
def isScheme (scheme : Bytes) : Bool := scheme.all isSchemeByte && scheme.head?.any isLetter

/-- The authority of a link, from what follows the scheme and two slashes. -/
def authorityOf (rest : Bytes) : Bytes := (cutQuery rest).1.takeWhile (· ≠ 47)

/-- The path of a link. -/
def pathOf (rest : Bytes) : Bytes := (cutQuery rest).1.dropWhile (· ≠ 47)

section Link

variable {scheme rest : Bytes}

theorem isScheme_of_lower (h : isScheme (scheme.map lowerASCII) = true) :
    isScheme scheme = true := by
  have hbyte : ∀ b : Byte, isLetter (lowerASCII b) = isLetter b ∧
      isSchemeByte (lowerASCII b) = isSchemeByte b := by decide +kernel
  cases scheme with
  | nil => cases h
  | cons first rest =>
    simp only [isScheme, List.map_cons, List.all_cons, List.all_map, List.head?_cons,
      Option.any_some, Function.comp_def, hbyte] at h ⊢
    exact h

theorem notMem_of_isScheme (hscheme : isScheme scheme = true) {c : Byte}
    (hc : isSchemeByte c = false) : c ∉ scheme := by
  simp only [isScheme, Bool.and_eq_true, List.all_eq_true] at hscheme
  intro hmem
  rw [hscheme.1 c hmem] at hc
  cases hc

theorem getScheme_append (hscheme : isScheme scheme = true) :
    getScheme (scheme ++ 58 :: rest) = some (scheme, rest) := by
  simp only [isScheme, Bool.and_eq_true, List.all_eq_true] at hscheme
  obtain ⟨hbytes, hfirst⟩ := hscheme
  have hname : (scheme ++ 58 :: rest).takeWhile isSchemeByte = scheme := by
    rw [List.takeWhile_append_of_pos hbytes, List.takeWhile_cons_of_neg (by decide),
      List.append_nil]
  cases scheme with
  | nil => cases hfirst
  | cons first tail =>
    unfold getScheme
    dsimp only
    rw [hname, List.drop_left]
    simp only [ne_eq, not_true_eq_false, if_false]
    exact if_pos hfirst

theorem cutQuery_append {front : Bytes} (hfront : 63 ∉ front) :
    cutQuery (front ++ rest) = (front ++ (cutQuery rest).1, (cutQuery rest).2) := by
  rw [cutQuery, cut_append hfront, cutQuery]
  cases cut 63 rest with
  | none => rfl
  | some parts => rfl

theorem cutQuery_of_free (h : 63 ∉ rest) : cutQuery rest = (rest, []) := by
  rw [cutQuery, cut_eq_none_iff.mpr h]
  rfl

theorem forcesQuery_append {front : Bytes} (hfront : 63 ∉ front) :
    forcesQuery (front ++ rest) = forcesQuery rest := by
  rw [forcesQuery, cut_append hfront, forcesQuery]
  cases cut 63 rest with
  | none => rfl
  | some parts => rfl

theorem forcesQuery_of_free (h : 63 ∉ rest) : forcesQuery rest = false := by
  rw [forcesQuery, cut_eq_none_iff.mpr h]
  rfl

/-- The authority of a link ends where its path or its query starts. -/
theorem authorityOf_append {body tail : Bytes} (hslash : 47 ∉ body) (hquery : 63 ∉ body)
    (htail : tail = [] ∨ ∃ c back, tail = c :: back ∧ (c = 47 ∨ c = 63)) :
    authorityOf (body ++ tail) = body ∧ pathOf (body ++ tail) = pathOf tail := by
  have hbody : ∀ c ∈ body, decide (c ≠ 47) = true := by
    intro c hc
    rw [decide_eq_true_eq]
    rintro rfl
    exact hslash hc
  have hend : (cutQuery tail).1.takeWhile (· ≠ 47) = [] := by
    rcases htail with rfl | ⟨c, back, rfl, rfl | rfl⟩
    · rfl
    · have hfront : (63 : Byte) ∉ [(47 : Byte)] := by decide
      rw [← List.singleton_append, cutQuery_append hfront]
      rfl
    · rfl
  rw [authorityOf, pathOf, pathOf, cutQuery_append hquery]
  dsimp only
  rw [List.takeWhile_append_of_pos hbody, hend, List.append_nil, List.dropWhile_append_of_pos hbody]
  exact ⟨rfl, rfl⟩

/-- **How a link is read**: its authority, its path and its query. -/
theorem parseWithoutFragment_link (hscheme : isScheme scheme = true) (rest : Bytes) :
    parseWithoutFragment (scheme ++ ascii "://" ++ rest) =
      if rest.any fun c => c.val < 0x20 || c = 0x7f then none
      else
        (parseAuthority (authorityOf rest)).bind fun authority =>
          (unescape .path (pathOf rest)).map fun path =>
            { scheme := scheme.map lowerASCII, user := authority.1, host := authority.2, path,
              rawQuery := (cutQuery rest).2, forceQuery := forcesQuery rest } := by
  have hmarks : ascii "://" = [58, 47, 47] := by decide
  have hslashes : ascii "//" = [47, 47] := by decide
  have hcontrol : ∀ b : Byte, isSchemeByte b = true → (b.val < 0x20 || b = 0x7f) = false := by
    decide +kernel
  have hraw : scheme ++ ascii "://" ++ rest = scheme ++ 58 :: (ascii "//" ++ rest) := by
    simp [hmarks, hslashes]
  have hbytes := hscheme
  simp only [isScheme, Bool.and_eq_true, List.all_eq_true] at hbytes
  have hstar : scheme ++ ascii "://" ++ rest ≠ ascii "*" := by
    intro h
    have hlength := congrArg List.length h
    have hone : (ascii "*").length = 1 := by decide
    rw [List.length_append, List.length_append, hone, hmarks] at hlength
    simp only [List.length_cons, List.length_nil] at hlength
    omega
  have hany : ((scheme ++ ascii "://" ++ rest).any fun c => c.val < 0x20 || c = 0x7f) =
      rest.any fun c => c.val < 0x20 || c = 0x7f := by
    rw [List.any_append, List.any_append, hmarks]
    have hfree : (scheme.any fun c => c.val < 0x20 || c = 0x7f) = false := by
      rw [List.any_eq_false]
      intro b hb
      rw [hcontrol b (hbytes.1 b hb)]
      decide
    rw [hfree]
    rfl
  have hlower : scheme.map lowerASCII ≠ [] := by
    rintro h
    rw [List.map_eq_nil_iff.mp h] at hbytes
    cases hbytes.2
  unfold parseWithoutFragment
  rw [hany, if_neg hstar]
  congr 1
  rw [hraw, getScheme_append hscheme]
  dsimp only
  rw [cutQuery_append (by decide), forcesQuery_append (by decide), hslashes]
  unfold parseHierarchy
  simp only [List.cons_append, List.nil_append, List.head?_cons, ne_eq, not_true_eq_false,
    decide_false, Bool.false_and, Bool.false_eq_true, if_false, hlower, not_false_eq_true,
    decide_true, Bool.true_or, Bool.and_true, hslashes]
  rw [if_pos (by rfl)]
  simp only [List.drop_succ_cons, List.drop_zero]
  unfold authorityOf pathOf
  cases parseAuthority ((cutQuery rest).1.takeWhile (· ≠ 47)) with
  | none => rfl
  | some authority =>
    cases unescape .path ((cutQuery rest).1.dropWhile (· ≠ 47)) with
    | none => rfl
    | some path => rfl

theorem parse_of_free {raw : Bytes} (h : 35 ∉ raw) : parse raw = parseWithoutFragment raw := by
  rw [parse, cut_eq_none_iff.mpr h]

/-- The name of a link is read apart from it. -/
theorem parse_fragment {raw name decoded : Bytes} (h : 35 ∉ raw)
    (hname : unescape .fragment name = some decoded) :
    parse (raw ++ 35 :: name) =
      (parseWithoutFragment raw).map fun u => { u with fragment := decoded } := by
  rw [parse, cut_eq_some_iff.mpr ⟨rfl, h⟩]
  dsimp only
  rw [hname]
  cases parseWithoutFragment raw with
  | none => rfl
  | some u => rfl

end Link

/-! ## Hosts -/

section Host

variable {host port decoded : Bytes}

theorem colon_notMem_of_digits (h : port.all isDigit = true) : 58 ∉ port := by
  intro hmem
  exact absurd (List.all_eq_true.mp h 58 hmem) (by decide)

/-- A host without brackets keeps its port. -/
theorem parseHost_plain (hbracket : 91 ∉ host ++ 58 :: port) (hpercent : 37 ∉ host ++ 58 :: port)
    (h : parseHost (host ++ 58 :: port) = some decoded) :
    decoded = host ++ 58 :: port ∧ port.all isDigit = true ∧ 58 ∉ host := by
  unfold parseHost at h
  rw [cutLast_eq_none_iff.mpr hbracket] at h
  dsimp only at h
  split at h
  next hcut =>
    rw [cut_eq_none_iff] at hcut
    exact absurd (by simp) hcut
  next front rest hcut =>
    obtain ⟨hsplit, hfront⟩ := cut_eq_some_iff.mp hcut
    split at h
    next => cases h
    next hport =>
      simp only [validOptionalPort, decide_true, Bool.true_and, Bool.not_eq_true',
        Bool.not_eq_false] at hport
      -- the first colon is the only one
      obtain ⟨rfl, rfl⟩ := eq_of_append_cons hsplit hfront (colon_notMem_of_digits hport)
      exact ⟨eq_of_unescape (by decide) hpercent h, hport, hfront⟩

/-- The text in brackets, if it holds no escapes. -/
theorem unescapeLiteral_eq {text : Bytes} (hpercent : 37 ∉ text) :
    unescapeLiteral text = unescape .host text := by
  have hescape : ascii "%25" = [37, 50, 53] := by decide
  have hzone : ((List.range text.length).find? fun i => (ascii "%25").isPrefixOf (text.drop i)) =
      none := by
    rw [List.find?_eq_none]
    intro i _ hprefix
    rw [List.isPrefixOf_iff_prefix, hescape] at hprefix
    obtain ⟨back, hback⟩ := hprefix
    refine hpercent (List.drop_subset i text ?_)
    rw [← hback]
    simp
  rw [unescapeLiteral, hzone]

/-- An address in brackets keeps its port. -/
theorem parseHost_brackets (hopen : 91 ∉ host ++ 93 :: 58 :: port) (hclose : 93 ∉ 58 :: port)
    (hpercent : 37 ∉ host) (h : parseHost (91 :: host ++ 93 :: 58 :: port) = some decoded) :
    decoded = 91 :: host ++ 93 :: 58 :: port ∧ port.all isDigit = true ∧
      ∃ address, parseAddr host = some address := by
  have hcutOpen : cutLast 91 (91 :: host ++ 93 :: 58 :: port) =
      some ([], host ++ 93 :: 58 :: port) := cutLast_eq_some_iff.mpr ⟨rfl, hopen⟩
  have hcutClose : cutLast 93 (91 :: host ++ 93 :: 58 :: port) = some (91 :: host, 58 :: port) :=
    cutLast_eq_some_iff.mpr ⟨rfl, hclose⟩
  unfold parseHost at h
  rw [hcutOpen, hcutClose] at h
  simp only [ne_eq, not_true_eq_false, if_false, List.drop_succ_cons, List.drop_zero] at h
  split at h
  next => cases h
  next hport =>
    simp only [validOptionalPort, decide_true, Bool.true_and, Bool.not_eq_true',
      Bool.not_eq_false] at hport
    split at h
    next => cases h
    next literal hliteral =>
      rw [unescapeLiteral_eq hpercent] at hliteral
      obtain rfl := eq_of_unescape (by decide) hpercent hliteral
      split at h
      next => cases h
      next address haddress =>
        split at h
        next => cases h
        next =>
          refine ⟨?_, hport, address, haddress⟩
          have hmarks : ascii "[" = [91] ∧ ascii "]" = [93] := by decide
          rw [← Option.some.inj h, hmarks.1, hmarks.2]
          simp

/-- **What follows the last colon of a host is its port**, and it is kept. -/
theorem parseHost_port (hclose : 93 ∉ port)
    (h : parseHost (host ++ 58 :: port) = some decoded) :
    port.all isDigit = true ∧ ∃ front, decoded = front ++ 58 :: port := by
  unfold parseHost at h
  split at h
  next =>
    split at h
    next => cases h
    split at h
    next => cases h
    next opened colonPort hcut =>
      -- the last bracket is in the host
      obtain ⟨rest, rfl⟩ : ∃ rest, colonPort = rest ++ 58 :: port := by
        obtain ⟨hsplit, -⟩ := cutLast_eq_some_iff.mp hcut
        rcases List.append_eq_append_iff.mp hsplit with ⟨middle, -, hrest⟩ | ⟨middle, -, hrest⟩
        · have hmem : 93 ∈ 58 :: port := by rw [hrest]; simp
          rcases List.mem_cons.mp hmem with hcolon | hmem
          · exact absurd hcolon (by decide)
          · exact absurd hmem hclose
        · cases middle with
          | nil => exact absurd (List.cons.inj hrest).1 (by decide)
          | cons c middle => exact ⟨middle, (List.cons.inj hrest).2⟩
      split at h
      next => cases h
      next hport =>
        simp only [Bool.not_eq_true', Bool.not_eq_false] at hport
        split at h
        next => cases h
        next literal hliteral =>
          split at h
          next => cases h
          next address haddress =>
            split at h
            next => cases h
            next =>
              refine ⟨?_, ascii "[" ++ literal ++ ascii "]" ++ rest, ?_⟩
              · cases rest with
                | nil => simpa [validOptionalPort] using hport
                | cons c rest =>
                  simp only [List.cons_append, validOptionalPort, Bool.and_eq_true,
                    List.all_append, List.all_cons] at hport
                  exact hport.2.2.2
              · rw [← Option.some.inj h]
                simp
  next =>
    split at h
    next hcolon =>
      rw [cut_eq_none_iff] at hcolon
      exact absurd (by simp) hcolon
    next front back hcolon =>
      obtain ⟨hsplit, hfront⟩ := cut_eq_some_iff.mp hcolon
      split at h
      next => cases h
      next hport =>
        simp only [validOptionalPort, decide_true, Bool.true_and, Bool.not_eq_true',
          Bool.not_eq_false] at hport
        obtain ⟨rfl, rfl⟩ := eq_of_append_cons hsplit hfront (colon_notMem_of_digits hport)
        obtain ⟨front, back, -, hback, rfl⟩ := unescape_append (by decide) h
        have hfree : 37 ∉ 58 :: port := by
          rw [List.mem_cons, not_or]
          exact ⟨by decide, fun hmem =>
            absurd (List.all_eq_true.mp hport 37 hmem) (by decide)⟩
        rw [eq_of_unescape (by decide) hfree hback]
        exact ⟨hport, front, rfl⟩

/-- The host behind the user information. -/
theorem parseHost_of_parseAuthority {userinfo : Bytes} {authority : Option Userinfo × Bytes}
    (hat : 64 ∉ host) (h : parseAuthority (userinfo ++ 64 :: host) = some authority) :
    parseHost host = some authority.2 := by
  rw [parseAuthority, cutLast_eq_some_iff.mpr ⟨rfl, hat⟩] at h
  obtain ⟨found, hfound, h⟩ := Option.bind_eq_some_iff.mp h
  obtain ⟨user, -, h⟩ := Option.bind_eq_some_iff.mp h
  rw [hfound, ← Option.some.inj h]

/-- The host and the port of an authority with a port. -/
theorem cutPort_append (hport : port.all isDigit = true) :
    cutPort (host ++ 58 :: port) = (host, port) := by
  rw [cutPort, cutLast_eq_some_iff.mpr ⟨rfl, colon_notMem_of_digits hport⟩]
  simp [validOptionalPort, hport]

theorem trimBrackets_brackets (text : Bytes) : trimBrackets (91 :: text ++ [93]) = text := by
  have hlast : (91 :: text ++ [93]).getLast? = some 93 := by
    rw [List.getLast?_append, List.getLast?_singleton, Option.some_or]
  rw [trimBrackets, hlast]
  simp

theorem trimBrackets_eq_self (h : 91 ∉ host) : trimBrackets host = host := by
  rw [trimBrackets, if_neg]
  simp only [Bool.and_eq_true, decide_eq_true_eq, not_and]
  intro hhead
  exact absurd (List.mem_of_mem_head? hhead) h

end Host

/-! ## Parameters -/

/-- The last parameter of a query is read on its own. -/
theorem parseQuery_append {text parameter : Bytes} {query : Query} (hparameter : 38 ∉ parameter)
    (h : parseQuery (text ++ 38 :: parameter) = some query) :
    ∃ front back, parseParameter parameter = some back ∧ query = front ++ back := by
  unfold parseQuery at h
  split at h
  next => cases h
  next =>
    rw [List.splitOn_append_cons_self, List.splitOn_eq_singleton hparameter, List.mapM_append] at h
    obtain ⟨parameters, hparameters, rfl⟩ := Option.map_eq_some_iff.mp h
    obtain ⟨front, -, hparameters⟩ := Option.bind_eq_some_iff.mp hparameters
    obtain ⟨back, hback, hparameters⟩ := Option.bind_eq_some_iff.mp hparameters
    rw [List.mapM_cons, List.mapM_nil] at hback
    obtain ⟨last, hlast, hback⟩ := Option.bind_eq_some_iff.mp hback
    obtain rfl := Option.some.inj hparameters
    obtain rfl := Option.some.inj hback
    exact ⟨front.flatten, last, hlast, by simp⟩

/-- A query of one parameter. -/
theorem parseQuery_singleton {parameter : Bytes} {query : Query} (hparameter : 38 ∉ parameter)
    (h : parseQuery parameter = some query) : parseParameter parameter = some query := by
  unfold parseQuery at h
  split at h
  next => cases h
  next =>
    rw [List.splitOn_eq_singleton hparameter, List.mapM_cons, List.mapM_nil] at h
    obtain ⟨parameters, hparameters, rfl⟩ := Option.map_eq_some_iff.mp h
    obtain ⟨last, hlast, hparameters⟩ := Option.bind_eq_some_iff.mp hparameters
    obtain rfl := Option.some.inj hparameters
    simpa using hlast

/-- A parameter whose value was escaped. -/
theorem parseParameter_escape {key : Bytes} (hkey : key.all isLetter = true) (value : Bytes) :
    parseParameter (key ++ 61 :: escape .queryComponent value) = some [(key, value)] := by
  have hletter : ∀ {b : Byte}, isLetter b = false → b ∉ key := by
    intro b hb hmem
    rw [List.all_eq_true.mp hkey b hmem] at hb
    cases hb
  have hquery : ∀ {b : Byte}, isQueryByte b = false → b ∉ escape .queryComponent value := by
    intro b hb hmem
    rw [isQueryByte_of_mem_escape hmem] at hb
    cases hb
  have hown : unescape .queryComponent key = some key :=
    unescape_eq_self (fun _ => hletter (by decide)) (hletter (by decide)) nofun
  rw [parseParameter, if_neg, if_neg (by simp), cut_eq_some_iff.mpr ⟨rfl, hletter (by decide)⟩]
  · simp only [Option.getD_some, hown, unescape_escape]
    rfl
  · rw [List.mem_append, List.mem_cons, not_or, not_or]
    exact ⟨hletter (by decide), by decide, hquery (by decide)⟩

/-! ## Texts -/

/-- The parts before and behind the first occurrence of a text: `strings.Cut`. -/
def cutText (mark : Bytes) : Bytes → Option (Bytes × Bytes)
  | [] => if mark = [] then some ([], []) else none
  | c :: rest =>
    if mark.isPrefixOf (c :: rest) then some ([], (c :: rest).drop mark.length)
    else (cutText mark rest).map fun parts => (c :: parts.1, parts.2)

theorem cutText_append {c : Byte} {mark front : Bytes} (hfront : c ∉ front) (back : Bytes) :
    cutText (c :: mark) (front ++ c :: mark ++ back) = some (front, back) := by
  induction front with
  | nil =>
    rw [List.nil_append, List.cons_append, cutText, if_pos]
    · rw [← List.cons_append, List.drop_left]
    · rw [List.isPrefixOf_iff_prefix, ← List.cons_append]
      exact List.prefix_append _ _
  | cons a front ih =>
    rw [List.cons_append, List.cons_append, cutText, if_neg,
      ih (List.not_mem_of_not_mem_cons hfront)]
    · rfl
    · rw [List.isPrefixOf_iff_prefix, List.cons_prefix_cons]
      exact fun h => hfront (by rw [h.1]; exact List.mem_cons_self)

end Url

end Egressfox.Lib
