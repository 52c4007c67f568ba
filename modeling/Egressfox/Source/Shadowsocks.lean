import Egressfox.Endpoint.AddressText
import Egressfox.Lib.Url
import Egressfox.Source.Carried
import Egressfox.Source.VMess

/-!
# Shadowsocks links

`parseShadowsocksURI` of `internal/source/protocols.go`.

The authority of a legacy link is the text `method:password@host:port` in one of the base64
encodings.  The decoded text is cut at its first at sign, although a password may have one: the
rest of the password is then read as user information of the host, and dropped.  Up to that, a
legacy link that is accepted means what was written: URL parsing rejects hosts and ports that it
would read in another way, and the encodings cannot be taken for one another.
-/

namespace Egressfox.Source

open Lib Endpoint

/-! ## Links -/

/-- The user information of a link, and its host and port. -/
def shadowsocksParts (u : URL) : Except Diagnostic (Bytes × Bytes) :=
  if u.rootless ≠ [] || u.user = none && u.host ≠ [] then do
    let encoded := if u.rootless = [] then u.host else u.rootless
    let decoded ← orFail (decodeShareBase64 encoded) (malformed "invalid_ss_base64")
    orFail (cut 64 decoded) (malformed "invalid_ss_authority")
  else
    match u.user with
    | none => malformed "missing_ss_userinfo"
    | some user =>
      match decodeShareBase64 user.string with
      | some decoded => .ok (decoded, u.host)
      | none => do
          let userinfo ← orFail (Url.unescape .pathSegment user.string)
            (malformed "invalid_ss_userinfo")
          return (userinfo, u.host)

/-- The part of `parseShadowsocksURI` behind the user information. -/
def readShadowsocks (unicode : Unicode) (userinfo hostport name : Bytes) :
    Except Diagnostic ParseInput := do
  let (method, password) ← orFail (cut 58 userinfo) (malformed "invalid_ss_userinfo")
  let hostURL ← orFail (Url.parse (ascii "ss://" ++ hostport)) (malformed "invalid_ss_authority")
  if hostURL.hostname = [] || hostURL.port = [] then malformed "invalid_ss_authority"
  else
    let port ← orFail (atoi hostURL.port) (malformed "invalid_port")
    let address ← orElse (newAddress unicode hostURL.hostname port)
      (invalidInput "invalid_address")
    let credential ← orElse (newShadowsocksCredential password) (invalidInput "invalid_credential")
    let configuration ← orElse (newShadowsocksConfiguration address credential method)
      (unsupported "ss_method")
    return ⟨configuration, name⟩

/-- `parseShadowsocksURI`. -/
def parseShadowsocksURI (unicode : Unicode) (raw : Bytes) : Except Diagnostic ParseInput := do
  let u ← orFail (Url.parse raw) (malformed "invalid_ss_uri")
  if u.scheme ≠ ascii "ss" then malformed "invalid_ss_uri"
  else if u.path ≠ [] && u.path ≠ ascii "/" then unsupported "unsupported_ss_path"
  else if u.rawQuery ≠ [] then unsupported "ss_plugin_or_option"
  else
    let (userinfo, hostport) ← shadowsocksParts u
    readShadowsocks unicode userinfo hostport u.fragment

/-- The text of a legacy link: `method:password@host:port`. -/
def legacyText (method password host port : Bytes) : Bytes :=
  method ++ 58 :: (password ++ 64 :: (host ++ 58 :: port))

/-- A legacy link, in one of the encodings. -/
def legacyLink (e : Base64) (method password host port : Bytes) : Bytes :=
  ascii "ss://" ++ e.encode (legacyText method password host port)

/-- A configuration is that of the parts of a link. -/
structure IsReadAs (unicode : Unicode) (c : Configuration) (method password host port : Bytes) :
    Prop where
  method : c.method = method
  password : c.credential.secret = some password
  address : ∃ number, atoi port = some number ∧ newAddress unicode host number = .ok c.address

/-! ## What is accepted -/

section

variable {unicode : Unicode} {input : ParseInput}

/-- What an accepted link is made of. -/
theorem readShadowsocks_eq_ok {userinfo hostport name : Bytes}
    (h : readShadowsocks unicode userinfo hostport name = .ok input) :
    ∃ password u number, cut 58 userinfo = some (input.configuration.method, password) ∧
      Url.parse (ascii "ss://" ++ hostport) = some u ∧ atoi u.port = some number ∧
      newAddress unicode u.hostname number = .ok input.configuration.address ∧
      input.configuration.credential.secret = some password := by
  obtain ⟨⟨method, password⟩, hcut, h⟩ := bind_eq_ok.mp h
  obtain ⟨u, hparse, h⟩ := bind_eq_ok.mp h
  obtain ⟨-, h⟩ := ite_error_eq_ok h
  obtain ⟨number, hnumber, h⟩ := bind_eq_ok.mp h
  obtain ⟨address, haddress, h⟩ := bind_eq_ok.mp h
  obtain ⟨credential, hcredential, h⟩ := bind_eq_ok.mp h
  obtain ⟨configuration, hconfiguration, h⟩ := bind_eq_ok.mp h
  obtain rfl := Except.ok.inj h
  have hmade := newShadowsocksConfiguration_madeOf (orElse_eq_ok hconfiguration)
  refine ⟨password, u, number, ?_, orFail_eq_ok hparse, orFail_eq_ok hnumber, ?_, ?_⟩
  · rw [hmade.method]
    exact orFail_eq_ok hcut
  · rw [hmade.address]
    exact orElse_eq_ok haddress
  · obtain ⟨-, hcredential⟩ := ite_invalid_eq_ok.mp (orElse_eq_ok hcredential)
    rw [hmade.credential, ← Except.ok.inj hcredential]

/-- A text is decoded from its own encodings only. -/
theorem eq_of_decodeShareBase64 {e : Base64} (he : e ∈ Base64.all) {text decoded : Bytes}
    (h : decodeShareBase64 (e.encode text) = some decoded) : decoded = text := by
  obtain ⟨f, hf, hdecode⟩ := List.exists_of_findSome?_eq_some h
  rw [Option.filter_eq_some_iff] at hdecode
  exact Base64.eq_of_decode (Base64.standard_of_mem_all he) (Base64.standard_of_mem_all hf)
    (Base64.agree_of_mem_all he hf) hdecode.1

/-- The characters of the encodings. -/
def isBase64Byte (c : Byte) : Bool := Url.isLetter c || Url.isDigit c || c ∈ ascii "+/-_="

theorem isBase64Byte_of_mem {e : Base64} (he : e ∈ Base64.all) {text : Bytes} {c : Byte}
    (hc : c ∈ e.encode text) : isBase64Byte c = true := by
  have hstd : ∀ c ∈ base64Std, isBase64Byte c = true := by decide +kernel
  have hurl : ∀ c ∈ base64URL, isBase64Byte c = true := by decide +kernel
  have hdigit : c ∈ encodeDigits 6 e.alphabet text → isBase64Byte c = true := by
    intro hc
    have hmem := mem_of_mem_encodeDigits (Base64.standard_of_mem_all he).alphabet hc
    rcases Base64.alphabet_of_mem_all he with halphabet | halphabet
    · exact hstd c (halphabet ▸ hmem)
    · exact hurl c (halphabet ▸ hmem)
  unfold Base64.encode at hc
  dsimp only at hc
  split at hc
  · rcases List.mem_append.mp hc with hc | hc
    · exact hdigit hc
    · rw [List.eq_of_mem_replicate hc]
      decide
  · exact hdigit hc

/-- **A legacy link is read as the text that was encoded**, up to a path that starts with a slash
of the encoding. -/
theorem parse_encode {e : Base64} (he : e ∈ Base64.all) (text : Bytes) :
    Url.parse (ascii "ss://" ++ e.encode text) =
      some { scheme := ascii "ss", host := (e.encode text).takeWhile (· ≠ 47),
             path := (e.encode text).dropWhile (· ≠ 47) } := by
  have hbyte : ∀ {c : Byte}, isBase64Byte c = false → c ∉ e.encode text := by
    intro c hc hmem
    rw [isBase64Byte_of_mem he hmem] at hc
    cases hc
  have hscheme : ascii "ss://" ++ e.encode text = ascii "ss" ++ ascii "://" ++ e.encode text := by
    congr 1
  have hquery : Url.cutQuery (e.encode text) = (e.encode text, []) :=
    Url.cutQuery_of_free (hbyte (by decide))
  have htake : ∀ {c : Byte}, c ∈ (e.encode text).takeWhile (· ≠ 47) → c ∈ e.encode text :=
    fun hc => (List.takeWhile_sublist _).subset hc
  have hdrop : ∀ {c : Byte}, c ∈ (e.encode text).dropWhile (· ≠ 47) → c ∈ e.encode text :=
    fun hc => (List.dropWhile_sublist _).subset hc
  have hfree : 35 ∉ ascii "ss" ++ ascii "://" ++ e.encode text := by
    rw [List.mem_append, not_or]
    exact ⟨by decide, hbyte (by decide)⟩
  have hcontrol : ((e.encode text).any fun c => c.val < 0x20 || c = 0x7f) = false := by
    have hall : ∀ c : Byte, isBase64Byte c = true → (c.val < 0x20 || c = 0x7f) = false := by
      decide +kernel
    rw [List.any_eq_false]
    intro c hc
    rw [hall c (isBase64Byte_of_mem he hc)]
    decide
  have hhost : Url.parseHost ((e.encode text).takeWhile (· ≠ 47)) =
      some ((e.encode text).takeWhile (· ≠ 47)) := by
    have hplain : ∀ c : Byte, isBase64Byte c = true → c ≠ 47 →
        Url.shouldEscape .host c = false := by decide +kernel
    unfold Url.parseHost
    rw [cutLast_eq_none_iff.mpr fun hmem => hbyte (by decide) (htake hmem),
      cut_eq_none_iff.mpr fun hmem => hbyte (by decide) (htake hmem)]
    refine Url.unescape_eq_self nofun (fun hmem => hbyte (by decide) (htake hmem)) ?_
    intro _ c hc
    exact hplain c (isBase64Byte_of_mem he (htake hc)) (by simpa using List.mem_takeWhile_imp hc)
  have hpath : Url.unescape .path ((e.encode text).dropWhile (· ≠ 47)) =
      some ((e.encode text).dropWhile (· ≠ 47)) :=
    Url.unescape_eq_self nofun (fun hmem => hbyte (by decide) (hdrop hmem)) nofun
  rw [hscheme, Url.parse_of_free hfree, Url.parseWithoutFragment_link (by decide), hcontrol,
    if_neg Bool.false_ne_true, Url.authorityOf, Url.pathOf, hquery,
    Url.forcesQuery_of_free (hbyte (by decide)), Url.parseAuthority,
    cutLast_eq_none_iff.mpr fun hmem => hbyte (by decide) (htake hmem)]
  dsimp only
  rw [hhost, Option.map_some, Option.bind_some, hpath, Option.map_some]
  rfl

/-- An accepted legacy link: its text is cut at the first at sign. -/
theorem parseShadowsocksURI_encode {e : Base64} (he : e ∈ Base64.all) {text : Bytes} {v : Byte}
    (hv : v.val % 64 ≠ 63)
    (h : parseShadowsocksURI unicode (ascii "ss://" ++ e.encode (text ++ [v])) = .ok input) :
    ∃ userinfo hostport, cut 64 (text ++ [v]) = some (userinfo, hostport) ∧
      readShadowsocks unicode userinfo hostport [] = .ok input := by
  obtain ⟨u, hparse, h⟩ := bind_eq_ok.mp h
  rw [parse_encode he] at hparse
  obtain rfl := Except.ok.inj hparse
  obtain ⟨-, h⟩ := ite_error_eq_ok h
  obtain ⟨hpath, h⟩ := ite_error_eq_ok h
  obtain ⟨-, h⟩ := ite_error_eq_ok h
  obtain ⟨⟨userinfo, hostport⟩, hparts, h⟩ := bind_eq_ok.mp h
  -- a path would be a single slash, the last character of the encoding
  have hslash : 47 ∉ e.encode (text ++ [v]) := by
    intro hmem
    have hne : (e.encode (text ++ [v])).dropWhile (· ≠ 47) ≠ [] := by
      rw [ne_eq, List.dropWhile_eq_nil_iff]
      intro hall
      simpa using hall 47 hmem
    have hmark : ascii "/" = [47] := by decide
    simp only [hne, ne_eq, not_false_eq_true, decide_true, Bool.true_and, decide_eq_true_eq,
      not_not, hmark] at hpath
    refine Base64.getLast?_encode_ne he (b := text) hv ?_
    rw [← List.takeWhile_append_dropWhile (p := (· ≠ 47)) (l := e.encode (text ++ [v])), hpath,
      List.getLast?_concat]
  have htake : (e.encode (text ++ [v])).takeWhile (· ≠ 47) = e.encode (text ++ [v]) := by
    rw [List.takeWhile_eq_self_iff]
    intro c hc
    simpa using fun heq : c = 47 => hslash (heq ▸ hc)
  unfold shadowsocksParts at hparts
  simp only [htake] at hparts
  split at hparts
  next =>
    obtain ⟨decoded, hdecoded, hcut⟩ := bind_eq_ok.mp hparts
    have hsame := eq_of_decodeShareBase64 he (orFail_eq_ok hdecoded)
    subst hsame
    exact ⟨userinfo, hostport, orFail_eq_ok hcut, h⟩
  next => cases hparts

end

/-! ## Hosts and ports -/

/-- What `strconv.Atoi` reads: digits, with a sign in front. -/
theorem atoi_bytes {port : Bytes} {number : Int} (h : atoi port = some number) :
    (∀ b ∈ port, Url.isDigit b = true ∨ b = 43 ∨ b = 45) ∧
      ∃ front v, port = front ++ [v] ∧ Url.isDigit v = true := by
  have hdigits : ∀ {text : Bytes} {n : Nat}, decimalValue text = some n →
      (∀ b ∈ text, Url.isDigit b = true) ∧
        ∃ front v, text = front ++ [v] ∧ Url.isDigit v = true := by
    intro text n htext
    unfold decimalValue at htext
    split at htext
    next hall =>
      have hdigit : ∀ b ∈ text, Url.isDigit b = true := by
        intro b hb
        simpa [Url.isDigit] using hall.2 b hb
      refine ⟨hdigit, text.dropLast, text.getLast hall.1, ?_, ?_⟩
      · exact (List.dropLast_append_getLast hall.1).symm
      · exact hdigit _ (List.getLast_mem hall.1)
    next => cases htext
  unfold atoi at h
  dsimp only at h
  rw [Option.filter_eq_some_iff] at h
  obtain ⟨h, -⟩ := h
  cases port with
  | nil => cases h
  | cons sign digits =>
    have hsigned : ∀ {n : Nat}, sign = 43 ∨ sign = 45 → decimalValue digits = some n →
        (∀ b ∈ sign :: digits, Url.isDigit b = true ∨ b = 43 ∨ b = 45) ∧
          ∃ front v, sign :: digits = front ++ [v] ∧ Url.isDigit v = true := by
      intro n hsign hvalue
      obtain ⟨hall, front, v, hfront, hv⟩ := hdigits hvalue
      refine ⟨?_, sign :: front, v, by rw [hfront]; rfl, hv⟩
      intro b hb
      rcases List.mem_cons.mp hb with rfl | hb
      · exact .inr hsign
      · exact .inl (hall b hb)
    dsimp only at h
    split at h
    next hplus =>
      obtain ⟨_, hvalue, -⟩ := Option.map_eq_some_iff.mp h
      obtain ⟨n, hvalue, -⟩ := Option.bind_eq_some_iff.mp hvalue
      exact hsigned (.inl hplus) hvalue
    next =>
      split at h
      next hminus =>
        obtain ⟨_, hvalue, -⟩ := Option.map_eq_some_iff.mp h
        obtain ⟨n, hvalue, -⟩ := Option.bind_eq_some_iff.mp hvalue
        exact hsigned (.inr hminus) hvalue
      next =>
        obtain ⟨_, hvalue, -⟩ := Option.map_eq_some_iff.mp h
        obtain ⟨n, hvalue, -⟩ := Option.bind_eq_some_iff.mp hvalue
        obtain ⟨hall, hlast⟩ := hdigits hvalue
        exact ⟨fun b hb => .inl (hall b hb), hlast⟩

section Authority

variable {unicode : Unicode} {host port : Bytes} {number : Int} {a : Address} {u : URL}

/-- The authority in front of a port, as a URL: without user information, path and query. -/
theorem host_of_parse {authority : Bytes} (hmarks : ∀ c ∈ ascii "#?/@", c ∉ authority)
    (h : Url.parse (ascii "ss://" ++ authority) = some u) :
    Url.parseHost authority = some u.host := by
  have hscheme : ascii "ss://" ++ authority = ascii "ss" ++ ascii "://" ++ authority := by
    congr 1
  have hquery : Url.cutQuery authority = (authority, []) :=
    Url.cutQuery_of_free (hmarks 63 (by decide))
  have htake : authority.takeWhile (· ≠ 47) = authority := by
    rw [List.takeWhile_eq_self_iff]
    intro c hc
    simpa using fun heq : c = 47 => hmarks 47 (by decide) (heq ▸ hc)
  have hfree : 35 ∉ ascii "ss" ++ ascii "://" ++ authority := by
    rw [List.mem_append, not_or]
    exact ⟨by decide, hmarks 35 (by decide)⟩
  rw [hscheme, Url.parse_of_free hfree, Url.parseWithoutFragment_link (by decide)] at h
  split at h
  next => cases h
  next =>
    rw [Url.authorityOf, hquery, htake, Url.parseAuthority,
      cutLast_eq_none_iff.mpr (hmarks 64 (by decide))] at h
    obtain ⟨authority', hauthority, h⟩ := Option.bind_eq_some_iff.mp h
    obtain ⟨host, hhost, rfl⟩ := Option.map_eq_some_iff.mp hauthority
    obtain ⟨path, -, rfl⟩ := Option.map_eq_some_iff.mp h
    exact hhost

/-- **A host and a port that `NewAddress` accepts are not misread**: if the URL made of them is
accepted, it has this port, and its host is that of the same address. -/
theorem eq_of_authority (hascii : unicode.KeepsASCII) (hport : atoi port = some number)
    (haddress : newAddress unicode host number = .ok a)
    (h : Url.parse (ascii "ss://" ++ (host ++ 58 :: port)) = some u) :
    u.port = port ∧ ∀ a', newAddress unicode u.hostname number = .ok a' → a' = a := by
  obtain ⟨bare, bracketed, hbare, hreading⟩ :=
    reading_of_normalizeHost (newAddress_eq_ok haddress).1
  have hmark : ∀ c ∈ ascii "#?/@%[]", c ∉ bare := by
    intro c hc hmem
    have hall : ∀ c ∈ ascii "#?/@%[]", c.val < 0x80 ∧
        ¬((97 ≤ c.val ∧ c.val ≤ 122 ∨ 65 ≤ c.val ∧ c.val ≤ 90 ∨ 48 ≤ c.val ∧ c.val ≤ 57 ∨
          c = 45) ∨ c = 46 ∨ c = 58) := by decide +kernel
    exact (hall c hc).2 (hreading.byte hascii hmem (hall c hc).1)
  have hmark' : ∀ c ∈ ascii "#?/@%[]", c ∉ 58 :: port := by
    intro c hc hmem
    have hall : ∀ c ∈ ascii "#?/@%[]", ¬(Url.isDigit c = true ∨ c = 43 ∨ c = 45) ∧ c ≠ 58 := by
      decide +kernel
    rcases List.mem_cons.mp hmem with hcolon | hmem
    · exact (hall c hc).2 hcolon
    · exact (hall c hc).1 ((atoi_bytes hport).1 c hmem)
  have hsub : ∀ c ∈ ascii "#?/@", c ∈ ascii "#?/@%[]" := by decide +kernel
  cases hbare with
  | plain =>
    have hboth : ∀ c ∈ ascii "#?/@%[]", c ∉ host ++ 58 :: port := fun c hc hmem =>
      (List.mem_append.mp hmem).elim (hmark c hc) (hmark' c hc)
    have hhost := host_of_parse (fun c hc => hboth c (hsub c hc)) h
    obtain ⟨hsame, hdigits, -⟩ :=
      Url.parseHost_plain (hboth 91 (by decide)) (hboth 37 (by decide)) hhost
    have hcut : Url.cutPort (host ++ 58 :: port) = (host, port) := Url.cutPort_append hdigits
    refine ⟨by rw [URL.port, hsame, hcut], fun a' ha' => ?_⟩
    rw [URL.hostname, hsame, hcut, Url.trimBrackets_eq_self (hmark 91 (by decide))] at ha'
    exact Except.ok.inj (ha'.symm.trans haddress)
  | bracketed hne =>
    have hsplit : 91 :: bare ++ [93] ++ 58 :: port = 91 :: bare ++ 93 :: 58 :: port := by simp
    have hboth : ∀ c ∈ ascii "#?/@%[]", c ≠ 93 → c ∉ bare ++ 93 :: 58 :: port := by
      intro c hc hne hmem
      rcases List.mem_append.mp hmem with hmem | hmem
      · exact hmark c hc hmem
      rcases List.mem_cons.mp hmem with hclose | hmem
      · exact hne hclose
      · exact hmark' c hc hmem
    have hmarks : ∀ c ∈ ascii "#?/@", c ∉ 91 :: bare ++ 93 :: 58 :: port := by
      intro c hc hmem
      have hne : ∀ c ∈ ascii "#?/@", c ≠ 91 ∧ c ≠ 93 := by decide +kernel
      rcases List.mem_cons.mp hmem with hopen | hmem
      · exact (hne c hc).1 hopen
      · exact hboth c (hsub c hc) (hne c hc).2 hmem
    rw [hsplit] at h
    obtain ⟨hsame, hdigits, ip, hip⟩ := Url.parseHost_brackets
      (hboth 91 (by decide) (by decide)) (hmark' 93 (by decide)) (hmark 37 (by decide))
      (host_of_parse hmarks h)
    have hcut : Url.cutPort (91 :: bare ++ [93] ++ 58 :: port) = (91 :: bare ++ [93], port) :=
      Url.cutPort_append hdigits
    rw [hsplit] at hcut
    refine ⟨by rw [URL.port, hsame, hcut], fun a' ha' => ?_⟩
    rw [URL.hostname, hsame, hcut, Url.trimBrackets_brackets] at ha'
    have hbracketed : ipValue (91 :: bare ++ [93]) = some ip := by
      rw [(Bare.bracketed hne).ipValue_eq, hip, Option.some_or]
    have hplain : ipValue bare = some ip := by
      have hhead : bare.head? ≠ some 91 := fun hhead =>
        hmark 91 (by decide +kernel) (List.mem_of_mem_head? hhead)
      rw [ipValue, if_neg fun hboth => hhead hboth.1, hip, Option.some_or]
    exact eq_of_ipValue haddress ha' hbracketed hplain

end Authority

/-! ## Legacy links -/

theorem legacyText_concat {method password host front : Bytes} {v : Byte} :
    legacyText method password host (front ++ [v]) =
      method ++ 58 :: (password ++ 64 :: (host ++ 58 :: front)) ++ [v] := by
  simp [legacyText]

/-- The method ends at the first colon, and the password at the first at sign behind it. -/
theorem cut_userinfo {method method' password back userinfo hostport : Bytes}
    (hmethod : 58 ∉ method) (hcut : cut 64 (method ++ 58 :: back) = some (userinfo, hostport))
    (hcut' : cut 58 userinfo = some (method', password)) :
    method' = method ∧ cut 64 back = some (password, hostport) := by
  obtain ⟨htext, huserinfo⟩ := cut_eq_some_iff.mp hcut
  obtain ⟨rfl, hmethod'⟩ := cut_eq_some_iff.mp hcut'
  have hwritten : cut 58 (method ++ 58 :: back) = some (method, back) :=
    cut_eq_some_iff.mpr ⟨rfl, hmethod⟩
  have hread : cut 58 (method ++ 58 :: back) = some (method', password ++ 64 :: hostport) :=
    cut_eq_some_iff.mpr ⟨by rw [htext, List.append_assoc]; rfl, hmethod'⟩
  obtain ⟨rfl, rfl⟩ := Prod.mk.inj (Option.some.inj (hread.symm.trans hwritten))
  refine ⟨rfl, cut_eq_some_iff.mpr ⟨rfl, fun hmem => huserinfo ?_⟩⟩
  exact List.mem_append_right _ (List.mem_cons_of_mem _ hmem)

/-- **When an accepted legacy link means what was written**: the password has no at sign, and the
host and the port are those of an address. -/
theorem legacy_link_iff {unicode : Unicode} (hascii : unicode.KeepsASCII) {e : Base64}
    (he : e ∈ Base64.all) {method password host port : Bytes} (hmethod : 58 ∉ method)
    {input : ParseInput}
    (h : parseShadowsocksURI unicode (legacyLink e method password host port) = .ok input) :
    IsReadAs unicode input.configuration method password host port ↔
      64 ∉ password ∧ ∃ number a, atoi port = some number ∧
        newAddress unicode host number = .ok a := by
  have hparts : ∀ {number : Int}, atoi port = some number → ∃ userinfo hostport,
      cut 64 (legacyText method password host port) = some (userinfo, hostport) ∧
        readShadowsocks unicode userinfo hostport [] = .ok input := by
    intro number hport
    obtain ⟨-, front, v, rfl, hv⟩ := atoi_bytes hport
    have hdigit : ∀ v : Byte, Url.isDigit v = true → v.val % 64 ≠ 63 := by decide +kernel
    rw [legacyLink, legacyText_concat] at h
    rw [legacyText_concat]
    exact parseShadowsocksURI_encode he (hdigit v hv) h
  constructor
  · rintro ⟨hsame, hpassword, number, hport, haddress⟩
    refine ⟨fun hat => ?_, number, _, hport, haddress⟩
    obtain ⟨userinfo, hostport, hcut, hread⟩ := hparts hport
    obtain ⟨password', -, -, hcut', -, -, -, hpassword'⟩ := readShadowsocks_eq_ok hread
    obtain ⟨-, hcut⟩ := cut_userinfo hmethod hcut hcut'
    obtain rfl := Option.some.inj (hpassword.symm.trans hpassword')
    exact (cut_eq_some_iff.mp hcut).2 hat
  · rintro ⟨hat, number, a, hport, haddress⟩
    obtain ⟨userinfo, hostport, hcut, hread⟩ := hparts hport
    obtain ⟨password', u, number', hcut', hparse, hnumber', haddress', hpassword'⟩ :=
      readShadowsocks_eq_ok hread
    obtain ⟨hsame, hcut⟩ := cut_userinfo hmethod hcut hcut'
    rw [cut_eq_some_iff.mpr ⟨rfl, hat⟩] at hcut
    obtain ⟨rfl, rfl⟩ := Prod.mk.inj (Option.some.inj hcut)
    obtain ⟨hsamePort, hsameAddress⟩ := eq_of_authority hascii hport haddress hparse
    rw [hsamePort, hport] at hnumber'
    obtain rfl := Option.some.inj hnumber'
    refine ⟨hsame, hpassword', number, hport, ?_⟩
    rw [hsameAddress _ haddress']
    exact haddress

namespace Sample

open Endpoint.Sample

/-- The input of a legacy link to one host. -/
def legacyInput (password : Bytes) : ParseInput where
  configuration :=
    { protocol := .shadowsocks, address := ⟨ascii "192.0.2.1", 8388, .ipv4⟩,
      credential := { protocol := .shadowsocks, secret := some password },
      transport := newTCPTransport, tls := disabledTLS, method := ascii "aes-256-gcm" }
  name := []

/-- A link is accepted with the half of its password in front of the at sign. -/
theorem legacy_link_misread :
    parseShadowsocksURI kelvin (legacyLink .std (ascii "aes-256-gcm") (ascii "p@ss")
        (ascii "192.0.2.1") (ascii "8388")) = .ok (legacyInput (ascii "p")) ∧
      ¬IsReadAs kelvin (legacyInput (ascii "p")).configuration (ascii "aes-256-gcm")
        (ascii "p@ss") (ascii "192.0.2.1") (ascii "8388") := by
  refine ⟨by decide +kernel, fun h => ?_⟩
  have hpassword : some (ascii "p") = some (ascii "p@ss") := h.password
  exact absurd hpassword (by decide)

/-- A link whose password has no at sign. -/
theorem legacy_link_iff_plain :
    IsReadAs kelvin (legacyInput (ascii "pass")).configuration (ascii "aes-256-gcm")
      (ascii "pass") (ascii "192.0.2.1") (ascii "8388") := by
  have h : parseShadowsocksURI kelvin (legacyLink .rawURL (ascii "aes-256-gcm") (ascii "pass")
      (ascii "192.0.2.1") (ascii "8388")) = .ok (legacyInput (ascii "pass")) := by decide +kernel
  have hhost : newAddress kelvin (ascii "192.0.2.1") 8388 =
      .ok (legacyInput (ascii "pass")).configuration.address := by decide +kernel
  exact (legacy_link_iff kelvin_keepsASCII (by simp [Base64.all]) (by decide) h).mpr
    ⟨by decide, 8388, _, by decide +kernel, hhost⟩

end Sample

end Egressfox.Source
