import Egressfox.Endpoint.Injective
import Egressfox.Lib.Base64
import Egressfox.Source.SingBox

/-!
# VMess links

`parseVMessURI` and `decodeShareBase64` of `internal/source/protocols.go`, with
`boundedJSONDepth` and `parseBool` of `internal/source/parse.go`.

The payload of a link is a JSON object in one of four base64 encodings, which are tried in turn.
All that can read a text read it as the same bytes, so the order does not matter
(`decodeShareBase64_encode`).  The check for URI characters in front of the decoding does
matter: a slash is a digit of the standard alphabet (`spelling_iff`).

What `json.Unmarshal` makes of the bytes is a parameter.
-/

namespace Egressfox.Source

open Lib Endpoint

/-! ## Payloads -/

/-- A raw value of the payload, as `json.Unmarshal` stores it in a string or a `json.Number`. -/
inductive RawField where
  | string (text : Bytes)
  | number (literal : Bytes)
  | null
  | other
deriving DecidableEq, Repr

/-- `json.Unmarshal` of a payload into a map of raw values. -/
abbrev PayloadReader := Bytes → Option (List (String × RawField))

/-- The loop of `boundedJSONDepth`. -/
def boundedJSONDepthFrom (max : Int) : Int → Bool → Bool → Bytes → Bool
  | depth, quoted, _, [] => depth = 0 && !quoted
  | depth, true, true, _ :: rest => boundedJSONDepthFrom max depth true false rest
  | depth, true, false, ch :: rest =>
    if ch = 92 then boundedJSONDepthFrom max depth true true rest
    else boundedJSONDepthFrom max depth (ch ≠ 34) false rest
  | depth, false, escaped, ch :: rest =>
    if ch = 34 then boundedJSONDepthFrom max depth true escaped rest
    else if ch = 91 || ch = 123 then
      if depth + 1 > max then false else boundedJSONDepthFrom max (depth + 1) false escaped rest
    else if ch = 93 || ch = 125 then
      if depth - 1 < 0 then false else boundedJSONDepthFrom max (depth - 1) false escaped rest
    else boundedJSONDepthFrom max depth false escaped rest

/-- `boundedJSONDepth`. -/
def boundedJSONDepth (data : Bytes) (max : Int) : Bool :=
  boundedJSONDepthFrom max 0 false false data

/-- `decodeShareBase64`. -/
def decodeShareBase64 (value : Bytes) : Option Bytes :=
  Base64.all.findSome? fun encoding =>
    (encoding.decode value).filter fun decoded => decoded.length ≤ 16384

/-- `parseBool`. -/
def parseBool (value : Bytes) : Option Bool :=
  if value = [] || value = ascii "0" || value = ascii "false" then some false
  else if value = ascii "1" || value = ascii "true" then some true
  else none

/-- The fields of a payload. -/
def vmessKeys : List String :=
  ["v", "ps", "add", "port", "id", "aid", "net", "type", "host", "path", "tls", "sni", "scy", "fp",
    "alpn", "allowInsecure"]

/-- The function `get`: a string, or the literal of a number. -/
def vmessValue (fields : List (String × RawField)) (key : String) : Option Bytes :=
  match (fields.reverse.find? fun field => field.1 = key).map Prod.snd with
  | none | some .null => some []
  | some (.string text) => some text
  | some (.number literal) => some literal
  | some .other => none

/-- The switch over the network. -/
def vmessTransport (unicode : Unicode) (net path host : Bytes) : Except Diagnostic Transport :=
  if net = ascii "tcp" then
    if path ≠ [] || host ≠ [] then unsupported "vmess_transport_option" else .ok newTCPTransport
  else if net = ascii "ws" then
    orElse (newWebSocketTransportWithHost unicode path host) (invalidInput "invalid_transport")
  else unsupported "unsupported_transport"

/-- The switch over the security. -/
def vmessTLS (unicode : Unicode) (tls sni allowInsecure : Bytes) : Except Diagnostic TLSConfig :=
  if tls = [] then
    if sni ≠ [] || allowInsecure ≠ [] then unsupported "tls_option_without_tls"
    else .ok disabledTLS
  else if tls = ascii "tls" then do
    let insecure ← orFail (parseBool allowInsecure) (malformed "invalid_boolean")
    orElse (newTLS unicode sni insecure) (invalidInput "invalid_tls")
  else unsupported "unsupported_security"

/-- The part of `parseVMessURI` behind the decoding. -/
def readVMess (unicode : Unicode) (fields : List (String × RawField)) :
    Except Diagnostic ParseInput :=
  let value (key : String) : Bytes := (vmessValue fields key).getD []
  if !fields.all fun field => field.1 ∈ vmessKeys then unsupported "vmess_unknown_field"
  else if !vmessKeys.all fun key => (vmessValue fields key).isSome then
    malformed "vmess_field_type"
  else if value "v" ≠ [] && value "v" ≠ ascii "2" then unsupported "vmess_version"
  else if value "aid" ≠ [] && value "aid" ≠ ascii "0" then unsupported "vmess_alter_id"
  else if value "type" ≠ [] && value "type" ≠ ascii "none" || value "fp" ≠ [] ||
      value "alpn" ≠ [] then
    unsupported "vmess_option"
  else do
    let port ← orFail (atoi (value "port")) (malformed "invalid_port")
    let address ← orElse (newAddress unicode (value "add") port) (invalidInput "invalid_address")
    let credential ← orElse (newVMessCredential (value "id")) (invalidInput "invalid_credential")
    let transport ← vmessTransport unicode (valueOr (value "net") (ascii "tcp")) (value "path")
      (value "host")
    let tls ← vmessTLS unicode (value "tls") (value "sni") (value "allowInsecure")
    let configuration ← orElse
      (newVMessConfiguration address credential transport tls
        (valueOr (value "scy") (ascii "auto")))
      (unsupported "vmess_security")
    return ⟨configuration, value "ps"⟩

/-- The decoding of a payload, and what follows it. -/
def readPayload (unicode : Unicode) (reader : PayloadReader) (decoded : Bytes) :
    Except Diagnostic ParseInput :=
  if !boundedJSONDepth decoded 8 then malformed "invalid_vmess_payload"
  else
    match reader decoded with
    | none => malformed "invalid_vmess_payload"
    | some fields => readVMess unicode fields

/-- The scheme of a link. -/
def vmessScheme : Bytes := ascii "vmess://"

/-- `parseVMessURI`. -/
def parseVMessURI (unicode : Unicode) (reader : PayloadReader) (raw : Bytes) :
    Except Diagnostic ParseInput :=
  let encoded := if vmessScheme.isPrefixOf raw then raw.drop vmessScheme.length else raw
  if containsAny encoded (ascii "?#/") then unsupported "vmess_uri_variant"
  else
    match decodeShareBase64 encoded with
    | none => malformed "invalid_vmess_payload"
    | some decoded => readPayload unicode reader decoded

/-! ## Decoding -/

/-- **Every spelling of a payload is decoded to it.** -/
theorem decodeShareBase64_encode {e : Base64} (he : e ∈ Base64.all) {payload : Bytes}
    (hlength : payload.length ≤ 16384) : decodeShareBase64 (e.encode payload) = some payload := by
  have hstandard : ∀ {f : Base64}, f ∈ Base64.all → f.Standard := Base64.standard_of_mem_all
  cases hfind : decodeShareBase64 (e.encode payload) with
  | none =>
    have hown := List.findSome?_eq_none_iff.mp hfind e he
    rw [Base64.decode_encode (hstandard he), Option.filter_some,
      if_pos (decide_eq_true hlength)] at hown
    cases hown
  | some decoded =>
    obtain ⟨f, hf, hdecode⟩ := List.exists_of_findSome?_eq_some hfind
    rw [Option.filter_eq_some_iff] at hdecode
    rw [Base64.eq_of_decode (hstandard he) (hstandard hf) (Base64.agree_of_mem_all he hf) hdecode.1]

/-- The only URI character of an encoding is the slash of the standard alphabet. -/
theorem containsAny_encode {e : Base64} (he : e ∈ Base64.all) (payload : Bytes) :
    containsAny (e.encode payload) (ascii "?#/") = true ↔
      e.alphabet = base64Std ∧ 47 ∈ encodeDigits 6 base64Std payload := by
  have halphabet := Base64.standard_of_mem_all he
  have hmarks : ascii "?#/" = [63, 35, 47] := by decide
  have hstd : 63 ∉ base64Std ∧ 35 ∉ base64Std := by decide +kernel
  have hurl : 63 ∉ base64URL ∧ 35 ∉ base64URL ∧ 47 ∉ base64URL := by decide +kernel
  have hmem : ∀ c : Byte, c ≠ 61 →
      (c ∈ e.encode payload ↔ c ∈ encodeDigits 6 e.alphabet payload) := by
    intro c hc
    unfold Base64.encode
    dsimp only
    split_ifs
    · rw [List.mem_append, or_iff_left]
      intro hpad
      exact hc (List.eq_of_mem_replicate hpad)
    · exact Iff.rfl
  have hcontains : containsAny (e.encode payload) (ascii "?#/") = true ↔
      63 ∈ e.encode payload ∨ 35 ∈ e.encode payload ∨ 47 ∈ e.encode payload := by
    rw [containsAny, List.any_eq_true, hmarks]
    simp only [decide_eq_true_eq, List.mem_cons, List.not_mem_nil, or_false]
    constructor
    · rintro ⟨c, hc, rfl | rfl | rfl⟩
      · exact .inl hc
      · exact .inr (.inl hc)
      · exact .inr (.inr hc)
    · rintro (hc | hc | hc)
      · exact ⟨63, hc, .inl rfl⟩
      · exact ⟨35, hc, .inr (.inl rfl)⟩
      · exact ⟨47, hc, .inr (.inr rfl)⟩
  rw [hcontains, hmem 63 (by decide), hmem 35 (by decide), hmem 47 (by decide)]
  have hdigit : ∀ c : Byte, c ∈ encodeDigits 6 e.alphabet payload → c ∈ e.alphabet := fun c hc =>
    mem_of_mem_encodeDigits halphabet.alphabet hc
  rcases Base64.alphabet_of_mem_all he with hsame | hsame
  · rw [hsame] at hdigit ⊢
    constructor
    · rintro (hc | hc | hc)
      · exact absurd (hdigit 63 hc) hstd.1
      · exact absurd (hdigit 35 hc) hstd.2
      · exact ⟨rfl, hc⟩
    · rintro ⟨-, hc⟩
      exact .inr (.inr hc)
  · have hne : base64URL ≠ base64Std := by decide +kernel
    rw [hsame] at hdigit ⊢
    constructor
    · rintro (hc | hc | hc)
      · exact absurd (hdigit 63 hc) hurl.1
      · exact absurd (hdigit 35 hc) hurl.2.1
      · exact absurd (hdigit 47 hc) hurl.2.2
    · rintro ⟨hc, -⟩
      exact absurd hc hne

/-! ## Diagnostics -/

/-- A result that is not the diagnostic of a link with URI characters. -/
def NotVariant {α : Type} (result : Except Diagnostic α) : Prop :=
  ∀ d, result = .error d → d.code ≠ "vmess_uri_variant"

section NotVariant

variable {ε α β : Type}

theorem notVariant_ok (value : α) : NotVariant (.ok value : Except Diagnostic α) := by
  rintro d ⟨⟩

theorem notVariant_error {d : Diagnostic} (h : d.code ≠ "vmess_uri_variant") :
    NotVariant (.error d : Except Diagnostic α) := by
  rintro d' ⟨⟩
  exact h

theorem NotVariant.bind {result : Except Diagnostic α} {next : α → Except Diagnostic β}
    (h : NotVariant result) (hnext : ∀ value, NotVariant (next value)) :
    NotVariant (result >>= next) := by
  cases result with
  | ok value => exact hnext value
  | error d => exact notVariant_error (h d rfl)

theorem NotVariant.ite {p : Prop} [Decidable p] {left right : Except Diagnostic α}
    (hleft : NotVariant left) (hright : NotVariant right) :
    NotVariant (if p then left else right) := by
  split_ifs
  · exact hleft
  · exact hright

theorem notVariant_orElse {result : Except ε α} {diagnostic : Except Diagnostic α}
    (h : NotVariant diagnostic) : NotVariant (orElse result diagnostic) := by
  cases result with
  | ok value => exact notVariant_ok value
  | error e => exact h

theorem notVariant_orFail {result : Option α} {diagnostic : Except Diagnostic α}
    (h : NotVariant diagnostic) : NotVariant (orFail result diagnostic) := by
  cases result with
  | some value => exact notVariant_ok value
  | none => exact h

theorem notVariant_vmessTransport (unicode : Unicode) (net path host : Bytes) :
    NotVariant (vmessTransport unicode net path host) := by
  refine .ite (.ite (notVariant_error (by decide)) (notVariant_ok _)) (.ite ?_ ?_)
  · exact notVariant_orElse (notVariant_error (by decide))
  · exact notVariant_error (by decide)

theorem notVariant_vmessTLS (unicode : Unicode) (tls sni allowInsecure : Bytes) :
    NotVariant (vmessTLS unicode tls sni allowInsecure) := by
  refine .ite (.ite (notVariant_error (by decide)) (notVariant_ok _)) (.ite (.bind ?_ ?_) ?_)
  · exact notVariant_orFail (notVariant_error (by decide))
  · exact fun insecure => notVariant_orElse (notVariant_error (by decide))
  · exact notVariant_error (by decide)

/-- A payload that was decoded gives no such diagnostic. -/
theorem notVariant_readPayload (unicode : Unicode) (reader : PayloadReader) (decoded : Bytes) :
    NotVariant (readPayload unicode reader decoded) := by
  unfold readPayload
  refine .ite (notVariant_error (by decide)) ?_
  split
  · exact notVariant_error (by decide)
  · refine .ite (notVariant_error (by decide)) (.ite (notVariant_error (by decide))
      (.ite (notVariant_error (by decide)) (.ite (notVariant_error (by decide))
        (.ite (notVariant_error (by decide)) ?_))))
    refine .bind (notVariant_orFail (notVariant_error (by decide))) fun port => ?_
    refine .bind (notVariant_orElse (notVariant_error (by decide))) fun address => ?_
    refine .bind (notVariant_orElse (notVariant_error (by decide))) fun credential => ?_
    refine .bind (notVariant_vmessTransport _ _ _ _) fun transport => ?_
    refine .bind (notVariant_vmessTLS _ _ _ _) fun tls => ?_
    exact .bind (notVariant_orElse (notVariant_error (by decide))) fun _ => notVariant_ok _

end NotVariant

/-! ## Spellings -/

/-- The outcome of a link: that of its payload, unless the spelling has a slash. -/
theorem parseVMessURI_encode (unicode : Unicode) (reader : PayloadReader) {e : Base64}
    (he : e ∈ Base64.all) {payload : Bytes} (hlength : payload.length ≤ 16384) :
    parseVMessURI unicode reader (vmessScheme ++ e.encode payload) =
      if e.alphabet = base64Std ∧ 47 ∈ encodeDigits 6 base64Std payload then
        unsupported "vmess_uri_variant"
      else readPayload unicode reader payload := by
  have hscheme : (if vmessScheme.isPrefixOf (vmessScheme ++ e.encode payload) then
      (vmessScheme ++ e.encode payload).drop vmessScheme.length
      else vmessScheme ++ e.encode payload) = e.encode payload := by
    rw [if_pos, List.drop_left]
    rw [List.isPrefixOf_iff_prefix]
    exact List.prefix_append _ _
  unfold parseVMessURI
  rw [hscheme]
  dsimp only
  by_cases hslash : e.alphabet = base64Std ∧ 47 ∈ encodeDigits 6 base64Std payload
  · rw [if_pos hslash, if_pos ((containsAny_encode he payload).mpr hslash)]
  · rw [if_neg hslash, if_neg (mt (containsAny_encode he payload).mp hslash),
      decodeShareBase64_encode he hlength]

/-- **When two spellings of a link mean the same**: they are in one alphabet, or the payload has
no digit that is written as a slash. -/
theorem spelling_iff (unicode : Unicode) (reader : PayloadReader) {e f : Base64}
    (he : e ∈ Base64.all) (hf : f ∈ Base64.all) {payload : Bytes}
    (hlength : payload.length ≤ 16384) :
    parseVMessURI unicode reader (vmessScheme ++ e.encode payload) =
        parseVMessURI unicode reader (vmessScheme ++ f.encode payload) ↔
      e.alphabet = f.alphabet ∨ 47 ∉ encodeDigits 6 base64Std payload := by
  have hvariant : readPayload unicode reader payload ≠ unsupported "vmess_uri_variant" :=
    fun h => notVariant_readPayload unicode reader payload _ h rfl
  rw [parseVMessURI_encode unicode reader he hlength,
    parseVMessURI_encode unicode reader hf hlength]
  by_cases hslash : 47 ∈ encodeDigits 6 base64Std payload
  · have hne : base64URL ≠ base64Std := by decide +kernel
    simp only [hslash, and_true, not_true_eq_false, or_false]
    rcases Base64.alphabet_of_mem_all he with h | h <;>
      rcases Base64.alphabet_of_mem_all hf with h' | h'
    · simp [h, h']
    · rw [h, h', if_pos rfl, if_neg hne]
      exact ⟨fun heq => absurd heq.symm hvariant, fun heq => absurd heq.symm hne⟩
    · rw [h, h', if_pos rfl, if_neg hne]
      exact ⟨fun heq => absurd heq hvariant, fun heq => absurd heq hne⟩
    · simp [h, h']
  · simp [hslash]

namespace Sample

open Endpoint.Sample

/-- A payload whose name is three question marks. -/
def vmessPayload : Bytes :=
  ascii "\x7b\"add\":\"192.0.2.1\",\"port\":443," ++
    ascii "\"id\":\"11111111-1111-1111-1111-111111111111\",\"ps\":\"???\"\x7d"

/-- The fields of this payload. -/
def vmessReader : PayloadReader := fun payload =>
  if payload = vmessPayload then
    some [("add", .string (ascii "192.0.2.1")), ("port", .number (ascii "443")),
      ("id", .string (ascii "11111111-1111-1111-1111-111111111111")),
      ("ps", .string (ascii "???"))]
  else none

/-- The link is accepted in the URL alphabet and rejected in the standard one. -/
theorem spelling_rejected :
    (parseVMessURI unicode vmessReader (vmessScheme ++ Base64.url.encode vmessPayload)).isOk =
      true ∧
    parseVMessURI unicode vmessReader (vmessScheme ++ Base64.std.encode vmessPayload) =
      unsupported "vmess_uri_variant" := by
  decide +kernel

/-- A payload that needs no slash has one outcome in both padded alphabets. -/
theorem spelling_iff_plain :
    parseVMessURI unicode vmessReader (vmessScheme ++ Base64.url.encode (ascii "a>")) =
      parseVMessURI unicode vmessReader (vmessScheme ++ Base64.std.encode (ascii "a>")) :=
  (spelling_iff unicode vmessReader (by simp [Base64.all]) (by simp [Base64.all])
    (by decide)).mpr (.inr (by decide +kernel))

end Sample

end Egressfox.Source
