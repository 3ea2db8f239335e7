import Mathlib.Data.List.Induction
import Maju.Core.Nostr
import Maju.Lib.Decimal
import Maju.Lib.Utf8

/-!
# Qr — the pairing URI and its decoder

The source device shows a `nostrpair://` URI with its public key, the session secret, the relays and
the protocol version.  Relays are percent-encoded, so that none of the delimiters of the query
stands in a value.  The decoder walks over the parameters, where a later `secret` or `v` replaces
an earlier one.

* `encodeQr`, `decodeQr` — as in `maju-core`;
* `decodeQr_uri` — the decoder on a URI of the encoder's form with any version text;
* `qr_codec` — the round trip, and which version parameters an accepted URI can have.
-/

namespace Maju
namespace Core
namespace Pairing

open Lib

abbrev Text := List Char

/-- Data encoded in the QR code; the session secret is 32 bytes. -/
structure QrPayload where
  sourcePubkey : PublicKey
  sessionSecret : BitVec 256
  relays : List Text
  version : Nat
  deriving DecidableEq, Repr

/-- What is read of a parsed URL. -/
structure Url where
  scheme : Text
  hasHost : Bool
  deriving DecidableEq, Repr

/-- `PublicKey::from_hex`, `decode_utf8_lossy` and `url::Url::parse`. -/
structure Libraries where
  fromHex : Text → Option PublicKey
  decodeUtf8Lossy : Bytes → Text
  parseUrl : Text → Option Url

/-- `PairingError::InvalidQr`, by its message. -/
inductive QrError where
  | tooLong (bytes : Nat)
  | badScheme
  | missingQuery
  | pubkeyNotHex (text : Text)
  | invalidPubkey
  | unsupportedVersion (version : Nat)
  | missingSecret
  | secretNotHex (text : Text)
  | zeroSecret
  | noRelay
  | invalidRelay (relay : Text)
  | relayScheme (scheme : Text)
  | relayWithoutHost (relay : Text)
  deriving DecidableEq, Repr

/-! ## Encoding -/

def urlEncode (s : Text) : Text := percentEncode (encode s)

/-- The 64 hexadecimal digits of 32 bytes. -/
def hex64 (x : BitVec 256) : Text := hexDigits 64 x.toNat

/-- The relay parameters, each behind its separator. -/
def relayParams (relays : List Text) : Text :=
  relays.flatMap fun relay => "&relay=".toList ++ urlEncode relay

/-- `encode_qr` with a version text. -/
def uriWith (payload : QrPayload) (version : Text) : Text :=
  "nostrpair://".toList ++ (hex64 payload.sourcePubkey ++ '?' ::
    ("secret=".toList ++ (hex64 payload.sessionSecret ++
      (relayParams payload.relays ++ ("&v=".toList ++ version)))))

def encodeQr (payload : QrPayload) : Text := uriWith payload ['1']

/-! ## Decoding -/

/-- `str::strip_prefix`. -/
def stripPrefix (p s : Text) : Option Text :=
  if p.isPrefixOf s then some (s.drop p.length) else none

/-- `str::split_once`, on a character. -/
def splitOnce (sep : Char) : Text → Option (Text × Text)
  | [] => none
  | c :: rest =>
      if c = sep then some ([], rest) else (splitOnce sep rest).map fun e => (c :: e.1, e.2)

/-- `str::parse::<u32>()`. -/
def parseU32 (text : Text) : Option Nat :=
  let digits := if text.head? = some '+' then text.tail else text
  (parseDigits digits).filter (· < 2 ^ 32)

def isLowercaseHex (c : Char) : Bool := c.isDigit || (decide ('a' ≤ c) && decide (c ≤ 'f'))

/-- What the loop over the parameters has found. -/
structure Params where
  secretHex : Option Text
  relays : List Text
  version : Option Nat
  deriving DecidableEq, Repr

def Params.none : Params where
  secretHex := Option.none
  relays := []
  version := Option.none

variable (lib : Libraries)

def urlDecode (s : Text) : Text := lib.decodeUtf8Lossy (percentDecode s)

def Params.add (params : Params) (pair : Text) : Params :=
  match splitOnce '=' pair with
  | Option.none => params
  | some (key, value) =>
      if key = "secret".toList then { params with secretHex := some value }
      else if key = "relay".toList then { params with relays := params.relays ++ [urlDecode lib value] }
      else if key = "v".toList then { params with version := parseU32 value }
      else params

def checkRelay (relay : Text) : Except QrError Unit :=
  match lib.parseUrl relay with
  | none => .error (.invalidRelay relay)
  | some url =>
      if url.scheme ≠ "wss".toList ∧ url.scheme ≠ "ws".toList then .error (.relayScheme url.scheme)
      else if !url.hasHost then .error (.relayWithoutHost relay)
      else .ok ()

/-- The validation of the relays, in order. -/
def checkRelays : List Text → Except QrError Unit
  | [] => .ok ()
  | relay :: relays =>
      match checkRelay lib relay with
      | .error e => .error e
      | .ok _ => checkRelays relays

/-- The validation of the parameters, for a key that was read. -/
def decodeParams (sourcePubkey : PublicKey) (params : Params) : Except QrError QrPayload :=
  let version := params.version.getD 1
  if version ≠ 1 then .error (.unsupportedVersion version)
  else
    match params.secretHex with
    | none => .error .missingSecret
    | some secret =>
        if secret.length ≠ 64 || !secret.all isLowercaseHex then .error (.secretNotHex secret)
        else
          match (parseHex secret).map (BitVec.ofNat 256) with
          | none => .error (.secretNotHex secret)
          | some sessionSecret =>
              if sessionSecret = 0 then .error .zeroSecret
              else if params.relays.isEmpty then .error .noRelay
              else
                match checkRelays lib params.relays with
                | .error e => .error e
                | .ok _ => .ok ⟨sourcePubkey, sessionSecret, params.relays, version⟩

def parseQuery (query : Text) : Params := (fields '&' query).foldl (Params.add lib) Params.none

def decodeQr (uri : Text) : Except QrError QrPayload :=
  if 2048 < (encode uri).length then .error (.tooLong (encode uri).length)
  else
    match stripPrefix "nostrpair://".toList uri with
    | none => .error .badScheme
    | some rest =>
        match splitOnce '?' rest with
        | none => .error .missingQuery
        | some (pubkeyHex, query) =>
            if pubkeyHex.length ≠ 64 || !pubkeyHex.all isLowercaseHex then
              .error (.pubkeyNotHex pubkeyHex)
            else
              match lib.fromHex pubkeyHex with
              | none => .error .invalidPubkey
              | some sourcePubkey => decodeParams lib sourcePubkey (parseQuery lib query)

/-! ## Cutting the URI -/

theorem stripPrefix_append (p s : Text) : stripPrefix p (p ++ s) = some s := by
  have hprefix : p.isPrefixOf (p ++ s) = true := List.isPrefixOf_iff_prefix.2 (List.prefix_append p s)
  rw [stripPrefix, if_pos hprefix, List.drop_left]

theorem splitOnce_append {sep : Char} {x : Text} (h : sep ∉ x) (y : Text) :
    splitOnce sep (x ++ sep :: y) = some (x, y) := by
  induction x with
  | nil => simp [splitOnce]
  | cons c x ih =>
      have hne : c ≠ sep := fun heq => h (heq ▸ List.mem_cons_self)
      have hx : sep ∉ x := fun hm => h (List.mem_cons_of_mem c hm)
      rw [List.cons_append, splitOnce, if_neg hne, ih hx]
      rfl

theorem not_mem_hex64 {c : Char} (hc : ∀ d < 16, hexDigit d ≠ c) (x : BitVec 256) : c ∉ hex64 x :=
  not_mem_hexDigits hc 64 x.toNat

theorem not_mem_urlEncode {c : Char} (halnum : c.isAlphanum = false) (hc : c ≠ '%') (s : Text) :
    c ∉ urlEncode s :=
  not_mem_percentEncode halnum hc (encode s)

theorem fields_query {x version : Text} (hx : '&' ∉ x) (hversion : '&' ∉ version)
    (relays : List Text) :
    fields '&' (x ++ (relayParams relays ++ ("&v=".toList ++ version))) =
      x :: ((relays.map fun relay => "relay=".toList ++ urlEncode relay) ++
        ["v=".toList ++ version]) := by
  induction relays generalizing x with
  | nil =>
      have hlast : '&' ∉ "v=".toList ++ version := by simp [hversion]
      have hcut := fields_append hx ("v=".toList ++ version)
      rw [fields_of_not_mem hlast] at hcut
      exact hcut
  | cons relay relays ih =>
      have hnext : '&' ∉ "relay=".toList ++ urlEncode relay := by
        simp [not_mem_urlEncode (c := '&') (by decide) (by decide) relay]
      have hcut := fields_append hx (("relay=".toList ++ urlEncode relay) ++
        (relayParams relays ++ ("&v=".toList ++ version)))
      rw [ih hnext] at hcut
      simpa [relayParams] using hcut

/-! ## Reading the parameters -/

section Read

variable {lib}

theorem urlDecode_urlEncode (hlossy : ∀ s, lib.decodeUtf8Lossy (encode s) = s) (s : Text) :
    urlDecode lib (urlEncode s) = s := by
  rw [urlDecode, urlEncode, percentDecode_percentEncode, hlossy]

theorem add_secret (params : Params) (value : Text) :
    params.add lib ("secret=".toList ++ value) = { params with secretHex := some value } := by
  have hcut : splitOnce '=' ("secret=".toList ++ value) = some ("secret".toList, value) :=
    splitOnce_append (x := "secret".toList) (by decide) value
  rw [Params.add, hcut]
  rfl

theorem add_relay (params : Params) (value : Text) :
    params.add lib ("relay=".toList ++ value) =
      { params with relays := params.relays ++ [urlDecode lib value] } := by
  have hcut : splitOnce '=' ("relay=".toList ++ value) = some ("relay".toList, value) :=
    splitOnce_append (x := "relay".toList) (by decide) value
  rw [Params.add, hcut]
  rfl

theorem add_version (params : Params) (value : Text) :
    params.add lib ("v=".toList ++ value) = { params with version := parseU32 value } := by
  have hcut : splitOnce '=' ("v=".toList ++ value) = some ("v".toList, value) :=
    splitOnce_append (x := "v".toList) (by decide) value
  rw [Params.add, hcut]
  rfl

theorem foldl_add_relays (hlossy : ∀ s, lib.decodeUtf8Lossy (encode s) = s) (relays : List Text)
    (params : Params) :
    (relays.map fun relay => "relay=".toList ++ urlEncode relay).foldl (Params.add lib) params =
      { params with relays := params.relays ++ relays } := by
  induction relays generalizing params with
  | nil => simp
  | cons relay relays ih =>
      rw [List.map_cons, List.foldl_cons, add_relay, ih, urlDecode_urlEncode hlossy]
      simp

theorem parseQuery_uri (hlossy : ∀ s, lib.decodeUtf8Lossy (encode s) = s) (secret : BitVec 256)
    (relays : List Text) {version : Text} (hversion : '&' ∉ version) :
    parseQuery lib ("secret=".toList ++ (hex64 secret ++
        (relayParams relays ++ ("&v=".toList ++ version)))) =
      ⟨some (hex64 secret), relays, parseU32 version⟩ := by
  have hfirst : '&' ∉ "secret=".toList ++ hex64 secret := by
    simp [not_mem_hex64 (c := '&') (by decide) secret]
  rw [parseQuery, ← List.append_assoc, fields_query hfirst hversion, List.foldl_cons, add_secret,
    List.foldl_append, foldl_add_relays hlossy, List.foldl_cons, add_version, List.foldl_nil]
  rfl

end Read

/-! ## The codec -/

def GoodRelay (relay : Text) : Prop :=
  ∃ url, lib.parseUrl relay = some url ∧ (url.scheme = "wss".toList ∨ url.scheme = "ws".toList) ∧
    url.hasHost = true

/-- What a payload needs to be encoded and read back. -/
structure QrPayload.Good (p : QrPayload) : Prop where
  version : p.version = 1
  secret : p.sessionSecret ≠ 0
  relays : p.relays ≠ []
  urls : ∀ relay ∈ p.relays, GoodRelay lib relay
  key : lib.fromHex (hex64 p.sourcePubkey) = some p.sourcePubkey

variable {lib}

theorem checkRelays_eq_ok {relays : List Text} (h : ∀ relay ∈ relays, GoodRelay lib relay) :
    checkRelays lib relays = .ok () := by
  induction relays with
  | nil => rfl
  | cons relay relays ih =>
      obtain ⟨url, hurl, hscheme, hhost⟩ := h relay List.mem_cons_self
      have hok : checkRelay lib relay = .ok () := by
        rw [checkRelay, hurl]
        dsimp only
        rw [if_neg, if_neg (by simp [hhost])]
        rintro ⟨hwss, hws⟩
        rcases hscheme with heq | heq
        · exact hwss heq
        · exact hws heq
      rw [checkRelays, hok]
      exact ih fun r hr => h r (List.mem_cons_of_mem _ hr)

theorem hex64_lowercase (x : BitVec 256) :
    ((hex64 x).length ≠ 64 || !(hex64 x).all isLowercaseHex) = false := by
  have hall : (hex64 x).all isLowercaseHex = true := all_hexDigits (by decide) 64 x.toNat
  rw [hall]
  simp [hex64]

theorem parseHex_hex64 (x : BitVec 256) : (parseHex (hex64 x)).map (BitVec.ofNat 256) = some x := by
  have hlt : x.toNat < 16 ^ 64 := lt_of_lt_of_eq x.isLt (by decide)
  rw [hex64, parseHex_hexDigits hlt]
  simp

theorem decodeQr_of {uri rest pubkeyHex query : Text} {key : PublicKey}
    (hlength : (encode uri).length ≤ 2048)
    (hstrip : stripPrefix "nostrpair://".toList uri = some rest)
    (hsplit : splitOnce '?' rest = some (pubkeyHex, query))
    (hhex : (pubkeyHex.length ≠ 64 || !pubkeyHex.all isLowercaseHex) = false)
    (hkey : lib.fromHex pubkeyHex = some key) :
    decodeQr lib uri = decodeParams lib key (parseQuery lib query) := by
  simp only [decodeQr, if_neg (Nat.not_lt.2 hlength), hstrip, hsplit, hhex, hkey,
    Bool.false_eq_true, if_false]

theorem decodeParams_of {params : Params} {secret : Text} {sessionSecret : BitVec 256}
    (key : PublicKey) (hversion : params.version.getD 1 = 1)
    (hsecret : params.secretHex = some secret)
    (hhex : (secret.length ≠ 64 || !secret.all isLowercaseHex) = false)
    (hparse : (parseHex secret).map (BitVec.ofNat 256) = some sessionSecret)
    (hzero : sessionSecret ≠ 0) (hrelays : params.relays ≠ [])
    (hgood : ∀ relay ∈ params.relays, GoodRelay lib relay) :
    decodeParams lib key params = .ok ⟨key, sessionSecret, params.relays, 1⟩ := by
  have hempty : params.relays.isEmpty = false := by simpa using hrelays
  simp only [decodeParams, hversion, hsecret, hhex, hparse, hzero, hempty,
    checkRelays_eq_ok hgood, ne_eq, not_true_eq_false, Bool.false_eq_true, if_false]

/-- The decoder takes a URI of the encoder's form if the version text is a one or no number. -/
theorem decodeQr_uri (hlossy : ∀ s, lib.decodeUtf8Lossy (encode s) = s) {p : QrPayload}
    (hp : p.Good lib) {version : Text} (hamp : '&' ∉ version)
    (hversion : (parseU32 version).getD 1 = 1)
    (hlength : (encode (uriWith p version)).length ≤ 2048) :
    decodeQr lib (uriWith p version) = .ok p := by
  have hsplit := splitOnce_append (not_mem_hex64 (c := '?') (by decide) p.sourcePubkey)
    ("secret=".toList ++ (hex64 p.sessionSecret ++
      (relayParams p.relays ++ ("&v=".toList ++ version))))
  have hparams : decodeParams lib p.sourcePubkey
      ⟨some (hex64 p.sessionSecret), p.relays, parseU32 version⟩ =
        .ok ⟨p.sourcePubkey, p.sessionSecret, p.relays, 1⟩ :=
    decodeParams_of p.sourcePubkey hversion rfl (hex64_lowercase p.sessionSecret)
      (parseHex_hex64 p.sessionSecret) hp.secret hp.relays hp.urls
  rw [decodeQr_of hlength (stripPrefix_append _ _) hsplit (hex64_lowercase p.sourcePubkey) hp.key,
    parseQuery_uri hlossy p.sessionSecret p.relays hamp, hparams, ← hp.version]

/-! ## Version parameters -/

/-- The value of a `v` parameter. -/
def versionValue (pair : Text) : Option Text :=
  match splitOnce '=' pair with
  | none => none
  | some (key, value) => if key = "v".toList then some value else none

/-- The values of the `v` parameters of a URI, in order. -/
def versionParams (uri : Text) : List Text :=
  match (stripPrefix "nostrpair://".toList uri).bind (splitOnce '?') with
  | none => []
  | some (_, query) => (fields '&' query).filterMap versionValue

def DenotesOne (value : Text) : Prop := parseU32 value = some 1

instance (value : Text) : Decidable (DenotesOne value) := inferInstanceAs (Decidable (_ = _))

theorem version_add (params : Params) (pair : Text) :
    (params.add lib pair).version =
      match versionValue pair with
      | none => params.version
      | some value => parseU32 value := by
  unfold Params.add versionValue
  cases splitOnce '=' pair with
  | none => rfl
  | some e =>
      obtain ⟨key, value⟩ := e
      dsimp only
      by_cases hv : key = "v".toList
      · have hsecret : key ≠ "secret".toList := by
          rw [hv]
          decide
        have hrelay : key ≠ "relay".toList := by
          rw [hv]
          decide
        rw [if_neg hsecret, if_neg hrelay, if_pos hv, if_pos hv]
      · rw [if_neg hv, if_neg hv]
        split
        · rfl
        · split <;> rfl

theorem version_foldl (pairs : List Text) (params : Params) :
    (pairs.foldl (Params.add lib) params).version =
      match (pairs.filterMap versionValue).getLast? with
      | none => params.version
      | some value => parseU32 value := by
  induction pairs using List.reverseRecOn with
  | nil => rfl
  | append_singleton pairs pair ih =>
      rw [List.foldl_append, List.foldl_cons, List.foldl_nil, version_add, ih,
        List.filterMap_append]
      cases hv : versionValue pair with
      | none => simp [hv]
      | some value => simp [hv]

theorem version_of_accepted {uri : Text} {p : QrPayload} (h : decodeQr lib uri = .ok p) :
    ∀ value, (versionParams uri).getLast? = some value → (parseU32 value).getD 1 = 1 := by
  intro value hlast
  unfold decodeQr at h
  split at h
  · cases h
  · unfold versionParams at hlast
    cases hstrip : stripPrefix "nostrpair://".toList uri with
    | none =>
        rw [hstrip] at h
        cases h
    | some rest =>
        simp only [hstrip, Option.bind_some] at h hlast
        cases hsplit : splitOnce '?' rest with
        | none =>
            rw [hsplit] at h
            cases h
        | some e =>
            obtain ⟨pubkeyHex, query⟩ := e
            simp only [hsplit] at h hlast
            split at h
            · cases h
            · split at h
              · cases h
              · next key _ =>
                  have hversion : (parseQuery lib query).version = parseU32 value := by
                    rw [parseQuery, version_foldl, hlast]
                  unfold decodeParams at h
                  dsimp only at h
                  split at h
                  · cases h
                  · next hone =>
                      rw [hversion] at hone
                      simpa using hone

/-- For every well-formed payload the decoder reads back what the encoder wrote.  In a URI that
the decoder accepts, every `v` parameter denotes version 1 exactly if those before the last one do
and the last one is a number. -/
theorem qr_codec (lib : Libraries) (hlossy : ∀ s, lib.decodeUtf8Lossy (encode s) = s) :
    (∀ p : QrPayload, p.Good lib → (encode (encodeQr p)).length ≤ 2048 →
      decodeQr lib (encodeQr p) = .ok p) ∧
    ∀ (uri : Text) (p : QrPayload), decodeQr lib uri = .ok p →
      ((∀ value ∈ versionParams uri, DenotesOne value) ↔
        (∀ value ∈ (versionParams uri).dropLast, DenotesOne value) ∧
          ∀ value, (versionParams uri).getLast? = some value → (parseU32 value).isSome = true) := by
  refine ⟨fun p hp hlength => decodeQr_uri hlossy hp (by decide) (by decide) hlength, ?_⟩
  intro uri p haccepted
  have hlast := version_of_accepted haccepted
  constructor
  · intro hall
    refine ⟨fun value hmem => hall value (List.dropLast_subset _ hmem), ?_⟩
    intro value hvalue
    have hone : DenotesOne value := hall value (List.mem_of_getLast? hvalue)
    rw [hone]
    rfl
  · rintro ⟨hbefore, hnumber⟩ value hmem
    rcases List.eq_nil_or_concat (versionParams uri) with hnil | ⟨front, last, hfront⟩
    · rw [hnil] at hmem
      cases hmem
    · have hget : (versionParams uri).getLast? = some last := by simp [hfront]
      rw [hfront, List.concat_eq_append] at hmem hbefore
      rw [List.dropLast_concat] at hbefore
      rcases List.mem_append.1 hmem with hmem | hmem
      · exact hbefore value hmem
      · rw [List.mem_singleton.1 hmem]
        obtain ⟨n, hn⟩ := Option.isSome_iff_exists.1 (hnumber last hget)
        have hone := hlast last hget
        rw [hn, Option.getD_some] at hone
        rw [DenotesOne, hn, hone]

/-! ## A URI of a later version -/

/-- Libraries that know one relay; a byte string that is no UTF-8 decodes to a replacement. -/
def sampleLibraries : Libraries where
  fromHex := fun text => (parseHex text).map (BitVec.ofNat 256)
  decodeUtf8Lossy := fun bytes =>
    if h : bytes.toByteArray.IsValidUTF8 then (String.ofByteArray bytes.toByteArray h).toList
    else ['\uFFFD']
  parseUrl := fun text => if text = "wss://r".toList then some ⟨"wss".toList, true⟩ else none

theorem lossy_sampleLibraries (s : Text) : sampleLibraries.decodeUtf8Lossy (encode s) = s := by
  have hbytes : (encode s).toByteArray = (String.ofList s).toByteArray := by simp [encode, List.utf8Encode]
  have hvalid : (encode s).toByteArray.IsValidUTF8 := hbytes ▸ (String.ofList s).isValidUTF8
  have hstring : String.ofByteArray (encode s).toByteArray hvalid = String.ofList s :=
    String.toByteArray_inj.1 hbytes
  change (if h : (encode s).toByteArray.IsValidUTF8 then
    (String.ofByteArray (encode s).toByteArray h).toList else ['\uFFFD']) = s
  rw [dif_pos hvalid, hstring, String.toList_ofList]

def samplePayload : QrPayload where
  sourcePubkey := 1
  sessionSecret := 1
  relays := ["wss://r".toList]
  version := 1

theorem good_samplePayload : samplePayload.Good sampleLibraries where
  version := rfl
  secret := by decide
  relays := by decide
  urls := by
    intro relay hrelay
    rw [List.mem_singleton.1 hrelay]
    exact ⟨⟨"wss".toList, true⟩, rfl, Or.inl rfl, rfl⟩
  key := by decide

theorem qr_codec_sample : decodeQr sampleLibraries (encodeQr samplePayload) = .ok samplePayload :=
  (qr_codec sampleLibraries lossy_sampleLibraries).1 samplePayload good_samplePayload
    (by decide +kernel)

/-- A version that does not fit 32 bits is taken for an absent one. -/
theorem later_version_accepted :
    decodeQr sampleLibraries (uriWith samplePayload "4294967296".toList) = .ok samplePayload ∧
      versionParams (uriWith samplePayload "4294967296".toList) = ["4294967296".toList] ∧
      ¬ DenotesOne "4294967296".toList :=
  ⟨decodeQr_uri lossy_sampleLibraries good_samplePayload (by decide) (by decide)
    (by decide +kernel), by decide +kernel, by decide +kernel⟩

end Pairing
end Core
end Maju
