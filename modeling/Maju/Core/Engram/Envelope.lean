import Maju.Core.Engram.Body
import Maju.Core.Engram.Head

/-!
# Envelope — an engram as a signed event

A body is encrypted between the agent and its owner, and the event that carries it names the owner
in a `p` tag and the slug, hidden by a keyed hash, in a `d` tag.  Whoever holds one of the two key
pairs reads it.

* `Crypto` — the cryptography and the event builder of the library, as parameters;
* `buildEvent`, `validateAndDecrypt` — the writer and the reader;
* `Crypto.Ideal` — what the library promises: the builder drops a `p` tag that names the signer;
* `engram_round_trip` — when a body comes back.
-/

namespace Maju
namespace Core
namespace Engram

open Lib

abbrev SecretKey := BitVec 256

def kindAgentEngram : Kind := 30174

def dTagDomain : Bytes := encode "agent-memory/v1/d-tag".toList

def nip44PlaintextMax : Nat := 65535

/-- `EventBuilder`, before it is signed. -/
structure EventBuilder where
  kind : Kind
  content : Text
  tags : List Tag
  allowSelfTagging : Bool
  createdAt : Timestamp
  deriving DecidableEq, Repr

/-- `EventBuilder::new` with tags and a time. -/
def EventBuilder.new (kind : Kind) (content : Text) (tags : List Tag) (createdAt : Timestamp) :
    EventBuilder :=
  ⟨kind, content, tags, false, createdAt⟩

/-- What is taken from the libraries: keys, `ConversationKey::derive`, `Hmac<Sha256>` of key and
message, NIP-44 version 2 and `EventBuilder::sign_with_keys`.  Encryption and signing draw a random
number each. -/
structure Crypto where
  publicKey : SecretKey → PublicKey
  conversationKey : SecretKey → PublicKey → BitVec 256
  hmacSha256 : Bytes → Bytes → BitVec 256
  encrypt : SecretKey → PublicKey → Text → Nat → Except String Text
  decrypt : SecretKey → PublicKey → Text → Except String Text
  signWithKeys : SecretKey → EventBuilder → Nat → Except String SignedEvent

/-! ## Writing -/

def dTag (crypto : Crypto) (key : BitVec 256) (slug : Text) : String :=
  toHex (crypto.hmacSha256 (beBytes 32 key.toNat) (dTagDomain ++ 0 :: encode slug))

def buildEvent (crypto : Crypto) (agent : SecretKey) (owner : PublicKey) (body : Body)
    (createdAt : Timestamp) (nonce aux : Nat) : Except EngramError SignedEvent :=
  let plaintext := body.toJson
  if nip44PlaintextMax < body.toJsonBytes.length then
    .error (.bodyTooLarge body.toJsonBytes.length)
  else
    let key := crypto.conversationKey agent owner
    match crypto.encrypt agent owner plaintext nonce with
    | .error e => .error (.encrypt e)
    | .ok ciphertext =>
        let tags : List Tag := [⟨"d", [dTag crypto key body.slug]⟩, ⟨"p", [toHex owner]⟩]
        match crypto.signWithKeys agent (.new kindAgentEngram ciphertext tags createdAt) aux with
        | .error e => .error (.sign e)
        | .ok event => .ok event

/-! ## Reading -/

/-- `is_ascii_hexdigit`, less the uppercase letters. -/
def isLowerHexByte (b : UInt8) : Bool :=
  ((48 ≤ b && b ≤ 57) || (97 ≤ b && b ≤ 102) || (65 ≤ b && b ≤ 70)) && !(65 ≤ b && b ≤ 90)

def eqIgnoreAsciiCase (a b : String) : Bool :=
  a.toList.map Char.toLower == b.toList.map Char.toLower

/-- The content of the one tag with a name. -/
def uniqueTag (event : SignedEvent) (name : String) : Except EngramError String :=
  let tags := event.tags.filter fun t => t.kind = name
  match tags.head?.bind Tag.content with
  | none => .error (.invalidEnvelope ("missing " ++ name ++ " tag"))
  | some value =>
      if tags.length ≠ 1 then .error (.invalidEnvelope ("multiple " ++ name ++ " tags"))
      else .ok value

def validateAndDecrypt (crypto : Crypto) (serde : SerdeJson) (event : SignedEvent)
    (expectedAgent expectedOwner : PublicKey) (mySeckey : SecretKey) (theirPubkey : PublicKey) :
    Except EngramError Body :=
  if event.kind ≠ kindAgentEngram then
    .error (.invalidEnvelope ("wrong kind: " ++ toString event.kind.toNat))
  else if event.pubkey ≠ expectedAgent then
    .error (.invalidEnvelope "pubkey != expected_agent")
  else
    match uniqueTag event "d" with
    | .error e => .error e
    | .ok dValue =>
        if (encode dValue.toList).length ≠ 64 || !(encode dValue.toList).all isLowerHexByte then
          .error (.invalidEnvelope "d tag must be 64 lowercase hex chars")
        else
          match uniqueTag event "p" with
          | .error e => .error e
          | .ok pValue =>
              if !eqIgnoreAsciiCase pValue (toHex expectedOwner) then
                .error (.invalidEnvelope "p tag != expected_owner")
              else
                match crypto.decrypt mySeckey theirPubkey event.content with
                | .error _ => .error .decrypt
                | .ok plaintext =>
                    match Body.fromJsonBytes serde (encode plaintext) with
                    | .error e => .error e
                    | .ok body =>
                        let key := crypto.conversationKey mySeckey theirPubkey
                        if dTag crypto key body.slug ≠ dValue then
                          .error (.invalidEnvelope "body slug does not re-derive to d tag")
                        else .ok body

/-! ## What the library promises -/

/-- A `p` tag that names the signer. -/
def isSelfTag (signer : PublicKey) (t : Tag) : Bool :=
  t.kind = "p" && t.content = some (toHex signer)

/-- Both sides derive one conversation key; a text of a length that NIP-44 allows is encrypted, and
decrypted under that key; a builder is signed as it is, less the `p` tags that name the signer
unless they are allowed. -/
structure Crypto.Ideal (crypto : Crypto) : Prop where
  symmetric : ∀ a b,
    crypto.conversationKey a (crypto.publicKey b) = crypto.conversationKey b (crypto.publicKey a)
  encrypts : ∀ my their text nonce, 1 ≤ byteLen text → byteLen text ≤ nip44PlaintextMax →
    ∃ ciphertext, crypto.encrypt my their text nonce = .ok ciphertext
  decrypts : ∀ my their my' their' text nonce ciphertext,
    crypto.conversationKey my their = crypto.conversationKey my' their' →
      crypto.encrypt my their text nonce = .ok ciphertext →
        crypto.decrypt my' their' ciphertext = .ok text
  signs : ∀ secret builder aux, ∃ event, crypto.signWithKeys secret builder aux = .ok event ∧
    event.pubkey = crypto.publicKey secret ∧ event.kind = builder.kind ∧
    event.content = builder.content ∧ event.createdAt = builder.createdAt ∧
    event.tags =
      if builder.allowSelfTagging then builder.tags
      else builder.tags.filter fun t => !isSelfTag (crypto.publicKey secret) t

/-! ## The tags of an event that was built -/

/-- The tags of an engram as they are signed. -/
def envelopeTags (crypto : Crypto) (agent : SecretKey) (owner : PublicKey) (slug : Text) :
    List Tag :=
  [⟨"d", [dTag crypto (crypto.conversationKey agent owner) slug]⟩, ⟨"p", [toHex owner]⟩].filter
    fun t => !isSelfTag (crypto.publicKey agent) t

theorem encode_hexDigit : ∀ d < 16,
    (String.utf8EncodeChar (hexDigit d)).length = 1 ∧
      (String.utf8EncodeChar (hexDigit d)).all isLowerHexByte = true := by
  decide

theorem toHex_lower (x : BitVec 256) :
    (encode (toHex x).toList).length = 64 ∧
      (encode (toHex x).toList).all isLowerHexByte = true := by
  have hdigits : ∀ n y, (encode (hexDigits n y)).length = n ∧
      (encode (hexDigits n y)).all isLowerHexByte = true := by
    intro n
    induction n with
    | zero => exact fun _ => ⟨rfl, rfl⟩
    | succ n ih =>
        intro y
        obtain ⟨hlength, hlower⟩ := ih (y / 16)
        obtain ⟨hone, hdigit⟩ := encode_hexDigit (y % 16) (Nat.mod_lt _ (by decide))
        have hlast : encode [hexDigit (y % 16)] = String.utf8EncodeChar (hexDigit (y % 16)) :=
          List.append_nil _
        rw [hexDigits, encode_append, hlast, List.length_append, List.all_append, hlength, hone,
          hlower, hdigit]
        exact ⟨rfl, rfl⟩
  rw [toHex, String.toList_ofList]
  exact hdigits 64 x.toNat

section Tags

variable {crypto : Crypto} {event : SignedEvent} {agent : SecretKey} {owner : PublicKey}
  {slug : Text}

theorem uniqueTag_d (htags : event.tags = envelopeTags crypto agent owner slug) :
    uniqueTag event "d" = .ok (dTag crypto (crypto.conversationKey agent owner) slug) := by
  have hone : (event.tags.filter fun t => t.kind = "d") =
      [⟨"d", [dTag crypto (crypto.conversationKey agent owner) slug]⟩] := by
    rw [htags, envelopeTags, List.filter_filter]
    simp [Tag.kind, isSelfTag]
  simp only [uniqueTag, hone]
  rfl

theorem uniqueTag_p (htags : event.tags = envelopeTags crypto agent owner slug) :
    uniqueTag event "p" =
      if crypto.publicKey agent = owner then .error (.invalidEnvelope "missing p tag")
      else .ok (toHex owner) := by
  by_cases hself : crypto.publicKey agent = owner
  · have hnone : (event.tags.filter fun t => t.kind = "p") = [] := by
      rw [htags, envelopeTags, List.filter_filter]
      simp [Tag.kind, Tag.content, isSelfTag, hself]
    rw [if_pos hself]
    simp only [uniqueTag, hnone]
    rfl
  · have hone : (event.tags.filter fun t => t.kind = "p") = [⟨"p", [toHex owner]⟩] := by
      have hne : toHex owner ≠ toHex (crypto.publicKey agent) :=
        fun h => hself (toHex_injective h).symm
      rw [htags, envelopeTags, List.filter_filter]
      simp [Tag.kind, Tag.content, isSelfTag, hne]
    rw [if_neg hself]
    simp only [uniqueTag, hone]
    rfl

end Tags

/-! ## The round trip -/

/-- The event of a body is built, and both sides read the body from it. -/
def EventRoundTrip (crypto : Crypto) (serde : SerdeJson) (agent owner : SecretKey) (body : Body)
    (createdAt : Timestamp) (nonce aux : Nat) : Prop :=
  ∃ event,
    buildEvent crypto agent (crypto.publicKey owner) body createdAt nonce aux = .ok event ∧
      validateAndDecrypt crypto serde event (crypto.publicKey agent) (crypto.publicKey owner)
        agent (crypto.publicKey owner) = .ok body ∧
      validateAndDecrypt crypto serde event (crypto.publicKey agent) (crypto.publicKey owner)
        owner (crypto.publicKey agent) = .ok body

section RoundTrip

variable {crypto : Crypto} {serde : SerdeJson}

theorem exists_buildEvent (hcrypto : crypto.Ideal) (agent : SecretKey) (owner : PublicKey)
    (body : Body) (createdAt : Timestamp) (nonce aux : Nat)
    (hsize : body.toJsonBytes.length ≤ nip44PlaintextMax) :
    ∃ event, buildEvent crypto agent owner body createdAt nonce aux = .ok event ∧
      event.pubkey = crypto.publicKey agent ∧ event.kind = kindAgentEngram ∧
      crypto.encrypt agent owner body.toJson nonce = .ok event.content ∧
      event.tags = envelopeTags crypto agent owner body.slug := by
  have hlength : body.toJsonBytes.length = byteLen body.toJson := length_encode body.toJson
  have hpos : 1 ≤ byteLen body.toJson := by
    have hbrace : Char.utf8Size '\x7b' = 1 := rfl
    unfold Body.toJson
    rw [byteLen_cons, hbrace]
    omega
  obtain ⟨ciphertext, hencrypt⟩ :=
    hcrypto.encrypts agent owner body.toJson nonce hpos (hlength ▸ hsize)
  obtain ⟨event, hsign, hpubkey, hkind, hcontent, -, htags⟩ := hcrypto.signs agent
    (.new kindAgentEngram ciphertext
      [⟨"d", [dTag crypto (crypto.conversationKey agent owner) body.slug]⟩, ⟨"p", [toHex owner]⟩]
      createdAt) aux
  refine ⟨event, ?_, hpubkey, hkind, ?_, htags⟩
  · simp only [buildEvent, if_neg (Nat.not_lt.2 hsize), hencrypt, hsign]
  · rw [hencrypt, hcontent]
    rfl

theorem validateAndDecrypt_eq (hcrypto : crypto.Ideal) (hserde : serde.Correct) {agent : SecretKey}
    {owner : PublicKey} {body : Body} (hslug : body.WellSlugged) {nonce : Nat} {event : SignedEvent}
    (hpubkey : event.pubkey = crypto.publicKey agent) (hkind : event.kind = kindAgentEngram)
    (hcontent : crypto.encrypt agent owner body.toJson nonce = .ok event.content)
    (htags : event.tags = envelopeTags crypto agent owner body.slug) {mySeckey : SecretKey}
    {theirPubkey : PublicKey}
    (hkey : crypto.conversationKey agent owner = crypto.conversationKey mySeckey theirPubkey) :
    validateAndDecrypt crypto serde event (crypto.publicKey agent) owner mySeckey theirPubkey =
      if crypto.publicKey agent = owner then .error (.invalidEnvelope "missing p tag")
      else .ok body := by
  have hdecrypt := hcrypto.decrypts _ _ _ _ _ _ _ hkey hcontent
  have hbody : Body.fromJsonBytes serde (encode body.toJson) = .ok body :=
    Body.fromJsonBytes_toJsonBytes hserde hslug
  obtain ⟨hlength, hlower⟩ :=
    toHex_lower (crypto.hmacSha256 (beBytes 32 (crypto.conversationKey agent owner).toNat)
      (dTagDomain ++ 0 :: encode body.slug))
  unfold validateAndDecrypt
  rw [if_neg (not_not.2 hkind), if_neg (not_not.2 hpubkey), uniqueTag_d htags, uniqueTag_p htags]
  simp only [dTag, hlength, hlower, ne_eq, not_true_eq_false, decide_false, Bool.not_true,
    Bool.or_self, Bool.false_eq_true, if_false]
  by_cases hself : crypto.publicKey agent = owner
  · simp only [if_pos hself]
  · have hsame : eqIgnoreAsciiCase (toHex owner) (toHex owner) = true := by
      simp [eqIgnoreAsciiCase]
    simp only [if_neg hself, hsame, hdecrypt, hbody, ← hkey, Bool.not_true, Bool.false_eq_true,
      if_false, not_true_eq_false]

/-- A body comes back from its JSON, and from its event if there is one, exactly when the JSON is
too long for an event or the agent is not its own owner. -/
theorem engram_round_trip (hcrypto : crypto.Ideal) (hserde : serde.Correct) (body : Body)
    (hslug : body.WellSlugged) (agent owner : SecretKey) (createdAt : Timestamp)
    (nonce aux : Nat) :
    (Body.fromJsonBytes serde body.toJsonBytes = .ok body ∧
      (body.toJsonBytes.length ≤ nip44PlaintextMax →
        EventRoundTrip crypto serde agent owner body createdAt nonce aux)) ↔
      (nip44PlaintextMax < body.toJsonBytes.length ∨
        crypto.publicKey agent ≠ crypto.publicKey owner) := by
  have hjson := Body.fromJsonBytes_toJsonBytes hserde hslug
  rcases Nat.lt_or_ge nip44PlaintextMax body.toJsonBytes.length with hlong | hsize
  · exact iff_of_true ⟨hjson, fun h => absurd hlong (Nat.not_lt.2 h)⟩ (Or.inl hlong)
  · obtain ⟨event, hbuild, hpubkey, hkind, hcontent, htags⟩ :=
      exists_buildEvent hcrypto agent (crypto.publicKey owner) body createdAt nonce aux hsize
    have hread : ∀ {mySeckey : SecretKey} {theirPubkey : PublicKey},
        crypto.conversationKey agent (crypto.publicKey owner) =
          crypto.conversationKey mySeckey theirPubkey → _ := fun hkey =>
      validateAndDecrypt_eq hcrypto hserde hslug hpubkey hkind hcontent htags hkey
    have hagent := hread rfl
    have howner := hread (hcrypto.symmetric agent owner)
    rw [or_iff_right (Nat.not_lt.2 hsize)]
    constructor
    · rintro ⟨-, htrip⟩ hself
      obtain ⟨event', hbuild', hagent', -⟩ := htrip hsize
      cases hbuild.symm.trans hbuild'
      rw [hagent, if_pos hself] at hagent'
      cases hagent'
    · intro hother
      rw [if_neg hother] at hagent howner
      exact ⟨hjson, fun _ => ⟨event, hbuild, hagent, howner⟩⟩

end RoundTrip

/-! ## A toy cryptography -/

namespace Toy

/-- A key is its own public key, and two keys share their sum. -/
def conversationKey (my : SecretKey) (their : PublicKey) : BitVec 256 := my + their

/-- The key stands in front of the text. -/
def encrypt (my : SecretKey) (their : PublicKey) (text : Text) (_ : Nat) : Except String Text :=
  if byteLen text = 0 ∨ nip44PlaintextMax < byteLen text then .error "message length"
  else .ok (hexDigits 64 (conversationKey my their).toNat ++ text)

def decrypt (my : SecretKey) (their : PublicKey) (ciphertext : Text) : Except String Text :=
  if ciphertext.take 64 = hexDigits 64 (conversationKey my their).toNat then
    .ok (ciphertext.drop 64)
  else .error "invalid mac"

def sign (secret : SecretKey) (builder : EventBuilder) (aux : Nat) : SignedEvent where
  id := BitVec.ofNat 256 aux
  pubkey := secret
  createdAt := builder.createdAt
  kind := builder.kind
  tags :=
    if builder.allowSelfTagging then builder.tags
    else builder.tags.filter fun t => !isSelfTag secret t
  content := builder.content

def crypto : Crypto where
  publicKey := id
  conversationKey := conversationKey
  hmacSha256 key message := BitVec.ofNat 256 (key.length + message.length)
  encrypt := encrypt
  decrypt := decrypt
  signWithKeys secret builder aux := .ok (sign secret builder aux)

theorem crypto_ideal : crypto.Ideal where
  symmetric a b := BitVec.add_comm a b
  encrypts my their text nonce hpos hmax := by
    refine ⟨hexDigits 64 (conversationKey my their).toNat ++ text, if_neg ?_⟩
    omega
  decrypts my their my' their' text nonce ciphertext hkey hencrypt := by
    change encrypt my their text nonce = _ at hencrypt
    change decrypt my' their' ciphertext = _
    unfold encrypt at hencrypt
    split at hencrypt
    next => cases hencrypt
    next =>
      have hkey' : conversationKey my their = conversationKey my' their' := hkey
      have hlength := length_hexDigits 64 (conversationKey my' their').toNat
      rw [← Except.ok.inj hencrypt, hkey', decrypt, List.take_left' hlength, if_pos rfl,
        List.drop_left' hlength]
  signs secret builder aux := ⟨sign secret builder aux, rfl, rfl, rfl, rfl, rfl, rfl⟩

def serde : SerdeJson where
  value bytes :=
    match (decodeUtf8 bytes).bind Json.decode with
    | some v => .ok (v, [])
    | none => .error "expected value"
  finish rest := if rest.isEmpty then .ok () else .error "trailing characters"
  custom e := e

theorem serde_correct : serde.Correct where
  reads text v h _ := by
    refine ⟨[], ?_, rfl⟩
    simp only [serde, decodeUtf8_encode, Option.bind_some, h]

end Toy

/-- An entry with a quotation mark and a line break comes back on both sides. -/
theorem engram_round_trip_entry :
    EventRoundTrip Toy.crypto Toy.serde 1 2 (.memory "mem/a".toList (some ['"', '\n'])) 9 0 0 :=
  ((engram_round_trip Toy.crypto_ideal Toy.serde_correct
    (.memory "mem/a".toList (some ['"', '\n'])) (by exact ⟨rfl, rfl⟩) 1 2 9 0 0).2
      (Or.inr (by decide))).2 (by decide)

/-- An agent that is its own owner cannot read what it wrote. -/
theorem engram_round_trip_self :
    (Body.core "me".toList).toJsonBytes.length ≤ nip44PlaintextMax ∧
      ¬ EventRoundTrip Toy.crypto Toy.serde 1 1 (.core "me".toList) 9 0 0 := by
  have hsize : (Body.core "me".toList).toJsonBytes.length ≤ nip44PlaintextMax := by
    decide
  refine ⟨hsize, ?_⟩
  rintro ⟨event, hbuild, hread, -⟩
  have hslug : Body.WellSlugged (.core "me".toList) := trivial
  obtain ⟨event', hbuild', hpubkey, hkind, hcontent, htags⟩ :=
    exists_buildEvent Toy.crypto_ideal 1 (Toy.crypto.publicKey 1) (.core "me".toList) 9 0 0 hsize
  cases hbuild.symm.trans hbuild'
  have hmissing := validateAndDecrypt_eq Toy.crypto_ideal Toy.serde_correct hslug hpubkey hkind
    hcontent htags rfl
  cases hread.symm.trans (hmissing.trans (if_pos rfl))

end Engram
end Core
end Maju
