import Mathlib.Data.Finset.Insert
import Maju.Core.Pairing.Qr
import Maju.Lib.Bytes
import Maju.Lib.Outcome

/-!
# Session — one side of a device pairing

A `PairingSession` is a state machine without I/O: the caller publishes the events it returns and
hands it the events that arrive.  The source shows the QR code, accepts one offer, and sends the
payload after its user confirmed the short code; the target checks the transcript hash and waits
for its own user before it takes a payload.

* `Crypto` — the cryptography and JSON libraries, as parameters;
* `Handler` — an operation: it changes the session and may fail after it has changed it;
* `Op`, `perform` — the twelve operations of a session.
-/

namespace Maju
namespace Core
namespace Pairing

open Lib

abbrev SecretKey := BitVec 256

def pairingKind : Kind := 24134

/-- `DEFAULT_TIMEOUT`, in nanoseconds. -/
def defaultTimeout : Nat := 120 * 1000000000

/-! ## Messages and errors -/

inductive PayloadType where
  | nsec
  | bunker
  | connect
  | custom
  deriving DecidableEq, Repr

inductive AbortReason where
  | sasMismatch
  | userDenied
  | timeout
  | protocolError
  | unknown
  deriving DecidableEq, Repr

inductive PairingMessage where
  | offer (sessionId : Text) (version : Nat)
  | sasConfirm (transcriptHash : Text)
  | payload (payloadType : PayloadType) (payload : Text)
  | complete (success : Bool)
  | abort (reason : AbortReason)
  deriving DecidableEq, Repr

/-- `PairingError`, without the QR errors, which no operation of a session returns. -/
inductive PairingError where
  | invalidSessionId
  | sasMismatch
  | transcriptMismatch
  | unexpectedMessage (expected got : String)
  | sessionExpired
  | nip44 (error : String)
  | json (error : String)
  | invalidPubkey (error : String)
  | signingError (error : String)
  deriving DecidableEq, Repr

/-- An event with its content and signature. -/
structure Event extends Core.Event where
  content : Text
  sig : BitVec 512
  deriving DecidableEq, Repr

/-- `EventBuilder`, before it is signed. -/
structure EventBuilder where
  kind : Kind
  content : Text
  tags : List Tag
  createdAt : Timestamp
  deriving DecidableEq, Repr

/-! ## Cryptography -/

/-- What a session takes from its libraries: `generate_shared_key`, `hkdf32` of salt, input key
material and info, NIP-44 version 2, `sign_with_keys`, `Event::verify` and `serde_json`.  Encryption
and signing draw a random number each. -/
structure Crypto where
  publicKey : SecretKey → PublicKey
  generateSharedKey : SecretKey → PublicKey → Except String (BitVec 256)
  hkdf32 : Bytes → Bytes → Bytes → BitVec 256
  encrypt : SecretKey → PublicKey → Text → Nat → Except String Text
  decrypt : SecretKey → PublicKey → Text → Except String Text
  signWithKeys : SecretKey → EventBuilder → Nat → Except String Event
  verify : Event → Except String Unit
  toJson : PairingMessage → Except String Text
  fromJson : Text → Except String PairingMessage

/-- The 32 bytes of a key, a secret or a hash. -/
def bytes32 (x : BitVec 256) : Bytes := beBytes 32 x.toNat

def infoSessionId : Bytes := encode "nostr-pair-session-id".toList
def infoSas : Bytes := encode "nostr-pair-sas-v1".toList
def infoTranscript : Bytes := encode "nostr-pair-transcript-v1".toList

namespace Crypto

variable (crypto : Crypto)

def deriveSessionId (sessionSecret : BitVec 256) : BitVec 256 :=
  crypto.hkdf32 [] (bytes32 sessionSecret) infoSessionId

/-- `derive_sas`: the code is the first four bytes modulo a million. -/
def deriveSas (ecdhShared sessionSecret : BitVec 256) : Nat × BitVec 256 :=
  let sasInput := crypto.hkdf32 (bytes32 sessionSecret) (bytes32 ecdhShared) infoSas
  (sasInput.toNat / 2 ^ 224 % 1000000, sasInput)

def deriveTranscriptHash (sessionId : BitVec 256) (sourcePubkey targetPubkey : PublicKey)
    (sasInput sessionSecret : BitVec 256) : BitVec 256 :=
  crypto.hkdf32 (bytes32 sessionSecret)
    (bytes32 sessionId ++ bytes32 sourcePubkey ++ bytes32 targetPubkey ++ bytes32 sasInput)
    infoTranscript

end Crypto

/-- `format_sas`: six digits. -/
def formatSas (code : Nat) : Text := (decimal code).leftpad 6 '0'

/-- `hex::decode` into 32 bytes. -/
def decode32 (text : Text) : Option (BitVec 256) :=
  if text.length = 64 then (parseHex text).map (BitVec.ofNat 256) else none

/-! ## Sessions -/

inductive Role where
  | source
  | target
  deriving DecidableEq, Repr

inductive SessionState where
  | waiting
  | confirming
  | awaitingConfirmation
  | transferring
  | payloadExchanged
  | completed
  | aborted
  deriving DecidableEq, Repr

/-- The `Debug` text of a role. -/
def Role.debug : Role → String
  | .source => "Source"
  | .target => "Target"

namespace SessionState

/-- The `Debug` text of a state. -/
def debug : SessionState → String
  | .waiting => "Waiting"
  | .confirming => "Confirming"
  | .awaitingConfirmation => "AwaitingConfirmation"
  | .transferring => "Transferring"
  | .payloadExchanged => "PayloadExchanged"
  | .completed => "Completed"
  | .aborted => "Aborted"

/-- `matches!(state, Completed | Aborted)`. -/
def isTerminal : SessionState → Bool
  | .completed => true
  | .aborted => true
  | _ => false

end SessionState

/-- `PairingSession`; instants are in nanoseconds. -/
structure PairingSession where
  role : Role
  state : SessionState
  keys : SecretKey
  sessionSecret : BitVec 256
  relayUrls : List Text
  peerPubkey : Option PublicKey
  sessionId : BitVec 256
  sasCode : Option Nat
  sasInput : Option (BitVec 256)
  processedIds : Finset EventId
  createdAt : Nat
  timeout : Nat
  deriving DecidableEq

/-- What an operation takes from outside: the monotonic and the wall clock, and random numbers. -/
structure Fresh where
  now : Nat
  clock : Timestamp
  jitter : UInt64
  nonce : Nat
  aux : Nat
  deriving DecidableEq, Repr

/-- An operation on a session. -/
abbrev Handler := EStateM PairingError PairingSession

def unexpected (expected : String) (got : PairingMessage) : PairingError :=
  .unexpectedMessage expected <|
    match got with
    | .offer _ _ => "offer"
    | .sasConfirm _ => "sas-confirm"
    | .payload _ _ => "payload"
    | .complete _ => "complete"
    | .abort _ => "abort"

namespace PairingSession

variable (crypto : Crypto)

/-! ## Checks -/

def checkExpired (now : Nat) (s : PairingSession) : Except PairingError Unit :=
  if s.timeout < now - s.createdAt then .error .sessionExpired else .ok ()

def expectState (expected : SessionState) (s : PairingSession) : Except PairingError Unit :=
  if s.state ≠ expected then
    .error (.unexpectedMessage ("state " ++ expected.debug) ("state " ++ s.state.debug))
  else .ok ()

def expectRole (expected : Role) (s : PairingSession) : Except PairingError Unit :=
  if s.role ≠ expected then
    .error (.unexpectedMessage ("role " ++ expected.debug) ("role " ++ s.role.debug))
  else .ok ()

/-- The guard of `abort` and `handle_abort`. -/
def expectNonTerminal (s : PairingSession) : Except PairingError Unit :=
  if s.state.isTerminal then
    .error (.unexpectedMessage "non-terminal state" ("state " ++ s.state.debug))
  else .ok ()

/-- A `p` tag that names the key. -/
def hasPTag (pubkey : PublicKey) (tags : List Tag) : Bool :=
  tags.any fun t => t.name == "p" && t.content == some (toHex pubkey)

def validateEventBasics (event : Event) (s : PairingSession) : Except PairingError Unit :=
  match crypto.verify event with
  | .error e => .error (.invalidPubkey ("event verification failed: " ++ e))
  | .ok () =>
      if event.id ∈ s.processedIds then
        .error (.unexpectedMessage "new event" "duplicate event id")
      else if event.kind ≠ pairingKind then
        .error (.unexpectedMessage ("kind " ++ toString pairingKind.asU32)
          ("kind " ++ toString event.kind.asU32))
      else if !hasPTag (crypto.publicKey s.keys) event.tags then
        .error (.invalidPubkey "event p-tag does not match our ephemeral pubkey")
      else .ok ()

def validateEventFromPeer (event : Event) (s : PairingSession) : Except PairingError Unit :=
  match validateEventBasics crypto event s with
  | .error e => .error e
  | .ok () =>
      match s.peerPubkey with
      | none => .ok ()
      | some expected =>
          if event.pubkey ≠ expected then
            .error (.invalidPubkey
              ("event from " ++ toHex event.pubkey ++ " but expected " ++ toHex expected))
          else .ok ()

def decryptMessage (event : Event) (s : PairingSession) : Except PairingError PairingMessage :=
  let contentLen := (encode event.content).length
  if ¬ (132 ≤ contentLen ∧ contentLen ≤ 87472) then
    .error (.unexpectedMessage "NIP-44 content (132–87472 chars)" (toString contentLen ++ " chars"))
  else
    match crypto.decrypt s.keys event.pubkey event.content with
    | .error e => .error (.nip44 e)
    | .ok decrypted =>
        if 65535 < (encode decrypted).length then
          -- the text is zeroed before its length is printed
          .error (.unexpectedMessage "plaintext ≤ 65535 bytes" "0 bytes")
        else (crypto.fromJson decrypted).mapError .json

def buildEvent (fresh : Fresh) (message : PairingMessage) (s : PairingSession) :
    Except PairingError Event :=
  match s.peerPubkey with
  | none => .error (.invalidPubkey "no peer pubkey set")
  | some peer =>
      match crypto.toJson message with
      | .error e => .error (.json e)
      | .ok plaintext =>
          match crypto.encrypt s.keys peer plaintext fresh.nonce with
          | .error e => .error (.nip44 e)
          | .ok encrypted =>
              -- `created_at` is moved back by up to 30 seconds
              let builder : EventBuilder :=
                { kind := pairingKind
                  content := encrypted
                  tags := [⟨"p", [toHex peer]⟩]
                  createdAt := UInt64.ofNat (fresh.clock.toNat - fresh.jitter.toNat % 31) }
              (crypto.signWithKeys s.keys builder fresh.aux).mapError .signingError

def sharedKey (peer : PublicKey) (s : PairingSession) : Except PairingError (BitVec 256) :=
  (crypto.generateSharedKey s.keys peer).mapError .signingError

/-- The offer of a message, with the checks of its version and session id. -/
def expectOffer (msg : PairingMessage) (s : PairingSession) : Except PairingError Unit :=
  match msg with
  | .offer sessionId version =>
      if version ≠ 1 then
        .error (.unexpectedMessage "version 1" ("version " ++ toString version))
      else if decode32 sessionId ≠ some s.sessionId then .error .invalidSessionId
      else .ok ()
  | other => .error (unexpected "offer" other)

/-- The hash of a `sas-confirm` message. -/
def expectSasConfirm (msg : PairingMessage) : Except PairingError Text :=
  match msg with
  | .sasConfirm transcriptHash => .ok transcriptHash
  | other => .error (unexpected "sas-confirm" other)

def expectPayload (msg : PairingMessage) : Except PairingError (PayloadType × Text) :=
  match msg with
  | .payload payloadType payload => .ok (payloadType, payload)
  | other => .error (unexpected "payload" other)

/-- The transcript hash a source computes. -/
def sourceTranscriptHash (s : PairingSession) : Except PairingError (BitVec 256) :=
  match s.sasInput, s.peerPubkey with
  | none, _ => .error .sasMismatch
  | some _, none => .error (.invalidPubkey "no peer")
  | some sasInput, some peer =>
      .ok (crypto.deriveTranscriptHash s.sessionId (crypto.publicKey s.keys) peer sasInput
        s.sessionSecret)

/-- The transcript hash a target computes: the source is its peer. -/
def targetTranscriptHash (s : PairingSession) : Except PairingError (BitVec 256) :=
  match s.sasInput, s.peerPubkey with
  | none, _ => .error .sasMismatch
  | some _, none => .error (.invalidPubkey "no peer")
  | some sasInput, some peer =>
      .ok (crypto.deriveTranscriptHash s.sessionId peer (crypto.publicKey s.keys) sasInput
        s.sessionSecret)

/-! ## Updates -/

def setState (state : SessionState) (s : PairingSession) : PairingSession := { s with state := state }

def recordEvent (event : Event) (s : PairingSession) : PairingSession :=
  { s with processedIds := insert event.id s.processedIds }

/-- The peer lock of `handle_offer`. -/
def lockPeer (peer : PublicKey) (s : PairingSession) : PairingSession :=
  { s with peerPubkey := some peer }

def setSas (sas : Nat × BitVec 256) (s : PairingSession) : PairingSession :=
  { s with sasCode := some sas.1, sasInput := some sas.2 }

/-! ## The source's operations -/

/-- `new_source`, with the key pair and the secret it draws. -/
def newSource (keys : SecretKey) (sessionSecret : BitVec 256) (relayUrl : Text) (now : Nat) :
    PairingSession × QrPayload :=
  ({ role := .source
     state := .waiting
     keys := keys
     sessionSecret := sessionSecret
     relayUrls := [relayUrl]
     peerPubkey := none
     sessionId := crypto.deriveSessionId sessionSecret
     sasCode := none
     sasInput := none
     processedIds := ∅
     createdAt := now
     timeout := defaultTimeout },
   { version := 1
     sourcePubkey := crypto.publicKey keys
     sessionSecret := sessionSecret
     relays := [relayUrl] })

/-- `handle_offer`: the peer is locked before the shared key is computed. -/
def handleOffer (fresh : Fresh) (event : Event) : Handler Text := do
  reads (checkExpired fresh.now)
  reads (expectState .waiting)
  reads (expectRole .source)
  reads (validateEventBasics crypto event)
  let msg ← reads (decryptMessage crypto event)
  reads (expectOffer msg)
  modify (lockPeer event.pubkey)
  let ecdh ← reads (sharedKey crypto event.pubkey)
  let sas ← reads fun s => .ok (crypto.deriveSas ecdh s.sessionSecret)
  modify (setSas sas)
  modify (setState .confirming)
  modify (recordEvent event)
  return formatSas sas.1

def confirmSas (fresh : Fresh) : Handler Event := do
  reads (checkExpired fresh.now)
  reads (expectState .confirming)
  reads (expectRole .source)
  let transcriptHash ← reads (sourceTranscriptHash crypto)
  let event ← reads (buildEvent crypto fresh (.sasConfirm (hex64 transcriptHash)))
  modify (setState .transferring)
  return event

def handleReturnPayload (fresh : Fresh) (event : Event) : Handler (PayloadType × Text) := do
  reads (checkExpired fresh.now)
  reads (expectState .transferring)
  reads (expectRole .source)
  reads (validateEventFromPeer crypto event)
  let msg ← reads (decryptMessage crypto event)
  let payload ← reads fun _ => expectPayload msg
  modify (setState .payloadExchanged)
  modify (recordEvent event)
  return payload

def sendSourceComplete (fresh : Fresh) (success : Bool) : Handler Event := do
  reads (checkExpired fresh.now)
  reads (expectState .payloadExchanged)
  reads (expectRole .source)
  let event ← reads (buildEvent crypto fresh (.complete success))
  modify (setState (if success then .completed else .aborted))
  return event

def sendPayload (fresh : Fresh) (payloadType : PayloadType) (payload : Text) : Handler Event := do
  reads (checkExpired fresh.now)
  reads (expectState .transferring)
  reads (expectRole .source)
  let event ← reads (buildEvent crypto fresh (.payload payloadType payload))
  modify (setState .payloadExchanged)
  return event

/-- `handle_complete`: a failed completion aborts the session and is reported as an error. -/
def handleComplete (fresh : Fresh) (event : Event) : Handler Unit := do
  reads (checkExpired fresh.now)
  reads (expectState .payloadExchanged)
  reads (expectRole .source)
  reads (validateEventFromPeer crypto event)
  let msg ← reads (decryptMessage crypto event)
  match msg with
  | .complete true => do
      modify (setState .completed)
      modify (recordEvent event)
      return ()
  | .complete false => do
      modify (setState .aborted)
      throw (.unexpectedMessage "complete(success=true)" "complete(success=false)")
  | other => throw (unexpected "complete" other)

/-! ## The target's operations -/

/-- `new_target`, with the key pair it draws. -/
def newTarget (keys : SecretKey) (qr : QrPayload) (fresh : Fresh) :
    Except PairingError (PairingSession × Event) := do
  let ecdh ← (crypto.generateSharedKey keys qr.sourcePubkey).mapError .signingError
  let sas := crypto.deriveSas ecdh qr.sessionSecret
  let sessionId := crypto.deriveSessionId qr.sessionSecret
  let session : PairingSession :=
    { role := .target
      state := .waiting
      keys := keys
      sessionSecret := qr.sessionSecret
      relayUrls := qr.relays
      peerPubkey := some qr.sourcePubkey
      sessionId := sessionId
      sasCode := some sas.1
      sasInput := some sas.2
      processedIds := ∅
      createdAt := fresh.now
      timeout := defaultTimeout }
  let event ← buildEvent crypto fresh (.offer (hex64 sessionId) 1) session
  return (setState .confirming session, event)

/-- `handle_sas_confirm`: another hash than its own aborts the session. -/
def handleSasConfirm (fresh : Fresh) (event : Event) : Handler Text := do
  reads (checkExpired fresh.now)
  reads (expectState .confirming)
  reads (expectRole .target)
  reads (validateEventFromPeer crypto event)
  let msg ← reads (decryptMessage crypto event)
  let receivedHash ← reads fun _ => expectSasConfirm msg
  let expectedHash ← reads (targetTranscriptHash crypto)
  if decode32 receivedHash = some expectedHash then do
    modify (setState .awaitingConfirmation)
    modify (recordEvent event)
    let code ← reads fun s => s.sasCode.elim (.error .sasMismatch) .ok
    return formatSas code
  else do
    modify (setState .aborted)
    throw .transcriptMismatch

def confirmTargetSas (fresh : Fresh) : Handler Unit := do
  reads (checkExpired fresh.now)
  reads (expectState .awaitingConfirmation)
  reads (expectRole .target)
  modify (setState .transferring)
  return ()

def handlePayload (fresh : Fresh) (event : Event) : Handler (PayloadType × Text) := do
  reads (checkExpired fresh.now)
  reads (expectState .transferring)
  reads (expectRole .target)
  reads (validateEventFromPeer crypto event)
  let msg ← reads (decryptMessage crypto event)
  let payload ← reads fun _ => expectPayload msg
  modify (setState .payloadExchanged)
  modify (recordEvent event)
  return payload

def sendComplete (fresh : Fresh) : Handler Event := do
  reads (checkExpired fresh.now)
  reads (expectState .payloadExchanged)
  reads (expectRole .target)
  let event ← reads (buildEvent crypto fresh (.complete true))
  modify (setState .completed)
  return event

/-! ## Aborting -/

/-- `abort`: without a peer there is nobody to tell. -/
def abort (fresh : Fresh) (reason : AbortReason) : Handler (Option Event) := do
  reads expectNonTerminal
  let event ← reads fun s =>
    match s.peerPubkey with
    | none => .ok none
    | some _ => (buildEvent crypto fresh (.abort reason) s).map some
  modify (setState .aborted)
  return event

def handleAbort (event : Event) : Handler AbortReason := do
  reads expectNonTerminal
  reads fun s =>
    if s.peerPubkey.isNone then .error (.invalidPubkey "cannot accept abort before peer is known")
    else .ok ()
  reads (validateEventFromPeer crypto event)
  let msg ← reads (decryptMessage crypto event)
  match msg with
  | .abort reason => do
      modify (setState .aborted)
      modify (recordEvent event)
      return reason
  | other => throw (unexpected "abort" other)

end PairingSession

/-! ## Operations -/

/-- The operations of a session. -/
inductive Op where
  | handleOffer (event : Event)
  | confirmSas
  | handleReturnPayload (event : Event)
  | sendSourceComplete (success : Bool)
  | sendPayload (payloadType : PayloadType) (payload : Text)
  | handleComplete (event : Event)
  | handleSasConfirm (event : Event)
  | confirmTargetSas
  | handlePayload (event : Event)
  | sendComplete
  | abort (reason : AbortReason)
  | handleAbort (event : Event)
  deriving DecidableEq, Repr

/-- What an operation returns. -/
inductive Reply where
  | done
  | sas (code : Text)
  | payload (payloadType : PayloadType) (payload : Text)
  | event (event : Event)
  | aborted (reason : AbortReason)
  deriving DecidableEq, Repr

namespace PairingSession

variable (crypto : Crypto)

/-- An operation with its reply. -/
def perform (fresh : Fresh) : Op → Handler Reply
  | .handleOffer event => Reply.sas <$> handleOffer crypto fresh event
  | .confirmSas => Reply.event <$> confirmSas crypto fresh
  | .handleReturnPayload event =>
      (fun p => Reply.payload p.1 p.2) <$> handleReturnPayload crypto fresh event
  | .sendSourceComplete success => Reply.event <$> sendSourceComplete crypto fresh success
  | .sendPayload payloadType payload =>
      Reply.event <$> sendPayload crypto fresh payloadType payload
  | .handleComplete event => (fun _ => Reply.done) <$> handleComplete crypto fresh event
  | .handleSasConfirm event => Reply.sas <$> handleSasConfirm crypto fresh event
  | .confirmTargetSas => (fun _ => Reply.done) <$> confirmTargetSas fresh
  | .handlePayload event => (fun p => Reply.payload p.1 p.2) <$> handlePayload crypto fresh event
  | .sendComplete => Reply.event <$> sendComplete crypto fresh
  | .abort reason =>
      (fun event => event.elim Reply.done Reply.event) <$> abort crypto fresh reason
  | .handleAbort event => Reply.aborted <$> handleAbort crypto event

end PairingSession

end Pairing
end Core
end Maju
