import Maju.Core.Pairing.Effects
import Maju.Lib.Run

/-!
# Atomic — a rejected operation leaves no trace

Callers probe one event with several handlers, so a handler that rejects an event must leave the
session as it was.  Two rejections are transitions by intent: another transcript hash and a failed
completion abort the session.

* `Reachable` — the sessions that the constructors and the operations build;
* `rejection_atomic` — what a rejected operation leaves behind.
-/

namespace Maju
namespace Core
namespace Pairing

open Lib

namespace PairingSession

/-- The session after an operation, accepted or not. -/
def after (crypto : Crypto) (s : PairingSession) (call : Fresh × Op) : PairingSession :=
  match perform crypto call.1 call.2 s with
  | .ok _ s' => s'
  | .error _ s' => s'

/-- The sessions a caller can hold. -/
inductive Reachable (crypto : Crypto) : PairingSession → Prop where
  | source (keys : SecretKey) (sessionSecret : BitVec 256) (relayUrl : Text) (now : Nat) :
      Reachable crypto (newSource crypto keys sessionSecret relayUrl now).1
  | target {keys : SecretKey} {qr : QrPayload} {fresh : Fresh} {s : PairingSession}
      {event : Event} (h : newTarget crypto keys qr fresh = .ok (s, event)) : Reachable crypto s
  | step {s : PairingSession} (h : Reachable crypto s) (call : Fresh × Op) :
      Reachable crypto (s.after crypto call)

variable {crypto : Crypto} {s : PairingSession}

/-- What a new target starts with. -/
structure IsNewTarget (crypto : Crypto) (keys : SecretKey) (qr : QrPayload) (fresh : Fresh)
    (s : PairingSession) (event : Event) : Prop where
  role : s.role = .target
  state : s.state = .confirming
  key : s.keys = keys
  peer : s.peerPubkey = some qr.sourcePubkey
  sessionId : s.sessionId = crypto.deriveSessionId qr.sessionSecret
  sas : s.sasCode.isSome
  offer : (setState .waiting s).buildEvent crypto fresh (.offer (hex64 s.sessionId) 1) = .ok event

theorem isNewTarget {keys : SecretKey} {qr : QrPayload} {fresh : Fresh} {event : Event}
    (h : newTarget crypto keys qr fresh = .ok (s, event)) :
    IsNewTarget crypto keys qr fresh s event := by
  unfold newTarget at h
  cases hecdh : crypto.generateSharedKey keys qr.sourcePubkey with
  | error e =>
      rw [hecdh] at h
      cases h
  | ok ecdh =>
      rw [hecdh] at h
      simp only [Except.mapError, bind, Except.bind] at h
      split at h
      · cases h
      · next built hbuilt =>
          cases h
          exact ⟨rfl, rfl, rfl, rfl, rfl, rfl, hbuilt⟩

/-! ## The short code of a target -/

theorem sasCode_of_accepts {fresh : Fresh} {op : Op} {reply : Reply} {s' : PairingSession}
    (h : Accepts crypto fresh s op reply s') (hsas : s.role = .target → s.sasCode.isSome) :
    s'.role = .target → s'.sasCode.isSome := by
  cases h with
  | handleOffer => exact fun _ => rfl
  | _ => exact hsas

theorem sasCode_of_rejects {op : Op} {e : PairingError} {s' : PairingSession}
    (h : Rejects crypto s op e s') (hsas : s.role = .target → s.sasCode.isSome) :
    s'.role = .target → s'.sasCode.isSome := by
  cases h with
  | _ => exact hsas

theorem Reachable.sasCode (hshares : crypto.Shares) (h : Reachable crypto s) :
    s.role = .target → s.sasCode.isSome := by
  induction h with
  | source keys sessionSecret relayUrl now =>
      intro hrole
      cases hrole
  | target hnew => exact fun _ => (isNewTarget hnew).sas
  | step hs call ih =>
      have houtcome := perform_outcome hshares ih call.1 call.2
      unfold after
      split
      · next hok => exact sasCode_of_accepts (houtcome.of_ok hok) ih
      · next herror => exact sasCode_of_rejects (houtcome.of_error herror) ih

/-! ## Rejections -/

/-- A call that is rejected and does not abort the session. -/
def Refused (crypto : Crypto) (s : PairingSession) (call : Fresh × Op) : Prop :=
  ∃ e s', perform crypto call.1 call.2 s = .error e s' ∧ s'.state = s.state

theorem eq_of_refused (hshares : crypto.Shares) (hs : Reachable crypto s) {call : Fresh × Op}
    (h : Refused crypto s call) : s.after crypto call = s := by
  rcases call with ⟨fresh, op⟩
  rcases h with ⟨e, s', herror, hstate⟩
  have hafter : s.after crypto (fresh, op) = s' := by
    unfold after
    rw [herror]
  rw [hafter]
  cases (perform_outcome hshares (hs.sasCode hshares) fresh op).of_error herror with
  | unchanged => rfl
  | mismatch hconfirming =>
      rw [hconfirming] at hstate
      cases hstate
  | failed hexchanged =>
      rw [hexchanged] at hstate
      cases hstate

/-- A rejected operation changes nothing, except that another transcript hash and a failed
completion abort the session; so after any number of refused calls an operation does what it would
have done without them. -/
theorem rejection_atomic (hshares : crypto.Shares) (hs : Reachable crypto s) :
    (∀ fresh op e s', perform crypto fresh op s = .error e s' →
      s' = s ∨
      (∃ event, op = .handleSasConfirm event ∧ e = .transcriptMismatch ∧
        s' = { s with state := .aborted }) ∨
      (∃ event, op = .handleComplete event ∧
        s.decryptMessage crypto event = .ok (.complete false) ∧
        s' = { s with state := .aborted })) ∧
    (∀ probes, Run.Along (Refused crypto) (after crypto) s probes →
      ∀ fresh op, perform crypto fresh op (Run.run (after crypto) s probes) =
        perform crypto fresh op s) := by
  constructor
  · intro fresh op e s' herror
    cases (perform_outcome hshares (hs.sasCode hshares) fresh op).of_error herror with
    | unchanged => exact .inl rfl
    | mismatch => exact .inr (.inl ⟨_, rfl, rfl, rfl⟩)
    | failed _ _ hmsg => exact .inr (.inr ⟨_, rfl, hmsg, rfl⟩)
  · intro probes hprobes fresh op
    have hstay : Run.run (after crypto) s probes = s := by
      refine Run.invariant (fun x => x = s) ?_ rfl hprobes
      rintro x call rfl hrefused
      exact eq_of_refused hshares hs hrefused
    rw [hstay]

end PairingSession

/-! ## A toy cryptography -/

namespace Toy

def letter : PayloadType → Char
  | .nsec => 'n'
  | .bunker => 'b'
  | .connect => 'c'
  | .custom => 'x'

def reasonLetter : AbortReason → Char
  | .sasMismatch => 's'
  | .userDenied => 'd'
  | .timeout => 't'
  | .protocolError => 'p'
  | .unknown => 'u'

/-- Messages as a tag and their fields. -/
def toJson : PairingMessage → Except String Text
  | .offer id 1 => .ok ('o' :: id)
  | .offer _ _ => .error "version"
  | .sasConfirm hash => .ok ('s' :: hash)
  | .payload payloadType payload => .ok ('p' :: letter payloadType :: payload)
  | .complete success => .ok ['c', if success then 't' else 'f']
  | .abort reason => .ok ['a', reasonLetter reason]

def fromJson : Text → Except String PairingMessage
  | 'o' :: id => .ok (.offer id 1)
  | 's' :: hash => .ok (.sasConfirm hash)
  | 'p' :: c :: payload =>
      match [PayloadType.nsec, .bunker, .connect, .custom].find? (letter · == c) with
      | some payloadType => .ok (.payload payloadType payload)
      | none => .error "type"
  | ['c', 't'] => .ok (.complete true)
  | ['c', 'f'] => .ok (.complete false)
  | ['a', c] =>
      match [AbortReason.sasMismatch, .userDenied, .timeout, .protocolError, .unknown].find?
          (reasonLetter · == c) with
      | some reason => .ok (.abort reason)
      | none => .error "reason"
  | _ => .error "message"

/-- The frame of an encrypted text: as long as the shortest real one, with the shared key. -/
def frame (k : SecretKey) (p : PublicKey) : Text := List.replicate 132 '=' ++ hex64 (k ^^^ p)

/-- A key pair is one number; the shared key of two is their sum without carries. -/
def crypto : Crypto where
  publicKey := id
  generateSharedKey k p := .ok (k ^^^ p)
  hkdf32 salt ikm info := BitVec.ofNat 256 ((salt ++ ikm ++ info).map UInt8.toNat).sum
  encrypt k p text _ := .ok (frame k p ++ text)
  decrypt k p content :=
    if (frame k p).isPrefixOf content then .ok (content.drop (frame k p).length)
    else .error "invalid MAC"
  signWithKeys k builder aux := .ok
    { id := BitVec.ofNat 256 aux
      pubkey := k
      createdAt := builder.createdAt
      kind := builder.kind
      tags := builder.tags
      content := builder.content
      sig := k.setWidth 512 }
  verify event := if event.sig = event.pubkey.setWidth 512 then .ok () else .error "invalid signature"
  toJson := toJson
  fromJson := fromJson

theorem crypto_shares : crypto.Shares := fun keys peer _ _ _ => ⟨keys ^^^ peer, rfl⟩

/-- Randomness and clocks of one call. -/
def fresh (n : Nat) : Fresh :=
  { now := n, clock := 1700000000, jitter := 7, nonce := n, aux := n }

/-- A new source, and the code that it shows. -/
def source : PairingSession × QrPayload :=
  PairingSession.newSource crypto 5 9 "wss://r".toList 0

/-- The event with a message from one key to another. -/
def letterFrom (k : SecretKey) (p : PublicKey) (text : Text) (n : Nat) : Event where
  id := BitVec.ofNat 256 n
  pubkey := k
  createdAt := 1699999993
  kind := pairingKind
  tags := [⟨"p", [toHex p]⟩]
  content := frame k p ++ text
  sig := k.setWidth 512

def sessionId : BitVec 256 := crypto.deriveSessionId 9

/-- The offer of a target that has read the code. -/
def offer : Event := letterFrom 6 5 ('o' :: hex64 sessionId) 1

/-- The handlers that the source tries first. -/
def probes : List (Fresh × Op) :=
  [(fresh 2, .handleComplete offer), (fresh 3, .handleAbort offer),
    (fresh 4, .handleReturnPayload offer)]

/-- What the source answers to the offer after some calls. -/
def answer (calls : List (Fresh × Op)) : Option Reply :=
  match PairingSession.perform crypto (fresh 5) (.handleOffer offer)
      (Run.run (PairingSession.after crypto) source.1 calls) with
  | .ok reply _ => some reply
  | .error _ _ => none

end Toy

/-- An offer that three handlers refuse is accepted by the fourth. -/
theorem rejection_atomic_probed : Toy.answer Toy.probes = some (.sas "000000".toList) := by
  have hreachable : PairingSession.Reachable Toy.crypto Toy.source.1 := .source 5 9 _ 0
  have hrefused : Run.Along (PairingSession.Refused Toy.crypto) (PairingSession.after Toy.crypto)
      Toy.source.1 Toy.probes := by
    refine ⟨⟨_, _, rfl, rfl⟩, ⟨_, _, rfl, rfl⟩, ⟨_, _, rfl, rfl⟩, trivial⟩
  unfold Toy.answer
  rw [(PairingSession.rejection_atomic Toy.crypto_shares hreachable).2 Toy.probes hrefused]
  decide +kernel

end Pairing
end Core
end Maju
