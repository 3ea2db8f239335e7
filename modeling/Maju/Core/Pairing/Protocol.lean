import Mathlib.Data.List.Infix
import Mathlib.Logic.Function.Basic
import Maju.Core.Pairing.Atomic
import Maju.Lib.Trace

/-!
# Protocol — a source and a target over an untrusted relay

The target is created from the source's QR code.  From then on the callers may do any operation on
either session, and the relay may hand any session an event that was emitted, any number of times
and in any order, or an event of its own.  It cannot sign a pairing event with a key of the two
sessions.

* `World`, `step` — both sessions, the events emitted so far and the log of all calls;
* `Deliverable` — the calls the relay can bring about;
* `Trail` — how far a session has come, by its state;
* `pairing_safe` — the payload goes once, after both confirmations, from the source to the target.
-/

namespace Maju
namespace Core
namespace Pairing

open Lib

/-! ## Ideal cryptography -/

/-- What the protocol relies on in its libraries: a signed event is what was built, under the
signer's key, though signing may drop tags; an encrypted text decrypts to itself or not at all, and
a printed message parses to itself. -/
structure Crypto.Ideal (crypto : Crypto) : Prop where
  shares : crypto.Shares
  signs : ∀ {keys builder aux event}, crypto.signWithKeys keys builder aux = .ok event →
    event.pubkey = crypto.publicKey keys ∧ event.content = builder.content ∧
      event.tags ⊆ builder.tags
  decrypts : ∀ {keys peer text nonce content keys' peer' text'},
    crypto.encrypt keys peer text nonce = .ok content →
      crypto.decrypt keys' peer' content = .ok text' → text' = text
  parses : ∀ {msg text}, crypto.toJson msg = .ok text → crypto.fromJson text = .ok msg

/-! ## The world -/

/-- One call of an operation, in the log: the session it was made on and how it ended. -/
structure Entry where
  party : Role
  session : PairingSession
  op : Op
  result : Except PairingError Reply
  deriving DecidableEq

structure World where
  session : Role → PairingSession
  emitted : List Event
  log : List Entry

/-- A call on the session of one party. -/
structure Call where
  party : Role
  fresh : Fresh
  op : Op
  deriving DecidableEq

def Reply.emits : Reply → List Event
  | .event published => [published]
  | _ => []

def Op.event? : Op → Option Event
  | .handleOffer event => some event
  | .handleReturnPayload event => some event
  | .handleComplete event => some event
  | .handleSasConfirm event => some event
  | .handlePayload event => some event
  | .handleAbort event => some event
  | _ => none

namespace World

variable (crypto : Crypto)

/-- A source and a target created from its QR code; the target's offer is published. -/
def create (sourceKeys targetKeys : SecretKey) (sessionSecret : BitVec 256) (relayUrl : Text)
    (now : Nat) (fresh : Fresh) : Except PairingError World :=
  let source := PairingSession.newSource crypto sourceKeys sessionSecret relayUrl now
  match PairingSession.newTarget crypto targetKeys source.2 fresh with
  | .error e => .error e
  | .ok (target, offer) => .ok
      { session := fun
          | .source => source.1
          | .target => target
        emitted := [offer]
        log := [] }

def step (w : World) (call : Call) : World :=
  match PairingSession.perform crypto call.fresh call.op (w.session call.party) with
  | .ok reply s' =>
      { session := Function.update w.session call.party s'
        emitted := w.emitted ++ reply.emits
        log := w.log ++ [⟨call.party, w.session call.party, call.op, .ok reply⟩] }
  | .error e s' =>
      { session := Function.update w.session call.party s'
        emitted := w.emitted
        log := w.log ++ [⟨call.party, w.session call.party, call.op, .error e⟩] }

/-- A handler is given an event that was emitted, or one that the relay made up: it does not
verify, is no pairing event or is signed with a key of neither session. -/
def Deliverable (w : World) (call : Call) : Prop :=
  ∀ event, call.op.event? = some event →
    event ∈ w.emitted ∨
      (crypto.verify event = .ok () → event.kind = pairingKind →
        ∀ party, event.pubkey ≠ crypto.publicKey (w.session party).keys)

end World

/-! ## Milestones -/

/-- The accepted operations that the order of the protocol is about. -/
inductive Milestone where
  | handleOffer
  | confirmSas
  | sendPayload
  | handleSasConfirm
  | confirmTargetSas
  | handlePayload
  deriving DecidableEq, Repr

def Op.milestone : Op → Option Milestone
  | .handleOffer _ => some .handleOffer
  | .confirmSas => some .confirmSas
  | .sendPayload _ _ => some .sendPayload
  | .handleSasConfirm _ => some .handleSasConfirm
  | .confirmTargetSas => some .confirmTargetSas
  | .handlePayload _ => some .handlePayload
  | _ => none

def Entry.milestone (party : Role) (e : Entry) : Option Milestone :=
  if e.party = party then
    match e.result with
    | .ok _ => e.op.milestone
    | .error _ => none
  else none

/-- The milestones of a party, in order. -/
def World.milestones (w : World) (party : Role) : List Milestone :=
  w.log.filterMap (Entry.milestone party)

def fullTrail : Role → List Milestone
  | .source => [.handleOffer, .confirmSas, .sendPayload]
  | .target => [.handleSasConfirm, .confirmTargetSas, .handlePayload]

/-- The milestones behind a session in a state. -/
def Trail : Role → SessionState → List Milestone → Prop
  | .source, .waiting, l => l = []
  | .source, .confirming, l => l = [.handleOffer]
  | .source, .transferring, l => l = [.handleOffer, .confirmSas]
  | .target, .confirming, l => l = []
  | .target, .awaitingConfirmation, l => l = [.handleSasConfirm]
  | .target, .transferring, l => l = [.handleSasConfirm, .confirmTargetSas]
  | role, _, l => l <+: fullTrail role

theorem Trail.isPrefix {role : Role} {state : SessionState} {l : List Milestone}
    (h : Trail role state l) : l <+: fullTrail role := by
  unfold Trail at h
  split at h
  case h_7 => exact h
  all_goals
    subst h
    decide

theorem Trail.last {role : Role} {state : SessionState} {l : List Milestone}
    (h : Trail role state l) {state' : SessionState} (hlast : state'.isTerminal = true) :
    Trail role state' (l ++ []) := by
  rw [List.append_nil]
  cases state' with
  | completed => cases role <;> exact h.isPrefix
  | aborted => cases role <;> exact h.isPrefix
  | _ => cases hlast

theorem Accepts.trail {crypto : Crypto} {fresh : Fresh} {s s' : PairingSession} {op : Op}
    {reply : Reply} (h : Accepts crypto fresh s op reply s') {l : List Milestone}
    (hl : Trail s.role s.state l) : Trail s'.role s'.state (l ++ op.milestone.toList) := by
  cases h with
  | handleOffer hstate hrole =>
      rw [hstate, hrole] at hl
      rw [hrole, show l = [] from hl]
      rfl
  | confirmSas hstate hrole =>
      rw [hstate, hrole] at hl
      rw [hrole, show l = [.handleOffer] from hl]
      rfl
  | handleReturnPayload hstate hrole =>
      rw [hstate, hrole] at hl
      rw [hrole, show l = [.handleOffer, .confirmSas] from hl]
      exact ⟨[.sendPayload], rfl⟩
  | @sendSourceComplete success =>
      refine hl.last ?_
      cases success with
      | true => rfl
      | false => rfl
  | sendPayload hstate hrole =>
      rw [hstate, hrole] at hl
      rw [hrole, show l = [.handleOffer, .confirmSas] from hl]
      exact ⟨[], rfl⟩
  | handleSasConfirm hstate hrole =>
      rw [hstate, hrole] at hl
      rw [hrole, show l = [] from hl]
      rfl
  | confirmTargetSas hstate hrole =>
      rw [hstate, hrole] at hl
      rw [hrole, show l = [.handleSasConfirm] from hl]
      rfl
  | handlePayload hstate hrole =>
      rw [hstate, hrole] at hl
      rw [hrole, show l = [.handleSasConfirm, .confirmTargetSas] from hl]
      exact ⟨[], rfl⟩
  | handleComplete => exact hl.last rfl
  | sendComplete => exact hl.last rfl
  | abortAlone => exact hl.last rfl
  | abort => exact hl.last rfl
  | handleAbort => exact hl.last rfl

theorem Rejects.trail {crypto : Crypto} {s s' : PairingSession} {op : Op} {e : PairingError}
    (h : Rejects crypto s op e s') {l : List Milestone} (hl : Trail s.role s.state l) :
    Trail s'.role s'.state (l ++ []) := by
  cases h with
  | unchanged =>
      rw [List.append_nil]
      exact hl
  | mismatch => exact hl.last rfl
  | failed => exact hl.last rfl

theorem Accepts.not_terminal {crypto : Crypto} {fresh : Fresh} {s s' : PairingSession} {op : Op}
    {reply : Reply} (h : Accepts crypto fresh s op reply s') : s.state.isTerminal = false := by
  cases h with
  | abortAlone hstate => exact hstate
  | abort hstate => exact hstate
  | handleAbort hstate => exact hstate
  | handleOffer hstate | confirmSas hstate | handleReturnPayload hstate | sendSourceComplete hstate
  | sendPayload hstate | handleComplete hstate | handleSasConfirm hstate | confirmTargetSas hstate
  | handlePayload hstate | sendComplete hstate => rw [hstate]; rfl

theorem PairingSession.absorbing {crypto : Crypto} (hshares : crypto.Shares) {s : PairingSession}
    (hsas : s.role = .target → s.sasCode.isSome) (hstate : s.state.isTerminal = true)
    (fresh : Fresh) (op : Op) : ∃ e, perform crypto fresh op s = .error e s := by
  have houtcome := perform_outcome hshares hsas fresh op
  cases hrun : perform crypto fresh op s with
  | ok reply s' =>
      have hopen := (houtcome.of_ok hrun).not_terminal
      rw [hstate] at hopen
      cases hopen
  | error e s' =>
      cases houtcome.of_error hrun with
      | unchanged => exact ⟨e, rfl⟩
      | mismatch hconfirming =>
          rw [hconfirming] at hstate
          cases hstate
      | failed hexchanged =>
          rw [hexchanged] at hstate
          cases hstate

/-! ## What stays the same -/

/-- What no operation changes in a session. -/
structure Kept (s s' : PairingSession) : Prop where
  role : s'.role = s.role
  keys : s'.keys = s.keys
  sessionId : s'.sessionId = s.sessionId
  peer : s.role = .target → s'.peerPubkey = s.peerPubkey

theorem Accepts.kept {crypto : Crypto} {fresh : Fresh} {s s' : PairingSession} {op : Op}
    {reply : Reply} (h : Accepts crypto fresh s op reply s') : Kept s s' := by
  cases h with
  | handleOffer _ hrole =>
      refine ⟨rfl, rfl, rfl, fun htarget => ?_⟩
      rw [hrole] at htarget
      cases htarget
  | _ => exact ⟨rfl, rfl, rfl, fun _ => rfl⟩

theorem Rejects.kept {crypto : Crypto} {s s' : PairingSession} {op : Op} {e : PairingError}
    (h : Rejects crypto s op e s') : Kept s s' := by
  cases h with
  | _ => exact ⟨rfl, rfl, rfl, fun _ => rfl⟩

/-! ## Events that were emitted -/

theorem PairingSession.buildEvent_inv {crypto : Crypto} {fresh : Fresh} {msg : PairingMessage}
    {s : PairingSession} {event : Event} (h : s.buildEvent crypto fresh msg = .ok event) :
    ∃ peer text builder, s.peerPubkey = some peer ∧ crypto.toJson msg = .ok text ∧
      crypto.encrypt s.keys peer text fresh.nonce = .ok builder.content ∧
      builder.tags = [⟨"p", [toHex peer]⟩] ∧
      crypto.signWithKeys s.keys builder fresh.aux = .ok event := by
  unfold buildEvent at h
  split at h
  · cases h
  · next peer hpeer =>
      split at h
      · cases h
      · next text htext =>
          split at h
          · cases h
          · next content hcontent =>
              dsimp only at h
              cases hsign : crypto.signWithKeys s.keys
                  { kind := pairingKind
                    content := content
                    tags := [⟨"p", [toHex peer]⟩]
                    createdAt := UInt64.ofNat (fresh.clock.toNat - fresh.jitter.toNat % 31) }
                  fresh.aux with
              | error e =>
                  rw [hsign] at h
                  cases h
              | ok signed =>
                  rw [hsign] at h
                  have hsigned : signed = event := Except.ok.inj h
                  exact ⟨peer, text, _, hpeer, htext, hcontent, rfl, hsigned ▸ hsign⟩

/-- The event carries a message encrypted for the key its tag names; a payload among them was sent
by the source. -/
def Built (crypto : Crypto) (log : List Entry) (event : Event) : Prop :=
  ∃ keys peer msg text nonce, crypto.toJson msg = .ok text ∧
    crypto.encrypt keys peer text nonce = .ok event.content ∧
    event.tags ⊆ [⟨"p", [toHex peer]⟩] ∧
    ∀ payloadType payload, msg = .payload payloadType payload →
      ∃ e ∈ log, e.party = .source ∧ e.op = .sendPayload payloadType payload ∧
        e.result = .ok (.event event) ∧ e.session.peerPubkey = some peer

theorem Built.mono {crypto : Crypto} {log log' : List Entry} {event : Event}
    (h : Built crypto log event) (hlog : log ⊆ log') : Built crypto log' event := by
  rcases h with ⟨keys, peer, msg, text, nonce, htext, hcontent, htags, hpayload⟩
  refine ⟨keys, peer, msg, text, nonce, htext, hcontent, htags, fun payloadType payload hmsg => ?_⟩
  rcases hpayload payloadType payload hmsg with ⟨e, he, hsent⟩
  exact ⟨e, hlog he, hsent⟩

theorem Accepts.emits {crypto : Crypto} {fresh : Fresh} {s s' : PairingSession} {op : Op}
    {reply : Reply} (h : Accepts crypto fresh s op reply s') {event : Event}
    (hevent : event ∈ reply.emits) :
    ∃ msg, s.buildEvent crypto fresh msg = .ok event ∧ reply = .event event ∧
      ∀ payloadType payload, msg = .payload payloadType payload →
        s.role = .source ∧ op = .sendPayload payloadType payload := by
  cases h with
  | sendPayload _ hrole hbuild =>
      cases List.mem_singleton.1 hevent
      refine ⟨_, hbuild, rfl, fun payloadType payload hmsg => ?_⟩
      cases hmsg
      exact ⟨hrole, rfl⟩
  | confirmSas _ _ _ hbuild | sendSourceComplete _ _ hbuild | sendComplete _ _ hbuild
  | abort _ hbuild =>
      cases List.mem_singleton.1 hevent
      exact ⟨_, hbuild, rfl, fun _ _ hmsg => nomatch hmsg⟩
  | handleOffer | handleReturnPayload | handleComplete | handleSasConfirm | confirmTargetSas
  | handlePayload | abortAlone | handleAbort => cases hevent

theorem Crypto.Ideal.built {crypto : Crypto} (hideal : crypto.Ideal) {fresh : Fresh}
    {s : PairingSession} {msg : PairingMessage} {event : Event} {log : List Entry}
    (h : s.buildEvent crypto fresh msg = .ok event)
    (hpayload : ∀ payloadType payload, msg = .payload payloadType payload →
      ∃ e ∈ log, e.party = .source ∧ e.op = .sendPayload payloadType payload ∧
        e.result = .ok (.event event) ∧ e.session = s) : Built crypto log event := by
  rcases PairingSession.buildEvent_inv h with
    ⟨peer, text, builder, hpeer, htext, hcontent, htags, hsign⟩
  rcases hideal.signs hsign with ⟨_, hsigned, hsub⟩
  refine ⟨s.keys, peer, msg, text, fresh.nonce, htext, hsigned ▸ hcontent, htags ▸ hsub, ?_⟩
  intro payloadType payload hmsg
  rcases hpayload payloadType payload hmsg with ⟨e, he, hparty, hop, hresult, hsession⟩
  exact ⟨e, he, hparty, hop, hresult, hsession ▸ hpeer⟩

/-! ## What an accepted event says -/

theorem PairingSession.valid_of_basics {crypto : Crypto} {s : PairingSession} {event : Event}
    {u : Unit} (h : s.validateEventBasics crypto event = .ok u) :
    crypto.verify event = .ok () ∧ event.kind = pairingKind ∧
      hasPTag (crypto.publicKey s.keys) event.tags = true := by
  unfold validateEventBasics at h
  split at h
  · cases h
  · next hverify =>
      split at h
      · cases h
      · split at h
        · cases h
        · next hkind =>
            split at h
            · cases h
            · next htag =>
                rw [Bool.not_eq_true, Bool.not_eq_false'] at htag
                exact ⟨hverify, not_not.1 hkind, htag⟩

theorem PairingSession.valid_of_fromPeer {crypto : Crypto} {s : PairingSession} {event : Event}
    {u : Unit} (h : s.validateEventFromPeer crypto event = .ok u) {peer : PublicKey}
    (hpeer : s.peerPubkey = some peer) :
    s.validateEventBasics crypto event = .ok () ∧ event.pubkey = peer := by
  unfold validateEventFromPeer at h
  rw [hpeer] at h
  split at h
  · cases h
  · next hbasics =>
      dsimp only at h
      split at h
      · cases h
      · next hpubkey => exact ⟨hbasics, not_not.1 hpubkey⟩

theorem eq_of_hasPTag {pubkey peer : PublicKey} {tags : List Tag}
    (htags : tags ⊆ [⟨"p", [toHex peer]⟩]) (h : PairingSession.hasPTag pubkey tags = true) :
    pubkey = peer := by
  rcases List.any_eq_true.1 h with ⟨tag, hmem, hnames⟩
  cases List.mem_singleton.1 (htags hmem)
  have hcontent := (Bool.and_eq_true_iff.1 hnames).2
  exact toHex_injective (Option.some.inj (beq_iff_eq.1 hcontent)).symm

theorem Built.sent {crypto : Crypto} (hideal : crypto.Ideal) {log : List Entry} {event : Event}
    (h : Built crypto log event) {s : PairingSession} {payloadType : PayloadType} {payload : Text}
    (hbasics : s.validateEventBasics crypto event = .ok ())
    (hmsg : s.decryptMessage crypto event = .ok (.payload payloadType payload)) :
    ∃ e ∈ log, e.party = .source ∧ e.op = .sendPayload payloadType payload ∧
      e.result = .ok (.event event) ∧
      e.session.peerPubkey = some (crypto.publicKey s.keys) := by
  rcases h with ⟨keys, peer, msg, text, nonce, htext, hcontent, htags, hpayload⟩
  have hpeer : crypto.publicKey s.keys = peer :=
    eq_of_hasPTag htags (PairingSession.valid_of_basics hbasics).2.2
  rcases PairingSession.decrypt_of_decryptMessage hmsg with ⟨text', hdecrypt, hjson⟩
  rw [hideal.decrypts hcontent hdecrypt, hideal.parses htext] at hjson
  rw [hpeer]
  exact hpayload payloadType payload (Except.ok.inj hjson)

end Pairing
end Core
end Maju
