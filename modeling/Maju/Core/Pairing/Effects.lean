import Maju.Core.Pairing.Session

/-!
# Effects — what an operation of a session can do

Every operation either is accepted, and then its guards held and it made one transition, or is
rejected, and then it changed nothing or aborted the session in one of the two ways that are meant.

* `Accepts` — the accepted operations, with their guards and the session they end in;
* `Rejects` — the rejected ones;
* `perform_outcome` — there are no others, given a shared key with every peer whose message could
  be decrypted and a short code in every target.
-/

namespace Maju
namespace Core
namespace Pairing

open Lib

/-- A peer whose message can be decrypted is one a shared key can be computed with. -/
def Crypto.Shares (crypto : Crypto) : Prop :=
  ∀ keys peer content text, crypto.decrypt keys peer content = .ok text →
    ∃ ecdh, crypto.generateSharedKey keys peer = .ok ecdh

/-- The accepted operations of a session. -/
inductive Accepts (crypto : Crypto) (fresh : Fresh) (s : PairingSession) :
    Op → Reply → PairingSession → Prop where
  | handleOffer {event : Event} {id : Text} {ecdh : BitVec 256} :
      s.state = .waiting → s.role = .source →
      s.validateEventBasics crypto event = .ok () →
      s.decryptMessage crypto event = .ok (.offer id 1) →
      decode32 id = some s.sessionId →
      crypto.generateSharedKey s.keys event.pubkey = .ok ecdh →
      Accepts crypto fresh s (.handleOffer event)
        (.sas (formatSas (crypto.deriveSas ecdh s.sessionSecret).1))
        { s with
          state := .confirming
          peerPubkey := some event.pubkey
          sasCode := some (crypto.deriveSas ecdh s.sessionSecret).1
          sasInput := some (crypto.deriveSas ecdh s.sessionSecret).2
          processedIds := insert event.id s.processedIds }
  | confirmSas {hash : BitVec 256} {event : Event} :
      s.state = .confirming → s.role = .source →
      s.sourceTranscriptHash crypto = .ok hash →
      s.buildEvent crypto fresh (.sasConfirm (hex64 hash)) = .ok event →
      Accepts crypto fresh s .confirmSas (.event event) { s with state := .transferring }
  | handleReturnPayload {event : Event} {payloadType : PayloadType} {payload : Text} :
      s.state = .transferring → s.role = .source →
      s.validateEventFromPeer crypto event = .ok () →
      s.decryptMessage crypto event = .ok (.payload payloadType payload) →
      Accepts crypto fresh s (.handleReturnPayload event) (.payload payloadType payload)
        { s with state := .payloadExchanged, processedIds := insert event.id s.processedIds }
  | sendSourceComplete {success : Bool} {event : Event} :
      s.state = .payloadExchanged → s.role = .source →
      s.buildEvent crypto fresh (.complete success) = .ok event →
      Accepts crypto fresh s (.sendSourceComplete success) (.event event)
        { s with state := if success then .completed else .aborted }
  | sendPayload {payloadType : PayloadType} {payload : Text} {event : Event} :
      s.state = .transferring → s.role = .source →
      s.buildEvent crypto fresh (.payload payloadType payload) = .ok event →
      Accepts crypto fresh s (.sendPayload payloadType payload) (.event event)
        { s with state := .payloadExchanged }
  | handleComplete {event : Event} :
      s.state = .payloadExchanged → s.role = .source →
      s.validateEventFromPeer crypto event = .ok () →
      s.decryptMessage crypto event = .ok (.complete true) →
      Accepts crypto fresh s (.handleComplete event) .done
        { s with state := .completed, processedIds := insert event.id s.processedIds }
  | handleSasConfirm {event : Event} {text : Text} {hash : BitVec 256} {code : Nat} :
      s.state = .confirming → s.role = .target →
      s.validateEventFromPeer crypto event = .ok () →
      s.decryptMessage crypto event = .ok (.sasConfirm text) →
      s.targetTranscriptHash crypto = .ok hash → decode32 text = some hash →
      s.sasCode = some code →
      Accepts crypto fresh s (.handleSasConfirm event) (.sas (formatSas code))
        { s with state := .awaitingConfirmation, processedIds := insert event.id s.processedIds }
  | confirmTargetSas :
      s.state = .awaitingConfirmation → s.role = .target →
      Accepts crypto fresh s .confirmTargetSas .done { s with state := .transferring }
  | handlePayload {event : Event} {payloadType : PayloadType} {payload : Text} :
      s.state = .transferring → s.role = .target →
      s.validateEventFromPeer crypto event = .ok () →
      s.decryptMessage crypto event = .ok (.payload payloadType payload) →
      Accepts crypto fresh s (.handlePayload event) (.payload payloadType payload)
        { s with state := .payloadExchanged, processedIds := insert event.id s.processedIds }
  | sendComplete {event : Event} :
      s.state = .payloadExchanged → s.role = .target →
      s.buildEvent crypto fresh (.complete true) = .ok event →
      Accepts crypto fresh s .sendComplete (.event event) { s with state := .completed }
  | abortAlone {reason : AbortReason} :
      s.state.isTerminal = false → s.peerPubkey = none →
      Accepts crypto fresh s (.abort reason) .done { s with state := .aborted }
  | abort {reason : AbortReason} {event : Event} :
      s.state.isTerminal = false →
      s.buildEvent crypto fresh (.abort reason) = .ok event →
      Accepts crypto fresh s (.abort reason) (.event event) { s with state := .aborted }
  | handleAbort {event : Event} {reason : AbortReason} :
      s.state.isTerminal = false →
      s.validateEventFromPeer crypto event = .ok () →
      s.decryptMessage crypto event = .ok (.abort reason) →
      Accepts crypto fresh s (.handleAbort event) (.aborted reason)
        { s with state := .aborted, processedIds := insert event.id s.processedIds }

/-- The rejected operations of a session. -/
inductive Rejects (crypto : Crypto) (s : PairingSession) :
    Op → PairingError → PairingSession → Prop where
  | unchanged {op : Op} {e : PairingError} : Rejects crypto s op e s
  | mismatch {event : Event} {text : Text} {hash : BitVec 256} :
      s.state = .confirming → s.role = .target →
      s.decryptMessage crypto event = .ok (.sasConfirm text) →
      s.targetTranscriptHash crypto = .ok hash → decode32 text ≠ some hash →
      Rejects crypto s (.handleSasConfirm event) .transcriptMismatch { s with state := .aborted }
  | failed {event : Event} :
      s.state = .payloadExchanged → s.role = .source →
      s.decryptMessage crypto event = .ok (.complete false) →
      Rejects crypto s (.handleComplete event)
        (.unexpectedMessage "complete(success=true)" "complete(success=false)")
        { s with state := .aborted }

namespace PairingSession

variable {crypto : Crypto} {s : PairingSession}

/-! ## Checks that pass -/

theorem state_of_expectState {st : SessionState} {u : Unit} (h : expectState st s = .ok u) :
    s.state = st := by
  unfold expectState at h
  split at h
  · cases h
  · next hstate => exact not_not.1 hstate

theorem role_of_expectRole {r : Role} {u : Unit} (h : expectRole r s = .ok u) : s.role = r := by
  unfold expectRole at h
  split at h
  · cases h
  · next hrole => exact not_not.1 hrole

theorem nonTerminal_of_expect {u : Unit} (h : expectNonTerminal s = .ok u) :
    s.state.isTerminal = false := by
  unfold expectNonTerminal at h
  split at h
  · cases h
  · next hstate => exact Bool.not_eq_true _ ▸ hstate

theorem offer_of_expectOffer {msg : PairingMessage} {u : Unit} (h : expectOffer msg s = .ok u) :
    ∃ id, msg = .offer id 1 ∧ decode32 id = some s.sessionId := by
  unfold expectOffer at h
  split at h
  · next id version =>
      split at h
      · cases h
      · next hversion =>
          split at h
          · cases h
          · next hid => exact ⟨id, by rw [not_not.1 hversion], not_not.1 hid⟩
  · cases h

theorem sasConfirm_of_expect {msg : PairingMessage} {text : Text}
    (h : expectSasConfirm msg = .ok text) : msg = .sasConfirm text := by
  unfold expectSasConfirm at h
  split at h
  · next hash => rw [Except.ok.inj h]
  · cases h

theorem payload_of_expect {msg : PairingMessage} {p : PayloadType × Text}
    (h : expectPayload msg = .ok p) : msg = .payload p.1 p.2 := by
  unfold expectPayload at h
  split at h
  · rw [← Except.ok.inj h]
  · cases h

theorem decrypt_of_decryptMessage {event : Event} {msg : PairingMessage}
    (h : s.decryptMessage crypto event = .ok msg) :
    ∃ text, crypto.decrypt s.keys event.pubkey event.content = .ok text ∧
      crypto.fromJson text = .ok msg := by
  unfold decryptMessage at h
  dsimp only at h
  split at h
  · cases h
  · split at h
    · cases h
    · next text htext =>
        split at h
        · cases h
        · cases hjson : crypto.fromJson text with
          | error e =>
              rw [hjson] at h
              cases h
          | ok msg' =>
              rw [hjson] at h
              have hmsg : msg' = msg := Except.ok.inj h
              exact ⟨text, htext, hmsg ▸ hjson⟩

/-! ## The outcome of each operation -/

variable {fresh : Fresh} {α : Type} {Q : α → PairingSession → Prop} {op : Op}

theorem outcome_guarded {st : SessionState} {r : Role} {k : Handler α}
    (h : s.state = st → s.role = r → Outcome k s Q (Rejects crypto s op)) :
    Outcome (do
      reads (checkExpired fresh.now)
      reads (expectState st)
      reads (expectRole r)
      k) s Q (Rejects crypto s op) := by
  refine Outcome.reads_bind (fun e _ => .unchanged) fun _ _ => ?_
  refine Outcome.reads_bind (fun e _ => .unchanged) fun _ hstate => ?_
  refine Outcome.reads_bind (fun e _ => .unchanged) fun _ hrole => ?_
  exact h (state_of_expectState hstate) (role_of_expectRole hrole)

theorem handleOffer_outcome (hshares : crypto.Shares) (event : Event) :
    Outcome (handleOffer crypto fresh event) s
      (fun code => Accepts crypto fresh s (.handleOffer event) (.sas code))
      (Rejects crypto s (.handleOffer event)) := by
  refine outcome_guarded fun hstate hrole => ?_
  refine Outcome.reads_bind (fun e _ => .unchanged) fun _ hvalid => ?_
  refine Outcome.reads_bind (fun e _ => .unchanged) fun msg hmsg => ?_
  refine Outcome.reads_bind (fun e _ => .unchanged) fun _ hoffer => ?_
  rcases offer_of_expectOffer hoffer with ⟨id, rfl, hid⟩
  -- the peer is locked here; the shared key cannot fail any more
  rcases decrypt_of_decryptMessage hmsg with ⟨text, htext, _⟩
  rcases hshares _ _ _ _ htext with ⟨ecdh, hecdh⟩
  have hshared : sharedKey crypto event.pubkey (lockPeer event.pubkey s) = .ok ecdh := by
    simp only [sharedKey, lockPeer, hecdh]
    rfl
  refine Outcome.modify_bind (Outcome.reads_bind (fun e he => ?_) fun ecdh' hecdh' => ?_)
  · rw [hshared] at he
    cases he
  · rw [hshared] at hecdh'
    cases hecdh'
    exact Accepts.handleOffer hstate hrole hvalid hmsg hid hecdh

theorem confirmSas_outcome :
    Outcome (confirmSas crypto fresh) s (fun event => Accepts crypto fresh s .confirmSas (.event event))
      (Rejects crypto s .confirmSas) := by
  refine outcome_guarded fun hstate hrole => ?_
  refine Outcome.reads_bind (fun e _ => .unchanged) fun hash hhash => ?_
  refine Outcome.reads_bind (fun e _ => .unchanged) fun event hevent => ?_
  exact Accepts.confirmSas hstate hrole hhash hevent

theorem handleReturnPayload_outcome (event : Event) :
    Outcome (handleReturnPayload crypto fresh event) s
      (fun p => Accepts crypto fresh s (.handleReturnPayload event) (.payload p.1 p.2))
      (Rejects crypto s (.handleReturnPayload event)) := by
  refine outcome_guarded fun hstate hrole => ?_
  refine Outcome.reads_bind (fun e _ => .unchanged) fun _ hvalid => ?_
  refine Outcome.reads_bind (fun e _ => .unchanged) fun msg hmsg => ?_
  refine Outcome.reads_bind (fun e _ => .unchanged) fun p hp => ?_
  rw [payload_of_expect hp] at hmsg
  exact Accepts.handleReturnPayload hstate hrole hvalid hmsg

theorem sendSourceComplete_outcome (success : Bool) :
    Outcome (sendSourceComplete crypto fresh success) s
      (fun event => Accepts crypto fresh s (.sendSourceComplete success) (.event event))
      (Rejects crypto s (.sendSourceComplete success)) := by
  refine outcome_guarded fun hstate hrole => ?_
  refine Outcome.reads_bind (fun e _ => .unchanged) fun event hevent => ?_
  exact Accepts.sendSourceComplete hstate hrole hevent

theorem sendPayload_outcome (payloadType : PayloadType) (payload : Text) :
    Outcome (sendPayload crypto fresh payloadType payload) s
      (fun event => Accepts crypto fresh s (.sendPayload payloadType payload) (.event event))
      (Rejects crypto s (.sendPayload payloadType payload)) := by
  refine outcome_guarded fun hstate hrole => ?_
  refine Outcome.reads_bind (fun e _ => .unchanged) fun event hevent => ?_
  exact Accepts.sendPayload hstate hrole hevent

theorem handleComplete_outcome (event : Event) :
    Outcome (handleComplete crypto fresh event) s
      (fun _ => Accepts crypto fresh s (.handleComplete event) .done)
      (Rejects crypto s (.handleComplete event)) := by
  refine outcome_guarded fun hstate hrole => ?_
  refine Outcome.reads_bind (fun e _ => .unchanged) fun _ hvalid => ?_
  refine Outcome.reads_bind (fun e _ => .unchanged) fun msg hmsg => ?_
  cases msg with
  | complete success =>
      cases success with
      | true => exact Accepts.handleComplete hstate hrole hvalid hmsg
      | false => exact Rejects.failed hstate hrole hmsg
  | offer id version => exact Rejects.unchanged
  | sasConfirm hash => exact Rejects.unchanged
  | payload payloadType payload => exact Rejects.unchanged
  | abort reason => exact Rejects.unchanged

theorem handleSasConfirm_outcome (hsas : s.role = .target → s.sasCode.isSome) (event : Event) :
    Outcome (handleSasConfirm crypto fresh event) s
      (fun code => Accepts crypto fresh s (.handleSasConfirm event) (.sas code))
      (Rejects crypto s (.handleSasConfirm event)) := by
  refine outcome_guarded fun hstate hrole => ?_
  refine Outcome.reads_bind (fun e _ => .unchanged) fun _ hvalid => ?_
  refine Outcome.reads_bind (fun e _ => .unchanged) fun msg hmsg => ?_
  refine Outcome.reads_bind (fun e _ => .unchanged) fun text htext => ?_
  refine Outcome.reads_bind (fun e _ => .unchanged) fun hash hhash => ?_
  rw [sasConfirm_of_expect htext] at hmsg
  rcases Option.isSome_iff_exists.1 (hsas hrole) with ⟨code, hcode⟩
  split
  · next hmatch =>
      -- the state and the record are written before the code is read
      refine Outcome.modify_bind (Outcome.modify_bind (Outcome.reads_bind (fun e he => ?_)
        fun code' hcode' => ?_))
      · simp only [recordEvent, setState, hcode] at he
        cases he
      · simp only [recordEvent, setState, hcode] at hcode'
        cases hcode'
        exact Accepts.handleSasConfirm hstate hrole hvalid hmsg hhash hmatch hcode
  · next hmatch => exact Rejects.mismatch hstate hrole hmsg hhash hmatch

theorem confirmTargetSas_outcome :
    Outcome (confirmTargetSas fresh) s (fun _ => Accepts crypto fresh s .confirmTargetSas .done)
      (Rejects crypto s .confirmTargetSas) :=
  outcome_guarded fun hstate hrole => Accepts.confirmTargetSas hstate hrole

theorem handlePayload_outcome (event : Event) :
    Outcome (handlePayload crypto fresh event) s
      (fun p => Accepts crypto fresh s (.handlePayload event) (.payload p.1 p.2))
      (Rejects crypto s (.handlePayload event)) := by
  refine outcome_guarded fun hstate hrole => ?_
  refine Outcome.reads_bind (fun e _ => .unchanged) fun _ hvalid => ?_
  refine Outcome.reads_bind (fun e _ => .unchanged) fun msg hmsg => ?_
  refine Outcome.reads_bind (fun e _ => .unchanged) fun p hp => ?_
  rw [payload_of_expect hp] at hmsg
  exact Accepts.handlePayload hstate hrole hvalid hmsg

theorem sendComplete_outcome :
    Outcome (sendComplete crypto fresh) s
      (fun event => Accepts crypto fresh s .sendComplete (.event event))
      (Rejects crypto s .sendComplete) := by
  refine outcome_guarded fun hstate hrole => ?_
  refine Outcome.reads_bind (fun e _ => .unchanged) fun event hevent => ?_
  exact Accepts.sendComplete hstate hrole hevent

theorem abort_outcome (reason : AbortReason) :
    Outcome (abort crypto fresh reason) s
      (fun event => Accepts crypto fresh s (.abort reason) (event.elim .done .event))
      (Rejects crypto s (.abort reason)) := by
  refine Outcome.reads_bind (fun e _ => .unchanged) fun _ hstate => ?_
  refine Outcome.reads_bind (fun e _ => .unchanged) fun event hevent => ?_
  have hnonterminal := nonTerminal_of_expect hstate
  cases hpeer : s.peerPubkey with
  | none =>
      rw [hpeer] at hevent
      cases hevent
      exact Accepts.abortAlone hnonterminal hpeer
  | some peer =>
      rw [hpeer] at hevent
      dsimp only at hevent
      cases hbuild : s.buildEvent crypto fresh (.abort reason) with
      | error e =>
          rw [hbuild] at hevent
          cases hevent
      | ok built =>
          rw [hbuild] at hevent
          cases hevent
          exact Accepts.abort hnonterminal hbuild

theorem handleAbort_outcome (event : Event) :
    Outcome (handleAbort crypto event) s
      (fun reason => Accepts crypto fresh s (.handleAbort event) (.aborted reason))
      (Rejects crypto s (.handleAbort event)) := by
  refine Outcome.reads_bind (fun e _ => .unchanged) fun _ hstate => ?_
  refine Outcome.reads_bind (fun e _ => .unchanged) fun _ _ => ?_
  refine Outcome.reads_bind (fun e _ => .unchanged) fun _ hvalid => ?_
  refine Outcome.reads_bind (fun e _ => .unchanged) fun msg hmsg => ?_
  cases msg with
  | abort reason => exact Accepts.handleAbort (nonTerminal_of_expect hstate) hvalid hmsg
  | offer id version => exact Rejects.unchanged
  | sasConfirm hash => exact Rejects.unchanged
  | payload payloadType payload => exact Rejects.unchanged
  | complete success => exact Rejects.unchanged

/-- An operation is accepted or rejected in one of the listed ways. -/
theorem perform_outcome (hshares : crypto.Shares) (hsas : s.role = .target → s.sasCode.isSome)
    (fresh : Fresh) (op : Op) :
    Outcome (perform crypto fresh op) s (Accepts crypto fresh s op) (Rejects crypto s op) := by
  cases op with
  | handleOffer event => exact (handleOffer_outcome hshares event).map
  | confirmSas => exact confirmSas_outcome.map
  | handleReturnPayload event => exact (handleReturnPayload_outcome event).map
  | sendSourceComplete success => exact (sendSourceComplete_outcome success).map
  | sendPayload payloadType payload => exact (sendPayload_outcome payloadType payload).map
  | handleComplete event => exact (handleComplete_outcome event).map
  | handleSasConfirm event => exact (handleSasConfirm_outcome hsas event).map
  | confirmTargetSas => exact confirmTargetSas_outcome.map
  | handlePayload event => exact (handlePayload_outcome event).map
  | sendComplete => exact sendComplete_outcome.map
  | abort reason => exact (abort_outcome reason).map
  | handleAbort event => exact (handleAbort_outcome event).map

end PairingSession

end Pairing
end Core
end Maju
