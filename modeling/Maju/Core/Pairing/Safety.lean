import Maju.Core.Pairing.Protocol

/-!
# Safety — where the payload goes

In every run of a source and its target over an untrusted relay, each party passes its milestones
in order and at most once, and what the target accepts is what the source sent to it.

* `Sound` — what stands behind an accepted offer, confirmation and payload;
* `World.Inv` — the invariant of a run;
* `pairing_safe` — the safety of the protocol.
-/

namespace Maju
namespace Core
namespace Pairing

open Lib

/-- What stands behind an entry of the log, given the entries before it: an accepted offer carried
the session id, an accepted confirmation the target's own transcript hash, and an accepted payload
is one that the source sent, in this event, to the target's key. -/
structure Sound (crypto : Crypto) (sessionSecret : BitVec 256) (targetKeys : SecretKey)
    (before : List Entry) (e : Entry) : Prop where
  offer : ∀ event reply, e.op = .handleOffer event → e.result = .ok reply →
    ∃ id, e.session.decryptMessage crypto event = .ok (.offer id 1) ∧
      decode32 id = some (crypto.deriveSessionId sessionSecret)
  sasConfirm : ∀ event reply, e.op = .handleSasConfirm event → e.result = .ok reply →
    ∃ text hash, e.session.decryptMessage crypto event = .ok (.sasConfirm text) ∧
      e.session.targetTranscriptHash crypto = .ok hash ∧ decode32 text = some hash
  payload : ∀ event reply, e.op = .handlePayload event → e.result = .ok reply →
    ∃ payloadType payload, reply = .payload payloadType payload ∧
      ∃ sent ∈ before, sent.party = .source ∧ sent.op = .sendPayload payloadType payload ∧
        sent.result = .ok (.event event) ∧
        sent.session.peerPubkey = some (crypto.publicKey targetKeys)

theorem Sound.of_error {crypto : Crypto} {sessionSecret : BitVec 256} {targetKeys : SecretKey}
    {before : List Entry} {e : Entry} {error : PairingError} (h : e.result = .error error) :
    Sound crypto sessionSecret targetKeys before e := by
  constructor
  all_goals
    intro event reply _ hok
    rw [h] at hok
    cases hok

namespace World

variable {crypto : Crypto} {sourceKeys targetKeys : SecretKey} {sessionSecret : BitVec 256}
variable {w : World}

def keysOf (sourceKeys targetKeys : SecretKey) : Role → SecretKey
  | .source => sourceKeys
  | .target => targetKeys

/-- The invariant of a run. -/
structure Inv (crypto : Crypto) (sourceKeys targetKeys : SecretKey) (sessionSecret : BitVec 256)
    (w : World) : Prop where
  role : ∀ party, (w.session party).role = party
  keys : ∀ party, (w.session party).keys = keysOf sourceKeys targetKeys party
  sessionId : ∀ party, (w.session party).sessionId = crypto.deriveSessionId sessionSecret
  sas : ∀ party, (w.session party).role = .target → (w.session party).sasCode.isSome
  peer : (w.session .target).peerPubkey = some (crypto.publicKey sourceKeys)
  trail : ∀ party, Trail party (w.session party).state (w.milestones party)
  built : ∀ event ∈ w.emitted, Built crypto w.log event
  sound : AtEach (Sound crypto sessionSecret targetKeys) w.log

/-! ## One step -/

theorem milestones_concat (log : List Entry) (e : Entry) (party : Role) :
    (log ++ [e]).filterMap (Entry.milestone party) =
      log.filterMap (Entry.milestone party) ++ (e.milestone party).toList := by
  rw [List.filterMap_append]
  cases hm : e.milestone party with
  | none => simp [hm]
  | some m => simp [hm]

theorem forall_update {P : Role → PairingSession → Prop} (h : ∀ party, P party (w.session party))
    {party : Role} {s' : PairingSession} (hs' : P party s') (other : Role) :
    P other (Function.update w.session party s' other) := by
  by_cases hparty : other = party
  · subst hparty
    rw [Function.update_self]
    exact hs'
  · rw [Function.update_of_ne hparty]
    exact h other

theorem Inv.constants (h : Inv crypto sourceKeys targetKeys sessionSecret w) {party : Role}
    {s' : PairingSession} (hkept : Kept (w.session party) s')
    (hsas : s'.role = .target → s'.sasCode.isSome) :
    (∀ other, (Function.update w.session party s' other).role = other) ∧
    (∀ other, (Function.update w.session party s' other).keys =
      keysOf sourceKeys targetKeys other) ∧
    (∀ other, (Function.update w.session party s' other).sessionId =
      crypto.deriveSessionId sessionSecret) ∧
    (∀ other, (Function.update w.session party s' other).role = .target →
      (Function.update w.session party s' other).sasCode.isSome) ∧
    (Function.update w.session party s' .target).peerPubkey =
      some (crypto.publicKey sourceKeys) := by
  refine ⟨?_, ?_, ?_, ?_, ?_⟩
  · exact forall_update (P := fun other s => s.role = other) h.role
      (hkept.role.trans (h.role party))
  · exact forall_update (P := fun other s => s.keys = keysOf sourceKeys targetKeys other) h.keys
      (hkept.keys.trans (h.keys party))
  · exact forall_update (P := fun _ s => s.sessionId = crypto.deriveSessionId sessionSecret)
      h.sessionId (hkept.sessionId.trans (h.sessionId party))
  · exact forall_update (P := fun _ s => s.role = .target → s.sasCode.isSome) h.sas hsas
  · refine forall_update
      (P := fun other s => other = .target → s.peerPubkey = some (crypto.publicKey sourceKeys))
      ?_ ?_ .target rfl
    · rintro _ rfl
      exact h.peer
    · rintro rfl
      exact (hkept.peer (h.role .target)).trans h.peer

theorem Inv.sound_entry (hideal : crypto.Ideal)
    (h : Inv crypto sourceKeys targetKeys sessionSecret w) {call : Call}
    (hdeliver : w.Deliverable crypto call) {reply : Reply} {s' : PairingSession}
    (haccepts : Accepts crypto call.fresh (w.session call.party) call.op reply s') :
    Sound crypto sessionSecret targetKeys w.log
      ⟨call.party, w.session call.party, call.op, .ok reply⟩ := by
  rcases call with ⟨party, fresh, op⟩
  constructor
  · rintro event _ rfl _
    cases haccepts with
    | handleOffer _ _ _ hmsg hid =>
        rw [h.sessionId party] at hid
        exact ⟨_, hmsg, hid⟩
  · rintro event _ rfl _
    cases haccepts with
    | handleSasConfirm _ _ _ hmsg hhash hmatch => exact ⟨_, _, hmsg, hhash, hmatch⟩
  · rintro event reply' rfl hreply
    cases hreply
    cases haccepts with
    | handlePayload _ hrole hvalid hmsg =>
        have hparty : party = .target := (h.role party).symm.trans hrole
        subst hparty
        rcases PairingSession.valid_of_fromPeer hvalid h.peer with ⟨hbasics, hpubkey⟩
        rcases PairingSession.valid_of_basics hbasics with ⟨hverify, hkind, _⟩
        -- the event claims the source's key, so the relay cannot have made it up
        rcases hdeliver event rfl with hemitted | hforeign
        · have hsent := (h.built event hemitted).sent hideal hbasics hmsg
          rw [h.keys .target] at hsent
          exact ⟨_, _, rfl, hsent⟩
        · have hkey := hforeign hverify hkind .source
          rw [h.keys .source] at hkey
          exact absurd hpubkey hkey

theorem Inv.trail_concat (h : Inv crypto sourceKeys targetKeys sessionSecret w) {party : Role}
    {s' : PairingSession} {op : Op} {result : Except PairingError Reply} {m : Option Milestone}
    (hm : Entry.milestone party ⟨party, w.session party, op, result⟩ = m)
    (hs' : Trail party s'.state (w.milestones party ++ m.toList)) (other : Role) :
    Trail other (Function.update w.session party s' other).state
      (List.filterMap (Entry.milestone other)
        (w.log ++ [⟨party, w.session party, op, result⟩])) := by
  rw [milestones_concat]
  by_cases hparty : other = party
  · subst hparty
    rw [Function.update_self, hm]
    exact hs'
  · have hnone : Entry.milestone other ⟨party, w.session party, op, result⟩ = none :=
      if_neg (Ne.symm hparty)
    rw [Function.update_of_ne hparty, hnone]
    exact (List.append_nil _).symm ▸ h.trail other

theorem Inv.step (hideal : crypto.Ideal) (h : Inv crypto sourceKeys targetKeys sessionSecret w)
    {call : Call} (hdeliver : w.Deliverable crypto call) :
    Inv crypto sourceKeys targetKeys sessionSecret (w.step crypto call) := by
  have hsas := h.sas call.party
  have houtcome := PairingSession.perform_outcome hideal.shares hsas call.fresh call.op
  have htrail : Trail (w.session call.party).role (w.session call.party).state
      (w.milestones call.party) := by
    rw [h.role]
    exact h.trail call.party
  unfold World.step
  split
  · next reply s' hrun =>
      have haccepts := houtcome.of_ok hrun
      rcases h.constants haccepts.kept (PairingSession.sasCode_of_accepts haccepts hsas) with
        ⟨hrole, hkeys, hsession, hcode, hpeer⟩
      refine ⟨hrole, hkeys, hsession, hcode, hpeer, ?_, ?_, ?_⟩
      · refine h.trail_concat (if_pos rfl) ?_
        have hnext := haccepts.trail htrail
        rwa [haccepts.kept.role, h.role] at hnext
      · intro event hevent
        rcases List.mem_append.1 hevent with hold | hnew
        · exact (h.built event hold).mono (List.subset_append_left _ _)
        · rcases haccepts.emits hnew with ⟨msg, hbuild, hreply, hpayload⟩
          refine hideal.built hbuild fun payloadType payload hmsg => ?_
          rcases hpayload payloadType payload hmsg with ⟨hsource, hop⟩
          refine ⟨_, List.mem_append_right _ (List.mem_singleton_self _), ?_, hop, ?_, rfl⟩
          · exact (h.role call.party).symm.trans hsource
          · rw [hreply]
      · exact h.sound.concat (h.sound_entry hideal hdeliver haccepts)
  · next e s' hrun =>
      have hrejects := houtcome.of_error hrun
      rcases h.constants hrejects.kept (PairingSession.sasCode_of_rejects hrejects hsas) with
        ⟨hrole, hkeys, hsession, hcode, hpeer⟩
      refine ⟨hrole, hkeys, hsession, hcode, hpeer, ?_, ?_, ?_⟩
      · refine h.trail_concat (if_pos rfl) ?_
        have hnext := hrejects.trail htrail
        rwa [hrejects.kept.role, h.role] at hnext
      · intro event hevent
        exact (h.built event hevent).mono (List.subset_append_left _ _)
      · exact h.sound.concat (Sound.of_error rfl)

/-! ## The start -/

theorem Inv.create (hideal : crypto.Ideal) {relayUrl : Text} {now : Nat} {fresh : Fresh}
    (h : World.create crypto sourceKeys targetKeys sessionSecret relayUrl now fresh = .ok w) :
    Inv crypto sourceKeys targetKeys sessionSecret w := by
  unfold World.create at h
  dsimp only at h
  split at h
  · cases h
  · next target offer hnew =>
      have hstart := PairingSession.isNewTarget hnew
      cases h
      refine ⟨?_, ?_, ?_, ?_, hstart.peer, ?_, ?_, AtEach.nil⟩
      · rintro (_ | _)
        · rfl
        · exact hstart.role
      · rintro (_ | _)
        · rfl
        · exact hstart.key
      · rintro (_ | _)
        · rfl
        · exact hstart.sessionId
      · rintro (_ | _) hrole
        · cases hrole
        · exact hstart.sas
      · rintro (_ | _)
        · rfl
        · change Trail .target target.state []
          rw [hstart.state]
          rfl
      · intro event hevent
        cases List.mem_singleton.1 hevent
        exact hideal.built hstart.offer fun _ _ hmsg => nomatch hmsg

/-! ## Every run -/

/-- In every run of a source and a target created from its QR code: each party passes its
milestones in order and at most once, so the source sends a payload only after one accepted offer
and its own confirmation, and the target takes one only after a matching transcript hash and its
own confirmation; what is accepted is sound; and a session that has ended stays as it is. -/
theorem pairing_safe (hideal : crypto.Ideal) {w : World} {relayUrl : Text} {now : Nat}
    {fresh : Fresh}
    (hcreate : create crypto sourceKeys targetKeys sessionSecret relayUrl now fresh = .ok w)
    {calls : List Call} (hcalls : Run.Along (Deliverable crypto) (step crypto) w calls) :
    (∀ party, (Run.run (step crypto) w calls).milestones party <+: fullTrail party) ∧
    AtEach (Sound crypto sessionSecret targetKeys) (Run.run (step crypto) w calls).log ∧
    (∀ party, ((Run.run (step crypto) w calls).session party).state.isTerminal = true →
      ∀ fresh' op, ∃ e, PairingSession.perform crypto fresh' op
          ((Run.run (step crypto) w calls).session party) =
        .error e ((Run.run (step crypto) w calls).session party)) := by
  have hinv : Inv crypto sourceKeys targetKeys sessionSecret (Run.run (step crypto) w calls) :=
    Run.invariant (Inv crypto sourceKeys targetKeys sessionSecret)
      (fun _ _ h hdeliver => h.step hideal hdeliver) (Inv.create hideal hcreate) hcalls
  refine ⟨fun party => (hinv.trail party).isPrefix, hinv.sound, ?_⟩
  intro party hterminal fresh' op
  exact PairingSession.absorbing hideal.shares (hinv.sas party) hterminal fresh' op

end World

/-! ## A complete pairing -/

namespace Toy

theorem length_frame (k : SecretKey) (p : PublicKey) : (frame k p).length = 196 := by
  simp [frame, hex64]

theorem fromJson_toJson {msg : PairingMessage} {text : Text} (h : toJson msg = .ok text) :
    fromJson text = .ok msg := by
  unfold toJson at h
  split at h
  · cases h
    rfl
  · cases h
  · cases h
    rfl
  · next payloadType payload =>
      cases h
      cases payloadType <;> rfl
  · next success =>
      cases h
      cases success <;> rfl
  · next reason =>
      cases h
      cases reason <;> rfl

theorem crypto_ideal : crypto.Ideal where
  shares := crypto_shares
  signs h := by
    cases h
    exact ⟨rfl, rfl, List.Subset.refl _⟩
  decrypts := by
    intro keys peer text nonce content keys' peer' text' hencrypt hdecrypt
    have hcontent : frame keys peer ++ text = content := Except.ok.inj hencrypt
    have hopen : (if (frame keys' peer').isPrefixOf content then
        Except.ok (content.drop (frame keys' peer').length) else .error "invalid MAC") =
          (Except.ok text' : Except String Text) := hdecrypt
    by_cases hprefix : (frame keys' peer').isPrefixOf content = true
    · rw [if_pos hprefix, length_frame, ← hcontent] at hopen
      rw [← Except.ok.inj hopen, List.drop_left' (length_frame keys peer)]
    · rw [if_neg hprefix] at hopen
      cases hopen
  parses := fromJson_toJson

/-- The two sessions of a pairing, after the target has sent its offer. -/
def world : World :=
  match World.create crypto 5 6 9 "wss://r".toList 0 (fresh 1) with
  | .ok w => w
  | .error _ => { session := fun _ => source.1, emitted := [], log := [] }

def sasInput : BitVec 256 := (crypto.deriveSas (5 ^^^ 6) 9).2

def transcriptHash : BitVec 256 := crypto.deriveTranscriptHash sessionId 5 6 sasInput 9

def payload : Text := ['n', 's', 'e', 'c', '1']

/-- The calls of a pairing up to the payload. -/
def calls : List Call :=
  [⟨.source, fresh 2, .handleOffer offer⟩,
   ⟨.source, fresh 3, .confirmSas⟩,
   ⟨.target, fresh 4, .handleSasConfirm (letterFrom 5 6 ('s' :: hex64 transcriptHash) 3)⟩,
   ⟨.target, fresh 5, .confirmTargetSas⟩,
   ⟨.source, fresh 6, .sendPayload .nsec payload⟩,
   ⟨.target, fresh 7, .handlePayload (letterFrom 5 6 ('p' :: 'n' :: payload) 6)⟩]

theorem calls_emitted :
    Run.Along (fun w call => call.op.event?.toList ⊆ w.emitted) (World.step crypto) world calls := by
  decide +kernel

end Toy

/-- A pairing in which the payload arrives. -/
theorem pairing_safe_toy :
    (Run.run (World.step Toy.crypto) Toy.world Toy.calls).milestones .target = fullTrail .target ∧
    AtEach (Sound Toy.crypto 9 6) (Run.run (World.step Toy.crypto) Toy.world Toy.calls).log := by
  have hdeliver : Run.Along (World.Deliverable Toy.crypto) (World.step Toy.crypto) Toy.world
      Toy.calls := by
    refine Toy.calls_emitted.mono fun w call hcall event hevent => .inl (hcall ?_)
    rw [hevent]
    exact List.mem_singleton_self event
  have hsafe := World.pairing_safe Toy.crypto_ideal
    (rfl : World.create Toy.crypto 5 6 9 "wss://r".toList 0 (Toy.fresh 1) = .ok Toy.world) hdeliver
  exact ⟨by decide +kernel, hsafe.2.1⟩

end Pairing
end Core
end Maju
