import Maju.Relay.Audio.Departure

/-!
# Teardown — the remote peers a control stream leaves behind

The loop keeps a map from public keys to the peers it registered, and its teardown removes every
peer in that map.  A peer is left behind when the map forgets it, because its key is registered
again, or when the loop returns without the teardown, because a send behind the `?` operator fails.

* `Tight` — every live peer of the stream is in the map of a loop that still runs;
* `Careful` — the events that do neither;
* `Moves` — what one action of the loop does to the invariant, to `Tight` and to other peers;
* `teardown_iff` — no peer is left behind exactly in the runs of careful events.
-/

namespace Maju
namespace Relay
namespace Audio

open Lib Core Tunnel

namespace Control

/-! ## Peers of a stream -/

def Live (s : Control) (id : Uuid) : Prop := ∃ key, s.host.rooms.peerAt key id ≠ none

/-- The peer is in the map of the loop. -/
def Registered (s : Control) (id : Uuid) : Prop := ∃ pubkey, s.registered.lookup pubkey = some id

def Returned (s : Control) : Prop := ∃ result, s.phase = .returned result

/-- Every live peer of the stream is in the map of a loop that still runs. -/
def Tight (s : Control) : Prop := ∀ id ∈ s.admitted, s.Live id → ¬ s.Returned ∧ s.Registered id

variable (stream : ControlStream)

/-- The invariant of a loop: a peer of the stream is only in rooms of the latched community and the
session. -/
structure Inv (s : Control) : Prop where
  rooms : s.host.rooms.WellFormed
  distinct : ∀ p q id, s.registered.lookup p = some id → s.registered.lookup q = some id → p = q
  mine : ∀ p id, s.registered.lookup p = some id → id ∈ s.admitted
  home : ∀ (ref : Nat) (cell : RoomCell), s.host.rooms.arena[ref]? = some cell →
    ∀ id ∈ s.admitted, cell.room.peers.lookup id ≠ none →
      ∃ c, s.streamCommunity = some c ∧ cell.key = (⟨c⟩, stream.fenced.sessionId)
  asking : ∀ ref c pubkey version, s.phase = .asking ref c pubkey version →
    s.streamCommunity = some c ∧
      ∃ cell : RoomCell, s.host.rooms.arena[ref]? = some cell ∧
        cell.key = (⟨c⟩, stream.fenced.sessionId)

/-! ## Careful events -/

/-- A message behind the `?` operator is not sent. -/
def SendFails (s : Control) : ControlInput → Prop
  | .rosterEvent event sending =>
      s.phase = .serving ∧ s.rosterRx = true ∧ event ≠ .closed ∧ sending ≠ .ok ()
  | .frame frame sending =>
      s.phase = .serving ∧ frame = .data stream.fenced (.ok .rosterResync) ∧ sending ≠ .ok ()
  | _ => False

/-- The room admits a peer under a public key that is registered with `old`. -/
def Overwrites (s : Control) (old : Uuid) : ControlInput → Prop
  | .directory answer drawn _ =>
      answer = .ok () ∧ ∃ ref c pubkey version, s.phase = .asking ref c pubkey version ∧
        s.registered.lookup pubkey = some old ∧
        ∃ admission, ((s.host.roomOf ref).addPeer drawn pubkey version).2 = .ok admission
  | _ => False

/-- No send behind the `?` operator fails while a registered peer is live, and no public key is
registered again while its peer is. -/
structure Careful (s : Control) (input : ControlInput) : Prop where
  sends : SendFails stream s input → ∀ id, s.Registered id → ¬ s.Live id
  registers : ∀ old, s.Overwrites old input → ¬ s.Live old

/-- What is known of the other tasks and of the ids: a fresh id is nobody's, and nobody else
admits or removes the stream's peers. -/
def Valid (s : Control) : ControlInput → Prop
  | .others (.room _ op) => ∀ id ∈ s.admitted, op.subject ≠ some id
  | .directory _ drawn _ =>
      drawn ∉ s.admitted ∧ ∀ (ref : Nat) (cell : RoomCell),
        s.host.rooms.arena[ref]? = some cell → cell.room.peers.lookup drawn = none
  | _ => True

/-! ## Actions -/

/-- An action of the loop: it keeps the invariant, leaves no peer behind exactly when `C` holds, and
touches no other peer. -/
structure Moves (s s' : Control) (C : Prop) : Prop where
  inv : Inv stream s'
  tight : s'.Tight ↔ s.Tight ∧ C
  admitted : s.admitted ⊆ s'.admitted
  others : ∀ key id, id ∉ s'.admitted →
    s'.host.rooms.peerAt key id = s.host.rooms.peerAt key id

variable {stream} {s s' s'' : Control}

theorem Moves.trans {C : Prop} (h : Moves stream s s' C) (h' : Moves stream s' s'' True) :
    Moves stream s s'' C := by
  refine ⟨h'.inv, ?_, fun id hid => h'.admitted (h.admitted hid), fun key id hid => ?_⟩
  · calc
      s''.Tight ↔ s'.Tight ∧ True := h'.tight
      _ ↔ s'.Tight := and_iff_left trivial
      _ ↔ s.Tight ∧ C := h.tight
  · rw [h'.others key id hid, h.others key id fun hold => hid (h'.admitted hold)]

theorem Moves.congr {C C' : Prop} (h : Moves stream s s' C) (hC : C ↔ C') :
    Moves stream s s' C' :=
  ⟨h.inv, h.tight.trans (and_congr_right' hC), h.admitted, h.others⟩

theorem Inv.home_of_live (h : Inv stream s) {id : Uuid} (hid : id ∈ s.admitted) {key : RoomKey}
    (hlive : s.host.rooms.peerAt key id ≠ none) :
    ∃ c ref, s.streamCommunity = some c ∧ key = (⟨c⟩, stream.fenced.sessionId) ∧
      s.host.rooms.get key = some ref := by
  rcases Option.ne_none_iff_exists'.1 hlive with ⟨peer, hpeer⟩
  rcases h.rooms.cell_of_peerAt hpeer with ⟨ref, cell, hkey, hcell, hlabel, hlookup⟩
  have hmem : cell.room.peers.lookup id ≠ none := by
    rw [hlookup]
    exact Option.some_ne_none peer
  rcases h.home ref cell hcell id hid hmem with ⟨c, hc, hhome⟩
  exact ⟨c, ref, hc, hlabel.symm.trans hhome, hkey⟩

theorem Inv.of_evolves (h : Inv stream s) (hadmitted : s'.admitted = s.admitted)
    (hcommunity : s'.streamCommunity = s.streamCommunity)
    (hregistered : ∀ p id, s'.registered.lookup p = some id → s.registered.lookup p = some id)
    (hrooms : Evolves (· ∈ s.admitted) s.host.rooms s'.host.rooms)
    (hphase : ∀ ref c pubkey version, s'.phase = .asking ref c pubkey version →
      s.phase = .asking ref c pubkey version) : Inv stream s' := by
  refine ⟨hrooms.wellFormed h.rooms, ?_, ?_, ?_, ?_⟩
  · intro p q id hp hq
    exact h.distinct p q id (hregistered p id hp) (hregistered q id hq)
  · intro p id hp
    rw [hadmitted]
    exact h.mine p id (hregistered p id hp)
  · intro ref cell' hcell' id hid hmem
    rw [hadmitted] at hid
    rcases hrooms.within ref cell' hcell' id hid hmem with ⟨cell, hcell, hkey, hold⟩
    rw [hcommunity, ← hkey]
    exact h.home ref cell hcell id hid hold
  · intro ref c pubkey version hasking
    rcases h.asking ref c pubkey version (hphase ref c pubkey version hasking) with
      ⟨hc, cell, hcell, hkey⟩
    rcases hrooms.keeps ref cell hcell with ⟨cell', hcell', hkey'⟩
    exact ⟨hcommunity.trans hc, cell', hcell', hkey'.trans hkey⟩

theorem tight_congr (hadmitted : s'.admitted = s.admitted)
    (hlive : ∀ id ∈ s.admitted, s'.Live id ↔ s.Live id)
    (hregistered : s'.registered = s.registered) (hreturned : s'.Returned ↔ s.Returned) :
    s'.Tight ↔ s.Tight := by
  have hmap : ∀ id, s'.Registered id ↔ s.Registered id := by
    intro id
    rw [Registered, hregistered, Registered]
  constructor
  · intro htight id hid hl
    have hnext := htight id (hadmitted ▸ hid) ((hlive id hid).2 hl)
    exact ⟨fun hr => hnext.1 (hreturned.2 hr), (hmap id).1 hnext.2⟩
  · intro htight id hid hl
    rw [hadmitted] at hid
    have hnext := htight id hid ((hlive id hid).1 hl)
    exact ⟨fun hr => hnext.1 (hreturned.1 hr), (hmap id).2 hnext.2⟩

theorem Inv.moves_quiet (h : Inv stream s) (hhost : s'.host.rooms = s.host.rooms)
    (hadmitted : s'.admitted = s.admitted) (hregistered : s'.registered = s.registered)
    (hcommunity : s'.streamCommunity = s.streamCommunity)
    (hphase : ∀ ref c pubkey version, s'.phase = .asking ref c pubkey version →
      s.phase = .asking ref c pubkey version)
    (hreturned : s'.Returned ↔ s.Returned) : Moves stream s s' True := by
  have hlive : ∀ id ∈ s.admitted, s'.Live id ↔ s.Live id := by
    intro id _
    rw [Live, hhost, Live]
  refine ⟨h.of_evolves hadmitted hcommunity ?_ ?_ hphase, ?_, ?_, ?_⟩
  · intro p id hp
    rwa [hregistered] at hp
  · rw [hhost]
    exact .refl _ _
  · exact (tight_congr hadmitted hlive hregistered hreturned).trans (and_iff_left trivial).symm
  · rw [hadmitted]
    exact List.Subset.refl _
  · intro key id _
    rw [hhost]

/-! ## Ending the loop -/

theorem mem_teardown (s : Control) (id : Uuid) :
    id ∈ (stream.order.run s.registered.entries).map (fun e => e.2) ↔ s.Registered id := by
  rw [List.mem_map]
  constructor
  · rintro ⟨e, he, rfl⟩
    rw [IterOrder.mem_run] at he
    exact ⟨e.1, HashMap.mem_entries_iff.1 he⟩
  · rintro ⟨pubkey, hpubkey⟩
    refine ⟨⟨pubkey, id⟩, ?_, rfl⟩
    rw [IterOrder.mem_run]
    exact HashMap.mem_entries_iff.2 hpubkey

theorem Inv.peerAt_finish (h : Inv stream s) (result : Except ControlError Unit)
    (reason : Option GoodbyeReason) (key : RoomKey) {id : Uuid} (hid : ¬ s.Registered id) :
    (s.finish stream result reason).host.rooms.peerAt key id = s.host.rooms.peerAt key id := by
  unfold finish
  dsimp only
  cases s.streamCommunity with
  | none => rfl
  | some c =>
      dsimp only
      rw [Host.peerAt_foldl_remove h.rooms, if_neg]
      rintro ⟨_, hmem⟩
      exact hid ((mem_teardown s id).1 hmem)

theorem Inv.not_live_finish (h : Inv stream s) (result : Except ControlError Unit)
    (reason : Option GoodbyeReason) {id : Uuid} (hid : s.Registered id) :
    ¬ (s.finish stream result reason).Live id := by
  rintro ⟨key, hlive⟩
  rcases hid with ⟨pubkey, hpubkey⟩
  have hmem := h.mine pubkey id hpubkey
  unfold finish at hlive
  dsimp only at hlive
  cases hcommunity : s.streamCommunity with
  | none =>
      rw [hcommunity] at hlive
      rcases h.home_of_live hmem hlive with ⟨c, ref, hc, _⟩
      rw [hcommunity] at hc
      cases hc
  | some c =>
      rw [hcommunity] at hlive
      dsimp only at hlive
      rw [Host.peerAt_foldl_remove h.rooms] at hlive
      split at hlive
      · exact hlive rfl
      · next hkept =>
          rcases h.home_of_live hmem hlive with ⟨c', ref, hc', hkey, _⟩
          rw [hcommunity] at hc'
          cases hc'
          exact hkept ⟨hkey, (mem_teardown s id).2 ⟨pubkey, hpubkey⟩⟩

theorem Inv.moves_finish (h : Inv stream s) (hrunning : ¬ s.Returned)
    (result : Except ControlError Unit) (reason : Option GoodbyeReason) :
    Moves stream s (s.finish stream result reason) True := by
  have hreturned : (s.finish stream result reason).Returned := ⟨result, rfl⟩
  refine ⟨h.of_evolves rfl rfl (fun _ _ hp => hp) ?_ nofun, ?_, List.Subset.refl _, ?_⟩
  · unfold finish
    dsimp only
    cases s.streamCommunity with
    | none => exact .refl _ _
    | some c => exact Host.evolves_foldl_remove _ s.host c _ _ _
  · constructor
    · intro htight
      refine ⟨fun id hid hlive => ⟨hrunning, ?_⟩, trivial⟩
      by_contra hforgotten
      rcases hlive with ⟨key, hkey⟩
      rw [← h.peerAt_finish result reason key hforgotten] at hkey
      exact (htight id hid ⟨key, hkey⟩).1 hreturned
    · rintro ⟨htight, -⟩ id hid hlive
      by_cases hregistered : s.Registered id
      · exact absurd hlive (h.not_live_finish result reason hregistered)
      · rcases hlive with ⟨key, hkey⟩
        rw [h.peerAt_finish result reason key hregistered] at hkey
        exact absurd (htight id hid ⟨key, hkey⟩).2 hregistered
  · intro key id hid
    refine h.peerAt_finish result reason key ?_
    rintro ⟨pubkey, hpubkey⟩
    exact hid (h.mine pubkey id hpubkey)

theorem Inv.moves_send (h : Inv stream s) (hserving : s.phase = .serving) (msg : HuddleControlMsg)
    (sending : Except Directory.MeshError Unit) :
    Moves stream s (s.sendOrReturn msg sending)
      (sending ≠ .ok () → ∀ id, s.Registered id → ¬ s.Live id) := by
  have hrunning : ¬ s.Returned := by
    rintro ⟨result, hresult⟩
    rw [hserving] at hresult
    cases hresult
  cases sending with
  | ok u =>
      have hquiet : Moves stream s (s.sendOrReturn msg (.ok u)) True :=
        h.moves_quiet rfl rfl rfl rfl (fun _ _ _ _ hasking => hasking) Iff.rfl
      refine hquiet.congr ?_
      exact ⟨fun _ hfails => absurd rfl hfails, fun _ => trivial⟩
  | error e =>
      have hreturned : (s.sendOrReturn msg (.error e)).Returned := ⟨_, rfl⟩
      refine ⟨h.of_evolves rfl rfl (fun _ _ hp => hp) (.refl _ _) nofun, ?_, List.Subset.refl _,
        fun _ _ _ => rfl⟩
      constructor
      · intro htight
        have hdead : ∀ id ∈ s.admitted, ¬ s.Live id := fun id hid hlive =>
          (htight id hid hlive).1 hreturned
        refine ⟨fun id hid hlive => absurd hlive (hdead id hid), ?_⟩
        rintro - id ⟨pubkey, hpubkey⟩
        exact hdead id (h.mine pubkey id hpubkey)
      · rintro ⟨htight, hdead⟩ id hid hlive
        exact absurd hlive (hdead nofun id (htight id hid hlive).2)

/-! ## Registering and unregistering -/

theorem not_returned_of_serving (h : s.phase = .serving) : ¬ s.Returned := by
  rintro ⟨result, hresult⟩
  rw [h] at hresult
  cases hresult

theorem not_returned_of_asking {ref : Nat} {c : Uuid} {pubkey : Text} {version : Nat}
    (h : s.phase = .asking ref c pubkey version) : ¬ s.Returned := by
  rintro ⟨result, hresult⟩
  rw [h] at hresult
  cases hresult

theorem Inv.moves_latch (h : Inv stream s) (hserving : s.phase = .serving) {c : Uuid}
    (hlatch : ∀ latched, s.streamCommunity = some latched → latched = c) :
    Moves stream s { s with streamCommunity := some c } True := by
  refine ⟨⟨h.rooms, h.distinct, h.mine, ?_, ?_⟩, ?_, List.Subset.refl _, fun _ _ _ => rfl⟩
  · intro ref cell hcell id hid hmem
    rcases h.home ref cell hcell id hid hmem with ⟨c', hc', hkey⟩
    rw [hlatch c' hc'] at hkey
    exact ⟨c, rfl, hkey⟩
  · intro ref c' pubkey version hasking
    rw [hserving] at hasking
    cases hasking
  · exact (tight_congr rfl (fun _ _ => Iff.rfl) rfl Iff.rfl).trans (and_iff_left trivial).symm

theorem Inv.moves_ask (h : Inv stream s) {c : Uuid} (hcommunity : s.streamCommunity = some c)
    (hserving : s.phase = .serving) (pubkey : Text) (version : Nat) :
    Moves stream s
      { s with
        host := { s.host with
          rooms := (s.host.rooms.getOrCreate (⟨c⟩, stream.fenced.sessionId)).1 }
        phase := .asking (s.host.rooms.getOrCreate (⟨c⟩, stream.fenced.sessionId)).2 c pubkey
          version } True := by
  have hsame : ∀ key id, (s.host.rooms.getOrCreate (⟨c⟩, stream.fenced.sessionId)).1.peerAt key id =
      s.host.rooms.peerAt key id := fun key id =>
    h.rooms.peerAt_getOrCreate _ key id
  have hevolves := Evolves.getOrCreate (· ∈ s.admitted) s.host.rooms
    (⟨c⟩, stream.fenced.sessionId)
  refine ⟨⟨hevolves.wellFormed h.rooms, h.distinct, h.mine, ?_, ?_⟩, ?_, List.Subset.refl _,
    fun key id _ => hsame key id⟩
  · intro ref cell' hcell' id hid hmem
    rcases hevolves.within ref cell' hcell' id hid hmem with ⟨cell, hcell, hkey, hold⟩
    rw [← hkey]
    exact h.home ref cell hcell id hid hold
  · rintro ref c' pubkey' version' ⟨⟩
    exact ⟨hcommunity, h.rooms.cell_getOrCreate _⟩
  · refine Iff.trans ?_ (and_iff_left trivial).symm
    refine tight_congr rfl ?_ rfl ?_
    · intro id _
      constructor
      · rintro ⟨key, hkey⟩
        exact ⟨key, hsame key id ▸ hkey⟩
      · rintro ⟨key, hkey⟩
        exact ⟨key, (hsame key id).symm ▸ hkey⟩
    · exact iff_of_false (not_returned_of_asking rfl) (not_returned_of_serving hserving)

theorem Inv.moves_onRegisterPeer (h : Inv stream s) (hserving : s.phase = .serving) (c : Uuid)
    (pubkey : Text) (version : Nat) :
    Moves stream s (s.onRegisterPeer stream c pubkey version) True := by
  unfold onRegisterPeer
  split
  · exact h.moves_finish (not_returned_of_serving hserving) _ _
  · next hfilter =>
      have hlatch : ∀ latched, s.streamCommunity = some latched → latched = c := by
        intro latched hlatched
        rw [hlatched] at hfilter
        by_contra hother
        simp [hother] at hfilter
      have hlatched := h.moves_latch hserving hlatch
      dsimp only
      split
      · exact hlatched.trans (hlatched.inv.moves_finish (not_returned_of_serving hserving) _ _)
      · exact hlatched.trans (hlatched.inv.moves_ask rfl hserving pubkey version)

theorem Inv.moves_remove (h : Inv stream s) (hserving : s.phase = .serving) {pubkey : Text}
    {peerId : Uuid} (hpubkey : s.registered.lookup pubkey = some peerId) {host : Host}
    (hevolves : Evolves (· ∈ s.admitted) s.host.rooms host.rooms)
    (hother : ∀ key id, id ≠ peerId → host.rooms.peerAt key id = s.host.rooms.peerAt key id)
    (hgone : ∀ key, host.rooms.peerAt key peerId = none) :
    Moves stream s { s with registered := s.registered.erase pubkey, host := host } True := by
  have herase : ∀ p id, (s.registered.erase pubkey).lookup p = some id →
      s.registered.lookup p = some id ∧ p ≠ pubkey := by
    intro p id hp
    rw [HashMap.lookup_erase_eq] at hp
    split at hp
    · cases hp
    · next hne => exact ⟨hp, hne⟩
  have hmine := h.mine pubkey peerId hpubkey
  refine ⟨h.of_evolves rfl rfl (fun p id hp => (herase p id hp).1) hevolves
    (fun _ _ _ _ hasking => hasking), ?_, List.Subset.refl _, ?_⟩
  · refine Iff.trans ?_ (and_iff_left trivial).symm
    constructor
    · intro htight id hid hlive
      refine ⟨not_returned_of_serving hserving, ?_⟩
      by_cases hsame : id = peerId
      · exact ⟨pubkey, hsame ▸ hpubkey⟩
      · rcases hlive with ⟨key, hkey⟩
        rw [← hother key id hsame] at hkey
        rcases (htight id hid ⟨key, hkey⟩).2 with ⟨p, hp⟩
        exact ⟨p, (herase p id hp).1⟩
    · rintro htight id hid ⟨key, hkey⟩
      refine ⟨not_returned_of_serving hserving, ?_⟩
      have hne : id ≠ peerId := by
        rintro rfl
        exact hkey (hgone key)
      have hold : s.host.rooms.peerAt key id ≠ none := hother key id hne ▸ hkey
      rcases (htight id hid ⟨key, hold⟩).2 with ⟨p, hp⟩
      refine ⟨p, ?_⟩
      change (s.registered.erase pubkey).lookup p = some id
      rw [HashMap.lookup_erase_eq, if_neg]
      · exact hp
      · rintro rfl
        rw [hpubkey] at hp
        exact hne (Option.some.inj hp).symm
  · intro key id hid
    refine hother key id ?_
    rintro rfl
    exact hid hmine

theorem Inv.removed (h : Inv stream s) {peerId : Uuid} (hmine : peerId ∈ s.admitted) {host : Host}
    (hhost : host =
      match s.streamCommunity with
      | none => s.host
      | some community =>
          s.host.removeRemotePeer community stream.fenced.sessionId stream.fenced.generation peerId) :
    Evolves (· ∈ s.admitted) s.host.rooms host.rooms ∧
      (∀ key id, id ≠ peerId → host.rooms.peerAt key id = s.host.rooms.peerAt key id) ∧
      ∀ key, host.rooms.peerAt key peerId = none := by
  cases hcommunity : s.streamCommunity with
  | none =>
      rw [hcommunity] at hhost
      rw [hhost]
      refine ⟨.refl _ _, fun _ _ _ => rfl, fun key => ?_⟩
      by_contra hlive
      rcases h.home_of_live hmine hlive with ⟨c, ref, hc, _⟩
      rw [hcommunity] at hc
      cases hc
  | some c =>
      rw [hcommunity] at hhost
      rw [hhost]
      refine ⟨Host.evolves_removeRemotePeer _ s.host c _ _ peerId, ?_, ?_⟩
      · intro key id hne
        rw [Host.peerAt_removeRemotePeer h.rooms, if_neg]
        rintro ⟨_, hsame⟩
        exact hne hsame
      · intro key
        rw [Host.peerAt_removeRemotePeer h.rooms]
        split
        · rfl
        · next hkept =>
            by_contra hlive
            rcases h.home_of_live hmine hlive with ⟨c', ref, hc', hkey, _⟩
            rw [hcommunity] at hc'
            cases hc'
            exact hkept ⟨hkey, rfl⟩

theorem Inv.moves_onUnregisterPeer (h : Inv stream s) (hserving : s.phase = .serving)
    (pubkey : Text) : Moves stream s (s.onUnregisterPeer stream pubkey) True := by
  unfold onUnregisterPeer
  split
  · exact h.moves_quiet rfl rfl rfl rfl (fun _ _ _ _ hasking => hasking) Iff.rfl
  · next peerId hpubkey =>
      rcases h.removed (h.mine pubkey peerId hpubkey) rfl with ⟨hevolves, hother, hgone⟩
      exact h.moves_remove hserving hpubkey hevolves hother hgone

/-! ## The directory's answer -/

theorem Inv.moves_reply (h : Inv stream s) (hrunning : ¬ s.Returned) (msg : HuddleControlMsg)
    (subscribed : Bool) (sending : Except Directory.MeshError Unit) :
    Moves stream s (s.reply stream msg subscribed sending) True := by
  have hsent : Moves stream s { s with outbox := s.outbox ++ [Outgoing.message msg] } True :=
    h.moves_quiet rfl rfl rfl rfl (fun _ _ _ _ hasking => hasking) Iff.rfl
  unfold reply
  cases sending with
  | error e => exact hsent.trans (hsent.inv.moves_finish hrunning _ _)
  | ok u =>
      refine hsent.trans (hsent.inv.moves_quiet rfl rfl rfl rfl nofun ?_)
      exact iff_of_false (not_returned_of_serving rfl) hrunning

theorem Inv.moves_refused (h : Inv stream s) (ref : Nat) {room : Room}
    (hpeers : room.peers = (s.host.roomOf ref).peers) :
    Moves stream s
      { s with host := { s.host with rooms := s.host.rooms.update ref fun _ => room } } True := by
  have hroom : ∀ cell, s.host.rooms.arena[ref]? = some cell → room.peers = cell.room.peers := by
    intro cell hcell
    rw [hpeers]
    simp [Host.roomOf, AudioRoomManager.roomAt, hcell]
  have hsame : ∀ key id, (s.host.rooms.update ref fun _ => room).peerAt key id =
      s.host.rooms.peerAt key id := fun key id =>
    h.rooms.peerAt_update fun cell _ hcell => by rw [hroom cell hcell]
  have hevolves : Evolves (· ∈ s.admitted) s.host.rooms
      (s.host.rooms.update ref fun _ => room) :=
    .update fun cell hcell id _ hid => by rwa [hroom cell hcell] at hid
  refine ⟨h.of_evolves rfl rfl (fun _ _ hp => hp) hevolves (fun _ _ _ _ hasking => hasking), ?_,
    List.Subset.refl _, fun key id _ => hsame key id⟩
  refine Iff.trans ?_ (and_iff_left trivial).symm
  refine tight_congr rfl (fun id _ => ?_) rfl Iff.rfl
  constructor
  · rintro ⟨key, hkey⟩
    exact ⟨key, hsame key id ▸ hkey⟩
  · rintro ⟨key, hkey⟩
    exact ⟨key, (hsame key id).symm ▸ hkey⟩

theorem Inv.moves_admitted (h : Inv stream s) {ref : Nat} {c : Uuid} {pubkey : Text}
    {version : Nat} (hasking : s.phase = .asking ref c pubkey version) {drawn : Uuid}
    (hfresh : drawn ∉ s.admitted)
    (hdrawn : ∀ (ref : Nat) (cell : RoomCell), s.host.rooms.arena[ref]? = some cell →
      cell.room.peers.lookup drawn = none)
    {room : Room} {peer : AudioPeer}
    (hpeers : room.peers = (s.host.roomOf ref).peers.insert drawn peer) :
    Moves stream s
      { s with
        host := { s.host with rooms := s.host.rooms.update ref fun _ => room }
        registered := s.registered.insert pubkey drawn
        admitted := s.admitted ++ [drawn] }
      (∀ old, s.registered.lookup pubkey = some old → ¬ s.Live old) := by
  rcases h.asking ref c pubkey version hasking with ⟨hc, cell, hcell, hlabel⟩
  have hroom : s.host.roomOf ref = cell.room := by
    simp [Host.roomOf, AudioRoomManager.roomAt, hcell]
  rw [hroom] at hpeers
  have hother : ∀ key id, id ≠ drawn →
      (s.host.rooms.update ref fun _ => room).peerAt key id = s.host.rooms.peerAt key id := by
    intro key id hne
    refine h.rooms.peerAt_update fun cell' _ hcell' => ?_
    rw [hcell] at hcell'
    cases hcell'
    rw [hpeers, AList.lookup_insert_ne hne]
  have hinsert : ∀ p id, (s.registered.insert pubkey drawn).lookup p = some id ↔
      (p = pubkey ∧ id = drawn) ∨ (p ≠ pubkey ∧ s.registered.lookup p = some id) := by
    intro p id
    rw [HashMap.lookup_insert_eq]
    by_cases hp : p = pubkey
    · simp [hp, eq_comm]
    · simp [hp]
  have hne : ∀ id ∈ s.admitted, id ≠ drawn := by
    rintro id hid rfl
    exact hfresh hid
  refine ⟨⟨h.rooms.update ref _, ?_, ?_, ?_, ?_⟩, ?_, List.subset_append_left _ _, ?_⟩
  · intro p q id hp hq
    rcases (hinsert p id).1 hp with ⟨hpk, hpd⟩ | ⟨_, hpold⟩
    · rcases (hinsert q id).1 hq with ⟨hqk, _⟩ | ⟨_, hqold⟩
      · exact hpk.trans hqk.symm
      · exact absurd hpd (hne id (h.mine q id hqold))
    · rcases (hinsert q id).1 hq with ⟨_, hqd⟩ | ⟨_, hqold⟩
      · exact absurd hqd (hne id (h.mine p id hpold))
      · exact h.distinct p q id hpold hqold
  · intro p id hp
    rcases (hinsert p id).1 hp with ⟨_, rfl⟩ | ⟨_, hp⟩
    · exact List.mem_append_right _ (List.mem_singleton_self _)
    · exact List.mem_append_left _ (h.mine p id hp)
  · intro ref' cell' hcell' id hid hmem
    rw [AudioRoomManager.getElem?_update] at hcell'
    rcases Option.map_eq_some_iff.1 hcell' with ⟨old, hold, rfl⟩
    by_cases href : ref' = ref
    · -- the room of the registration has the latched labels
      subst href
      rw [hcell] at hold
      cases hold
      rw [if_pos rfl]
      exact ⟨c, hc, hlabel⟩
    · rw [if_neg href] at hmem ⊢
      rcases List.mem_append.1 hid with hid | hid
      · exact h.home ref' old hold id hid hmem
      · rw [List.mem_singleton.1 hid] at hmem
        exact absurd (hdrawn ref' old hold) hmem
  · intro ref' c' pubkey' version' hasking'
    rcases h.asking ref' c' pubkey' version' hasking' with ⟨hc', cell', hcell', hkey'⟩
    rcases (Evolves.update (P := fun _ => False) (f := fun _ => room)
      (fun _ _ _ hfalse => hfalse.elim)).keeps ref' cell' hcell' with ⟨cell'', hcell'', hkey''⟩
    exact ⟨hc', cell'', hcell'', hkey''.trans hkey'⟩
  · constructor
    · intro htight
      have hkept : ∀ id ∈ s.admitted, s.Live id →
          ∃ p, p ≠ pubkey ∧ s.registered.lookup p = some id := by
        rintro id hid ⟨key, hkey⟩
        rw [← hother key id (hne id hid)] at hkey
        rcases (htight id (List.mem_append_left _ hid) ⟨key, hkey⟩).2 with ⟨p, hp⟩
        rcases (hinsert p id).1 hp with ⟨_, hsame⟩ | ⟨hpk, hp⟩
        · exact absurd hsame (hne id hid)
        · exact ⟨p, hpk, hp⟩
      constructor
      · intro id hid hlive
        rcases hkept id hid hlive with ⟨p, _, hp⟩
        exact ⟨not_returned_of_asking hasking, p, hp⟩
      · intro old hold hlive
        rcases hkept old (h.mine pubkey old hold) hlive with ⟨p, hpk, hp⟩
        exact hpk (h.distinct p pubkey old hp hold)
    · rintro ⟨htight, hdead⟩ id hid hlive
      refine ⟨not_returned_of_asking hasking, ?_⟩
      rcases List.mem_append.1 hid with hid | hid
      · rcases hlive with ⟨key, hkey⟩
        have hold : s.host.rooms.peerAt key id ≠ none := hother key id (hne id hid) ▸ hkey
        rcases (htight id hid ⟨key, hold⟩).2 with ⟨p, hp⟩
        refine ⟨p, (hinsert p id).2 (.inr ⟨?_, hp⟩)⟩
        rintro rfl
        exact hdead id hp ⟨key, hold⟩
      · exact ⟨pubkey, (hinsert pubkey id).2 (.inl ⟨rfl, List.mem_singleton.1 hid⟩)⟩
  · intro key id hid
    refine hother key id ?_
    rintro rfl
    exact hid (List.mem_append_right _ (List.mem_singleton_self _))

theorem Inv.moves_onAnswer (h : Inv stream s) {ref : Nat} {c : Uuid} {pubkey : Text} {version : Nat}
    (hasking : s.phase = .asking ref c pubkey version) (answer : Except Directory.MeshError Unit)
    {drawn : Uuid} (sending : Except Directory.MeshError Unit)
    (hvalid : s.Valid (.directory answer drawn sending)) :
    Moves stream s (s.onAnswer stream ref pubkey version answer drawn sending)
      (∀ old, s.Overwrites old (.directory answer drawn sending) → ¬ s.Live old) := by
  have hrunning := not_returned_of_asking hasking
  unfold onAnswer
  cases answer with
  | error e =>
      have hnever : True ↔ ∀ old, s.Overwrites old (.directory (.error e) drawn sending) →
          ¬ s.Live old := ⟨fun _ _ hover => (nomatch hover.1), fun _ => trivial⟩
      dsimp only
      split
      · exact (h.moves_reply hrunning _ _ sending).congr hnever
      · exact (h.moves_finish hrunning _ _).congr hnever
  | ok u =>
      dsimp only
      rcases hadd : (s.host.roomOf ref).addPeer drawn pubkey version with ⟨room, result⟩
      rcases (s.host.roomOf ref).addPeer_peers drawn pubkey version with
        ⟨⟨reason, hreason⟩, hpeers⟩ | ⟨admission, peer, hadmission, hpeers⟩
      · rw [hadd] at hreason hpeers
        cases hreason
        have hnever : True ↔ ∀ old, s.Overwrites old (.directory (.ok u) drawn sending) →
            ¬ s.Live old := by
          refine ⟨fun _ old hover => ?_, fun _ => trivial⟩
          rcases hover.2 with ⟨ref', c', pubkey', version', hasking', _, admission, hadmitted⟩
          rw [hasking] at hasking'
          cases hasking'
          rw [hadd] at hadmitted
          cases hadmitted
        have hrefused := h.moves_refused ref hpeers
        exact (hrefused.trans (hrefused.inv.moves_reply hrunning _ _ sending)).congr hnever
      · rw [hadd] at hadmission hpeers
        cases hadmission
        have hadmits := h.moves_admitted hasking hvalid.1 hvalid.2 hpeers
        refine (hadmits.trans (hadmits.inv.moves_reply ?_ _ _ sending)).congr ?_
        · exact not_returned_of_asking hasking
        · constructor
          · intro hdead old hover
            rcases hover.2 with ⟨ref', c', pubkey', version', hasking', hold, _⟩
            rw [hasking] at hasking'
            cases hasking'
            exact hdead old hold
          · intro hdead old hold
            refine hdead old ⟨rfl, ref, c, pubkey, version, hasking, hold, admission, ?_⟩
            rw [hadd]

/-! ## Frames and roster events -/

theorem Inv.not_live_of_snapshotMsg (h : Inv stream s) (hnone : s.snapshotMsg stream = none)
    {id : Uuid} (hid : s.Registered id) : ¬ s.Live id := by
  rintro ⟨key, hlive⟩
  rcases hid with ⟨pubkey, hpubkey⟩
  rcases h.home_of_live (h.mine pubkey id hpubkey) hlive with ⟨c, ref, hc, rfl, href⟩
  rw [snapshotMsg, hc, Option.bind_some, href] at hnone
  cases hnone

theorem Inv.moves_snapshot (h : Inv stream s) (hserving : s.phase = .serving)
    (sending : Except Directory.MeshError Unit) :
    Moves stream s
      (match s.snapshotMsg stream with
        | none => s.finish stream (.ok ()) none
        | some msg => s.sendOrReturn msg sending)
      (sending ≠ .ok () → ∀ id, s.Registered id → ¬ s.Live id) := by
  cases hmsg : s.snapshotMsg stream with
  | none =>
      refine (h.moves_finish (not_returned_of_serving hserving) _ _).congr ?_
      exact ⟨fun _ _ _ hid => h.not_live_of_snapshotMsg hmsg hid, fun _ => trivial⟩
  | some msg => exact h.moves_send hserving msg sending

theorem Inv.moves_onRosterEvent (h : Inv stream s) (hserving : s.phase = .serving)
    (event : RosterEvent) (sending : Except Directory.MeshError Unit) :
    Moves stream s (s.onRosterEvent stream event sending)
      (event ≠ .closed → sending ≠ .ok () → ∀ id, s.Registered id → ¬ s.Live id) := by
  cases event with
  | closed =>
      refine (h.moves_finish (not_returned_of_serving hserving) _ _).congr ?_
      exact ⟨fun _ hopen => absurd rfl hopen, fun _ => trivial⟩
  | lagged =>
      refine (h.moves_snapshot hserving sending).congr ?_
      exact ⟨fun hdead _ => hdead, fun hdead => hdead nofun⟩
  | delta delta =>
      refine (h.moves_send hserving _ sending).congr ?_
      exact ⟨fun hdead _ => hdead, fun hdead => hdead nofun⟩

theorem Inv.moves_onMessage (h : Inv stream s) (hserving : s.phase = .serving)
    (msg : HuddleControlMsg) (sending : Except Directory.MeshError Unit) :
    Moves stream s (s.onMessage stream msg sending)
      (msg = .rosterResync → sending ≠ .ok () → ∀ id, s.Registered id → ¬ s.Live id) := by
  have hrunning := not_returned_of_serving hserving
  have hother : msg ≠ .rosterResync →
      (True ↔ (msg = .rosterResync → sending ≠ .ok () → ∀ id, s.Registered id → ¬ s.Live id)) :=
    fun hne => ⟨fun _ heq => absurd heq hne, fun _ => trivial⟩
  cases msg with
  | registerPeer c pubkey version =>
      exact (h.moves_onRegisterPeer hserving c pubkey version).congr (hother nofun)
  | unregisterPeer pubkey => exact (h.moves_onUnregisterPeer hserving pubkey).congr (hother nofun)
  | rosterResync =>
      refine (h.moves_snapshot hserving sending).congr ?_
      exact ⟨fun hdead _ => hdead, fun hdead => hdead rfl⟩
  | peerRegistered pubkey idx epoch roster =>
      exact (h.moves_finish hrunning _ _).congr (hother nofun)
  | rosterSnapshot snapshot => exact (h.moves_finish hrunning _ _).congr (hother nofun)
  | rosterDelta delta => exact (h.moves_finish hrunning _ _).congr (hother nofun)
  | registerRejected pubkey reason => exact (h.moves_finish hrunning _ _).congr (hother nofun)

theorem Inv.moves_onFrame (h : Inv stream s) (hserving : s.phase = .serving) (frame : ControlFrame)
    (sending : Except Directory.MeshError Unit) :
    Moves stream s (s.onFrame stream frame sending)
      (frame = .data stream.fenced (.ok .rosterResync) → sending ≠ .ok () →
        ∀ id, s.Registered id → ¬ s.Live id) := by
  have hend : ∀ result, frame ≠ .data stream.fenced (.ok .rosterResync) →
      Moves stream s (s.finish stream result none)
        (frame = .data stream.fenced (.ok .rosterResync) → sending ≠ .ok () →
          ∀ id, s.Registered id → ¬ s.Live id) := by
    intro result hne
    refine (h.moves_finish (not_returned_of_serving hserving) result none).congr ?_
    exact ⟨fun _ heq => absurd heq hne, fun _ => trivial⟩
  cases frame with
  | goodbye => exact hend _ nofun
  | closed => exact hend _ nofun
  | other => exact hend _ nofun
  | failed e => exact hend _ nofun
  | data fenced payload =>
      unfold onFrame
      dsimp only
      by_cases hfence : fenced = stream.fenced
      · rw [if_neg (not_not.2 hfence)]
        cases payload with
        | error e => exact hend _ nofun
        | ok msg =>
            refine (h.moves_onMessage hserving msg sending).congr ?_
            rw [hfence]
            constructor
            · intro hdead heq
              cases heq
              exact hdead rfl
            · rintro hdead rfl
              exact hdead rfl
      · rw [if_pos hfence]
        refine hend _ fun heq => ?_
        cases heq
        exact hfence rfl

/-! ## One event -/

theorem careful_iff_sends {input : ControlInput} (h : ∀ old, ¬ s.Overwrites old input) :
    Careful stream s input ↔ (SendFails stream s input → ∀ id, s.Registered id → ¬ s.Live id) :=
  ⟨fun hcareful => hcareful.sends, fun hsends => ⟨hsends, fun old hover => absurd hover (h old)⟩⟩

theorem careful_iff_registers {input : ControlInput} (h : ¬ SendFails stream s input) :
    Careful stream s input ↔ ∀ old, s.Overwrites old input → ¬ s.Live old :=
  ⟨fun hcareful => hcareful.registers, fun hover => ⟨fun hfails => absurd hfails h, hover⟩⟩

theorem careful_of_idle {input : ControlInput} (hsends : ¬ SendFails stream s input)
    (hover : ∀ old, ¬ s.Overwrites old input) : True ↔ Careful stream s input :=
  ⟨fun _ => ⟨fun hfails => absurd hfails hsends, fun old h => absurd h (hover old)⟩,
    fun _ => trivial⟩

theorem Inv.moves_idle (h : Inv stream s) : Moves stream s s True :=
  h.moves_quiet rfl rfl rfl rfl (fun _ _ _ _ hasking => hasking) Iff.rfl

theorem Inv.moves_step (h : Inv stream s) {input : ControlInput} (hvalid : s.Valid input)
    (hown : ∀ op, input ≠ .others op) :
    Moves stream s (s.step stream input) (Careful stream s input) := by
  cases input with
  | others op => exact absurd rfl (hown op)
  | drainFired =>
      refine Moves.congr ?_ (careful_of_idle (fun hfails => hfails) fun _ hover => hover)
      cases hphase : s.phase with
      | serving =>
          simp only [step, hphase]
          exact h.moves_finish (not_returned_of_serving hphase) _ _
      | asking ref c pubkey version => simpa only [step, hphase] using h.moves_idle
      | returned result => simpa only [step, hphase] using h.moves_idle
  | lostFired =>
      refine Moves.congr ?_ (careful_of_idle (fun hfails => hfails) fun _ hover => hover)
      cases hphase : s.phase with
      | serving =>
          simp only [step, hphase]
          exact h.moves_finish (not_returned_of_serving hphase) _ _
      | asking ref c pubkey version => simpa only [step, hphase] using h.moves_idle
      | returned result => simpa only [step, hphase] using h.moves_idle
  | rosterEvent event sending =>
      have hidle : (¬ (s.phase = .serving ∧ s.rosterRx = true)) → (True ↔
          Careful stream s (.rosterEvent event sending)) := fun hnot =>
        careful_of_idle (fun hfails => hnot ⟨hfails.1, hfails.2.1⟩) fun _ hover => hover
      have hover : ∀ old, ¬ s.Overwrites old (.rosterEvent event sending) := fun _ hover => hover
      cases hphase : s.phase with
      | serving =>
          simp only [step, hphase]
          by_cases hrx : s.rosterRx = true
          · rw [if_pos hrx]
            refine (h.moves_onRosterEvent hphase event sending).congr ?_
            refine Iff.trans ?_ (careful_iff_sends hover).symm
            constructor
            · rintro hdead ⟨_, _, hopen, hfails⟩
              exact hdead hopen hfails
            · intro hdead hopen hfails
              exact hdead ⟨hphase, hrx, hopen, hfails⟩
          · rw [if_neg hrx]
            exact h.moves_idle.congr (hidle fun hboth => hrx hboth.2)
      | asking ref c pubkey version =>
          simp only [step, hphase]
          exact h.moves_idle.congr (hidle fun hboth => nomatch hphase.symm.trans hboth.1)
      | returned result =>
          simp only [step, hphase]
          exact h.moves_idle.congr (hidle fun hboth => nomatch hphase.symm.trans hboth.1)
  | frame frame sending =>
      have hidle : s.phase ≠ .serving → (True ↔ Careful stream s (.frame frame sending)) :=
        fun hnot => careful_of_idle (fun hfails => hnot hfails.1) fun _ hover => hover
      have hover : ∀ old, ¬ s.Overwrites old (.frame frame sending) := fun _ hover => hover
      cases hphase : s.phase with
      | serving =>
          simp only [step, hphase]
          refine (h.moves_onFrame hphase frame sending).congr ?_
          refine Iff.trans ?_ (careful_iff_sends hover).symm
          constructor
          · rintro hdead ⟨_, hframe, hfails⟩
            exact hdead hframe hfails
          · intro hdead hframe hfails
            exact hdead ⟨hphase, hframe, hfails⟩
      | asking ref c pubkey version =>
          simp only [step, hphase]
          exact h.moves_idle.congr (hidle fun hserving => nomatch hphase.symm.trans hserving)
      | returned result =>
          simp only [step, hphase]
          exact h.moves_idle.congr (hidle fun hserving => nomatch hphase.symm.trans hserving)
  | directory answer drawn sending =>
      have hidle : (∀ ref c pubkey version, s.phase ≠ .asking ref c pubkey version) →
          (True ↔ Careful stream s (.directory answer drawn sending)) := by
        intro hnot
        refine careful_of_idle (fun hfails => hfails) ?_
        rintro old ⟨_, ref, c, pubkey, version, hasking, _⟩
        exact hnot ref c pubkey version hasking
      have hsends : ¬ SendFails stream s (.directory answer drawn sending) := fun hfails => hfails
      cases hphase : s.phase with
      | asking ref c pubkey version =>
          simp only [step, hphase]
          refine (h.moves_onAnswer hphase answer sending hvalid).congr ?_
          exact (careful_iff_registers hsends).symm
      | serving =>
          simp only [step, hphase]
          exact h.moves_idle.congr (hidle fun _ _ _ _ hasking => nomatch hphase.symm.trans hasking)
      | returned result =>
          simp only [step, hphase]
          exact h.moves_idle.congr (hidle fun _ _ _ _ hasking => nomatch hphase.symm.trans hasking)

theorem Inv.others_step (h : Inv stream s) {op : HostOp} (hvalid : s.Valid (.others op)) :
    Inv stream (s.step stream (.others op)) ∧
      ((s.step stream (.others op)).Tight ↔ s.Tight ∧ Careful stream s (.others op)) := by
  have hsubject : ∀ ref roomOp, op = .room ref roomOp → ∀ id ∈ s.admitted,
      roomOp.subject ≠ some id := by
    rintro ref roomOp rfl
    exact hvalid
  have hevolves : Evolves (· ∈ s.admitted) s.host.rooms (s.host.run op).rooms :=
    Host.evolves_run hsubject
  constructor
  · exact h.of_evolves rfl rfl (fun _ _ hp => hp) hevolves fun _ _ _ _ hasking => hasking
  · have hcareful : True ↔ Careful stream s (.others op) :=
      careful_of_idle (fun hfails => hfails) fun _ hover => hover
    rw [← hcareful, and_iff_left trivial]
    refine tight_congr rfl (fun id hid => ?_) rfl Iff.rfl
    have hsame : ∀ key, (s.host.run op).rooms.peerAt key id = s.host.rooms.peerAt key id :=
      Host.peerAt_run h.rooms fun ref roomOp hop => hsubject ref roomOp hop id hid
    constructor
    · rintro ⟨key, hkey⟩
      exact ⟨key, hsame key ▸ hkey⟩
    · rintro ⟨key, hkey⟩
      exact ⟨key, (hsame key).symm ▸ hkey⟩

theorem Inv.tight_step (h : Inv stream s) {input : ControlInput} (hvalid : s.Valid input) :
    Inv stream (s.step stream input) ∧
      ((s.step stream input).Tight ↔ s.Tight ∧ Careful stream s input) := by
  by_cases hown : ∀ op, input ≠ .others op
  · have hmoves := h.moves_step hvalid hown
    exact ⟨hmoves.inv, hmoves.tight⟩
  · rcases not_forall.1 hown with ⟨op, hop⟩
    rw [not_not] at hop
    subst hop
    exact h.others_step hvalid

/-! ## Every run -/

theorem inv_start {host : Host} (h : host.rooms.WellFormed) : Inv stream (start host) :=
  ⟨h, nofun, nofun, fun _ _ _ _ hid => (nomatch hid), nofun⟩

/-- No peer that the stream was admitted with is in a room of the pod. -/
def NoLeak (s : Control) : Prop := ∀ id ∈ s.admitted, ∀ key, s.host.rooms.peerAt key id = none

/-- An event of the loop touches no peer but those the stream was admitted with. -/
def Untouched (stream : ControlStream) (s : Control) (input : ControlInput) : Prop :=
  (∀ op, input ≠ .others op) → ∀ key id, id ∉ (s.step stream input).admitted →
    (s.step stream input).host.rooms.peerAt key id = s.host.rooms.peerAt key id

/-- When the loop returns, the stream has left no peer behind and touched no other, exactly if every
event was careful. -/
theorem teardown_iff (stream : ControlStream) {host : Host} (hhost : host.rooms.WellFormed)
    {inputs : List ControlInput}
    (hvalid : Run.Along Valid (step stream) (start host) inputs)
    (hreturned : (Run.run (step stream) (start host) inputs).Returned) :
    ((Run.run (step stream) (start host) inputs).NoLeak ∧
      Run.Along (Untouched stream) (step stream) (start host) inputs) ↔
    Run.Along (Careful stream) (step stream) (start host) inputs := by
  have hstart : (start host).Tight := fun _ hid => nomatch hid
  have huntouched : Run.Along (Untouched stream) (step stream) (start host) inputs :=
    hvalid.of_invariant (Inv stream) (fun _ _ h hinput => (h.tight_step hinput).1)
      (fun _ _ h hinput hown => (h.moves_step hinput hown).others) (inv_start hhost)
  have htight := Run.holds_iff_along (Inv stream) Tight (fun _ _ h hinput => (h.tight_step hinput).1)
    (fun _ _ h hinput => (h.tight_step hinput).2) (inv_start hhost) hvalid
  calc
    _ ↔ (Run.run (step stream) (start host) inputs).NoLeak := and_iff_left huntouched
    _ ↔ (Run.run (step stream) (start host) inputs).Tight := by
        constructor
        · rintro hnone id hid ⟨key, hkey⟩
          exact absurd (hnone id hid key) hkey
        · intro h id hid key
          by_contra hkey
          exact (h id hid ⟨key, hkey⟩).1 hreturned
    _ ↔ (start host).Tight ∧ Run.Along (Careful stream) (step stream) (start host) inputs := htight
    _ ↔ Run.Along (Careful stream) (step stream) (start host) inputs := and_iff_right hstart

end Control

/-! ## Peers left behind -/

namespace Leak

/-- A stream of session 7 at its owner. -/
def stream : ControlStream := ⟨⟨7, 1, 3⟩, 3, .stored _⟩

def host : Host := ⟨.new, .new⟩

def key : RoomKey := (⟨1⟩, 7)

/-- A registration of public key `a` that the directory accepts. -/
def register (drawn : Uuid) : List ControlInput :=
  [.frame (.data stream.fenced (.ok (.registerPeer 1 ['a'] 3))) (.ok ()),
   .directory (.ok ()) drawn (.ok ())]

def run (inputs : List ControlInput) : Control :=
  Run.run (Control.step stream) (Control.start host) inputs

def close : ControlInput := .frame .closed (.ok ())

/-- A roster update that cannot be sent. -/
def lostUpdate : ControlInput := .rosterEvent .lagged (.error .transport)

end Leak

/-- A public key that was registered twice, and a roster update that could not be sent: each time
the loop has returned and its first peer is still in the room. -/
theorem remote_peer_left :
    ((Leak.run (Leak.register 1 ++ Leak.register 2 ++ [Leak.close])).phase = .returned (.ok ()) ∧
      ¬ (Leak.run (Leak.register 1 ++ Leak.register 2 ++ [Leak.close])).NoLeak) ∧
    ((Leak.run (Leak.register 1 ++ [Leak.lostUpdate])).phase =
        .returned (.error (.mesh .transport)) ∧
      ¬ (Leak.run (Leak.register 1 ++ [Leak.lostUpdate])).NoLeak) := by
  have hrepeated : (1 : Uuid) ∈
        (Leak.run (Leak.register 1 ++ Leak.register 2 ++ [Leak.close])).admitted ∧
      (Leak.run (Leak.register 1 ++ Leak.register 2 ++ [Leak.close])).host.rooms.peerAt Leak.key 1 ≠
        none := by
    decide
  have hfailed : (1 : Uuid) ∈ (Leak.run (Leak.register 1 ++ [Leak.lostUpdate])).admitted ∧
      (Leak.run (Leak.register 1 ++ [Leak.lostUpdate])).host.rooms.peerAt Leak.key 1 ≠ none := by
    decide
  refine ⟨⟨by decide, fun hnone => ?_⟩, by decide, fun hnone => ?_⟩
  · exact hrepeated.2 (hnone 1 hrepeated.1 Leak.key)
  · exact hfailed.2 (hnone 1 hfailed.1 Leak.key)

/-- A registration and an orderly close leave nobody behind. -/
theorem teardown_iff_close : (Leak.run (Leak.register 1 ++ [Leak.close])).NoLeak := by
  have hvalid : Run.Along Control.Valid (Control.step Leak.stream) (Control.start Leak.host)
      (Leak.register 1 ++ [Leak.close]) := by
    refine ⟨trivial, ⟨by decide, fun ref cell hcell => ?_⟩, trivial, trivial⟩
    have hmem : cell ∈ [(⟨Leak.key, .new⟩ : RoomCell)] := List.mem_of_getElem? hcell
    rw [List.mem_singleton.1 hmem]
    rfl
  have hreturned : (Leak.run (Leak.register 1 ++ [Leak.close])).Returned :=
    ⟨.ok (), by decide⟩
  refine ((Control.teardown_iff Leak.stream AudioRoomManager.wellFormed_new hvalid hreturned).2
    ⟨⟨fun hfails => ?_, fun _ hover => ?_⟩, ⟨fun hfails => ?_, ?_⟩, ⟨fun hfails => ?_,
      fun _ hover => ?_⟩, trivial⟩).1
  · cases hfails.2.1
  · cases hover
  · cases hfails
  · rintro old ⟨_, ref, c, pubkey, version, _, hold, _⟩
    cases hold
  · cases hfails.2.1
  · cases hover

end Audio
end Relay
end Maju
