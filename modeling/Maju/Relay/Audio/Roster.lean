import Maju.Lib.Trace
import Maju.Relay.Audio.Admission

/-!
# Roster — replication of an owner's roster to another pod

The owner of a huddle serves one control stream for each pod that hosts remote clients.  It answers
the registration of a client with a roster, then forwards the deltas of its room; a subscriber of
the 64-slot delta channel that lags is sent a roster instead.  The other pod forwards to its client
what fits the revision it has reached, and asks for a roster when a delta leaves a gap.

* `Link.step` — the steps of the room, of the owner's control loop and of the pod that reads the
  stream, in any order;
* `replay` — the client's map from routing index to participant;
* `rosterMap_admitted`, `rosterMap_removed` — what an admission and a removal do to the roster.
-/

namespace Maju
namespace Relay
namespace Audio

open Lib Core

/-! ## Messages -/

/-- The owner's messages of `HuddleControlMsg`. -/
inductive OwnerMsg where
  | peerRegistered (admission : Admission) (roster : RosterSnapshot)
  | registerRejected (reason : AdmissionError)
  | rosterSnapshot (snapshot : RosterSnapshot)
  | rosterDelta (delta : RosterDelta)
  deriving DecidableEq, Repr

/-- What the client is told: a whole roster, or one participant that joined or left. -/
inductive ClientMsg where
  | roster (revision : Nat) (peers : List RosterPeer)
  | joined (revision : Nat) (peer : RosterPeer)
  | left (revision : Nat) (peer : RosterPeer)
  deriving DecidableEq, Repr

namespace ClientMsg

def revision : ClientMsg → Nat
  | .roster revision _ => revision
  | .joined revision _ => revision
  | .left revision _ => revision

def isRoster : ClientMsg → Bool
  | .roster _ _ => true
  | _ => false

end ClientMsg

/-- A client's view of the participants: routing index to public key and epoch. -/
abbrev PeerMap := HashMap Nat (Text × Nat)

def rosterMap (peers : List RosterPeer) : PeerMap :=
  peers.foldl (fun map peer => map.insert peer.peerIndex (peer.pubkey, peer.epoch)) ∅

/-- A roster replaces the map, a peer that joined is inserted, one that left is removed. -/
def replay (map : PeerMap) : ClientMsg → PeerMap
  | .roster _ peers => rosterMap peers
  | .joined _ peer => map.insert peer.peerIndex (peer.pubkey, peer.epoch)
  | .left _ peer => map.erase peer.peerIndex

def replayed (msgs : List ClientMsg) : PeerMap := msgs.foldl replay ∅

/-! ## The link -/

/-- Slots of the channel of roster deltas. -/
def rosterChannelCapacity : Nat := 64

/-- Where the owner's `serve_control_loop` is: subscribed to the deltas from a position on while the
fence is validated; the client admitted and no roster taken yet; in the loop, where `owes` is a
roster to be sent before the next event. -/
inductive Serve where
  | waiting
  | subscribed (position : Nat)
  | admitted (position : Nat) (admission : Admission)
  | serving (position : Nat) (owes : Bool)
  | closed
  deriving DecidableEq, Repr

/-- Where the reading pod is. -/
inductive Reader where
  | dialing
  | reading (revision : Nat)
  | stopped
  deriving DecidableEq, Repr

/-- A room with its rosters by the number of admissions and removals before, the owner's loop, the
messages on their way to the reading pod, the `RosterResync` requests on their way back, and the
reader. -/
structure Link where
  room : Room
  past : List (List RosterPeer)
  serve : Serve
  wire : List OwnerMsg
  requests : Nat
  reader : Reader
  forwarded : List ClientMsg
  deriving DecidableEq

inductive LinkInput where
  | room (op : RoomOp)
  | subscribe
  | register (id : Uuid) (pubkey : Text) (requested : Nat)
  | reply
  | recvDelta
  | recvResync
  | sendSnapshot
  | close
  | recvFrame
  | hangUp
  deriving DecidableEq, Repr

namespace Link

def new : Link := ⟨.new, [[]], .waiting, [], 0, .dialing, []⟩

/-- The room moves on; a roster that changed is written down. -/
def setRoom (l : Link) (room : Room) : Link :=
  { l with
    room
    past :=
      if room.deltas.length = l.room.deltas.length then l.past
      else l.past ++ [room.rosterSnapshot.peers] }

/-- `register_remote_peer` up to the admission. -/
def register (l : Link) (position : Nat) (id : Uuid) (pubkey : Text) (requested : Nat) : Link :=
  match l.room.addPeer id pubkey requested with
  | (room, .ok admission) => { l.setRoom room with serve := .admitted position admission }
  | (room, .error reason) =>
      { l.setRoom room with serve := .waiting, wire := l.wire ++ [.registerRejected reason] }

/-- The arm of the control loop for the delta channel. -/
def recvDelta (l : Link) (position : Nat) : Link :=
  if position + rosterChannelCapacity < l.room.deltas.length then
    -- lagged: the receiver moves to the oldest delta that is still there
    { l with serve := .serving (l.room.deltas.length - rosterChannelCapacity) true }
  else
    match l.room.deltas[position]? with
    | some delta =>
        { l with serve := .serving (position + 1) false, wire := l.wire ++ [.rosterDelta delta] }
    | none => l

/-- `read_owner_control` on one message, at a revision. -/
def readOwnerControl (l : Link) (revision : Nat) : OwnerMsg → Link
  | .rosterSnapshot snapshot =>
      { l with
        reader := .reading snapshot.revision
        forwarded := l.forwarded ++ [.roster snapshot.revision snapshot.peers] }
  | .rosterDelta delta =>
      if delta.revision = (revision + 1) % 2 ^ 64 then
        match delta.joined, delta.left with
        | some peer, _ =>
            { l with
              reader := .reading delta.revision
              forwarded := l.forwarded ++ [.joined delta.revision peer] }
        | none, some peer =>
            { l with
              reader := .reading delta.revision
              forwarded := l.forwarded ++ [.left delta.revision peer] }
        | none, none => { l with reader := .reading delta.revision }
      else if delta.revision ≤ revision then l
      else { l with requests := l.requests + 1 }
  | _ => l

/-- The reading pod takes the next message off the stream. -/
def recvFrame (l : Link) (msg : OwnerMsg) : Link :=
  match l.reader with
  | .dialing =>
      match msg with
      | .peerRegistered _ roster =>
          { l with
            reader := .reading roster.revision
            forwarded := l.forwarded ++ [.roster roster.revision roster.peers] }
      | _ => { l with reader := .stopped }
  | .reading revision => l.readOwnerControl revision msg
  | .stopped => l

def step (l : Link) : LinkInput → Link
  | .room op => l.setRoom (l.room.next op)
  | .subscribe =>
      match l.serve with
      | .waiting => { l with serve := .subscribed l.room.deltas.length }
      | _ => l
  | .register id pubkey requested =>
      match l.serve with
      | .subscribed position => l.register position id pubkey requested
      | _ => l
  | .reply =>
      match l.serve with
      | .admitted position admission =>
          { l with
            serve := .serving position false
            wire := l.wire ++ [.peerRegistered admission l.room.rosterSnapshot] }
      | _ => l
  | .recvDelta =>
      match l.serve with
      | .serving position false => l.recvDelta position
      | _ => l
  | .recvResync =>
      match l.serve, l.requests with
      | .serving position false, requests + 1 =>
          { l with serve := .serving position true, requests := requests }
      | _, _ => l
  | .sendSnapshot =>
      match l.serve with
      | .serving position true =>
          { l with
            serve := .serving position false
            wire := l.wire ++ [.rosterSnapshot l.room.rosterSnapshot] }
      | _ => l
  | .close => { l with serve := .closed }
  | .recvFrame =>
      match l.wire with
      | msg :: rest => ({ l with wire := rest } : Link).recvFrame msg
      | [] => l
  | .hangUp => { l with reader := .stopped }

end Link

/-- The operations on the room are valid where they are applied. -/
def LinkInput.Valid (l : Link) : LinkInput → Prop
  | .room op => op.Valid l.room
  | .register id pubkey requested => (RoomOp.addPeer id pubkey requested).Valid l.room
  | _ => True

instance (l : Link) : DecidablePred (LinkInput.Valid l) := fun input =>
  match input with
  | .room op => inferInstanceAs (Decidable (op.Valid l.room))
  | .register id pubkey requested =>
      inferInstanceAs (Decidable ((RoomOp.addPeer id pubkey requested).Valid l.room))
  | .subscribe => isTrue trivial
  | .reply => isTrue trivial
  | .recvDelta => isTrue trivial
  | .recvResync => isTrue trivial
  | .sendSnapshot => isTrue trivial
  | .close => isTrue trivial
  | .recvFrame => isTrue trivial
  | .hangUp => isTrue trivial

/-! ## Rosters as maps -/

theorem lookup_rosterMap {peers : List RosterPeer} (hpeers : (peers.map (·.peerIndex)).Nodup)
    (idx : Nat) (v : Text × Nat) :
    (rosterMap peers).lookup idx = some v ↔
      ∃ peer ∈ peers, peer.peerIndex = idx ∧ (peer.pubkey, peer.epoch) = v := by
  unfold rosterMap
  induction peers using List.reverseRecOn with
  | nil => simp
  | append_singleton peers peer ih =>
      rw [List.map_append, List.nodup_append] at hpeers
      rw [List.foldl_append, List.foldl_cons, List.foldl_nil, HashMap.lookup_insert_eq]
      split_ifs with hidx
      · constructor
        · intro hv
          exact ⟨peer, by simp, hidx.symm, Option.some.inj hv⟩
        · rintro ⟨peer', hmem, hidx', rfl⟩
          rcases List.mem_append.1 hmem with hold | hnew
          · -- no other participant has the index of the last one
            have hne := hpeers.2.2 peer'.peerIndex (List.mem_map.2 ⟨peer', hold, rfl⟩)
              peer.peerIndex (by simp)
            exact absurd (hidx'.trans hidx) hne
          · rw [List.mem_singleton.1 hnew]
      · rw [ih hpeers.1]
        constructor
        · rintro ⟨peer', hmem, heq⟩
          exact ⟨peer', List.mem_append_left _ hmem, heq⟩
        · rintro ⟨peer', hmem, hidx', heq⟩
          rcases List.mem_append.1 hmem with hold | hnew
          · exact ⟨peer', hold, hidx', heq⟩
          · rw [List.mem_singleton.1 hnew] at hidx'
            exact absurd hidx'.symm hidx

variable {room : Room}

theorem mem_rosterSnapshot (room : Room) (peer : RosterPeer) :
    peer ∈ room.rosterSnapshot.peers ↔
      ∃ id connected, room.peers.lookup id = some connected ∧ connected.toRoster = peer := by
  unfold Room.rosterSnapshot
  rw [List.mem_insertionSort, List.mem_map]
  constructor
  · rintro ⟨e, he, rfl⟩
    exact ⟨e.1, e.2, HashMap.lookup_of_mem_entries he, rfl⟩
  · rintro ⟨id, connected, hconnected, rfl⟩
    exact ⟨_, HashMap.mem_entries_iff.2 hconnected, rfl⟩

theorem Admitted.nodup_roster (h : Admitted room) :
    (room.rosterSnapshot.peers.map (·.peerIndex)).Nodup := by
  have hperm : (room.rosterSnapshot.peers.map (·.peerIndex)).Perm
      (room.peers.entries.map fun e => e.2.peerIndex) := by
    have hsort := (List.perm_insertionSort (fun a b : RosterPeer => a.peerIndex ≤ b.peerIndex)
      (room.peers.entries.map fun e => e.2.toRoster)).map (·.peerIndex)
    rwa [List.map_map] at hsort
  rw [hperm.nodup_iff]
  refine List.Nodup.map_on ?_ room.peers.nodupKeys.nodup
  intro e he e' he' hsame
  have hid := h.distinct e.1 e'.1 e.2 e'.2 (HashMap.lookup_of_mem_entries he)
    (HashMap.lookup_of_mem_entries he') hsame
  have hpeer : some e.2 = some e'.2 := by
    rw [← HashMap.lookup_of_mem_entries he, hid, HashMap.lookup_of_mem_entries he']
  exact Sigma.ext hid (heq_of_eq (Option.some.inj hpeer))

theorem Admitted.lookup_roster (h : Admitted room) (idx : Nat) (v : Text × Nat) :
    (rosterMap room.rosterSnapshot.peers).lookup idx = some v ↔
      ∃ id peer, room.peers.lookup id = some peer ∧ peer.peerIndex = idx ∧
        (peer.pubkey, peer.epoch) = v := by
  rw [lookup_rosterMap h.nodup_roster]
  constructor
  · rintro ⟨entry, hmem, hidx, hv⟩
    rcases (mem_rosterSnapshot room entry).1 hmem with ⟨id, peer, hpeer, rfl⟩
    exact ⟨id, peer, hpeer, hidx, hv⟩
  · rintro ⟨id, peer, hpeer, hidx, hv⟩
    exact ⟨peer.toRoster, (mem_rosterSnapshot room _).2 ⟨id, peer, hpeer, rfl⟩, hidx, hv⟩

theorem Admitted.rosterMap_admitted (h : Admitted room) {id : Uuid} {peer : AudioPeer} {next : Nat}
    (hid : room.peers.lookup id = none) (hadm : Room.Admissible room peer next) (idx : Nat) :
    (rosterMap (room.admitted id peer next).rosterSnapshot.peers).lookup idx =
      if idx = peer.peerIndex then some (peer.pubkey, peer.epoch)
      else (rosterMap room.rosterSnapshot.peers).lookup idx := by
  ext v
  rw [(h.admitted hid hadm).lookup_roster]
  change (∃ id' peer', (room.peers.insert id peer).lookup id' = some peer' ∧ _) ↔ _
  constructor
  · rintro ⟨id', peer', hpeer', hidx, hv⟩
    rw [HashMap.lookup_insert_eq] at hpeer'
    split_ifs at hpeer' with hsame
    · cases hpeer'
      rw [if_pos hidx.symm, hv]
    · rw [if_neg, h.lookup_roster]
      · exact ⟨id', peer', hpeer', hidx, hv⟩
      · -- the index of the new peer was free
        intro hfree
        exact hadm.free ((h.active _).2 ⟨id', peer', hpeer', hidx.trans hfree⟩)
  · intro hlookup
    split_ifs at hlookup with hidx
    · exact ⟨id, peer, AList.lookup_insert _, hidx.symm, Option.some.inj hlookup⟩
    · rcases (h.lookup_roster idx v).1 hlookup with ⟨id', peer', hpeer', hrest⟩
      refine ⟨id', peer', ?_, hrest⟩
      rw [HashMap.lookup_insert_eq, if_neg, hpeer']
      rintro rfl
      rw [hid] at hpeer'
      cases hpeer'

theorem Admitted.rosterMap_removed (h : Admitted room) {id : Uuid} {peer : AudioPeer}
    (hpeer : room.peers.lookup id = some peer) (ended : Bool) (idx : Nat) :
    (rosterMap (room.removed id peer ended).rosterSnapshot.peers).lookup idx =
      if idx = peer.peerIndex then none
      else (rosterMap room.rosterSnapshot.peers).lookup idx := by
  ext v
  rw [(h.removed hpeer ended).lookup_roster]
  change (∃ id' peer', (room.peers.erase id).lookup id' = some peer' ∧ _) ↔ _
  constructor
  · rintro ⟨id', peer', hpeer', hidx, hv⟩
    rw [HashMap.lookup_erase_eq] at hpeer'
    split_ifs at hpeer' with hsame
    rw [if_neg, h.lookup_roster]
    · exact ⟨id', peer', hpeer', hidx, hv⟩
    · intro hremoved
      exact hsame (h.distinct id' id peer' peer hpeer' hpeer (hidx.trans hremoved))
  · intro hlookup
    split_ifs at hlookup with hidx
    rcases (h.lookup_roster idx v).1 hlookup with ⟨id', peer', hpeer', hidx', hv⟩
    refine ⟨id', peer', ?_, hidx', hv⟩
    rw [HashMap.lookup_erase_eq, if_neg, hpeer']
    rintro rfl
    rw [hpeer] at hpeer'
    cases hpeer'
    exact hidx hidx'.symm

end Audio
end Relay
end Maju
