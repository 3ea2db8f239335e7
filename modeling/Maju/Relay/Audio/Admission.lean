import Maju.Lib.Run
import Maju.Relay.Audio.Room

/-!
# Admission — what every sequence of operations keeps true of a room

* `Room.admitted`, `Room.removed` — the rooms that an admission and a removal lead to, and
  `Admitted.step_cases`, which says that an operation does one of these or moves the ended flag;
* `Admitted` — the invariant: indices in use are exactly those of the connected peers, pairwise
  distinct and at most 254; at most 25 peers are connected, all with the pinned version; the epochs
  of the occupants of an index count up modulo 256; the revision counts the deltas modulo `2 ^ 64`;
* `room_admission` — the invariant along every run, with what follows for single operations.
-/

namespace Maju
namespace Relay
namespace Audio

open Lib Core

/-! ## What an operation can do -/

namespace Room

def admitted (room : Room) (id : Uuid) (peer : AudioPeer) (next : Nat) : Room :=
  { peers := room.peers.insert id peer
    guard :=
      { nextCandidate := next
        activeIndices := insert peer.peerIndex room.guard.activeIndices
        indexEpochs := room.guard.indexEpochs.insert peer.peerIndex ((peer.epoch + 1) % 256)
        ended := room.guard.ended
        pinnedVersion := some (room.guard.pinnedVersion.getD peer.protocolVersion)
        rosterRevision := room.guard.nextRevision }
    deltas := room.deltas ++ [⟨room.guard.nextRevision, some peer.toRoster, none⟩] }

def removed (room : Room) (id : Uuid) (peer : AudioPeer) (ended : Bool) : Room :=
  { peers := room.peers.erase id
    guard :=
      { room.guard with
        activeIndices := room.guard.activeIndices.erase peer.peerIndex
        ended := ended
        rosterRevision := room.guard.nextRevision }
    deltas := room.deltas ++ [⟨room.guard.nextRevision, none, some peer.toRoster⟩] }

/-- What holds when a peer is admitted. -/
structure Admissible (room : Room) (peer : AudioPeer) (next : Nat) : Prop where
  open_ : room.guard.ended = false
  seat : room.peers.entries.length < maxPeersPerRoom
  free : peer.peerIndex ∉ room.guard.activeIndices
  index_le : peer.peerIndex ≤ 254
  next_le : next ≤ 254
  epoch : peer.epoch = (room.guard.indexEpochs.lookup peer.peerIndex).getD 0
  version : room.guard.pinnedVersion.getD peer.protocolVersion = peer.protocolVersion

theorem version_of_not_refused {g : AdmissionGuard} {requested : Nat}
    (h : versionRefused g requested = none) : g.pinnedVersion.getD requested = requested := by
  unfold versionRefused at h
  split at h
  · next pinned hpinned =>
      split_ifs at h with hne
      rw [hpinned]
      exact not_ne_iff.1 hne
  · next hpinned =>
      rw [hpinned]
      rfl

theorem refusal_of_versionRefused {g : AdmissionGuard} {requested : Nat} {refusal : AdmissionError}
    (h : versionRefused g requested = some refusal) : refusal ≠ .full := by
  unfold versionRefused at h
  split at h
  · split_ifs at h
    cases h
    simp
  · cases h

end Room

/-! ## The invariant -/

/-- The epochs of the successive occupants of an index. -/
def occupants (deltas : List RosterDelta) (idx : Nat) : List Nat :=
  deltas.filterMap fun delta => delta.joined.bind fun peer =>
    if peer.peerIndex = idx then some peer.epoch else none

structure Admitted (room : Room) : Prop where
  active : ∀ idx, idx ∈ room.guard.activeIndices ↔
    ∃ id peer, room.peers.lookup id = some peer ∧ peer.peerIndex = idx
  distinct : ∀ id id' peer peer', room.peers.lookup id = some peer →
    room.peers.lookup id' = some peer' → peer.peerIndex = peer'.peerIndex → id = id'
  index_le : ∀ idx ∈ room.guard.activeIndices, idx ≤ 254
  capped : room.peers.entries.length ≤ maxPeersPerRoom
  pinned : ∀ id peer, room.peers.lookup id = some peer →
    room.guard.pinnedVersion = some peer.protocolVersion
  cursor : room.guard.nextCandidate ≤ 254
  epochs : ∀ idx, occupants room.deltas idx =
    (List.range (occupants room.deltas idx).length).map (· % 256)
  nextEpoch : ∀ idx, (room.guard.indexEpochs.lookup idx).getD 0 =
    (occupants room.deltas idx).length % 256
  revision : room.guard.rosterRevision = room.deltas.length % 2 ^ 64

theorem admitted_new : Admitted .new where
  active := by simp [Room.new, AdmissionGuard.new]
  distinct := by simp [Room.new]
  index_le := by simp [Room.new, AdmissionGuard.new]
  capped := Nat.zero_le _
  pinned := by simp [Room.new]
  cursor := Nat.zero_le _
  epochs := fun _ => rfl
  nextEpoch := fun _ => rfl
  revision := rfl

variable {room : Room}

theorem Admitted.card_le (h : Admitted room) :
    room.guard.activeIndices.card ≤ room.peers.entries.length := by
  have hsub : room.guard.activeIndices ⊆
      (room.peers.entries.map fun e => e.2.peerIndex).toFinset := by
    intro idx hidx
    rcases (h.active idx).1 hidx with ⟨id, peer, hpeer, rfl⟩
    rw [List.mem_toFinset]
    exact List.mem_map.2 ⟨_, HashMap.mem_entries_iff.2 hpeer, rfl⟩
  calc
    room.guard.activeIndices.card
        ≤ (room.peers.entries.map fun e => e.2.peerIndex).toFinset.card := Finset.card_le_card hsub
    _ ≤ (room.peers.entries.map fun e => e.2.peerIndex).length := List.toFinset_card_le _
    _ = room.peers.entries.length := List.length_map _

theorem Admitted.addPeer_ok (h : Admitted room) (id : Uuid) (pubkey : Text) {requested : Nat}
    (hopen : room.guard.ended = false) (hseat : room.peers.entries.length < maxPeersPerRoom)
    (hversion : Room.versionRefused room.guard requested = none) :
    ∃ peer next, Room.Admissible room peer next ∧ peer.pubkey = pubkey ∧
      peer.protocolVersion = requested ∧
      room.addPeer id pubkey requested = (room.admitted id peer next,
        .ok ⟨peer.peerIndex, peer.epoch, room.guard.nextRevision⟩) := by
  simp only [Room.addPeer, hopen, Bool.false_eq_true, if_false, if_neg (Nat.not_le.2 hseat),
    hversion]
  rcases halloc : room.guard.alloc with ⟨g, _ | ⟨idx, epoch⟩⟩
  · -- 25 peers never hold all 255 indices
    refine absurd (congrArg Prod.snd halloc) (AdmissionGuard.alloc_ne_none h.cursor ?_)
    have hcard := h.card_le
    unfold maxPeersPerRoom at hseat
    omega
  · rcases AdmissionGuard.allocLoop_some h.cursor halloc with ⟨hfree, hle, hepoch, next, hnext, hg⟩
    refine ⟨⟨pubkey, idx, epoch, requested⟩, next, ?_, rfl, rfl, ?_⟩
    · exact ⟨hopen, hseat, hfree, hle, hnext, hepoch, Room.version_of_not_refused hversion⟩
    · simp only [Room.admitPeer, hg]
      rfl

theorem Admitted.addPeer_cases (h : Admitted room) (id : Uuid) (pubkey : Text) (requested : Nat) :
    (∃ refusal, room.addPeer id pubkey requested = (room, .error refusal) ∧
      (refusal = .full → maxPeersPerRoom ≤ room.peers.entries.length)) ∨
    ∃ peer next, Room.Admissible room peer next ∧ peer.pubkey = pubkey ∧
      peer.protocolVersion = requested ∧
      room.addPeer id pubkey requested = (room.admitted id peer next,
        .ok ⟨peer.peerIndex, peer.epoch, room.guard.nextRevision⟩) := by
  by_cases hended : room.guard.ended = true
  · exact Or.inl ⟨.ended, by simp [Room.addPeer, hended], by simp⟩
  · rw [Bool.not_eq_true] at hended
    by_cases hfull : maxPeersPerRoom ≤ room.peers.entries.length
    · exact Or.inl ⟨.full, by simp [Room.addPeer, hended, hfull], fun _ => hfull⟩
    · cases hversion : Room.versionRefused room.guard requested with
      | some refusal =>
          refine Or.inl ⟨refusal, by simp [Room.addPeer, hended, hfull, hversion], fun heq => ?_⟩
          exact absurd heq (Room.refusal_of_versionRefused hversion)
      | none => exact Or.inr (h.addPeer_ok id pubkey hended (Nat.lt_of_not_le hfull) hversion)

theorem addPeerAtIndex_cases (room : Room) (id : Uuid) (pubkey : Text) (requested : Nat) {idx : Nat}
    (hidx : idx ≤ 254) :
    (∃ refusal, room.addPeerAtIndex id pubkey requested idx = (room, .error refusal)) ∨
    ∃ peer next, Room.Admissible room peer next ∧ peer.pubkey = pubkey ∧
      peer.protocolVersion = requested ∧
      room.addPeerAtIndex id pubkey requested idx = (room.admitted id peer next,
        .ok ⟨peer.peerIndex, peer.epoch, room.guard.nextRevision⟩) := by
  unfold Room.addPeerAtIndex
  split_ifs with hended hfull
  · exact Or.inl ⟨_, rfl⟩
  · exact Or.inl ⟨_, rfl⟩
  · cases hversion : Room.versionRefused room.guard requested with
    | some refusal => exact Or.inl ⟨refusal, rfl⟩
    | none =>
        rcases not_or.1 hfull with ⟨hseat, hfree⟩
        refine Or.inr ⟨⟨pubkey, idx, (room.guard.indexEpochs.lookup idx).getD 0, requested⟩,
          AdmissionGuard.following idx, ?_, rfl, rfl, rfl⟩
        exact ⟨by simpa using hended, Nat.lt_of_not_le hseat, hfree, hidx,
          AdmissionGuard.following_le hidx, rfl, Room.version_of_not_refused hversion⟩

theorem takePeer_some {id : Uuid} {peer : AudioPeer} (h : room.peers.lookup id = some peer) :
    room.takePeer id = some (room.removed id peer room.guard.ended,
      ⟨room.guard.nextRevision, none, some peer.toRoster⟩) := by
  simp [Room.takePeer, h, Room.removed]

theorem takePeer_none {id : Uuid} (h : room.peers.lookup id = none) : room.takePeer id = none := by
  simp [Room.takePeer, h]

def RoomAnswer.mutates : RoomAnswer → Bool
  | .admission (.ok _) => true
  | .removal (some _) => true
  | .removalChecked (some _) => true
  | _ => false

/-- The answer of the removal that ends a room. -/
def RoomAnswer.shouldEnd : RoomAnswer → Bool
  | .removalChecked (some (_, shouldEnd)) => shouldEnd
  | _ => false

/-- The operation draws a UUID of no connected peer and an index of the owner's range. -/
def RoomOp.Valid (room : Room) (op : RoomOp) : Prop :=
  op.Assigned ∧ ∀ id, op.drawn = some id → room.peers.lookup id = none

instance (room : Room) (op : RoomOp) : Decidable (op.Valid room) :=
  decidable_of_iff (op.Assigned ∧ op.drawn.all fun id => (room.peers.lookup id).isNone) <| by
    unfold RoomOp.Valid
    cases op.drawn with
    | none => simp
    | some id => simp [Option.isNone_iff_eq_none]

/-- The operation leaves the peers alone, admits a peer, or removes one. -/
theorem Admitted.step_cases (h : Admitted room) {op : RoomOp} (hop : op.Valid room) :
    ((room.step op).2.mutates = false ∧ (room.step op).2.shouldEnd = false ∧
      ∃ ended, (room.step op).1 = { room with guard := { room.guard with ended := ended } } ∧
        (op ≠ .clearEnded → room.guard.ended = true → ended = true)) ∨
    (∃ id peer next, op.drawn = some id ∧ Room.Admissible room peer next ∧
      room.step op = (room.admitted id peer next,
        .admission (.ok ⟨peer.peerIndex, peer.epoch, room.guard.nextRevision⟩))) ∨
    ∃ id peer ended, room.peers.lookup id = some peer ∧
      (room.step op).1 = room.removed id peer ended ∧ (room.step op).2.mutates = true ∧
      (room.guard.ended = true → ended = true) ∧
      ((room.step op).2.shouldEnd = true →
        room.guard.ended = false ∧ ended = true ∧ (room.peers.erase id).entries = []) := by
  -- an operation that leaves the room as it is
  have hsame : room = { room with guard := { room.guard with ended := room.guard.ended } } := rfl
  cases op with
  | addPeer id pubkey requested =>
      rcases h.addPeer_cases id pubkey requested with ⟨refusal, heq, _⟩ | ⟨peer, next, hadm, _, _, heq⟩
      · refine Or.inl ?_
        simp only [Room.step, heq]
        exact ⟨rfl, rfl, _, hsame, fun _ h => h⟩
      · refine Or.inr (Or.inl ⟨id, peer, next, rfl, hadm, ?_⟩)
        simp only [Room.step, heq]
  | addPeerAtIndex id pubkey requested idx =>
      rcases addPeerAtIndex_cases room id pubkey requested hop.1 with
        ⟨refusal, heq⟩ | ⟨peer, next, hadm, _, _, heq⟩
      · refine Or.inl ?_
        simp only [Room.step, heq]
        exact ⟨rfl, rfl, _, hsame, fun _ h => h⟩
      · refine Or.inr (Or.inl ⟨id, peer, next, rfl, hadm, ?_⟩)
        simp only [Room.step, heq]
  | removePeer id =>
      cases hpeer : room.peers.lookup id with
      | none =>
          refine Or.inl ?_
          simp only [Room.step, Room.removePeer, takePeer_none hpeer]
          exact ⟨rfl, rfl, _, hsame, fun _ h => h⟩
      | some peer =>
          refine Or.inr (Or.inr ⟨id, peer, room.guard.ended, hpeer, ?_⟩)
          simp only [Room.step, Room.removePeer, takePeer_some hpeer]
          exact ⟨trivial, rfl, fun h => h, fun h => by cases h⟩
  | removePeerAndCheckEnded id =>
      cases hpeer : room.peers.lookup id with
      | none =>
          refine Or.inl ?_
          simp only [Room.step, Room.removePeerAndCheckEnded, takePeer_none hpeer]
          exact ⟨rfl, rfl, _, hsame, fun _ h => h⟩
      | some peer =>
          simp only [Room.step, Room.removePeerAndCheckEnded, takePeer_some hpeer]
          split_ifs with hlast
          · rw [Bool.and_eq_true, Bool.not_eq_true'] at hlast
            refine Or.inr (Or.inr ⟨id, peer, true, hpeer, rfl, rfl, fun _ => rfl, fun _ => ?_⟩)
            exact ⟨hlast.1, rfl, List.isEmpty_iff.1 hlast.2⟩
          · refine Or.inr (Or.inr ⟨id, peer, room.guard.ended, hpeer, rfl, rfl, fun h => h, ?_⟩)
            intro hend
            cases hend
  | markEnded => exact Or.inl ⟨rfl, rfl, true, rfl, fun _ _ => rfl⟩
  | clearEnded => exact Or.inl ⟨rfl, rfl, false, rfl, fun hne _ => absurd rfl hne⟩

/-! ## Every operation keeps the invariant -/

theorem occupants_joined (deltas : List RosterDelta) (revision : Nat) (peer : RosterPeer)
    (idx : Nat) :
    occupants (deltas ++ [⟨revision, some peer, none⟩]) idx =
      occupants deltas idx ++ if peer.peerIndex = idx then [peer.epoch] else [] := by
  simp only [occupants, List.filterMap_append, List.append_cancel_left_eq]
  split_ifs with hidx
  · simp [hidx]
  · simp [hidx]

theorem occupants_left (deltas : List RosterDelta) (revision : Nat) (peer : RosterPeer)
    (idx : Nat) :
    occupants (deltas ++ [⟨revision, none, some peer⟩]) idx = occupants deltas idx := by
  simp [occupants]

theorem Admitted.nextRevision (h : Admitted room) :
    room.guard.nextRevision = (room.deltas.length + 1) % 2 ^ 64 := by
  rw [AdmissionGuard.nextRevision, h.revision, Nat.mod_add_mod]

theorem Admitted.setEnded (h : Admitted room) (ended : Bool) :
    Admitted { room with guard := { room.guard with ended := ended } } :=
  ⟨h.active, h.distinct, h.index_le, h.capped, h.pinned, h.cursor, h.epochs, h.nextEpoch,
    h.revision⟩

theorem Admitted.admitted (h : Admitted room) {id : Uuid} {peer : AudioPeer} {next : Nat}
    (hid : room.peers.lookup id = none) (hadm : Room.Admissible room peer next) :
    Admitted (room.admitted id peer next) := by
  -- a peer under another id was there before, at another index
  have hother : ∀ id' peer', (room.peers.insert id peer).lookup id' = some peer' →
      (id' = id ∧ peer' = peer) ∨
        (room.peers.lookup id' = some peer' ∧ peer'.peerIndex ≠ peer.peerIndex) := by
    intro id' peer' hpeer'
    rw [HashMap.lookup_insert_eq] at hpeer'
    split_ifs at hpeer' with heq
    · cases hpeer'
      exact Or.inl ⟨heq, rfl⟩
    · refine Or.inr ⟨hpeer', fun hsame => hadm.free ?_⟩
      exact (h.active _).2 ⟨id', peer', hpeer', hsame⟩
  constructor
  · intro idx
    change idx ∈ insert peer.peerIndex room.guard.activeIndices ↔
      ∃ id' peer', (room.peers.insert id peer).lookup id' = some peer' ∧ peer'.peerIndex = idx
    rw [Finset.mem_insert, h.active]
    constructor
    · rintro (rfl | ⟨id', peer', hpeer', rfl⟩)
      · exact ⟨id, peer, AList.lookup_insert _, rfl⟩
      · have hne : id' ≠ id := by
          rintro rfl
          rw [hid] at hpeer'
          cases hpeer'
        exact ⟨id', peer', by rw [AList.lookup_insert_ne hne, hpeer'], rfl⟩
    · rintro ⟨id', peer', hpeer', rfl⟩
      rcases hother id' peer' hpeer' with ⟨_, rfl⟩ | ⟨hold, _⟩
      · exact Or.inl rfl
      · exact Or.inr ⟨id', peer', hold, rfl⟩
  · intro ida idb peera peerb ha hb hsame
    rcases hother ida peera ha with ⟨rfl, rfl⟩ | ⟨holda, hnea⟩
    · rcases hother idb peerb hb with ⟨rfl, rfl⟩ | ⟨_, hneb⟩
      · rfl
      · exact absurd hsame.symm hneb
    · rcases hother idb peerb hb with ⟨rfl, rfl⟩ | ⟨holdb, _⟩
      · exact absurd hsame hnea
      · exact h.distinct ida idb peera peerb holda holdb hsame
  · intro idx hidx
    rcases Finset.mem_insert.1 hidx with rfl | hold
    · exact hadm.index_le
    · exact h.index_le idx hold
  · exact HashMap.length_insert_le id peer h.capped (Or.inr hadm.seat)
  · intro id' peer' hpeer'
    change some (room.guard.pinnedVersion.getD peer.protocolVersion) = some peer'.protocolVersion
    rcases hother id' peer' hpeer' with ⟨_, rfl⟩ | ⟨hold, _⟩
    · rw [hadm.version]
    · rw [h.pinned id' peer' hold]
      rfl
  · exact hadm.next_le
  · intro idx
    change occupants (room.deltas ++ [_]) idx =
      (List.range (occupants (room.deltas ++ [_]) idx).length).map (· % 256)
    rw [occupants_joined]
    split_ifs with hidx
    · -- the new occupant takes the next epoch of the index
      have hepoch : peer.toRoster.epoch = (occupants room.deltas idx).length % 256 := by
        rw [← h.nextEpoch, ← hidx]
        exact hadm.epoch
      rw [hepoch, List.length_append, List.length_singleton, List.range_succ, List.map_append,
        ← h.epochs]
      rfl
    · rw [List.append_nil]
      exact h.epochs idx
  · intro idx
    change ((room.guard.indexEpochs.insert peer.peerIndex ((peer.epoch + 1) % 256)).lookup
      idx).getD 0 = (occupants (room.deltas ++ [_]) idx).length % 256
    rw [occupants_joined, HashMap.lookup_insert_eq]
    by_cases hidx : idx = peer.peerIndex
    · have hsame : peer.toRoster.peerIndex = idx := hidx.symm
      rw [if_pos hidx, if_pos hsame, Option.getD_some, hadm.epoch, h.nextEpoch, ← hidx,
        Nat.mod_add_mod, List.length_append, List.length_singleton]
    · rw [if_neg hidx, if_neg fun heq => hidx heq.symm, List.append_nil]
      exact h.nextEpoch idx
  · change room.guard.nextRevision = (room.deltas ++ [_]).length % 2 ^ 64
    rw [h.nextRevision, List.length_append, List.length_singleton]

theorem Admitted.removed (h : Admitted room) {id : Uuid} {peer : AudioPeer}
    (hpeer : room.peers.lookup id = some peer) (ended : Bool) :
    Admitted (room.removed id peer ended) := by
  have hrest : ∀ id' peer', (room.peers.erase id).lookup id' = some peer' →
      id' ≠ id ∧ room.peers.lookup id' = some peer' := by
    intro id' peer' hpeer'
    rw [HashMap.lookup_erase_eq] at hpeer'
    split_ifs at hpeer' with hne
    exact ⟨hne, hpeer'⟩
  constructor
  · intro idx
    change idx ∈ room.guard.activeIndices.erase peer.peerIndex ↔
      ∃ id' peer', (room.peers.erase id).lookup id' = some peer' ∧ peer'.peerIndex = idx
    rw [Finset.mem_erase, h.active]
    constructor
    · rintro ⟨hne, id', peer', hpeer', rfl⟩
      refine ⟨id', peer', ?_, rfl⟩
      rw [HashMap.lookup_erase_eq, if_neg, hpeer']
      rintro rfl
      rw [hpeer] at hpeer'
      cases hpeer'
      exact hne rfl
    · rintro ⟨id', peer', hpeer', rfl⟩
      rcases hrest id' peer' hpeer' with ⟨hne, hold⟩
      refine ⟨fun hsame => hne ?_, id', peer', hold, rfl⟩
      exact h.distinct id' id peer' peer hold hpeer hsame
  · intro ida idb peera peerb ha hb
    exact h.distinct ida idb peera peerb (hrest ida peera ha).2 (hrest idb peerb hb).2
  · intro idx hidx
    exact h.index_le idx (Finset.mem_of_mem_erase hidx)
  · exact (HashMap.length_erase_le room.peers id).trans h.capped
  · intro id' peer' hpeer'
    exact h.pinned id' peer' (hrest id' peer' hpeer').2
  · exact h.cursor
  · intro idx
    change occupants (room.deltas ++ [_]) idx =
      (List.range (occupants (room.deltas ++ [_]) idx).length).map (· % 256)
    rw [occupants_left]
    exact h.epochs idx
  · intro idx
    change (room.guard.indexEpochs.lookup idx).getD 0 =
      (occupants (room.deltas ++ [_]) idx).length % 256
    rw [occupants_left]
    exact h.nextEpoch idx
  · change room.guard.nextRevision = (room.deltas ++ [_]).length % 2 ^ 64
    rw [h.nextRevision, List.length_append, List.length_singleton]

theorem Admitted.step (h : Admitted room) {op : RoomOp} (hop : op.Valid room) :
    Admitted (room.step op).1 := by
  rcases h.step_cases hop with ⟨_, _, ended, heq, _⟩ | ⟨id, peer, next, hid, hadm, heq⟩ |
    ⟨id, peer, ended, hpeer, heq, _⟩
  · rw [heq]
    exact h.setEnded ended
  · rw [heq]
    exact h.admitted (hop.2 id hid) hadm
  · rw [heq]
    exact h.removed hpeer ended

/-! ## Runs -/

namespace Room

def next (room : Room) (op : RoomOp) : Room := (room.step op).1

/-- The room after a run from the empty one. -/
def after (ops : List RoomOp) : Room := Run.run next new ops

/-- What the operations of a run answer. -/
def answers : Room → List RoomOp → List RoomAnswer
  | _, [] => []
  | room, op :: ops => (room.step op).2 :: answers (room.next op) ops

/-- The operations of a run are valid where they are applied. -/
def ValidRun (room : Room) (ops : List RoomOp) : Prop :=
  Run.Along (fun room op => op.Valid room) next room ops

end Room

theorem admitted_after {ops : List RoomOp} (h : Room.ValidRun .new ops) :
    Admitted (Room.after ops) :=
  Run.invariant Admitted (fun _ _ hroom hop => hroom.step hop) admitted_new h

/-- How often a room can still end before the flag is cleared. -/
def Room.endsLeft (room : Room) : Nat := if room.guard.ended then 0 else 1

theorem endsLeft_le {room room' : Room}
    (h : room.guard.ended = true → room'.guard.ended = true) : room'.endsLeft ≤ room.endsLeft := by
  unfold Room.endsLeft
  cases hended : room.guard.ended with
  | true => simp [h hended]
  | false => cases room'.guard.ended <;> simp

theorem Admitted.endsLeft_step (h : Admitted room) {op : RoomOp} (hop : op.Valid room)
    (hclear : op ≠ .clearEnded) :
    (room.next op).endsLeft + (if (room.step op).2.shouldEnd then 1 else 0) ≤ room.endsLeft := by
  unfold Room.next
  rcases h.step_cases hop with ⟨_, hquiet, ended, heq, hkept⟩ | ⟨id, peer, next, _, _, heq⟩ |
    ⟨id, peer, ended, _, heq, _, hkept, hlast⟩
  · rw [hquiet, heq]
    exact endsLeft_le (hkept hclear)
  · rw [heq]
    exact endsLeft_le fun hended => hended
  · rw [heq]
    split_ifs with hend
    · rcases hlast hend with ⟨hopen, rfl, _⟩
      simp [Room.endsLeft, Room.removed, hopen]
    · exact endsLeft_le hkept

theorem Admitted.countP_shouldEnd (h : Admitted room) {ops : List RoomOp}
    (hops : Room.ValidRun room ops) (hclear : ∀ op ∈ ops, op ≠ .clearEnded) :
    (Room.answers room ops).countP RoomAnswer.shouldEnd ≤ room.endsLeft := by
  induction ops generalizing room with
  | nil => simp [Room.answers]
  | cons op ops ih =>
      have hstep := h.endsLeft_step hops.1 (hclear op List.mem_cons_self)
      have hrest := ih (h.step hops.1) hops.2 fun op' hop' =>
        hclear op' (List.mem_cons_of_mem op hop')
      rw [Room.answers, List.countP_cons]
      exact (Nat.add_le_add_right hrest _).trans hstep

/-! ## The results -/

theorem Admitted.nodup_occupants (h : Admitted room) {idx : Nat} {block : List Nat}
    (hblock : block <:+: occupants room.deltas idx) (hlength : block.length < 256) :
    block.Nodup := by
  rcases hblock with ⟨before, rest, hsplit⟩
  -- the epoch at each place of the block is its place among the occupants, modulo 256
  have hepoch : ∀ i (hi : i < block.length), block[i] = (before.length + i) % 256 := by
    intro i hi
    have hat : (occupants room.deltas idx)[before.length + i]? = some block[i] := by
      rw [← hsplit, List.append_assoc, List.getElem?_append_right (Nat.le_add_right _ _),
        Nat.add_sub_cancel_left, List.getElem?_append_left hi, List.getElem?_eq_getElem hi]
    rw [h.epochs idx, List.getElem?_map, Option.map_eq_some_iff] at hat
    rcases hat with ⟨n, hn, heq⟩
    have hlt : before.length + i < (occupants room.deltas idx).length := by
      simpa using (List.getElem?_eq_some_iff.1 hn).1
    rw [List.getElem?_range hlt] at hn
    cases hn
    exact heq.symm
  rw [List.nodup_iff_injective_get]
  intro i j hij
  apply Fin.ext
  have hi := hepoch i i.isLt
  have hj := hepoch j j.isLt
  have hsame : (before.length + i) % 256 = (before.length + j) % 256 :=
    hi.symm.trans (hij.trans hj)
  omega

/-- **Room admission.**  After every run whose operations draw UUIDs of no connected peer and
assign indices of `0..=254`:

* the indices in use are exactly those of the connected peers, which are pairwise distinct and at
  most 254; at most 25 peers are connected, all with the pinned version;
* fewer than 256 successive occupants of an index carry pairwise distinct epochs;
* a refused admission changes nothing, and `add_peer` answers `Full` only with 25 peers connected;
* an admission or a removal moves the revision to its successor modulo `2 ^ 64`, and nothing else
  moves it;
* until the ended flag is cleared or set by hand, the room is reported as ending at most once, and
  only when no peer is left. -/
theorem room_admission (ops : List RoomOp) (hops : Room.ValidRun .new ops) :
    (∀ idx, idx ∈ (Room.after ops).guard.activeIndices ↔
      ∃ id peer, (Room.after ops).peers.lookup id = some peer ∧ peer.peerIndex = idx) ∧
    (∀ id id' peer peer', (Room.after ops).peers.lookup id = some peer →
      (Room.after ops).peers.lookup id' = some peer' → peer.peerIndex = peer'.peerIndex →
      id = id') ∧
    (∀ idx ∈ (Room.after ops).guard.activeIndices, idx ≤ 254) ∧
    (Room.after ops).peers.entries.length ≤ 25 ∧
    (∀ id peer, (Room.after ops).peers.lookup id = some peer →
      (Room.after ops).guard.pinnedVersion = some peer.protocolVersion) ∧
    (∀ idx block, block <:+: occupants (Room.after ops).deltas idx → block.length < 256 →
      block.Nodup) ∧
    (∀ op, op.Valid (Room.after ops) →
      (∀ refusal, ((Room.after ops).step op).2 = .admission (.error refusal) →
        ((Room.after ops).step op).1 = Room.after ops) ∧
      (((Room.after ops).step op).2.mutates = true →
        ((Room.after ops).next op).guard.rosterRevision =
          ((Room.after ops).guard.rosterRevision + 1) % 2 ^ 64) ∧
      (((Room.after ops).step op).2.mutates = false →
        ((Room.after ops).next op).guard.rosterRevision =
          (Room.after ops).guard.rosterRevision) ∧
      (((Room.after ops).step op).2.shouldEnd = true → ((Room.after ops).next op).peers = ∅)) ∧
    (∀ id pubkey requested, ((Room.after ops).addPeer id pubkey requested).2 = .error .full →
      (Room.after ops).peers.entries.length = 25) ∧
    ∀ later, Room.ValidRun (Room.after ops) later →
      (∀ op ∈ later, op ≠ .clearEnded ∧ op ≠ .markEnded) →
      (Room.answers (Room.after ops) later).countP RoomAnswer.shouldEnd ≤ 1 := by
  have h := admitted_after hops
  refine ⟨h.active, h.distinct, h.index_le, h.capped, h.pinned, fun _ _ => h.nodup_occupants, ?_,
    ?_, ?_⟩
  · intro op hop
    refine ⟨?_, ?_, ?_, ?_⟩
    · intro refusal hrefused
      -- only the two admissions answer so, and each refuses before it changes anything
      cases op with
      | addPeer id pubkey requested =>
          rcases h.addPeer_cases id pubkey requested with ⟨_, heq, _⟩ | ⟨_, _, _, _, _, heq⟩
          · simp only [Room.step, heq]
          · simp only [Room.step, heq] at hrefused
            cases hrefused
      | addPeerAtIndex id pubkey requested idx =>
          rcases addPeerAtIndex_cases (Room.after ops) id pubkey requested hop.1 with
            ⟨_, heq⟩ | ⟨_, _, _, _, _, heq⟩
          · simp only [Room.step, heq]
          · simp only [Room.step, heq] at hrefused
            cases hrefused
      | _ => cases hrefused
    · intro hmutates
      unfold Room.next
      rcases h.step_cases hop with ⟨hquiet, _⟩ | ⟨_, _, _, _, _, heq⟩ | ⟨_, _, _, _, heq, _⟩
      · rw [hquiet] at hmutates
        cases hmutates
      · rw [heq]
        rfl
      · rw [heq]
        rfl
    · intro hquiet
      unfold Room.next
      rcases h.step_cases hop with ⟨_, _, _, heq, _⟩ | ⟨_, _, _, _, _, heq⟩ |
        ⟨_, _, _, _, _, hmutates, _⟩
      · rw [heq]
      · rw [heq] at hquiet
        cases hquiet
      · rw [hmutates] at hquiet
        cases hquiet
    · intro hend
      unfold Room.next
      rcases h.step_cases hop with ⟨_, hquiet, _⟩ | ⟨_, _, _, _, _, heq⟩ |
        ⟨id, _, _, _, heq, _, _, hlast⟩
      · rw [hquiet] at hend
        cases hend
      · rw [heq] at hend
        cases hend
      · rw [heq]
        exact AList.ext (hlast hend).2.2
  · intro id pubkey requested hfull
    rcases h.addPeer_cases id pubkey requested with ⟨refusal, heq, hcap⟩ | ⟨_, _, _, _, _, heq⟩
    · rw [heq] at hfull
      cases hfull
      exact Nat.le_antisymm h.capped (hcap rfl)
    · rw [heq] at hfull
      cases hfull
  · intro later hlater hclear
    refine (h.countP_shouldEnd hlater fun op hop => (hclear op hop).1).trans ?_
    unfold Room.endsLeft
    split_ifs
    · exact Nat.zero_le _
    · exact Nat.le_refl _

/-! ## A room in which peers come and go -/

namespace Churn

def join (n : Nat) : RoomOp := .addPeer (BitVec.ofNat 128 n) [] 3

def leave (n : Nat) : RoomOp := .removePeer (BitVec.ofNat 128 n)

/-- So many peers join and leave, one after the other. -/
def ops : Nat → List RoomOp
  | 0 => []
  | n + 1 => ops n ++ [join n, leave n]

/-- A room that is empty and open to the protocol version of the peers. -/
structure Idle (room : Room) : Prop where
  sound : Admitted room
  empty : room.peers = ∅
  open_ : room.guard.ended = false
  version : Room.versionRefused room.guard 3 = none

theorem versionRefused_admitted (id : Uuid) {peer : AudioPeer} {next : Nat}
    (hadm : Room.Admissible room peer next) (hversion : peer.protocolVersion = 3) :
    Room.versionRefused (room.admitted id peer next).guard 3 = none := by
  simp only [Room.admitted, Room.versionRefused]
  rw [hadm.version, hversion]
  simp

theorem Idle.join (h : Idle room) (n : Nat) :
    (join n).Valid room ∧ (room.next (join n)).deltas.length = room.deltas.length + 1 ∧
      (leave n).Valid (room.next (join n)) ∧
      ((room.next (join n)).step (leave n)).2.mutates = true ∧
      ((room.next (join n)).next (leave n)).deltas.length = room.deltas.length + 2 ∧
      Idle ((room.next (join n)).next (leave n)) := by
  have hseat : room.peers.entries.length < maxPeersPerRoom := by simp [h.empty, maxPeersPerRoom]
  have hjoin : (Churn.join n).Valid room := ⟨trivial, fun id _ => by rw [h.empty]; rfl⟩
  have hleave : ∀ room : Room, (leave n).Valid room := fun _ => ⟨trivial, fun _ hid => by cases hid⟩
  rcases h.sound.addPeer_ok (BitVec.ofNat 128 n) [] h.open_ hseat h.version with
    ⟨peer, next, hadm, _, hversion, heq⟩
  have hnext : room.next (Churn.join n) = room.admitted (BitVec.ofNat 128 n) peer next := by
    simp only [Room.next, Churn.join, Room.step, heq]
  have hpeer : (room.admitted (BitVec.ofNat 128 n) peer next).peers.lookup (BitVec.ofNat 128 n) =
      some peer := AList.lookup_insert _
  have hgone : (room.admitted (BitVec.ofNat 128 n) peer next).next (leave n) =
      (room.admitted (BitVec.ofNat 128 n) peer next).removed (BitVec.ofNat 128 n) peer
        room.guard.ended := by
    simp only [Room.next, leave, Room.step, Room.removePeer, takePeer_some hpeer]
    rfl
  have hmutates : ((room.admitted (BitVec.ofNat 128 n) peer next).step (leave n)).2.mutates =
      true := by
    simp only [leave, Room.step, Room.removePeer, takePeer_some hpeer]
    rfl
  have hsound : Admitted ((room.next (Churn.join n)).next (leave n)) :=
    (h.sound.step hjoin).step (hleave (room.next (Churn.join n)))
  rw [hnext, hgone] at hsound
  rw [hnext, hgone]
  refine ⟨hjoin, by simp [Room.admitted], hleave _, hmutates, ?_, hsound, ?_, h.open_, ?_⟩
  · simp [Room.removed, Room.admitted]
  · rw [HashMap.eq_empty_iff]
    intro id
    simp only [Room.removed, Room.admitted, h.empty, HashMap.lookup_erase_eq]
    split_ifs with hid
    · rfl
    · rw [AList.lookup_insert_ne hid]
      rfl
  · exact versionRefused_admitted (BitVec.ofNat 128 n) hadm hversion

/-- Two peers join and leave, and a third joins and stays. -/
def stay : List RoomOp := ops 2 ++ [join 2]

theorem idle_new : Idle .new := ⟨admitted_new, rfl, rfl, rfl⟩

theorem after_snoc (ops : List RoomOp) (op : RoomOp) :
    Room.after (ops ++ [op]) = (Room.after ops).next op := by
  simp [Room.after, Run.run]

theorem validRun_snoc {ops : List RoomOp} (h : Room.ValidRun .new ops) {op : RoomOp}
    (hop : op.Valid (Room.after ops)) : Room.ValidRun .new (ops ++ [op]) :=
  Run.Along.concat h hop

theorem idle_ops (n : Nat) :
    Room.ValidRun .new (ops n) ∧ Idle (Room.after (ops n)) ∧
      (Room.after (ops n)).deltas.length = 2 * n := by
  induction n with
  | zero => exact ⟨trivial, idle_new, rfl⟩
  | succ n ih =>
      rcases ih with ⟨hrun, hidle, hlength⟩
      rcases hidle.join n with ⟨hjoin, _, hleave, _, hdeltas, hidle'⟩
      have hsplit : ops (n + 1) = (ops n ++ [join n]) ++ [leave n] := by simp [ops]
      rw [hsplit]
      refine ⟨validRun_snoc (validRun_snoc hrun hjoin) (by rwa [after_snoc]), ?_, ?_⟩
      · rwa [after_snoc, after_snoc]
      · rw [after_snoc, after_snoc, hdeltas, hlength]
        rfl

end Churn

/-- The revision does not go up by one with every removal: it starts again from 0 after
`2 ^ 64 - 1`. -/
theorem revision_wraps :
    ¬∀ ops, Room.ValidRun .new ops → ∀ op, op.Valid (Room.after ops) →
      ((Room.after ops).step op).2.mutates = true →
      ((Room.after ops).next op).guard.rosterRevision =
        (Room.after ops).guard.rosterRevision + 1 := by
  intro hall
  obtain ⟨n, hn⟩ : ∃ n, 2 * n + 2 = 2 ^ 64 := ⟨2 ^ 63 - 1, by decide⟩
  rcases Churn.idle_ops n with ⟨hrun, hidle, hlength⟩
  rcases hidle.join n with ⟨hjoin, hjoined, hleave, hmutates, hleft, hidle'⟩
  have hstep := hall (Churn.ops n ++ [Churn.join n]) (Churn.validRun_snoc hrun hjoin)
    (Churn.leave n)
  rw [Churn.after_snoc] at hstep
  have hbefore : ((Room.after (Churn.ops n)).next (Churn.join n)).guard.rosterRevision =
      ((Room.after (Churn.ops n)).next (Churn.join n)).deltas.length % 2 ^ 64 :=
    (hidle.sound.step hjoin).revision
  have hcount := hstep hleave hmutates
  rw [hidle'.sound.revision, hbefore, hleft, hjoined, hlength] at hcount
  omega

/-- Two peers have come and gone and a third is there: the indices, the version and the epochs are
as they should be, and when it leaves the revision moves and the room ends once. -/
theorem room_admission_churn :
    Room.ValidRun .new Churn.stay ∧
      (∀ idx, idx ∈ (Room.after Churn.stay).guard.activeIndices ↔
        ∃ id peer, (Room.after Churn.stay).peers.lookup id = some peer ∧ peer.peerIndex = idx) ∧
      (∀ idx ∈ (Room.after Churn.stay).guard.activeIndices, idx ≤ 254) ∧
      (Room.after Churn.stay).peers.entries.length ≤ 25 ∧
      (∀ id peer, (Room.after Churn.stay).peers.lookup id = some peer →
        (Room.after Churn.stay).guard.pinnedVersion = some peer.protocolVersion) ∧
      (∀ idx block, block <:+: occupants (Room.after Churn.stay).deltas idx → block.length < 256 →
        block.Nodup) ∧
      ((Room.after Churn.stay).next (Churn.leave 2)).guard.rosterRevision =
        ((Room.after Churn.stay).guard.rosterRevision + 1) % 2 ^ 64 ∧
      (Room.answers (Room.after Churn.stay) [Churn.leave 2]).countP RoomAnswer.shouldEnd ≤ 1 := by
  rcases Churn.idle_ops 2 with ⟨hrun, hidle, _⟩
  rcases hidle.join 2 with ⟨hjoin, _, hleave, hmutates, _, _⟩
  have hstay : Room.ValidRun .new Churn.stay := Churn.validRun_snoc hrun hjoin
  have hafter : Room.after Churn.stay = (Room.after (Churn.ops 2)).next (Churn.join 2) :=
    Churn.after_snoc (Churn.ops 2) (Churn.join 2)
  rw [← hafter] at hleave hmutates
  rcases room_admission Churn.stay hstay with
    ⟨hactive, _, hindex, hcapped, hpinned, hepochs, hstep, _, hended⟩
  refine ⟨hstay, hactive, hindex, hcapped, hpinned, hepochs,
    (hstep (Churn.leave 2) hleave).2.1 hmutates, hended [Churn.leave 2] ⟨hleave, trivial⟩ ?_⟩
  intro op hop
  rw [List.mem_singleton.1 hop]
  exact ⟨by decide, by decide⟩

end Audio
end Relay
end Maju
