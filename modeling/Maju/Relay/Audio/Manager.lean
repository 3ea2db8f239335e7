import Maju.Relay.Audio.Room

/-!
# Manager — the rooms of one pod

The manager keys its rooms by community and channel and hands out shared references, so a caller
may hold a room that the manager has already dropped.  Rooms live in an arena here; the manager's
map holds their addresses.

* `AudioRoomManager.getOrCreate`, `get`, `getUnambiguousByChannel`, `cleanupIfEmpty` — as in the
  relay;
* `AudioRoomManager.peerAt` — the peer with an id in the room that the manager has under a key;
* `HostOp` — what other tasks of the pod do to its rooms.
-/

namespace Maju
namespace Relay
namespace Audio

open Lib Core

/-- The labels of a room: its community and its channel. -/
abbrev RoomKey := CommunityId × Uuid

/-- A room with the labels it was created under. -/
structure RoomCell where
  key : RoomKey
  room : Room
  deriving DecidableEq

/-- The addresses of the rooms by key, and every room that was created, by its address. -/
structure AudioRoomManager where
  rooms : HashMap RoomKey Nat
  arena : List RoomCell
  deriving DecidableEq

namespace AudioRoomManager

def new : AudioRoomManager := ⟨∅, []⟩

def getOrCreate (m : AudioRoomManager) (key : RoomKey) : AudioRoomManager × Nat :=
  match m.rooms.lookup key with
  | some ref => (m, ref)
  | none =>
      (⟨m.rooms.insert key m.arena.length, m.arena ++ [⟨key, .new⟩]⟩, m.arena.length)

def get (m : AudioRoomManager) (key : RoomKey) : Option Nat := m.rooms.lookup key

def roomAt (m : AudioRoomManager) (ref : Nat) : Option Room := (m.arena[ref]?).map RoomCell.room

/-- `get_unambiguous_by_channel`: the only room with the channel. -/
def getUnambiguousByChannel (m : AudioRoomManager) (channel : Uuid) : Option Nat :=
  match m.rooms.entries.filter fun e => e.1.2 = channel with
  | [e] => some e.2
  | _ => none

/-- An operation on the room at an address. -/
def update (m : AudioRoomManager) (ref : Nat) (f : Room → Room) : AudioRoomManager :=
  { m with arena := m.arena.modify ref fun cell => { cell with room := f cell.room } }

/-- `cleanup_if_empty`: says whether it removed the room. -/
def cleanupIfEmpty (m : AudioRoomManager) (key : RoomKey) : AudioRoomManager × Bool :=
  match m.rooms.lookup key with
  | none => (m, false)
  | some ref =>
      match m.roomAt ref with
      | none => (m, false)
      | some room =>
          if room.peers.entries.isEmpty then ({ m with rooms := m.rooms.erase key }, true)
          else (m, false)

/-- The peer with an id in the room under a key. -/
def peerAt (m : AudioRoomManager) (key : RoomKey) (id : Uuid) : Option AudioPeer :=
  (m.rooms.lookup key).bind fun ref => (m.roomAt ref).bind fun room => room.peers.lookup id

/-- The map holds addresses of rooms with the labels of their keys. -/
def WellFormed (m : AudioRoomManager) : Prop :=
  ∀ key ref, m.rooms.lookup key = some ref → ∃ cell, m.arena[ref]? = some cell ∧ cell.key = key

theorem wellFormed_new : WellFormed .new := by
  intro key ref h
  cases h

variable {m : AudioRoomManager}

theorem WellFormed.key_eq (h : m.WellFormed) {key key' : RoomKey} {ref : Nat}
    (hkey : m.rooms.lookup key = some ref) (hkey' : m.rooms.lookup key' = some ref) :
    key = key' := by
  rcases h key ref hkey with ⟨cell, hcell, rfl⟩
  rcases h key' ref hkey' with ⟨cell', hcell', rfl⟩
  rw [hcell] at hcell'
  rw [Option.some.inj hcell']

theorem peerAt_eq {key : RoomKey} {ref : Nat} {cell : RoomCell}
    (hkey : m.rooms.lookup key = some ref) (hcell : m.arena[ref]? = some cell) (id : Uuid) :
    m.peerAt key id = cell.room.peers.lookup id := by
  simp [peerAt, roomAt, hkey, hcell]

theorem peerAt_none {key : RoomKey} (hkey : m.rooms.lookup key = none) (id : Uuid) :
    m.peerAt key id = none := by
  simp [peerAt, hkey]

theorem WellFormed.cell_of_peerAt (h : m.WellFormed) {key : RoomKey} {id : Uuid}
    {peer : AudioPeer} (hpeer : m.peerAt key id = some peer) :
    ∃ ref cell, m.rooms.lookup key = some ref ∧ m.arena[ref]? = some cell ∧ cell.key = key ∧
      cell.room.peers.lookup id = some peer := by
  cases hkey : m.rooms.lookup key with
  | none =>
      rw [peerAt_none hkey] at hpeer
      cases hpeer
  | some ref =>
      rcases h key ref hkey with ⟨cell, hcell, hlabel⟩
      rw [peerAt_eq hkey hcell] at hpeer
      exact ⟨ref, cell, rfl, hcell, hlabel, hpeer⟩

/-! ## Creating a room -/

theorem cell_append {ref : Nat} {cell : RoomCell} (h : m.arena[ref]? = some cell) (new : RoomCell) :
    (m.arena ++ [new])[ref]? = some cell := by
  rw [List.getElem?_append_left (List.getElem?_eq_some_iff.1 h).1, h]

theorem getOrCreate_some {key : RoomKey} {ref : Nat} (h : m.rooms.lookup key = some ref) :
    m.getOrCreate key = (m, ref) := by
  simp [getOrCreate, h]

theorem getOrCreate_none {key : RoomKey} (h : m.rooms.lookup key = none) :
    m.getOrCreate key =
      (⟨m.rooms.insert key m.arena.length, m.arena ++ [⟨key, .new⟩]⟩, m.arena.length) := by
  simp [getOrCreate, h]

theorem WellFormed.cell_getOrCreate (h : m.WellFormed) (key : RoomKey) :
    ∃ cell, (m.getOrCreate key).1.arena[(m.getOrCreate key).2]? = some cell ∧ cell.key = key := by
  cases hkey : m.rooms.lookup key with
  | some ref =>
      rw [getOrCreate_some hkey]
      exact h key ref hkey
  | none =>
      rw [getOrCreate_none hkey]
      exact ⟨⟨key, .new⟩, List.getElem?_concat_length, rfl⟩

theorem WellFormed.getOrCreate (h : m.WellFormed) (key : RoomKey) :
    (m.getOrCreate key).1.WellFormed := by
  cases hkey : m.rooms.lookup key with
  | some ref =>
      rw [getOrCreate_some hkey]
      exact h
  | none =>
      rw [getOrCreate_none hkey]
      intro key' ref' hlookup
      change (m.rooms.insert key m.arena.length).lookup key' = some ref' at hlookup
      rw [HashMap.lookup_insert_eq] at hlookup
      split at hlookup
      · next heq =>
          cases hlookup
          exact ⟨⟨key, .new⟩, List.getElem?_concat_length, heq.symm⟩
      · rcases h key' ref' hlookup with ⟨cell, hcell, hlabel⟩
        exact ⟨cell, cell_append hcell _, hlabel⟩

theorem WellFormed.peerAt_getOrCreate (h : m.WellFormed) (key key' : RoomKey) (id : Uuid) :
    (m.getOrCreate key).1.peerAt key' id = m.peerAt key' id := by
  cases hkey : m.rooms.lookup key with
  | some ref => rw [getOrCreate_some hkey]
  | none =>
      rw [getOrCreate_none hkey]
      by_cases hsame : key' = key
      · subst hsame
        rw [peerAt_none hkey]
        have hcell : (m.arena ++ [⟨key', .new⟩])[m.arena.length]? = some ⟨key', .new⟩ :=
          List.getElem?_concat_length
        exact peerAt_eq (m := ⟨_, m.arena ++ [⟨key', .new⟩]⟩) (AList.lookup_insert m.rooms) hcell id
      · have hlookup : (m.rooms.insert key m.arena.length).lookup key' = m.rooms.lookup key' :=
          AList.lookup_insert_ne hsame
        cases hkey' : m.rooms.lookup key' with
        | none => rw [peerAt_none hkey', peerAt_none (hlookup.trans hkey')]
        | some ref' =>
            rcases h key' ref' hkey' with ⟨cell, hcell, _⟩
            have hcell' := cell_append hcell ⟨key, .new⟩
            rw [peerAt_eq hkey' hcell]
            exact peerAt_eq (m := ⟨m.rooms.insert key m.arena.length, m.arena ++ [⟨key, .new⟩]⟩)
              (hlookup.trans hkey') hcell' id

/-! ## An operation on a room -/

theorem getElem?_update (ref ref' : Nat) (f : Room → Room) :
    (m.update ref f).arena[ref']? =
      (m.arena[ref']?).map fun cell =>
        if ref' = ref then { cell with room := f cell.room } else cell := by
  change (m.arena.modify ref _)[ref']? = _
  rw [List.getElem?_modify]
  by_cases h : ref = ref'
  · subst h
    simp
  · simp [h, Ne.symm h]

theorem WellFormed.update (h : m.WellFormed) (ref : Nat) (f : Room → Room) :
    (m.update ref f).WellFormed := by
  intro key ref' hkey
  rcases h key ref' hkey with ⟨cell, hcell, hlabel⟩
  rw [getElem?_update, hcell]
  refine ⟨_, rfl, ?_⟩
  split
  · exact hlabel
  · exact hlabel

theorem WellFormed.peerAt_update (h : m.WellFormed) {ref : Nat} {f : Room → Room} {key : RoomKey}
    {id : Uuid}
    (hf : ∀ cell, m.rooms.lookup key = some ref → m.arena[ref]? = some cell →
      (f cell.room).peers.lookup id = cell.room.peers.lookup id) :
    (m.update ref f).peerAt key id = m.peerAt key id := by
  cases hkey : m.rooms.lookup key with
  | none => rw [peerAt_none hkey, peerAt_none (m := m.update ref f) hkey]
  | some ref' =>
      rcases h key ref' hkey with ⟨cell, hcell, _⟩
      have hcell' := getElem?_update (m := m) ref ref' f
      rw [hcell, Option.map_some] at hcell'
      rw [peerAt_eq hkey hcell, peerAt_eq (m := m.update ref f) hkey hcell']
      by_cases href : ref' = ref
      · subst href
        rw [if_pos rfl]
        exact hf cell hkey hcell
      · rw [if_neg href]

/-! ## Dropping a room -/

theorem cleanupIfEmpty_cases (m : AudioRoomManager) (key : RoomKey) :
    m.cleanupIfEmpty key = (m, false) ∨
    (m.cleanupIfEmpty key = ({ m with rooms := m.rooms.erase key }, true) ∧
      ∃ ref cell, m.rooms.lookup key = some ref ∧ m.arena[ref]? = some cell ∧
        cell.room.peers = ∅) := by
  unfold cleanupIfEmpty
  split
  · exact .inl rfl
  · next ref hkey =>
      unfold roomAt
      cases hcell : m.arena[ref]? with
      | none => exact .inl rfl
      | some cell =>
          by_cases hempty : cell.room.peers.entries.isEmpty
          · refine .inr ⟨by simp [hempty], ref, cell, hkey, hcell, ?_⟩
            exact AList.ext (List.isEmpty_iff.1 hempty)
          · exact .inl (by simp [hempty])

theorem WellFormed.cleanupIfEmpty (h : m.WellFormed) (key : RoomKey) :
    (m.cleanupIfEmpty key).1.WellFormed := by
  rcases m.cleanupIfEmpty_cases key with hkept | ⟨hdropped, _⟩
  · rw [hkept]
    exact h
  · rw [hdropped]
    intro key' ref hlookup
    change (m.rooms.erase key).lookup key' = some ref at hlookup
    rw [HashMap.lookup_erase_eq] at hlookup
    split at hlookup
    · cases hlookup
    · exact h key' ref hlookup

theorem peerAt_cleanupIfEmpty (key key' : RoomKey) (id : Uuid) :
    (m.cleanupIfEmpty key).1.peerAt key' id = m.peerAt key' id := by
  rcases m.cleanupIfEmpty_cases key with hkept | ⟨hdropped, ref, cell, hkey, hcell, hempty⟩
  · rw [hkept]
  · rw [hdropped]
    by_cases hsame : key' = key
    · subst hsame
      rw [peerAt_eq hkey hcell, hempty]
      exact peerAt_none (AList.lookup_erase _ _) id
    · have hlookup : (m.rooms.erase key).lookup key' = m.rooms.lookup key' :=
        AList.lookup_erase_ne hsame
      simp [peerAt, hlookup, roomAt]

theorem arena_cleanupIfEmpty (m : AudioRoomManager) (key : RoomKey) :
    (m.cleanupIfEmpty key).1.arena = m.arena := by
  rcases m.cleanupIfEmpty_cases key with hkept | ⟨hdropped, _⟩
  · rw [hkept]
  · rw [hdropped]

end AudioRoomManager

/-! ## What an operation does to the peers -/

namespace Room

theorem addPeer_peers (room : Room) (id : Uuid) (pubkey : Text) (requested : Nat) :
    ((∃ e, (room.addPeer id pubkey requested).2 = .error e) ∧
      (room.addPeer id pubkey requested).1.peers = room.peers) ∨
    ∃ admission peer, (room.addPeer id pubkey requested).2 = .ok admission ∧
      (room.addPeer id pubkey requested).1.peers = room.peers.insert id peer := by
  unfold addPeer
  split
  · exact .inl ⟨⟨_, rfl⟩, rfl⟩
  · split
    · exact .inl ⟨⟨_, rfl⟩, rfl⟩
    · split
      · exact .inl ⟨⟨_, rfl⟩, rfl⟩
      · split
        · exact .inl ⟨⟨_, rfl⟩, rfl⟩
        · exact .inr ⟨_, _, rfl, rfl⟩

theorem addPeerAtIndex_peers (room : Room) (id : Uuid) (pubkey : Text) (requested idx : Nat) :
    (room.addPeerAtIndex id pubkey requested idx).1.peers = room.peers ∨
    ∃ peer, (room.addPeerAtIndex id pubkey requested idx).1.peers = room.peers.insert id peer := by
  unfold addPeerAtIndex
  split
  · exact .inl rfl
  · split
    · exact .inl rfl
    · split
      · exact .inl rfl
      · exact .inr ⟨_, rfl⟩

theorem takePeer_peers {room room' : Room} {id : Uuid} {delta : RosterDelta}
    (h : room.takePeer id = some (room', delta)) : room'.peers = room.peers.erase id := by
  unfold takePeer at h
  split at h
  · cases h
  · cases h
    rfl

theorem removePeer_peers (room : Room) (id : Uuid) :
    (room.removePeer id).1.peers = room.peers ∨
      (room.removePeer id).1.peers = room.peers.erase id := by
  unfold removePeer
  split
  · next htake => exact .inr (takePeer_peers htake)
  · exact .inl rfl

theorem removePeerAndCheckEnded_peers (room : Room) (id : Uuid) :
    (room.removePeerAndCheckEnded id = (room, none) ∧ room.peers.lookup id = none) ∨
    ∃ delta ended, (room.removePeerAndCheckEnded id).2 = some (delta, ended) ∧
      (room.removePeerAndCheckEnded id).1.peers = room.peers.erase id := by
  unfold removePeerAndCheckEnded
  split
  · next room' delta htake =>
      have hpeers := takePeer_peers htake
      split
      · exact .inr ⟨_, _, rfl, hpeers⟩
      · exact .inr ⟨_, _, rfl, hpeers⟩
  · next htake =>
      refine .inl ⟨rfl, ?_⟩
      unfold takePeer at htake
      split at htake
      · next hnone => exact hnone
      · cases htake

end Room

/-- The peer an operation may admit or remove. -/
def RoomOp.subject : RoomOp → Option Uuid
  | .addPeer id _ _ => some id
  | .addPeerAtIndex id _ _ _ => some id
  | .removePeer id => some id
  | .removePeerAndCheckEnded id => some id
  | .markEnded => none
  | .clearEnded => none

theorem Room.lookup_step (room : Room) {op : RoomOp} {id : Uuid} (h : op.subject ≠ some id) :
    (room.step op).1.peers.lookup id = room.peers.lookup id := by
  have hne : ∀ {other : Uuid}, op.subject = some other → id ≠ other := by
    rintro other hsubject rfl
    exact h hsubject
  cases op with
  | addPeer other pubkey requested =>
      change (room.addPeer other pubkey requested).1.peers.lookup id = _
      rcases room.addPeer_peers other pubkey requested with ⟨_, hsame⟩ | ⟨_, peer, _, hinsert⟩
      · rw [hsame]
      · rw [hinsert, AList.lookup_insert_ne (hne rfl)]
  | addPeerAtIndex other pubkey requested idx =>
      change (room.addPeerAtIndex other pubkey requested idx).1.peers.lookup id = _
      rcases room.addPeerAtIndex_peers other pubkey requested idx with hsame | ⟨peer, hinsert⟩
      · rw [hsame]
      · rw [hinsert, AList.lookup_insert_ne (hne rfl)]
  | removePeer other =>
      change (room.removePeer other).1.peers.lookup id = _
      rcases room.removePeer_peers other with hsame | herase
      · rw [hsame]
      · rw [herase, AList.lookup_erase_ne (hne rfl)]
  | removePeerAndCheckEnded other =>
      change (room.removePeerAndCheckEnded other).1.peers.lookup id = _
      rcases room.removePeerAndCheckEnded_peers other with ⟨hsame, _⟩ | ⟨_, _, _, herase⟩
      · rw [hsame]
      · rw [herase, AList.lookup_erase_ne (hne rfl)]
  | markEnded => rfl
  | clearEnded => rfl

end Audio
end Relay
end Maju
