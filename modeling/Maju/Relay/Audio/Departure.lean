import Maju.Relay.Audio.Control

/-!
# Departure — how the rooms of a pod evolve

Rooms keep their addresses and labels.  What happens to them is told by the peers found under each
key: other tasks leave a stream's peers alone, and a removal takes one peer out of one room.

* `Evolves` — no room is relabelled and none gains a peer with an id in a given set;
* `Host.peerAt_removeRemotePeer`, `Host.peerAt_foldl_remove` — a removal, and a teardown.
-/

namespace Maju
namespace Relay
namespace Audio

open Lib Core Tunnel

/-! ## How the rooms evolve -/

/-- Rooms keep their addresses and labels, and gain no peer with an id in `P`. -/
structure Evolves (P : Uuid → Prop) (m m' : AudioRoomManager) : Prop where
  wellFormed : m.WellFormed → m'.WellFormed
  keeps : ∀ (ref : Nat) (cell : RoomCell), m.arena[ref]? = some cell →
    ∃ cell' : RoomCell, m'.arena[ref]? = some cell' ∧ cell'.key = cell.key
  within : ∀ (ref : Nat) (cell' : RoomCell), m'.arena[ref]? = some cell' → ∀ id, P id →
    cell'.room.peers.lookup id ≠ none →
      ∃ cell : RoomCell, m.arena[ref]? = some cell ∧ cell.key = cell'.key ∧
        cell.room.peers.lookup id ≠ none

namespace Evolves

variable {P : Uuid → Prop} {m m' m'' : AudioRoomManager}

theorem refl (P : Uuid → Prop) (m : AudioRoomManager) : Evolves P m m :=
  ⟨id, fun _ cell hcell => ⟨cell, hcell, rfl⟩, fun _ cell hcell _ _ hid => ⟨cell, hcell, rfl, hid⟩⟩

theorem trans (h : Evolves P m m') (h' : Evolves P m' m'') : Evolves P m m'' := by
  refine ⟨fun hm => h'.wellFormed (h.wellFormed hm), ?_, ?_⟩
  · intro ref cell hcell
    rcases h.keeps ref cell hcell with ⟨cell', hcell', hkey'⟩
    rcases h'.keeps ref cell' hcell' with ⟨cell'', hcell'', hkey''⟩
    exact ⟨cell'', hcell'', hkey''.trans hkey'⟩
  · intro ref cell'' hcell'' id hP hid
    rcases h'.within ref cell'' hcell'' id hP hid with ⟨cell', hcell', hkey', hid'⟩
    rcases h.within ref cell' hcell' id hP hid' with ⟨cell, hcell, hkey, hmem⟩
    exact ⟨cell, hcell, hkey.trans hkey', hmem⟩

theorem getOrCreate (P : Uuid → Prop) (m : AudioRoomManager) (key : RoomKey) :
    Evolves P m (m.getOrCreate key).1 := by
  cases hkey : m.rooms.lookup key with
  | some ref =>
      rw [AudioRoomManager.getOrCreate_some hkey]
      exact refl P m
  | none =>
      refine ⟨fun h => h.getOrCreate key, ?_, ?_⟩
      · rw [AudioRoomManager.getOrCreate_none hkey]
        intro ref cell hcell
        exact ⟨cell, AudioRoomManager.cell_append hcell _, rfl⟩
      · rw [AudioRoomManager.getOrCreate_none hkey]
        intro ref cell' hcell' id _ hid
        rcases Nat.lt_or_ge ref m.arena.length with hold | hnew
        · have hold' : m.arena[ref]? = some cell' :=
            (List.getElem?_append_left hold).symm.trans hcell'
          exact ⟨cell', hold', rfl, hid⟩
        · -- the new room has no peers
          have hcell : [(⟨key, .new⟩ : RoomCell)][ref - m.arena.length]? = some cell' :=
            (List.getElem?_append_right hnew).symm.trans hcell'
          rw [List.mem_singleton.1 (List.mem_of_getElem? hcell)] at hid
          exact absurd rfl hid

theorem update {ref : Nat} {f : Room → Room}
    (hf : ∀ cell, m.arena[ref]? = some cell → ∀ id, P id → (f cell.room).peers.lookup id ≠ none →
      cell.room.peers.lookup id ≠ none) : Evolves P m (m.update ref f) := by
  refine ⟨fun h => h.update ref f, ?_, ?_⟩
  · intro ref' cell hcell
    refine ⟨_, by rw [AudioRoomManager.getElem?_update, hcell, Option.map_some], ?_⟩
    split
    · rfl
    · rfl
  · intro ref' cell' hcell' id hP hid
    rw [AudioRoomManager.getElem?_update] at hcell'
    rcases Option.map_eq_some_iff.1 hcell' with ⟨cell, hcell, rfl⟩
    by_cases href : ref' = ref
    · subst href
      rw [if_pos rfl] at hid
      exact ⟨cell, hcell, by rw [if_pos rfl], hf cell hcell id hP hid⟩
    · rw [if_neg href] at hid
      exact ⟨cell, hcell, by rw [if_neg href], hid⟩

theorem cleanupIfEmpty (P : Uuid → Prop) (m : AudioRoomManager) (key : RoomKey) :
    Evolves P m (m.cleanupIfEmpty key).1 := by
  refine ⟨fun h => h.cleanupIfEmpty key, ?_, ?_⟩
  · intro ref cell hcell
    rw [AudioRoomManager.arena_cleanupIfEmpty]
    exact ⟨cell, hcell, rfl⟩
  · intro ref cell' hcell' id _ hid
    rw [AudioRoomManager.arena_cleanupIfEmpty] at hcell'
    exact ⟨cell', hcell', rfl, hid⟩

end Evolves

/-! ## Removing remote peers -/

namespace Host

variable {host : Host} {community session : Uuid} {generation : Nat}

theorem rooms_removeRemotePeer (host : Host) (community session : Uuid) (generation : Nat)
    (id : Uuid) :
    (∃ ref room, host.rooms.get (⟨community⟩, session) = some ref ∧
      room.peers = (host.roomOf ref).peers.erase id ∧
      ((host.removeRemotePeer community session generation id).rooms =
          host.rooms.update ref (fun _ => room) ∨
        (host.removeRemotePeer community session generation id).rooms =
          ((host.rooms.update ref fun _ => room).cleanupIfEmpty (⟨community⟩, session)).1)) ∨
    ((host.removeRemotePeer community session generation id).rooms = host.rooms ∧
      ∀ ref, host.rooms.get (⟨community⟩, session) = some ref →
        (host.roomOf ref).peers.lookup id = none) := by
  unfold removeRemotePeer
  cases href : host.rooms.get (⟨community⟩, session) with
  | none => exact .inr ⟨rfl, fun _ h => nomatch h⟩
  | some ref =>
      dsimp only
      rcases (host.roomOf ref).removePeerAndCheckEnded_peers id with
        ⟨hnone, habsent⟩ | ⟨delta, ended, hsome, hpeers⟩
      · refine .inr ⟨by rw [hnone], ?_⟩
        rintro _ ⟨⟩
        exact habsent
      · refine .inl ⟨ref, ((host.roomOf ref).removePeerAndCheckEnded id).1, rfl, hpeers, ?_⟩
        rcases hremoved : (host.roomOf ref).removePeerAndCheckEnded id with ⟨room, result⟩
        rw [hremoved] at hsome
        cases hsome
        dsimp only
        cases ended with
        | false => exact .inl rfl
        | true =>
            rcases hcleanup : (host.rooms.update ref fun _ => room).cleanupIfEmpty
              (⟨community⟩, session) with ⟨rooms, removed⟩
            cases removed with
            | true => exact .inr rfl
            | false => exact .inr rfl

theorem peerAt_removeRemotePeer (h : host.rooms.WellFormed) (id : Uuid) (key : RoomKey)
    (id' : Uuid) :
    (host.removeRemotePeer community session generation id).rooms.peerAt key id' =
      if key = (⟨community⟩, session) ∧ id' = id then none else host.rooms.peerAt key id' := by
  rcases host.rooms_removeRemotePeer community session generation id with
    ⟨ref, room, href, hpeers, hrooms⟩ | ⟨hsame, habsent⟩
  · have hpeerAt : (host.removeRemotePeer community session generation id).rooms.peerAt key id' =
        (host.rooms.update ref fun _ => room).peerAt key id' := by
      rcases hrooms with hrooms | hrooms
      · rw [hrooms]
      · rw [hrooms, AudioRoomManager.peerAt_cleanupIfEmpty]
    rw [hpeerAt]
    rcases h _ ref href with ⟨cell, hcell, _⟩
    have hroom : host.roomOf ref = cell.room := by
      simp [roomOf, AudioRoomManager.roomAt, hcell]
    rw [hroom] at hpeers
    by_cases hgone : key = (⟨community⟩, session) ∧ id' = id
    · rcases hgone with ⟨rfl, rfl⟩
      rw [if_pos ⟨rfl, rfl⟩]
      have hcell' := AudioRoomManager.getElem?_update (m := host.rooms) ref ref (fun _ => room)
      rw [hcell, Option.map_some, if_pos rfl] at hcell'
      rw [AudioRoomManager.peerAt_eq (m := host.rooms.update ref fun _ => room) href hcell', hpeers]
      exact AList.lookup_erase _ _
    · rw [if_neg hgone]
      refine h.peerAt_update fun cell' hkey hcell' => ?_
      rw [hcell] at hcell'
      cases hcell'
      have hkey' : key = (⟨community⟩, session) := h.key_eq hkey href
      have hid : id' ≠ id := fun hid => hgone ⟨hkey', hid⟩
      rw [hpeers, AList.lookup_erase_ne hid]
  · rw [hsame]
    by_cases hgone : key = (⟨community⟩, session) ∧ id' = id
    · rcases hgone with ⟨rfl, rfl⟩
      rw [if_pos ⟨rfl, rfl⟩]
      cases href : host.rooms.rooms.lookup (⟨community⟩, session) with
      | none => exact AudioRoomManager.peerAt_none href id'
      | some ref =>
          rcases h _ ref href with ⟨cell, hcell, _⟩
          have hroom : host.roomOf ref = cell.room := by
            simp [roomOf, AudioRoomManager.roomAt, hcell]
          rw [AudioRoomManager.peerAt_eq href hcell, ← hroom]
          exact habsent ref href
    · rw [if_neg hgone]

theorem evolves_removeRemotePeer (P : Uuid → Prop) (host : Host) (community session : Uuid)
    (generation : Nat) (id : Uuid) :
    Evolves P host.rooms (host.removeRemotePeer community session generation id).rooms := by
  rcases host.rooms_removeRemotePeer community session generation id with
    ⟨ref, room, _, hpeers, hrooms⟩ | ⟨hsame, _⟩
  · have hupdate : Evolves P host.rooms (host.rooms.update ref fun _ => room) := by
      refine .update fun cell hcell id' _ hid' => ?_
      have hroom : host.roomOf ref = cell.room := by
        simp [roomOf, AudioRoomManager.roomAt, hcell]
      rw [hpeers, hroom, HashMap.lookup_erase_eq] at hid'
      intro hnone
      rw [hnone] at hid'
      exact hid' (ite_self _)
    rcases hrooms with hrooms | hrooms
    · rw [hrooms]
      exact hupdate
    · rw [hrooms]
      exact hupdate.trans (.cleanupIfEmpty P _ _)
  · rw [hsame]
    exact .refl P _

theorem peerAt_foldl_remove (h : host.rooms.WellFormed) (ids : List Uuid) (key : RoomKey)
    (id' : Uuid) :
    (ids.foldl (removeRemotePeer community session generation) host).rooms.peerAt key id' =
      if key = (⟨community⟩, session) ∧ id' ∈ ids then none else host.rooms.peerAt key id' := by
  induction ids generalizing host with
  | nil => simp
  | cons id ids ih =>
      have hnext : (host.removeRemotePeer community session generation id).rooms.WellFormed :=
        (evolves_removeRemotePeer (fun _ => True) host community session generation id).wellFormed h
      rw [List.foldl_cons, ih hnext, peerAt_removeRemotePeer h]
      by_cases hkey : key = (⟨community⟩, session)
      · by_cases hid : id' = id
        · simp [hkey, hid]
        · simp [hkey, hid]
      · simp [hkey]

theorem evolves_foldl_remove (P : Uuid → Prop) (host : Host) (community session : Uuid)
    (generation : Nat) (ids : List Uuid) :
    Evolves P host.rooms
      (ids.foldl (removeRemotePeer community session generation) host).rooms := by
  induction ids generalizing host with
  | nil => exact .refl P _
  | cons id ids ih =>
      exact (evolves_removeRemotePeer P host community session generation id).trans (ih _)

theorem peerAt_run (h : host.rooms.WellFormed) {op : HostOp} {id : Uuid}
    (hid : ∀ ref roomOp, op = .room ref roomOp → roomOp.subject ≠ some id) (key : RoomKey) :
    (host.run op).rooms.peerAt key id = host.rooms.peerAt key id := by
  cases op with
  | getOrCreate key' => exact h.peerAt_getOrCreate key' key id
  | room ref op => exact h.peerAt_update fun cell _ _ => cell.room.lookup_step (hid ref op rfl)
  | cleanupIfEmpty key' => exact AudioRoomManager.peerAt_cleanupIfEmpty key' key id
  | owners owners => rfl

theorem evolves_run {P : Uuid → Prop} {op : HostOp}
    (hid : ∀ ref roomOp, op = .room ref roomOp → ∀ id, P id → roomOp.subject ≠ some id) :
    Evolves P host.rooms (host.run op).rooms := by
  cases op with
  | getOrCreate key => exact .getOrCreate P _ key
  | room ref op =>
      change Evolves P host.rooms (host.rooms.update ref fun room => (room.step op).1)
      refine .update fun cell _ id hP hlookup => ?_
      rwa [cell.room.lookup_step (hid ref op rfl id hP)] at hlookup
  | cleanupIfEmpty key => exact .cleanupIfEmpty P _ key
  | owners owners => exact .refl P _

end Host

end Audio
end Relay
end Maju
