import Maju.Core.Nostr
import Maju.Lib.HashMap
import Maju.Lib.Text
import Mathlib.Data.Finset.Card
import Mathlib.Data.Finset.Range
import Mathlib.Data.List.Sort

/-!
# Room — the participants of an audio room

A room admits at most 25 peers, gives each a routing index from `0..=254` and an epoch that tells
successive occupants of one index apart, and publishes every admission and removal as an ordered
delta of its roster.

* `AdmissionGuard.alloc` — the rotating index allocator;
* `Room.addPeer`, `addPeerAtIndex`, `removePeer`, `removePeerAndCheckEnded`, `markEnded`,
  `clearEnded` — the operations, each of which holds the admission lock;
* `Room.step` — one operation and what it answers.

The senders of a peer's media and control queues are left out: no admission decision reads them.
-/

namespace Maju
namespace Relay
namespace Audio

open Lib Core

/-! ## Peers and rosters -/

structure AudioPeer where
  pubkey : Text
  peerIndex : Nat
  epoch : Nat
  protocolVersion : Nat
  deriving DecidableEq, Repr

structure RosterPeer where
  pubkey : Text
  peerIndex : Nat
  epoch : Nat
  deriving DecidableEq, Repr

def AudioPeer.toRoster (peer : AudioPeer) : RosterPeer := ⟨peer.pubkey, peer.peerIndex, peer.epoch⟩

structure RosterSnapshot where
  revision : Nat
  peers : List RosterPeer
  deriving DecidableEq, Repr

structure RosterDelta where
  revision : Nat
  joined : Option RosterPeer
  left : Option RosterPeer
  deriving DecidableEq, Repr

inductive AdmissionError where
  | ended
  | full
  | versionMismatch (pinned requested : Nat)
  deriving DecidableEq, Repr

def maxPeersPerRoom : Nat := 25

/-! ## The admission guard -/

structure AdmissionGuard where
  nextCandidate : Nat
  activeIndices : Finset Nat
  indexEpochs : HashMap Nat Nat
  ended : Bool
  pinnedVersion : Option Nat
  rosterRevision : Nat
  deriving DecidableEq

namespace AdmissionGuard

def new : AdmissionGuard := ⟨0, ∅, ∅, false, none, 0⟩

/-- The index after `idx` in the rotation through `0..=254`. -/
def following (idx : Nat) : Nat := if idx = 254 then 0 else idx + 1

/-- `next_epoch_for`: the epoch of the next occupant, and the guard with the counter advanced. -/
def nextEpochFor (g : AdmissionGuard) (idx : Nat) : Nat × AdmissionGuard :=
  let epoch := (g.indexEpochs.lookup idx).getD 0
  (epoch, { g with indexEpochs := g.indexEpochs.insert idx ((epoch + 1) % 256) })

/-- The loop of `alloc`, for so many probes. -/
def allocLoop : Nat → AdmissionGuard → AdmissionGuard × Option (Nat × Nat)
  | 0, g => (g, none)
  | n + 1, g =>
      let idx := g.nextCandidate
      let g := { g with nextCandidate := following idx }
      if idx ∈ g.activeIndices then allocLoop n g
      else
        let g := { g with activeIndices := insert idx g.activeIndices }
        let (epoch, g) := g.nextEpochFor idx
        (g, some (idx, epoch))

def alloc (g : AdmissionGuard) : AdmissionGuard × Option (Nat × Nat) := allocLoop 255 g

/-- `roster_revision.wrapping_add(1)`. -/
def nextRevision (g : AdmissionGuard) : Nat := (g.rosterRevision + 1) % 2 ^ 64

end AdmissionGuard

/-! ## The room -/

/-- A room, with the deltas sent on the roster channel, oldest first. -/
structure Room where
  peers : HashMap Uuid AudioPeer
  guard : AdmissionGuard
  deltas : List RosterDelta
  deriving DecidableEq

structure Admission where
  peerIndex : Nat
  epoch : Nat
  revision : Nat
  deriving DecidableEq, Repr

namespace Room

def new : Room := ⟨∅, .new, []⟩

/-- The version check of both admission paths. -/
def versionRefused (g : AdmissionGuard) (requested : Nat) : Option AdmissionError :=
  match g.pinnedVersion with
  | some pinned => if pinned ≠ requested then some (.versionMismatch pinned requested) else none
  | none => none

/-- The end of both admission paths: pin the version, insert the peer and publish the delta. -/
def admitPeer (room : Room) (g : AdmissionGuard) (id : Uuid) (peer : AudioPeer) : Room × Admission :=
  let revision := g.nextRevision
  let g :=
    { g with
      pinnedVersion := some (g.pinnedVersion.getD peer.protocolVersion)
      rosterRevision := revision }
  let delta : RosterDelta := ⟨revision, some peer.toRoster, none⟩
  (⟨room.peers.insert id peer, g, room.deltas ++ [delta]⟩, ⟨peer.peerIndex, peer.epoch, revision⟩)

/-- `add_peer`; `id` is the UUID that the call draws. -/
def addPeer (room : Room) (id : Uuid) (pubkey : Text) (requested : Nat) :
    Room × Except AdmissionError Admission :=
  if room.guard.ended then (room, .error .ended)
  else if maxPeersPerRoom ≤ room.peers.entries.length then (room, .error .full)
  else
    match versionRefused room.guard requested with
    | some refusal => (room, .error refusal)
    | none =>
        match room.guard.alloc with
        | (g, none) => ({ room with guard := g }, .error .full)
        | (g, some (idx, epoch)) =>
            let (room, admission) := room.admitPeer g id ⟨pubkey, idx, epoch, requested⟩
            (room, .ok admission)

/-- `add_peer_at_index`, for an index that the owner assigned. -/
def addPeerAtIndex (room : Room) (id : Uuid) (pubkey : Text) (requested idx : Nat) :
    Room × Except AdmissionError Admission :=
  if room.guard.ended then (room, .error .ended)
  else if maxPeersPerRoom ≤ room.peers.entries.length ∨ idx ∈ room.guard.activeIndices then
    (room, .error .full)
  else
    match versionRefused room.guard requested with
    | some refusal => (room, .error refusal)
    | none =>
        let g := { room.guard with activeIndices := insert idx room.guard.activeIndices }
        let (epoch, g) := g.nextEpochFor idx
        let g := { g with nextCandidate := AdmissionGuard.following idx }
        let (room, admission) := room.admitPeer g id ⟨pubkey, idx, epoch, requested⟩
        (room, .ok admission)

/-- The part that both removals share: take the peer out, free its index, publish the delta. -/
def takePeer (room : Room) (id : Uuid) : Option (Room × RosterDelta) :=
  match room.peers.lookup id with
  | none => none
  | some peer =>
      let revision := room.guard.nextRevision
      let g :=
        { room.guard with
          activeIndices := room.guard.activeIndices.erase peer.peerIndex
          rosterRevision := revision }
      let delta : RosterDelta := ⟨revision, none, some peer.toRoster⟩
      some (⟨room.peers.erase id, g, room.deltas ++ [delta]⟩, delta)

def removePeer (room : Room) (id : Uuid) : Room × Option RosterDelta :=
  match room.takePeer id with
  | some (room, delta) => (room, some delta)
  | none => (room, none)

/-- `remove_peer_and_check_ended`: the first removal that leaves a room empty ends it. -/
def removePeerAndCheckEnded (room : Room) (id : Uuid) : Room × Option (RosterDelta × Bool) :=
  match room.takePeer id with
  | some (room, delta) =>
      if !room.guard.ended && room.peers.entries.isEmpty then
        ({ room with guard := { room.guard with ended := true } }, some (delta, true))
      else (room, some (delta, false))
  | none => (room, none)

/-- `mark_ended`: say whether the room is empty. -/
def markEnded (room : Room) : Room × Bool :=
  ({ room with guard := { room.guard with ended := true } }, room.peers.entries.isEmpty)

def clearEnded (room : Room) : Room :=
  { room with guard := { room.guard with ended := false } }

/-- `roster_snapshot`: the roster sorted by index, with its revision. -/
def rosterSnapshot (room : Room) : RosterSnapshot :=
  ⟨room.guard.rosterRevision,
    (room.peers.entries.map fun e => e.2.toRoster).insertionSort
      fun a b => a.peerIndex ≤ b.peerIndex⟩

end Room

/-! ## Operations -/

inductive RoomOp where
  | addPeer (id : Uuid) (pubkey : Text) (requested : Nat)
  | addPeerAtIndex (id : Uuid) (pubkey : Text) (requested idx : Nat)
  | removePeer (id : Uuid)
  | removePeerAndCheckEnded (id : Uuid)
  | markEnded
  | clearEnded
  deriving DecidableEq, Repr

inductive RoomAnswer where
  | admission (result : Except AdmissionError Admission)
  | removal (delta : Option RosterDelta)
  | removalChecked (result : Option (RosterDelta × Bool))
  | marked (empty : Bool)
  | cleared

namespace Room

def step (room : Room) : RoomOp → Room × RoomAnswer
  | .addPeer id pubkey requested =>
      let (room, result) := room.addPeer id pubkey requested
      (room, .admission result)
  | .addPeerAtIndex id pubkey requested idx =>
      let (room, result) := room.addPeerAtIndex id pubkey requested idx
      (room, .admission result)
  | .removePeer id =>
      let (room, delta) := room.removePeer id
      (room, .removal delta)
  | .removePeerAndCheckEnded id =>
      let (room, result) := room.removePeerAndCheckEnded id
      (room, .removalChecked result)
  | .markEnded =>
      let (room, empty) := room.markEnded
      (room, .marked empty)
  | .clearEnded => (room.clearEnded, .cleared)

end Room

/-- The UUID that an operation draws for the peer it may admit. -/
def RoomOp.drawn : RoomOp → Option Uuid
  | .addPeer id _ _ => some id
  | .addPeerAtIndex id _ _ _ => some id
  | _ => none

/-- An index that the owner assigns is in `0..=254`. -/
def RoomOp.Assigned : RoomOp → Prop
  | .addPeerAtIndex _ _ _ idx => idx ≤ 254
  | _ => True

instance : DecidablePred RoomOp.Assigned := fun op =>
  match op with
  | .addPeer _ _ _ => isTrue trivial
  | .addPeerAtIndex _ _ _ idx => inferInstanceAs (Decidable (idx ≤ 254))
  | .removePeer _ => isTrue trivial
  | .removePeerAndCheckEnded _ => isTrue trivial
  | .markEnded => isTrue trivial
  | .clearEnded => isTrue trivial

/-! ## The allocator -/

namespace AdmissionGuard

variable {g : AdmissionGuard}

theorem following_le {idx : Nat} (h : idx ≤ 254) : following idx ≤ 254 := by
  unfold following
  split_ifs
  · omega
  · omega

theorem following_eq {idx : Nat} (h : idx ≤ 254) : following idx = (idx + 1) % 255 := by
  unfold following
  split_ifs with hlast
  · rw [hlast]
  · rw [Nat.mod_eq_of_lt (by omega)]

theorem allocLoop_none {n : Nat} (hcursor : g.nextCandidate ≤ 254)
    (h : (allocLoop n g).2 = none) :
    ∀ k < n, (g.nextCandidate + k) % 255 ∈ g.activeIndices := by
  induction n generalizing g with
  | zero =>
      intro k hk
      exact absurd hk (Nat.not_lt_zero k)
  | succ n ih =>
      simp only [allocLoop] at h
      split_ifs at h with hused
      have hrest := ih (g := { g with nextCandidate := following g.nextCandidate })
        (following_le hcursor) h
      intro k hk
      cases k with
      | zero =>
          rw [Nat.add_zero, Nat.mod_eq_of_lt (by omega)]
          exact hused
      | succ k =>
          have hin := hrest k (Nat.lt_of_succ_lt_succ hk)
          simp only [following_eq hcursor, Nat.mod_add_mod] at hin
          rwa [← Nat.add_assoc, Nat.add_right_comm]

theorem allocLoop_some {n idx epoch : Nat} {g' : AdmissionGuard} (hcursor : g.nextCandidate ≤ 254)
    (h : allocLoop n g = (g', some (idx, epoch))) :
    idx ∉ g.activeIndices ∧ idx ≤ 254 ∧ epoch = (g.indexEpochs.lookup idx).getD 0 ∧
      ∃ next ≤ 254, g' =
        { g with
          nextCandidate := next
          activeIndices := insert idx g.activeIndices
          indexEpochs := g.indexEpochs.insert idx ((epoch + 1) % 256) } := by
  induction n generalizing g with
  | zero => cases h
  | succ n ih =>
      simp only [allocLoop] at h
      split_ifs at h with hused
      · exact ih (g := { g with nextCandidate := following g.nextCandidate })
          (following_le hcursor) h
      · simp only [nextEpochFor, Prod.mk.injEq, Option.some.injEq] at h
        rcases h with ⟨rfl, rfl, rfl⟩
        exact ⟨hused, hcursor, rfl, _, following_le hcursor, rfl⟩

theorem alloc_ne_none (hcursor : g.nextCandidate ≤ 254) (hfree : g.activeIndices.card < 255) :
    g.alloc.2 ≠ none := by
  intro hnone
  have hall := allocLoop_none hcursor hnone
  -- the rotation passes every index once
  have hsub : Finset.range 255 ⊆ g.activeIndices := by
    intro idx hidx
    have hlt : idx < 255 := Finset.mem_range.1 hidx
    have hk : (g.nextCandidate + (idx + 255 - g.nextCandidate) % 255) % 255 = idx := by omega
    rw [← hk]
    exact hall _ (Nat.mod_lt _ (by decide))
  have hcard := Finset.card_le_card hsub
  rw [Finset.card_range] at hcard
  omega

end AdmissionGuard

end Audio
end Relay
end Maju
