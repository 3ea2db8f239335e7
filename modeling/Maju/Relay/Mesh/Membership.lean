import Maju.Lib.HashMap
import Maju.Lib.Versioned
import Maju.Relay.Tunnel.Directory
import Mathlib.Data.List.Sort
import Mathlib.Data.Char
import Mathlib.Data.List.Lex

/-!
# Membership — the mesh membership table of a relay runtime

Every runtime keeps its own gossip record apart from a table of its peers' records.  Runtimes
exchange digests (the versions they hold) and deltas (the records a digest is behind on), and a
record is stored only if its version is greater than that of the copy held.

* `MeshMembership.applyGossipRecord`, `updateLocal`, `records`, `digest`, `deltaFor` — the
  operations;
* `recordOf` — the record of a runtime that a table holds, its own or a peer's;
* `recordOf_applyDelta` — applying records offers them to one versioned register per runtime.
-/

namespace Maju
namespace Relay
namespace Mesh

open Lib Tunnel

/-! ## Gossip records -/

/-- `u64::MAX`. -/
def u64Max : Nat := 2 ^ 64 - 1

/-- `GossipRecord`.  The load is the bits of an `f32` that no operation of the table reads. -/
structure GossipRecord where
  runtimeId : RuntimeId
  endpointAddrs : List Text
  protoVersion : Nat
  load : UInt32
  draining : Bool
  capabilities : List Text
  version : Nat
  heartbeatMillis : Nat
  deriving DecidableEq, Repr

def GossipRecord.new (runtimeId : RuntimeId) (endpointAddrs : List Text) (protoVersion now : Nat) :
    GossipRecord :=
  { runtimeId, endpointAddrs, protoVersion, load := 0, draining := false, capabilities := [],
    version := 1, heartbeatMillis := now }

structure GossipDigestEntry where
  runtimeId : RuntimeId
  version : Nat
  deriving DecidableEq, Repr

/-- `PhiAccrual`: the intervals between the last heartbeats, oldest first. -/
structure PhiAccrual where
  samples : List Nat
  lastHeartbeat : Option Nat
  maxSamples : Nat
  deriving DecidableEq, Repr

namespace PhiAccrual

/-- `PhiAccrual::default`. -/
def initial : PhiAccrual := ⟨[], none, 100⟩

/-- `PhiAccrual::observe`. -/
def observe (phi : PhiAccrual) (heartbeat : Nat) : PhiAccrual :=
  let samples := match phi.lastHeartbeat with
    | some prev =>
        -- `duration_since` fails on a heartbeat before the last one
        if prev < heartbeat then
          let grown := phi.samples ++ [heartbeat - prev]
          if phi.maxSamples < grown.length then grown.tail else grown
        else phi.samples
    | none => phi.samples
  { phi with samples, lastHeartbeat := some heartbeat }

end PhiAccrual

inductive ConnectionState where
  | disconnected
  | connecting
  | connected
  | suspect
  deriving DecidableEq, Repr

structure PeerState where
  record : GossipRecord
  phi : PhiAccrual
  connectionState : ConnectionState
  deriving DecidableEq, Repr

/-! ## The table -/

structure MeshMembership where
  localRuntimeId : RuntimeId
  localRecord : GossipRecord
  peers : HashMap RuntimeId PeerState
  deriving DecidableEq

/-- What the owner of a record may do to it: anything but renaming or renumbering it. -/
structure LocalUpdate where
  run : GossipRecord → GossipRecord
  keeps_runtimeId : ∀ record, (run record).runtimeId = record.runtimeId
  keeps_version : ∀ record, (run record).version = record.version

def LocalUpdate.heartbeat : LocalUpdate := ⟨id, fun _ => rfl, fun _ => rfl⟩

/-- The update of `begin_drain`. -/
def LocalUpdate.drain : LocalUpdate :=
  ⟨fun record => { record with draining := true }, fun _ => rfl, fun _ => rfl⟩

namespace MeshMembership

/-- `MeshMembership::new`. -/
def new (localRecord : GossipRecord) : MeshMembership := ⟨localRecord.runtimeId, localRecord, ∅⟩

/-- `apply_gossip_record`: store the record if it is newer, and say whether it was stored. -/
def applyGossipRecord (m : MeshMembership) (record : GossipRecord) : MeshMembership × Bool :=
  if record.runtimeId = m.localRuntimeId then (m, false)
  else
    match m.peers.lookup record.runtimeId with
    | some peer =>
        if record.version ≤ peer.record.version then (m, false)
        else
          let renewed : PeerState :=
            ⟨record, peer.phi.observe record.heartbeatMillis, .connected⟩
          ({ m with peers := m.peers.insert record.runtimeId renewed }, true)
    | none =>
        let first : PeerState :=
          ⟨record, PhiAccrual.initial.observe record.heartbeatMillis, .connected⟩
        ({ m with peers := m.peers.insert record.runtimeId first }, true)

def markConnectionState (m : MeshMembership) (runtime : RuntimeId) (state : ConnectionState) :
    MeshMembership :=
  match m.peers.lookup runtime with
  | some peer => { m with peers := m.peers.insert runtime { peer with connectionState := state } }
  | none => m

/-- `update_local`; the version saturates. -/
def updateLocal (m : MeshMembership) (update : LocalUpdate) (now : Nat) : MeshMembership :=
  let updated := update.run m.localRecord
  { m with
    localRecord :=
      { updated with
        version := if updated.version < u64Max then updated.version + 1 else updated.version
        heartbeatMillis := now } }

/-- `records`: the peers' records and the local one. -/
def records (m : MeshMembership) : List GossipRecord :=
  m.peers.entries.map (fun e => e.2.record) ++ [m.localRecord]

/-- `digest`: the versions held, sorted by runtime. -/
def digest (m : MeshMembership) : List GossipDigestEntry :=
  (m.records.map fun record => ⟨record.runtimeId, record.version⟩).insertionSort
    fun a b => toHex a.runtimeId ≤ toHex b.runtimeId

/-- The versions of a digest by runtime; of several entries the last one counts. -/
def remoteVersions (digest : List GossipDigestEntry) : HashMap RuntimeId Nat :=
  digest.foldl (fun remote entry => remote.insert entry.runtimeId entry.version) ∅

/-- `delta_for`: the records that a digest is missing or behind on, sorted by runtime. -/
def deltaFor (m : MeshMembership) (digest : List GossipDigestEntry) : List GossipRecord :=
  let remote := remoteVersions digest
  (m.records.filter fun record =>
      match remote.lookup record.runtimeId with
      | some version => version < record.version
      | none => true).insertionSort
    fun a b => toHex a.runtimeId ≤ toHex b.runtimeId

/-- Apply the records of a delta one after the other. -/
def applyDelta (m : MeshMembership) (delta : List GossipRecord) : MeshMembership :=
  delta.foldl (fun m record => (m.applyGossipRecord record).1) m

/-- The record of a runtime that the table holds. -/
def recordOf (m : MeshMembership) (runtime : RuntimeId) : Option GossipRecord :=
  if runtime = m.localRuntimeId then some m.localRecord
  else (m.peers.lookup runtime).map PeerState.record

/-- How new the held record of a runtime is. -/
def rankOf (m : MeshMembership) (runtime : RuntimeId) : Nat :=
  Versioned.rank GossipRecord.version (m.recordOf runtime)

/-! ## Well-formed tables -/

/-- Records are stored under the runtime they describe, and the local one apart. -/
structure WellFormed (m : MeshMembership) : Prop where
  localId : m.localRecord.runtimeId = m.localRuntimeId
  keyed : ∀ runtime peer, m.peers.lookup runtime = some peer → peer.record.runtimeId = runtime
  apart : m.peers.lookup m.localRuntimeId = none

variable {m : MeshMembership}

theorem wellFormed_new (record : GossipRecord) : WellFormed (new record) :=
  ⟨rfl, fun _ _ h => (nomatch (show (none : Option PeerState) = some _ from h)), rfl⟩

theorem WellFormed.runtimeId_of_recordOf (h : WellFormed m) {runtime : RuntimeId}
    {record : GossipRecord} (hheld : m.recordOf runtime = some record) :
    record.runtimeId = runtime := by
  unfold recordOf at hheld
  split_ifs at hheld with hlocal
  · cases hheld
    exact h.localId.trans hlocal.symm
  · rcases Option.map_eq_some_iff.1 hheld with ⟨peer, hpeer, rfl⟩
    exact h.keyed runtime peer hpeer

theorem WellFormed.mem_records (h : WellFormed m) (record : GossipRecord) :
    record ∈ m.records ↔ m.recordOf record.runtimeId = some record := by
  unfold records recordOf
  rw [List.mem_append, List.mem_map, List.mem_singleton]
  split_ifs with hlocal
  · constructor
    · rintro (⟨e, he, rfl⟩ | rfl)
      · -- a peer entry is never the local runtime's
        have hlookup := HashMap.lookup_of_mem_entries he
        have hkey := h.keyed e.1 e.2 hlookup
        rw [← hkey, hlocal, h.apart] at hlookup
        cases hlookup
      · rfl
    · intro heq
      exact Or.inr (Option.some.inj heq).symm
  · constructor
    · rintro (⟨e, he, rfl⟩ | rfl)
      · have hlookup := HashMap.lookup_of_mem_entries he
        rw [h.keyed e.1 e.2 hlookup, hlookup]
        rfl
      · exact absurd h.localId hlocal
    · intro heq
      rcases Option.map_eq_some_iff.1 heq with ⟨peer, hpeer, rfl⟩
      exact Or.inl ⟨_, HashMap.mem_entries_iff.2 hpeer, rfl⟩

/-! ## What the operations do to the held records -/

@[simp] theorem localRuntimeId_applyGossipRecord (record : GossipRecord) :
    (m.applyGossipRecord record).1.localRuntimeId = m.localRuntimeId := by
  unfold applyGossipRecord
  repeat' split
  all_goals rfl

@[simp] theorem localRecord_applyGossipRecord (record : GossipRecord) :
    (m.applyGossipRecord record).1.localRecord = m.localRecord := by
  unfold applyGossipRecord
  repeat' split
  all_goals rfl

theorem recordOf_applyGossipRecord {record : GossipRecord}
    (hremote : record.runtimeId ≠ m.localRuntimeId) (runtime : RuntimeId) :
    (m.applyGossipRecord record).1.recordOf runtime =
      if runtime = record.runtimeId
      then Versioned.offer GossipRecord.version (m.recordOf runtime) record
      else m.recordOf runtime := by
  -- the lookups that the three ways through the operation leave behind
  have hstored : ∀ peer : PeerState,
      ({ m with peers := m.peers.insert record.runtimeId peer } : MeshMembership).recordOf runtime =
        if runtime = record.runtimeId then some peer.record else m.recordOf runtime := by
    intro peer
    unfold recordOf
    by_cases hsame : runtime = record.runtimeId
    · rw [if_pos hsame, if_neg (hsame ▸ hremote), hsame]
      simp
    · rw [if_neg hsame]
      simp [AList.lookup_insert_ne hsame]
  have hheld : m.recordOf record.runtimeId =
      (m.peers.lookup record.runtimeId).map PeerState.record := if_neg hremote
  simp only [applyGossipRecord, if_neg hremote]
  cases hpeer : m.peers.lookup record.runtimeId with
  | some peer =>
      rw [hpeer, Option.map_some] at hheld
      by_cases hold : record.version ≤ peer.record.version
      · simp only [if_pos hold]
        split_ifs with hsame
        · rw [hsame, hheld]
          simp [Versioned.offer, hold]
        · rfl
      · simp only [if_neg hold]
        rw [hstored]
        split_ifs with hsame
        · rw [hsame, hheld]
          simp [Versioned.offer, hold]
        · rfl
  | none =>
      rw [hpeer, Option.map_none] at hheld
      simp only
      rw [hstored]
      split_ifs with hsame
      · rw [hsame, hheld]
        rfl
      · rfl

theorem applyGossipRecord_local {record : GossipRecord}
    (hlocal : record.runtimeId = m.localRuntimeId) : (m.applyGossipRecord record).1 = m := by
  simp [applyGossipRecord, hlocal]

theorem WellFormed.applyGossipRecord (h : WellFormed m) (record : GossipRecord) :
    WellFormed (m.applyGossipRecord record).1 := by
  have hinsert : ∀ peer : PeerState, peer.record = record →
      record.runtimeId ≠ m.localRuntimeId →
      WellFormed { m with peers := m.peers.insert record.runtimeId peer } := by
    intro peer hpeer hremote
    refine ⟨h.localId, ?_, ?_⟩
    · intro runtime peer' hlookup
      rw [HashMap.lookup_insert_eq] at hlookup
      split_ifs at hlookup with hsame
      · cases hlookup
        rw [hpeer, hsame]
      · exact h.keyed runtime peer' hlookup
    · change (m.peers.insert record.runtimeId peer).lookup m.localRuntimeId = none
      rw [AList.lookup_insert_ne hremote.symm]
      exact h.apart
  unfold MeshMembership.applyGossipRecord
  split_ifs with hlocal
  · exact h
  · split
    · split_ifs
      · exact h
      · exact hinsert _ rfl hlocal
    · exact hinsert _ rfl hlocal

/-! ## Deltas -/

@[simp] theorem localRuntimeId_applyDelta (delta : List GossipRecord) :
    (m.applyDelta delta).localRuntimeId = m.localRuntimeId := by
  induction delta generalizing m with
  | nil => rfl
  | cons record delta ih => exact (ih (m := (m.applyGossipRecord record).1)).trans (by simp)

@[simp] theorem localRecord_applyDelta (delta : List GossipRecord) :
    (m.applyDelta delta).localRecord = m.localRecord := by
  induction delta generalizing m with
  | nil => rfl
  | cons record delta ih => exact (ih (m := (m.applyGossipRecord record).1)).trans (by simp)

theorem WellFormed.applyDelta (h : WellFormed m) (delta : List GossipRecord) :
    WellFormed (m.applyDelta delta) := by
  induction delta generalizing m with
  | nil => exact h
  | cons record delta ih => exact ih (h.applyGossipRecord record)

theorem recordOf_applyDelta_local (delta : List GossipRecord) :
    (m.applyDelta delta).recordOf m.localRuntimeId = some m.localRecord := by
  unfold recordOf
  rw [if_pos (localRuntimeId_applyDelta delta).symm, localRecord_applyDelta]

/-- A delta offers its records of a peer to the register of that peer, in their order. -/
theorem recordOf_applyDelta {runtime : RuntimeId} (hremote : runtime ≠ m.localRuntimeId)
    (delta : List GossipRecord) :
    (m.applyDelta delta).recordOf runtime =
      (delta.filter fun record => record.runtimeId = runtime).foldl
        (Versioned.offer GossipRecord.version) (m.recordOf runtime) := by
  induction delta generalizing m with
  | nil => rfl
  | cons record delta ih =>
      have htail := ih (m := (m.applyGossipRecord record).1) (by simpa using hremote)
      change ((m.applyGossipRecord record).1.applyDelta delta).recordOf runtime = _
      rw [htail, List.filter_cons]
      by_cases hsame : record.runtimeId = runtime
      · rw [recordOf_applyGossipRecord (hsame ▸ hremote), if_pos hsame.symm]
        simp [hsame]
      · have hkept : (m.applyGossipRecord record).1.recordOf runtime = m.recordOf runtime := by
          by_cases hlocal : record.runtimeId = m.localRuntimeId
          · rw [applyGossipRecord_local hlocal]
          · rw [recordOf_applyGossipRecord hlocal, if_neg fun heq => hsame heq.symm]
        rw [hkept]
        simp [hsame]

theorem rankOf_le_applyDelta (delta : List GossipRecord) (runtime : RuntimeId) :
    m.rankOf runtime ≤ (m.applyDelta delta).rankOf runtime := by
  unfold rankOf
  by_cases hlocal : runtime = m.localRuntimeId
  · rw [hlocal, recordOf_applyDelta_local, recordOf, if_pos rfl]
  · rw [recordOf_applyDelta hlocal]
    exact Versioned.rank_le_rank_foldl_offer _ _

theorem le_rankOf_applyDelta {delta : List GossipRecord} {record : GossipRecord}
    (hmem : record ∈ delta) (hremote : record.runtimeId ≠ m.localRuntimeId) :
    record.version + 1 ≤ (m.applyDelta delta).rankOf record.runtimeId := by
  unfold rankOf
  rw [recordOf_applyDelta hremote]
  apply Versioned.le_rank_foldl_offer
  exact List.mem_filter.2 ⟨hmem, by simp⟩

/-! ## Digests -/

theorem mem_digest {entry : GossipDigestEntry} :
    entry ∈ m.digest ↔
      ∃ record ∈ m.records, record.runtimeId = entry.runtimeId ∧
        record.version = entry.version := by
  unfold digest
  rw [List.mem_insertionSort, List.mem_map]
  constructor
  · rintro ⟨record, hrecord, rfl⟩
    exact ⟨record, hrecord, rfl, rfl⟩
  · rintro ⟨record, hrecord, hid, hversion⟩
    refine ⟨record, hrecord, ?_⟩
    rw [hid, hversion]

theorem mem_of_remoteVersions {digest : List GossipDigestEntry} {runtime : RuntimeId}
    {version : Nat} (h : (remoteVersions digest).lookup runtime = some version) :
    (⟨runtime, version⟩ : GossipDigestEntry) ∈ digest := by
  -- the fold is over any map that was there before
  have hfold : ∀ (digest : List GossipDigestEntry) (remote : HashMap RuntimeId Nat),
      (digest.foldl (fun remote entry => remote.insert entry.runtimeId entry.version)
        remote).lookup runtime = some version →
      (⟨runtime, version⟩ : GossipDigestEntry) ∈ digest ∨ remote.lookup runtime = some version := by
    intro digest
    induction digest with
    | nil => exact fun _ h => Or.inr h
    | cons entry digest ih =>
        intro remote hlookup
        rcases ih _ hlookup with hmem | hremote
        · exact Or.inl (List.mem_cons_of_mem entry hmem)
        · rw [HashMap.lookup_insert_eq] at hremote
          split_ifs at hremote with hsame
          · cases hremote
            subst hsame
            exact Or.inl List.mem_cons_self
          · exact Or.inr hremote
  rcases hfold digest ∅ h with hmem | hempty
  · exact hmem
  · cases hempty

theorem mem_deltaFor_or (digest : List GossipDigestEntry) {record : GossipRecord}
    (hmem : record ∈ m.records) :
    record ∈ m.deltaFor digest ∨
      ∃ entry ∈ digest, entry.runtimeId = record.runtimeId ∧ record.version ≤ entry.version := by
  unfold deltaFor
  rw [List.mem_insertionSort, List.mem_filter]
  cases hlookup : (remoteVersions digest).lookup record.runtimeId with
  | none => exact Or.inl ⟨hmem, rfl⟩
  | some version =>
      by_cases hnewer : version < record.version
      · exact Or.inl ⟨hmem, by simpa using hnewer⟩
      · exact Or.inr ⟨_, mem_of_remoteVersions hlookup, rfl, Nat.le_of_not_lt hnewer⟩

theorem mem_records_of_mem_deltaFor {digest : List GossipDigestEntry} {record : GossipRecord}
    (h : record ∈ m.deltaFor digest) : record ∈ m.records := by
  unfold deltaFor at h
  rw [List.mem_insertionSort, List.mem_filter] at h
  exact h.1

end MeshMembership
end Mesh
end Relay
end Maju
