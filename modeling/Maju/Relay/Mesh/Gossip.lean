import Maju.Lib.Run
import Maju.Relay.Mesh.Membership

/-!
# Gossip — runtimes that exchange digests and deltas

The runtimes of a mesh and the messages they have sent.  A message that was sent stays available,
so it can be delivered late, again, or never.

* `World.step` — a runtime starts, updates its own record, sends its digest, answers a digest with
  a delta, or applies a delta that was sent to it;
* `World.Sound` — what every step keeps: tables are well formed, every record in a table or a
  message was issued by its runtime, no copy is newer than the record of its owner, and a runtime
  holds at least what its digests say.
-/

namespace Maju
namespace Relay
namespace Mesh

open Lib Tunnel

/-! ## The world -/

/-- The members, the digests sent so far, each with its sender, the deltas, each with the runtime
whose digest it answers, and every value that the record of a runtime has had. -/
structure World where
  members : HashMap RuntimeId MeshMembership
  digests : List (RuntimeId × List GossipDigestEntry)
  deltas : List (RuntimeId × List GossipRecord)
  issued : List GossipRecord
  deriving DecidableEq

inductive Input where
  | boot (record : GossipRecord)
  | update (runtime : RuntimeId) (update : LocalUpdate) (now : Nat)
  | mark (runtime peer : RuntimeId) (state : ConnectionState)
  | announce (runtime : RuntimeId)
  | answer (runtime : RuntimeId) (digest : Nat)
  | deliver (delta : Nat)

namespace World

def empty : World := ⟨∅, [], [], []⟩

/-- The delta with which a runtime answers a digest that was sent. -/
def answerTo (w : World) (runtime : RuntimeId) (digest : Nat) :
    Option (RuntimeId × List GossipRecord) :=
  match w.members.lookup runtime, w.digests[digest]? with
  | some m, some (sender, entries) => some (sender, m.deltaFor entries)
  | _, _ => none

def step (w : World) : Input → World
  | .boot record =>
      if (w.members.lookup record.runtimeId).isSome then w
      else
        { w with
          members := w.members.insert record.runtimeId (.new record)
          issued := w.issued ++ [record] }
  | .update runtime update now =>
      match w.members.lookup runtime with
      | some m =>
          let m' := m.updateLocal update now
          { w with
            members := w.members.insert runtime m'
            issued := w.issued ++ [m'.localRecord] }
      | none => w
  | .mark runtime peer state =>
      match w.members.lookup runtime with
      | some m =>
          { w with members := w.members.insert runtime (m.markConnectionState peer state) }
      | none => w
  | .announce runtime =>
      match w.members.lookup runtime with
      | some m => { w with digests := w.digests ++ [(runtime, m.digest)] }
      | none => w
  | .answer runtime digest =>
      match w.answerTo runtime digest with
      | some delta => { w with deltas := w.deltas ++ [delta] }
      | none => w
  | .deliver delta =>
      match w.deltas[delta]? with
      | some (runtime, records) =>
          match w.members.lookup runtime with
          | some m => { w with members := w.members.insert runtime (m.applyDelta records) }
          | none => w
      | none => w

/-- The world after a run from the empty one. -/
def reached (inputs : List Input) : World := Run.run step empty inputs

/-- How new the record of a runtime is that another one holds. -/
def rank (w : World) (holder runtime : RuntimeId) : Nat :=
  match w.members.lookup holder with
  | some m => m.rankOf runtime
  | none => 0

variable {w : World}

theorem rank_of_lookup {holder : RuntimeId} {m : MeshMembership}
    (h : w.members.lookup holder = some m) (runtime : RuntimeId) :
    w.rank holder runtime = m.rankOf runtime := by
  rw [rank, h]

/-! ## What holds in every world reached -/

structure Sound (w : World) : Prop where
  members : ∀ runtime m, w.members.lookup runtime = some m →
    m.WellFormed ∧ m.localRuntimeId = runtime
  held : ∀ runtime m, w.members.lookup runtime = some m →
    ∀ record ∈ m.records, record ∈ w.issued
  sent : ∀ delta ∈ w.deltas, ∀ record ∈ delta.2, record ∈ w.issued
  owned : ∀ record ∈ w.issued, record.version + 1 ≤ w.rank record.runtimeId record.runtimeId
  digests : ∀ digest ∈ w.digests, ∀ entry ∈ digest.2,
    entry.version + 1 ≤ w.rank digest.1 entry.runtimeId

theorem sound_empty : Sound empty := by
  refine ⟨?_, ?_, ?_, ?_, ?_⟩
  · intro runtime m hm
    cases hm
  · intro runtime m hm
    cases hm
  · simp [empty]
  · simp [empty]
  · simp [empty]

/-- A table that replaces another one of the same runtime, or comes where there was none. -/
structure Supersedes (w : World) (runtime : RuntimeId) (m : MeshMembership)
    (issued : List GossipRecord) : Prop where
  wellFormed : m.WellFormed
  localId : m.localRuntimeId = runtime
  rank_le : ∀ peer, w.rank runtime peer ≤ m.rankOf peer
  held : ∀ record ∈ m.records, record ∈ issued

theorem rank_insert (w : World) (runtime : RuntimeId) (m : MeshMembership)
    (issued : List GossipRecord) (holder peer : RuntimeId) :
    ({ w with members := w.members.insert runtime m, issued := issued } : World).rank holder peer =
      if holder = runtime then m.rankOf peer else w.rank holder peer := by
  simp only [rank, HashMap.lookup_insert_eq]
  split_ifs
  · rfl
  · rfl

theorem Supersedes.rank_insert_le {runtime : RuntimeId} {m : MeshMembership}
    {issued : List GossipRecord} (h : Supersedes w runtime m issued) (holder peer : RuntimeId) :
    w.rank holder peer ≤
      ({ w with members := w.members.insert runtime m, issued := issued } : World).rank
        holder peer := by
  rw [rank_insert]
  split_ifs with heq
  · rw [heq]
    exact h.rank_le peer
  · exact le_rfl

theorem Sound.insert (h : Sound w) {runtime : RuntimeId} {m : MeshMembership}
    {fresh : List GossipRecord} (hm : Supersedes w runtime m (w.issued ++ fresh))
    (hfresh : ∀ record ∈ fresh, record = m.localRecord) :
    Sound { w with members := w.members.insert runtime m, issued := w.issued ++ fresh } := by
  refine ⟨?_, ?_, ?_, ?_, ?_⟩
  · intro holder m' hm'
    rw [HashMap.lookup_insert_eq] at hm'
    split_ifs at hm' with heq
    · cases hm'
      exact ⟨hm.wellFormed, hm.localId.trans heq.symm⟩
    · exact h.members holder m' hm'
  · intro holder m' hm' record hrecord
    rw [HashMap.lookup_insert_eq] at hm'
    split_ifs at hm' with heq
    · cases hm'
      exact hm.held record hrecord
    · exact List.mem_append_left _ (h.held holder m' hm' record hrecord)
  · intro delta hdelta record hrecord
    exact List.mem_append_left _ (h.sent delta hdelta record hrecord)
  · intro record hrecord
    rcases List.mem_append.1 hrecord with hold | hnew
    · exact (h.owned record hold).trans (hm.rank_insert_le _ _)
    · -- a new record is the local one of the table that comes in
      have hid : record.runtimeId = runtime := by
        rw [hfresh record hnew, hm.wellFormed.localId, hm.localId]
      rw [rank_insert, if_pos hid, hid, MeshMembership.rankOf, MeshMembership.recordOf,
        if_pos hm.localId.symm, hfresh record hnew, Versioned.rank_some]
  · intro digest hdigest entry hentry
    exact (h.digests digest hdigest entry hentry).trans (hm.rank_insert_le _ _)

theorem Sound.insert_same (h : Sound w) {runtime : RuntimeId} {m : MeshMembership}
    (hm : Supersedes w runtime m w.issued) :
    Sound { w with members := w.members.insert runtime m } := by
  have hm' : Supersedes w runtime m (w.issued ++ []) := by simpa using hm
  have hall := h.insert hm' (by simp)
  simpa using hall

/-! ## The tables that the steps put in place -/

theorem Sound.rankOf_local (h : Sound w) {runtime : RuntimeId} {m : MeshMembership}
    (hm : w.members.lookup runtime = some m) :
    w.rank runtime runtime = m.localRecord.version + 1 := by
  rw [rank_of_lookup hm, MeshMembership.rankOf, MeshMembership.recordOf,
    if_pos (h.members runtime m hm).2.symm, Versioned.rank_some]

theorem supersedes_new {record : GossipRecord} (h : w.members.lookup record.runtimeId = none) :
    Supersedes w record.runtimeId (.new record) (w.issued ++ [record]) := by
  refine ⟨MeshMembership.wellFormed_new record, rfl, ?_, ?_⟩
  · intro peer
    rw [rank, h]
    exact Nat.zero_le _
  · intro held hheld
    have heq : held = record := by simpa [MeshMembership.records, MeshMembership.new] using hheld
    simp [heq]

theorem Sound.supersedes_updateLocal (h : Sound w) {runtime : RuntimeId} {m : MeshMembership}
    (hm : w.members.lookup runtime = some m) (update : LocalUpdate) (now : Nat) :
    Supersedes w runtime (m.updateLocal update now)
      (w.issued ++ [(m.updateLocal update now).localRecord]) := by
  rcases h.members runtime m hm with ⟨hwf, hid⟩
  refine ⟨⟨?_, hwf.keyed, hwf.apart⟩, hid, ?_, ?_⟩
  · exact (update.keeps_runtimeId m.localRecord).trans hwf.localId
  · intro peer
    rw [rank_of_lookup hm]
    unfold MeshMembership.rankOf MeshMembership.recordOf
    change _ ≤ Versioned.rank GossipRecord.version
      (if peer = m.localRuntimeId then some (m.updateLocal update now).localRecord
        else (m.peers.lookup peer).map PeerState.record)
    split_ifs with hlocal
    · -- the version of the local record goes up, or stays at its greatest value
      simp only [Versioned.rank_some, MeshMembership.updateLocal, update.keeps_version]
      split_ifs
      · omega
      · exact le_rfl
    · exact le_rfl
  · intro record hrecord
    rcases List.mem_append.1 hrecord with hpeer | hlocal
    · exact List.mem_append_left _ (h.held runtime m hm record (List.mem_append_left _ hpeer))
    · exact List.mem_append_right _ hlocal

theorem recordOf_markConnectionState (m : MeshMembership) (peer : RuntimeId)
    (state : ConnectionState) (runtime : RuntimeId) :
    (m.markConnectionState peer state).recordOf runtime = m.recordOf runtime := by
  unfold MeshMembership.markConnectionState
  cases hpeer : m.peers.lookup peer with
  | none => rfl
  | some held =>
      unfold MeshMembership.recordOf
      simp only [HashMap.lookup_insert_eq]
      split_ifs with hlocal hsame
      · rfl
      · rw [hsame, hpeer]
        rfl
      · rfl

theorem wellFormed_markConnectionState {m : MeshMembership} (h : m.WellFormed) (peer : RuntimeId)
    (state : ConnectionState) : (m.markConnectionState peer state).WellFormed := by
  unfold MeshMembership.markConnectionState
  cases hpeer : m.peers.lookup peer with
  | none => exact h
  | some held =>
      refine ⟨h.localId, ?_, ?_⟩
      · intro runtime other hother
        rw [HashMap.lookup_insert_eq] at hother
        split_ifs at hother with hsame
        · cases hother
          rw [hsame]
          exact h.keyed peer held hpeer
        · exact h.keyed runtime other hother
      · change (m.peers.insert peer _).lookup m.localRuntimeId = none
        rw [HashMap.lookup_insert_eq]
        split_ifs with hsame
        · rw [← hsame, h.apart] at hpeer
          cases hpeer
        · exact h.apart

theorem Sound.supersedes_mark (h : Sound w) {runtime : RuntimeId} {m : MeshMembership}
    (hm : w.members.lookup runtime = some m) (peer : RuntimeId) (state : ConnectionState) :
    Supersedes w runtime (m.markConnectionState peer state) w.issued := by
  rcases h.members runtime m hm with ⟨hwf, hid⟩
  have hmarked := wellFormed_markConnectionState hwf peer state
  have hlocal : (m.markConnectionState peer state).localRuntimeId = runtime := by
    rw [← hid]
    unfold MeshMembership.markConnectionState
    split
    · rfl
    · rfl
  refine ⟨hmarked, hlocal, ?_, ?_⟩
  · intro other
    rw [rank_of_lookup hm, MeshMembership.rankOf, MeshMembership.rankOf,
      recordOf_markConnectionState]
  · intro record hrecord
    rw [hmarked.mem_records, recordOf_markConnectionState, ← hwf.mem_records] at hrecord
    exact h.held runtime m hm record hrecord

theorem Sound.supersedes_applyDelta (h : Sound w) {runtime : RuntimeId} {m : MeshMembership}
    (hm : w.members.lookup runtime = some m) {records : List GossipRecord}
    (hrecords : ∀ record ∈ records, record ∈ w.issued) :
    Supersedes w runtime (m.applyDelta records) w.issued := by
  rcases h.members runtime m hm with ⟨hwf, hid⟩
  have happlied := hwf.applyDelta records
  refine ⟨happlied, (MeshMembership.localRuntimeId_applyDelta records).trans hid, ?_, ?_⟩
  · intro peer
    rw [rank_of_lookup hm]
    exact MeshMembership.rankOf_le_applyDelta records peer
  · intro record hrecord
    rw [happlied.mem_records] at hrecord
    by_cases hlocal : record.runtimeId = m.localRuntimeId
    · rw [hlocal, MeshMembership.recordOf_applyDelta_local] at hrecord
      cases hrecord
      exact h.held runtime m hm _ (List.mem_append_right _ (List.mem_singleton.2 rfl))
    · rw [MeshMembership.recordOf_applyDelta hlocal] at hrecord
      rcases Versioned.foldl_offer_eq
        (records.filter fun r => r.runtimeId = record.runtimeId)
        (m.recordOf record.runtimeId) with hkept | ⟨taken, htaken, heq⟩
      · rw [hkept] at hrecord
        exact h.held runtime m hm record ((hwf.mem_records record).2 hrecord)
      · have hsame : taken = record := Option.some.inj (heq.symm.trans hrecord)
        exact hsame ▸ hrecords taken (List.mem_filter.1 htaken).1

/-! ## Messages -/

theorem Sound.announce (h : Sound w) {runtime : RuntimeId} {m : MeshMembership}
    (hm : w.members.lookup runtime = some m) :
    Sound { w with digests := w.digests ++ [(runtime, m.digest)] } := by
  refine ⟨h.members, h.held, h.sent, h.owned, ?_⟩
  intro digest hdigest entry hentry
  rcases List.mem_append.1 hdigest with hold | hnew
  · exact h.digests digest hold entry hentry
  · rcases List.mem_singleton.1 hnew with rfl
    rcases MeshMembership.mem_digest.1 hentry with ⟨record, hrecord, hid, hversion⟩
    have hheld := ((h.members runtime m hm).1.mem_records record).1 hrecord
    change entry.version + 1 ≤ w.rank runtime entry.runtimeId
    rw [rank_of_lookup hm, MeshMembership.rankOf, ← hid, hheld, Versioned.rank_some, hversion]

theorem answerTo_eq_some {runtime : RuntimeId} {digest : Nat}
    {delta : RuntimeId × List GossipRecord} (h : w.answerTo runtime digest = some delta) :
    ∃ m entries, w.members.lookup runtime = some m ∧
      w.digests[digest]? = some (delta.1, entries) ∧ delta.2 = m.deltaFor entries := by
  unfold answerTo at h
  split at h
  · next m sender entries hm hdigest =>
      cases h
      exact ⟨m, entries, hm, hdigest, rfl⟩
  · cases h

theorem Sound.answer (h : Sound w) {runtime : RuntimeId} {digest : Nat}
    {delta : RuntimeId × List GossipRecord} (hanswer : w.answerTo runtime digest = some delta) :
    Sound { w with deltas := w.deltas ++ [delta] } := by
  rcases answerTo_eq_some hanswer with ⟨m, entries, hm, _, hrecords⟩
  refine ⟨h.members, h.held, ?_, h.owned, h.digests⟩
  intro sent hsent record hrecord
  rcases List.mem_append.1 hsent with hold | hnew
  · exact h.sent sent hold record hrecord
  · rcases List.mem_singleton.1 hnew with rfl
    rw [hrecords] at hrecord
    exact h.held runtime m hm record (MeshMembership.mem_records_of_mem_deltaFor hrecord)

/-! ## Steps and runs -/

theorem Sound.step_cases (h : Sound w) (input : Input) :
    Sound (step w input) ∧ ∀ holder runtime, w.rank holder runtime ≤
      (step w input).rank holder runtime := by
  cases input with
  | boot record =>
      simp only [step]
      split_ifs with hknown
      · exact ⟨h, fun _ _ => le_rfl⟩
      · have hnew := supersedes_new (Option.not_isSome_iff_eq_none.1 hknown)
        refine ⟨h.insert hnew ?_, hnew.rank_insert_le⟩
        intro fresh hfresh
        exact List.mem_singleton.1 hfresh
  | update runtime update now =>
      simp only [step]
      split
      · next m hm =>
          have hnew := h.supersedes_updateLocal hm update now
          refine ⟨h.insert hnew ?_, hnew.rank_insert_le⟩
          intro fresh hfresh
          exact List.mem_singleton.1 hfresh
      · exact ⟨h, fun _ _ => le_rfl⟩
  | mark runtime peer state =>
      simp only [step]
      split
      · next m hm =>
          have hnew := h.supersedes_mark hm peer state
          exact ⟨h.insert_same hnew, hnew.rank_insert_le⟩
      · exact ⟨h, fun _ _ => le_rfl⟩
  | announce runtime =>
      simp only [step]
      split
      · next m hm => exact ⟨h.announce hm, fun _ _ => le_rfl⟩
      · exact ⟨h, fun _ _ => le_rfl⟩
  | answer runtime digest =>
      simp only [step]
      split
      · next delta hanswer => exact ⟨h.answer hanswer, fun _ _ => le_rfl⟩
      · exact ⟨h, fun _ _ => le_rfl⟩
  | deliver delta =>
      simp only [step]
      split
      · next runtime records hdelta =>
          split
          · next m hm =>
              have hsent := h.sent (runtime, records) (List.mem_of_getElem? hdelta)
              have hnew := h.supersedes_applyDelta hm hsent
              exact ⟨h.insert_same hnew, hnew.rank_insert_le⟩
          · exact ⟨h, fun _ _ => le_rfl⟩
      · exact ⟨h, fun _ _ => le_rfl⟩

theorem Sound.run (h : Sound w) (inputs : List Input) : Sound (Run.run step w inputs) :=
  Run.invariant_of_step Sound (fun _ input hw => (hw.step_cases input).1) h inputs

theorem sound_reached (inputs : List Input) : Sound (reached inputs) := sound_empty.run inputs

theorem Sound.rank_le_run (h : Sound w) (inputs : List Input) (holder runtime : RuntimeId) :
    w.rank holder runtime ≤ (Run.run step w inputs).rank holder runtime := by
  induction inputs generalizing w with
  | nil => exact le_rfl
  | cons input inputs ih =>
      rcases h.step_cases input with ⟨hsound, hrank⟩
      exact (hrank holder runtime).trans (ih hsound)

theorem reached_append (before after : List Input) :
    reached (before ++ after) = Run.run step (reached before) after := by
  simp [reached, Run.run]

end World
end Mesh
end Relay
end Maju
