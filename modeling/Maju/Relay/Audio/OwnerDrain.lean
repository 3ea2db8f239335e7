import Maju.Relay.Audio.OwnerLeases

/-!
# OwnerDrain — the drain of all rooms of a pod

A drain sets the flag, goes over the shards of the map, and drains what it saw; calls that attach
leases go on meanwhile.

* `Guarded` — every entry is still to be drained by every drain under way, or is about to be
  retracted by the call that inserted it;
* `owner_registry` — what every run of the calls keeps.

Reading the map takes the lock of a shard, so an insertion that a drain did not see is followed by
a read of the flag that sees it set: the operations are taken to be sequentially consistent.
-/

namespace Maju
namespace Relay
namespace Audio

open Lib Core

variable {r : Registry}

/-! ## What a drain has still to remove -/

/-- The call inserted an entry of this session and generation and has not read the flag since, or
has read that it is set. -/
def Attach.Guards (session : Uuid) (generation : Nat) : Attach → Prop
  | .inserted lease => lease.session = session ∧ lease.generation = generation
  | .retracting lease => lease.session = session ∧ lease.generation = generation
  | _ => False

theorem Attach.Guards.unfinished {phase : Attach} {session : Uuid} {generation : Nat}
    (h : phase.Guards session generation) : phase.Unfinished := by
  cases phase with
  | returned _ _ => exact h
  | _ => trivial

/-- The drain has still to come by an entry of this session and generation. -/
def DrainAll.Pending (shards : Shards) (session : Uuid) (generation : Nat) : DrainAll → Prop
  | .started => True
  | .visiting shard rooms => shard ≤ shards.of session ∨ (session, generation) ∈ rooms
  | .draining rooms _ => (session, generation) ∈ rooms
  | .returned _ => False

/-- Every entry is guarded by the call that inserted it or pending in every drain. -/
structure Guarded (shards : Shards) (r : Registry) : Prop where
  flag : r.draining = false → ∀ call phase, r.drains.lookup call = some phase → phase = .started
  entries : ∀ session lease, r.entries.lookup session = some lease →
    (∃ call phase, r.attaches.lookup call = some phase ∧
      phase.Guards session lease.generation) ∨
    ∀ call phase, r.drains.lookup call = some phase →
      phase.Pending shards session lease.generation

section Drains

variable {shards : Shards}

theorem Guarded.removes {r' : Registry} (hr : Guarded shards r) (h : Removes r r') :
    Guarded shards r' := by
  refine ⟨?_, ?_⟩
  · rw [h.draining, h.drains]
    exact hr.flag
  · rw [h.attaches, h.drains]
    intro session lease hlease
    exact hr.entries session lease (h.entries session lease hlease)

theorem Guarded.setAttach {call : Nat} {phase : Attach} (hr : Guarded shards r)
    (hguards : ∀ old session lease, r.attaches.lookup call = some old →
      r.entries.lookup session = some lease → old.Guards session lease.generation →
      phase.Guards session lease.generation ∨
        ∀ call phase, r.drains.lookup call = some phase →
          phase.Pending shards session lease.generation) :
    Guarded shards (r.setAttach call phase) := by
  refine ⟨hr.flag, ?_⟩
  intro session lease hlease
  rcases hr.entries session lease hlease with ⟨call', old, hold, hguard⟩ | hpending
  · by_cases hsame : call' = call
    · subst hsame
      rcases hguards old session lease hold hlease hguard with hphase | hpending
      · refine Or.inl ⟨call', phase, ?_, hphase⟩
        change (r.attaches.insert call' phase).lookup call' = some phase
        rw [HashMap.lookup_insert_eq, if_pos rfl]
      · exact Or.inr hpending
    · refine Or.inl ⟨call', old, ?_, hguard⟩
      change (r.attaches.insert call phase).lookup call' = some old
      rw [HashMap.lookup_insert_eq, if_neg hsame]
      exact hold
  · exact Or.inr hpending

theorem Guarded.setAttach_of_free {call : Nat} {phase : Attach} (hr : Guarded shards r)
    (hfree : ∀ old session generation, r.attaches.lookup call = some old →
      ¬ old.Guards session generation) :
    Guarded shards (r.setAttach call phase) :=
  hr.setAttach fun old session lease hold _ hguard =>
    absurd hguard (hfree old session lease.generation hold)

theorem Guarded.cancel {cancelled drained : List HuddleLease} (hr : Guarded shards r) :
    Guarded shards { r with cancelled := cancelled, drained := drained } :=
  ⟨hr.flag, hr.entries⟩

theorem Guarded.insert {call : Nat} {lease : HuddleLease} (hr : Guarded shards r)
    (hphase : r.attaches.lookup call = some (.vacant lease)) :
    Guarded shards (({ r with entries := r.entries.insert lease.session lease } :
      Registry).setAttach call (.inserted lease)) := by
  refine ⟨hr.flag, ?_⟩
  intro session lease' hlease'
  change (r.entries.insert lease.session lease).lookup session = some lease' at hlease'
  change (∃ call' phase, (r.attaches.insert call (.inserted lease)).lookup call' = some phase ∧ _) ∨
    ∀ call phase, r.drains.lookup call = some phase → _
  rw [HashMap.lookup_insert_eq] at hlease'
  split_ifs at hlease' with hsame
  · cases hlease'
    refine Or.inl ⟨call, .inserted lease, ?_, hsame.symm, rfl⟩
    rw [HashMap.lookup_insert_eq, if_pos rfl]
  · rcases hr.entries session lease' hlease' with ⟨call', old, hold, hguard⟩ | hpending
    · refine Or.inl ⟨call', old, ?_, hguard⟩
      rw [HashMap.lookup_insert_eq, if_neg]
      · exact hold
      · rintro rfl
        rw [hphase] at hold
        cases hold
        exact hguard
    · exact Or.inr hpending

theorem free_of_phase {call : Nat} {phase : Attach} (hphase : r.attaches.lookup call = some phase)
    (hfree : ∀ session generation, ¬ phase.Guards session generation) (old : Attach)
    (session : Uuid) (generation : Nat) (hold : r.attaches.lookup call = some old) :
    ¬ old.Guards session generation := by
  rw [hphase] at hold
  cases hold
  exact hfree session generation

theorem Guarded.advance {call : Nat} {phase : Attach} (hr : Guarded shards r)
    (hphase : r.attaches.lookup call = some phase) : Guarded shards (r.advance call phase) := by
  cases phase with
  | started lease =>
      have hfree := free_of_phase hphase fun _ _ => not_false
      simp only [Registry.advance]
      split_ifs
      · exact Guarded.setAttach_of_free hr.cancel hfree
      · exact hr.setAttach_of_free hfree
  | checked lease =>
      have hfree := free_of_phase hphase fun _ _ => not_false
      simp only [Registry.advance]
      split
      · exact Guarded.setAttach_of_free hr.cancel hfree
      · exact hr.setAttach_of_free hfree
  | vacant lease => exact hr.insert hphase
  | inserted lease =>
      simp only [Registry.advance]
      split_ifs with hdraining
      · refine hr.setAttach ?_
        intro old session lease' hold _ hguard
        rw [hphase] at hold
        cases hold
        exact Or.inl hguard
      · -- the flag is clear after the insertion: no drain has started to look
        refine hr.setAttach ?_
        intro old session lease' _ _ _
        refine Or.inr fun call' phase' hphase' => ?_
        rw [hr.flag (by simpa using hdraining) call' phase' hphase']
        trivial
  | retracting lease =>
      have hremoves := removes_drain r lease.session lease.generation
      refine (hr.removes hremoves).setAttach ?_
      intro old session lease' hold hlease' hguard
      rw [hremoves.attaches, hphase] at hold
      cases hold
      rw [← hguard.1] at hlease'
      exact absurd hguard.2.symm (lookup_drain_ne hlease')
  | retracted lease =>
      have hfree := free_of_phase hphase fun _ _ => not_false
      exact Guarded.setAttach_of_free hr.cancel hfree
  | returned lease signals => exact hr

theorem Guarded.setDrain {call : Nat} {phase : DrainAll} (hr : Guarded shards r)
    (hflag : r.draining = false → phase = .started)
    (hpending : ∀ session lease, r.entries.lookup session = some lease →
      (∀ old, r.drains.lookup call = some old → old.Pending shards session lease.generation) →
      phase.Pending shards session lease.generation) :
    Guarded shards (r.setDrain call phase) := by
  have hlookup : ∀ call', (r.setDrain call phase).drains.lookup call' =
      if call' = call then some phase else r.drains.lookup call' :=
    fun call' => HashMap.lookup_insert_eq call call' phase r.drains
  refine ⟨?_, ?_⟩
  · intro hdraining call' phase' hphase'
    rw [hlookup] at hphase'
    split_ifs at hphase'
    · cases hphase'
      exact hflag hdraining
    · exact hr.flag hdraining call' phase' hphase'
  · intro session lease hlease
    rcases hr.entries session lease hlease with hguard | hall
    · exact Or.inl hguard
    · refine Or.inr fun call' phase' hphase' => ?_
      rw [hlookup] at hphase'
      split_ifs at hphase'
      · cases hphase'
        exact hpending session lease hlease (hall call)
      · exact hall call' phase' hphase'

theorem mem_shardRooms {session : Uuid} {lease : HuddleLease}
    (hlease : r.entries.lookup session = some lease) :
    (session, lease.generation) ∈ r.shardRooms shards (shards.of session) := by
  refine List.mem_map.2 ⟨⟨session, lease⟩, List.mem_filter.2 ⟨?_, by simp⟩, rfl⟩
  exact HashMap.mem_entries_iff.2 hlease

theorem Guarded.advanceDrain {call : Nat} {phase : DrainAll} (hr : Guarded shards r)
    (hphase : r.drains.lookup call = some phase) :
    Guarded shards (r.advanceDrain shards call phase) := by
  -- a drain past its first operation has set the flag
  have hset : phase ≠ .started → r.draining = false → ∀ next : DrainAll, next = .started :=
    fun hne hclear => absurd (hr.flag hclear call phase hphase) hne
  cases phase with
  | started =>
      have hr' : Guarded shards { r with draining := true } := ⟨fun h => (nomatch h), hr.entries⟩
      refine hr'.setDrain (fun h => nomatch h) ?_
      intro session lease _ _
      exact Or.inl (Nat.zero_le _)
  | visiting shard rooms =>
      simp only [Registry.advanceDrain]
      split_ifs with hshard
      · refine hr.setDrain (fun h => hset (by simp) h _) ?_
        intro session lease hlease hold
        rcases hold _ hphase with hlater | hmem
        · rcases Nat.eq_or_lt_of_le hlater with hhere | hlater
          · refine Or.inr (List.mem_append_right _ ?_)
            rw [hhere]
            exact mem_shardRooms hlease
          · exact Or.inl hlater
        · exact Or.inr (List.mem_append_left _ hmem)
      · refine hr.setDrain (fun h => hset (by simp) h _) ?_
        intro session lease _ hold
        rcases hold _ hphase with hlater | hmem
        · exact absurd (Nat.lt_of_le_of_lt hlater (shards.lt_count session)) hshard
        · exact hmem
  | draining rooms count =>
      cases rooms with
      | nil =>
          refine hr.setDrain (fun h => hset (by simp) h _) ?_
          intro session lease _ hold
          exact absurd (hold _ hphase) List.not_mem_nil
      | cons room rooms =>
          have hremoves := removes_drain r room.1 room.2
          refine (hr.removes hremoves).setDrain ?_ ?_
          · intro h
            rw [hremoves.draining] at h
            exact hset (by simp) h _
          · intro session lease hlease hold
            rw [hremoves.drains] at hold
            -- the entry left is not the one just drained
            rcases List.mem_cons.1 (hold _ hphase) with rfl | hmem
            · exact absurd rfl (lookup_drain_ne hlease)
            · exact hmem
  | returned count => exact hr

theorem Guarded.step {input : RegistryInput} (hr : Guarded shards r) :
    Guarded shards (r.step shards input) := by
  cases input with
  | attach call lease =>
      simp only [Registry.step]
      split
      · next hnone =>
          refine hr.setAttach_of_free ?_
          intro old session generation hold
          rw [hnone] at hold
          cases hold
      · exact hr
  | advance call =>
      simp only [Registry.step]
      split
      · next phase hphase => exact hr.advance hphase
      · exact hr
  | release session generation => exact hr.removes (removes_release r session generation)
  | drain session generation => exact hr.removes (removes_drain r session generation)
  | drainAll call =>
      simp only [Registry.step]
      split
      · exact hr.setDrain (fun _ => rfl) fun _ _ _ _ => trivial
      · exact hr
  | advanceDrain call =>
      simp only [Registry.step]
      split
      · next phase hphase => exact hr.advanceDrain hphase
      · exact hr

theorem Guarded.empty_of_returned {call count : Nat} (hr : Guarded shards r)
    (hreturned : r.drains.lookup call = some (.returned count))
    (hfree : ∀ call phase, r.attaches.lookup call = some phase →
      ∀ session generation, ¬ phase.Guards session generation) : r.entries = ∅ := by
  apply HashMap.eq_empty_iff.2
  intro session
  cases hlease : r.entries.lookup session with
  | none => rfl
  | some lease =>
      rcases hr.entries session lease hlease with ⟨call', phase, hphase, hguard⟩ | hpending
      · exact absurd hguard (hfree call' phase hphase session lease.generation)
      · exact (hpending call _ hreturned).elim

end Drains

/-! ## Runs -/

namespace Registry

/-- The registry after the calls so far. -/
def reached (shards : Shards) (inputs : List RegistryInput) : Registry :=
  Run.run (step shards) new inputs

end Registry

theorem settled_new : Settled Registry.new := fun _ _ _ h => nomatch h

theorem belongs_new (communityOf : Uuid → Uuid) : Belongs communityOf Registry.new :=
  ⟨fun _ _ h => (nomatch h), fun _ _ h => (nomatch h), fun _ _ _ h => (nomatch h)⟩

theorem guarded_new (shards : Shards) : Guarded shards Registry.new :=
  ⟨fun _ _ _ h => (nomatch h), fun _ _ h => (nomatch h)⟩

theorem apart_new : Apart Registry.new :=
  ⟨fun _ _ _ _ h => (nomatch h), fun _ _ h => (nomatch h)⟩

/-- For every run of the calls, at the granularity of their map and flag operations:

* where no call inserts over an entry that was inserted after it looked, every lease of a call
  that returned is stored for its session or its renewer is cancelled; calls of a session that do
  not overlap are of that kind;
* where a session is a session of one community only, the signals that a call returns and those
  found for a caller are of a lease of the community and session of the caller;
* a release or drain of an older generation changes nothing;
* after a drain of all rooms, no entry is left other than those that a call has inserted and is
  about to retract. -/
theorem owner_registry (shards : Shards) :
    (∀ inputs, Run.Along NoOverwrite (Registry.step shards) .new inputs →
      ∀ call lease signals,
        (Registry.reached shards inputs).attaches.lookup call = some (.returned lease signals) →
        (Registry.reached shards inputs).Holds lease) ∧
    (∀ inputs, Run.Along NoOverlap (Registry.step shards) .new inputs →
      Run.Along NoOverwrite (Registry.step shards) .new inputs) ∧
    (∀ communityOf inputs, (∀ input ∈ inputs, OneCommunity communityOf input) →
      (∀ call lease signals,
        (Registry.reached shards inputs).attaches.lookup call = some (.returned lease signals) →
        signals.Of lease) ∧
      ∀ session token, (Registry.reached shards inputs).lostFor session = some token →
        token.lease.community = communityOf session ∧ token.lease.session = session) ∧
    (∀ inputs session generation,
      (∀ lease, (Registry.reached shards inputs).entries.lookup session = some lease →
        generation < lease.generation) →
      (Registry.reached shards inputs).release session generation =
          Registry.reached shards inputs ∧
        (Registry.reached shards inputs).drain session generation =
          (Registry.reached shards inputs, false)) ∧
    ∀ inputs drain count,
      (Registry.reached shards inputs).drains.lookup drain = some (.returned count) →
      (∀ call phase, (Registry.reached shards inputs).attaches.lookup call = some phase →
        ∀ session generation, ¬ phase.Guards session generation) →
      (Registry.reached shards inputs).entries = ∅ := by
  refine ⟨?_, ?_, ?_, ?_, ?_⟩
  · intro inputs halong call lease signals hreturned
    have hsettled : Settled (Registry.reached shards inputs) :=
      Run.invariant Settled (fun _ _ hr hstep => hr.step hstep) settled_new halong
    exact hsettled call _ lease hreturned rfl
  · intro inputs halong
    exact halong.of_invariant Apart (fun _ _ hr hinput => hr.step hinput)
      (fun _ _ hr _ => hr.noOverwrite) apart_new
  · intro communityOf inputs hinputs
    have hbelongs : Belongs communityOf (Registry.reached shards inputs) :=
      Run.invariant (P := fun _ => OneCommunity communityOf) (Belongs communityOf)
        (fun _ _ hr hinput => hr.step hinput) (belongs_new communityOf)
        (Run.along_of_forall_mem fun input hinput _ => hinputs input hinput)
    refine ⟨hbelongs.returned, ?_⟩
    intro session token htoken
    rcases Option.map_eq_some_iff.1 htoken with ⟨lease, hlease, rfl⟩
    exact (hbelongs.entries session lease hlease).symm
  · intro inputs session generation holder
    exact release_stale fun lease hlease => Nat.ne_of_gt (holder lease hlease)
  · intro inputs drain count hreturned hfree
    have hguarded : Guarded shards (Registry.reached shards inputs) :=
      Run.invariant_of_step (Guarded shards) (fun _ _ hr => hr.step) (guarded_new shards) inputs
    exact hguarded.empty_of_returned hreturned hfree

namespace Sample

def oneShard : Shards := ⟨1, fun _ => 0, fun _ => Nat.one_pos⟩

/-- A whole call of `attach_signals` that finds the flag clear throughout. -/
def attachAll (call : Nat) (lease : HuddleLease) : List RegistryInput :=
  .attach call lease :: List.replicate 4 (.advance call)

/-- A room is attached and released, attached anew, and drained with the pod. -/
def lifetime : List RegistryInput :=
  attachAll 1 ⟨1, 5, 1⟩ ++ [.release 5 1] ++ attachAll 2 ⟨1, 5, 2⟩ ++
    .drainAll 1 :: List.replicate 5 (.advanceDrain 1)

/-- A second community has a session of the same id. -/
def shared : List RegistryInput := attachAll 1 ⟨1, 5, 1⟩ ++ attachAll 2 ⟨2, 5, 1⟩

/-- Two calls of one session look before either inserts. -/
def overlapping : List RegistryInput :=
  [.attach 1 ⟨1, 5, 1⟩, .advance 1, .advance 1, .attach 2 ⟨1, 5, 2⟩, .advance 2, .advance 2,
    .advance 1, .advance 1, .advance 2, .advance 2]

end Sample

theorem owner_registry_lifetime :
    (Registry.reached Sample.oneShard Sample.lifetime).Holds ⟨1, 5, 1⟩ ∧
      (Registry.reached Sample.oneShard Sample.lifetime).Holds ⟨1, 5, 2⟩ ∧
      (Registry.reached Sample.oneShard (Sample.lifetime.take 11)).lostFor 5 =
        some (.lost ⟨1, 5, 2⟩) ∧
      (HuddleOwnerSignals.of ⟨1, 5, 2⟩).Of ⟨1, 5, 2⟩ ∧
      (Registry.reached Sample.oneShard Sample.lifetime).entries = ∅ := by
  have halong : Run.Along NoOverwrite (Registry.step Sample.oneShard) .new Sample.lifetime := by
    decide
  have hcommunity : ∀ input ∈ Sample.lifetime, OneCommunity (fun _ => 1) input := by
    intro input hinput
    cases input with
    | attach call lease =>
        have hleases : call = 1 ∧ lease = ⟨1, 5, 1⟩ ∨ call = 2 ∧ lease = ⟨1, 5, 2⟩ := by
          simpa [Sample.lifetime, Sample.attachAll] using hinput
        rcases hleases with ⟨_, rfl⟩ | ⟨_, rfl⟩
        · rfl
        · rfl
    | _ => trivial
  have hfinished : ((Registry.reached Sample.oneShard Sample.lifetime).attaches.entries.all
      fun e => decide (¬ e.2.Unfinished)) = true := by
    decide
  refine ⟨?_, ?_, by decide, ?_, ?_⟩
  · exact (owner_registry Sample.oneShard).1 _ halong 1 _ (.of ⟨1, 5, 1⟩) (by decide)
  · exact (owner_registry Sample.oneShard).1 _ halong 2 _ (.of ⟨1, 5, 2⟩) (by decide)
  · exact ((owner_registry Sample.oneShard).2.2.1 (fun _ => 1) _ hcommunity).1 2 _ _
      (by decide)
  · refine (owner_registry Sample.oneShard).2.2.2.2 Sample.lifetime 1 1 (by decide) ?_
    intro call phase hphase session generation hguard
    have hmem := HashMap.mem_entries_iff.2 hphase
    exact absurd hguard.unfinished (by simpa using List.all_eq_true.1 hfinished _ hmem)

/-- A caller of the second community gets the signals of the first, from the call and from the
lookup, and the renewer of an entry that was overwritten goes on. -/
theorem owner_registry_fails :
    (¬ ∀ inputs call lease signals, (Registry.reached Sample.oneShard inputs).attaches.lookup call =
        some (.returned lease signals) → signals.Of lease) ∧
    (Registry.reached Sample.oneShard Sample.shared).lostFor 5 = some (.lost ⟨1, 5, 1⟩) ∧
    ¬ ∀ inputs call lease signals, (Registry.reached Sample.oneShard inputs).attaches.lookup call =
        some (.returned lease signals) → (Registry.reached Sample.oneShard inputs).Holds lease := by
  refine ⟨?_, by decide, ?_⟩
  · intro hall
    have hsignals := hall Sample.shared 2 ⟨2, 5, 1⟩ (.of ⟨1, 5, 1⟩) (by decide)
    have hcommunity := (hsignals _ (Or.inl rfl)).1
    exact absurd hcommunity (by decide)
  · intro hall
    have hholds := hall Sample.overlapping 1 ⟨1, 5, 1⟩ (.of ⟨1, 5, 1⟩) (by decide)
    exact absurd hholds (by decide)

end Audio
end Relay
end Maju
