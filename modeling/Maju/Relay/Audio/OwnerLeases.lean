import Maju.Relay.Audio.Owners

/-!
# OwnerLeases — where the leases of a pod are, and whose signals it hands out

* `Settled` — every lease of a call that returned is stored for its session or cancelled, where no
  call inserts over an entry that was inserted after it looked;
* `Apart` — calls of one session that do not overlap are of that kind;
* `Belongs` — where a session is a session of one community, the signals handed out are of a lease
  of that community.
-/

namespace Maju
namespace Relay
namespace Audio

open Lib Core

variable {r : Registry}

/-! ## Where a lease is -/

/-- The lease of a call whose fate is decided: inserted, or thrown away. -/
def Attach.decided : Attach → Option HuddleLease
  | .started _ => none
  | .checked _ => none
  | .vacant _ => none
  | .inserted lease => some lease
  | .retracting lease => some lease
  | .retracted lease => some lease
  | .returned lease _ => some lease

/-- The lease is the one stored for its session, or its renewer is cancelled. -/
def Registry.Holds (r : Registry) (lease : HuddleLease) : Prop :=
  r.entries.lookup lease.session = some lease ∨ lease ∈ r.cancelled

/-- Every lease whose fate is decided is stored or cancelled. -/
def Settled (r : Registry) : Prop :=
  ∀ call phase lease, r.attaches.lookup call = some phase → phase.decided = some lease →
    r.Holds lease

/-- The step does not insert over an entry that was inserted after the call looked. -/
def NoOverwrite (r : Registry) : RegistryInput → Prop
  | .advance call => ∀ lease, r.attaches.lookup call = some (.vacant lease) →
      r.entries.lookup lease.session = none
  | _ => True

instance Registry.Holds.decidable (r : Registry) (lease : HuddleLease) :
    Decidable (r.Holds lease) :=
  inferInstanceAs (Decidable (_ ∨ _))

/-- The lease of a call that found its session vacant. -/
def Attach.found : Attach → Option HuddleLease
  | .vacant lease => some lease
  | _ => none

instance NoOverwrite.decidable (r : Registry) : DecidablePred (NoOverwrite r)
  | .advance call =>
      decidable_of_iff (∀ lease ∈ (r.attaches.lookup call).bind Attach.found,
          r.entries.lookup lease.session = none) <| by
        refine forall_congr' fun lease => imp_congr_left ?_
        rw [Option.mem_def, Option.bind_eq_some_iff]
        constructor
        · rintro ⟨phase, hphase, hfound⟩
          cases phase <;> cases hfound
          exact hphase
        · exact fun hphase => ⟨_, hphase, rfl⟩
  | .attach _ _ => isTrue trivial
  | .release _ _ => isTrue trivial
  | .drain _ _ => isTrue trivial
  | .drainAll _ => isTrue trivial
  | .advanceDrain _ => isTrue trivial

/-! ## What a step does to the entries -/

/-- Leases are taken out with their tokens cancelled, and no call is moved. -/
structure Clears (r r' : Registry) : Prop where
  entries : ∀ session lease, r'.entries.lookup session = some lease →
    r.entries.lookup session = some lease
  removed : ∀ session lease, r.entries.lookup session = some lease →
    r'.entries.lookup session = some lease ∨ lease ∈ r'.cancelled
  cancelled : ∀ lease ∈ r.cancelled, lease ∈ r'.cancelled
  attaches : r'.attaches = r.attaches

theorem Clears.of_eq {r' : Registry} (hentries : r'.entries = r.entries)
    (hcancelled : r'.cancelled = r.cancelled) (hattaches : r'.attaches = r.attaches) :
    Clears r r' :=
  ⟨fun _ _ h => hentries ▸ h, fun _ _ h => Or.inl (hentries ▸ h), fun _ h => hcancelled ▸ h,
    hattaches⟩

theorem Removes.clears {r' : Registry} (h : Removes r r') : Clears r r' :=
  ⟨h.entries, h.removed, h.cancelled, h.attaches⟩

theorem clears_advanceDrain (r : Registry) (shards : Shards) (call : Nat) (phase : DrainAll) :
    Clears r (r.advanceDrain shards call phase) := by
  cases phase with
  | started => exact .of_eq rfl rfl rfl
  | visiting shard rooms =>
      simp only [Registry.advanceDrain]
      split_ifs
      · exact .of_eq rfl rfl rfl
      · exact .of_eq rfl rfl rfl
  | draining rooms count =>
      cases rooms with
      | nil => exact .of_eq rfl rfl rfl
      | cons room rooms =>
          have hremoves := removes_drain r room.1 room.2
          exact ⟨hremoves.entries, hremoves.removed, hremoves.cancelled, hremoves.attaches⟩
  | returned count => exact .of_eq rfl rfl rfl

/-- Only an attachment puts a lease in, and only in the steps of its own call. -/
theorem Registry.step_cases (r : Registry) (shards : Shards) (input : RegistryInput) :
    Clears r (r.step shards input) ∨
      (∃ call lease, input = .attach call lease ∧
        r.step shards input = r.setAttach call (.started lease)) ∨
      ∃ call phase, input = .advance call ∧ r.attaches.lookup call = some phase ∧
        r.step shards input = r.advance call phase := by
  cases input with
  | attach call lease =>
      simp only [Registry.step]
      split
      · exact Or.inr (Or.inl ⟨call, lease, rfl, rfl⟩)
      · exact Or.inl (.of_eq rfl rfl rfl)
  | advance call =>
      simp only [Registry.step]
      split
      · next phase hphase => exact Or.inr (Or.inr ⟨call, phase, rfl, hphase, rfl⟩)
      · exact Or.inl (.of_eq rfl rfl rfl)
  | release session generation => exact Or.inl (removes_release r session generation).clears
  | drain session generation => exact Or.inl (removes_drain r session generation).clears
  | drainAll call =>
      simp only [Registry.step]
      split
      · exact Or.inl (.of_eq rfl rfl rfl)
      · exact Or.inl (.of_eq rfl rfl rfl)
  | advanceDrain call =>
      simp only [Registry.step]
      split
      · next phase _ => exact Or.inl (clears_advanceDrain r shards call phase)
      · exact Or.inl (.of_eq rfl rfl rfl)

/-! ## Leases of calls that have returned -/

theorem Clears.holds {r' : Registry} {lease : HuddleLease} (h : Clears r r')
    (hlease : r.Holds lease) : r'.Holds lease := by
  rcases hlease with hstored | hcancelled
  · exact h.removed lease.session lease hstored
  · exact Or.inr (h.cancelled lease hcancelled)

theorem Settled.clears {r' : Registry} (hr : Settled r) (h : Clears r r') : Settled r' := by
  intro call phase lease hphase hdecided
  rw [h.attaches] at hphase
  exact h.holds (hr call phase lease hphase hdecided)

theorem Settled.setAttach {call : Nat} {phase : Attach} (hr : Settled r)
    (hphase : ∀ lease, phase.decided = some lease → r.Holds lease) :
    Settled (r.setAttach call phase) := by
  intro call' phase' lease hphase' hdecided
  change (r.attaches.insert call phase).lookup call' = some phase' at hphase'
  rw [HashMap.lookup_insert_eq] at hphase'
  split_ifs at hphase'
  · cases hphase'
    exact hphase lease hdecided
  · exact hr call' phase' lease hphase' hdecided

theorem Settled.cancel {lease : HuddleLease} {drained : List HuddleLease} (hr : Settled r) :
    Settled { r with cancelled := lease :: r.cancelled, drained := drained } := by
  intro call phase lease' hphase hdecided
  rcases hr call phase lease' hphase hdecided with hstored | hcancelled
  · exact Or.inl hstored
  · exact Or.inr (List.mem_cons_of_mem lease hcancelled)

theorem Settled.insert {lease : HuddleLease} (hr : Settled r)
    (hvacant : r.entries.lookup lease.session = none) :
    Settled { r with entries := r.entries.insert lease.session lease } := by
  intro call phase lease' hphase hdecided
  rcases hr call phase lease' hphase hdecided with hstored | hcancelled
  · refine Or.inl ?_
    have hne : lease'.session ≠ lease.session := by
      intro hsame
      rw [hsame, hvacant] at hstored
      cases hstored
    change (r.entries.insert lease.session lease).lookup lease'.session = some lease'
    rw [HashMap.lookup_insert_eq, if_neg hne]
    exact hstored
  · exact Or.inr hcancelled

theorem Settled.advance {call : Nat} {phase : Attach} (hr : Settled r)
    (hphase : r.attaches.lookup call = some phase) (hstep : NoOverwrite r (.advance call)) :
    Settled (r.advance call phase) := by
  cases phase with
  | started lease =>
      simp only [Registry.advance]
      split_ifs
      · refine Settled.setAttach hr.cancel ?_
        rintro _ ⟨⟩
        exact Or.inr List.mem_cons_self
      · exact hr.setAttach (by rintro _ ⟨⟩)
  | checked lease =>
      simp only [Registry.advance]
      split
      · refine Settled.setAttach hr.cancel ?_
        rintro _ ⟨⟩
        exact Or.inr List.mem_cons_self
      · exact hr.setAttach (by rintro _ ⟨⟩)
  | vacant lease =>
      refine Settled.setAttach (hr.insert (hstep lease hphase)) ?_
      rintro _ ⟨⟩
      refine Or.inl ?_
      change (r.entries.insert lease.session lease).lookup lease.session = some lease
      rw [HashMap.lookup_insert_eq, if_pos rfl]
  | inserted lease =>
      have hlease : r.Holds lease := hr call _ lease hphase rfl
      simp only [Registry.advance]
      split_ifs
      · exact hr.setAttach (by rintro _ ⟨⟩; exact hlease)
      · exact hr.setAttach (by rintro _ ⟨⟩; exact hlease)
  | retracting lease =>
      have hclears := (removes_drain r lease.session lease.generation).clears
      refine Settled.setAttach (hr.clears hclears) ?_
      rintro _ ⟨⟩
      exact hclears.holds (hr call _ lease hphase rfl)
  | retracted lease =>
      refine Settled.setAttach hr.cancel ?_
      rintro _ ⟨⟩
      exact Or.inr List.mem_cons_self
  | returned lease signals => exact hr

theorem Settled.step {shards : Shards} {input : RegistryInput} (hr : Settled r)
    (hstep : NoOverwrite r input) : Settled (r.step shards input) := by
  rcases r.step_cases shards input with hclears | ⟨call, lease, rfl, heq⟩ |
    ⟨call, phase, rfl, hphase, heq⟩
  · exact hr.clears hclears
  · rw [heq]
    exact hr.setAttach (by rintro _ ⟨⟩)
  · rw [heq]
    exact hr.advance hphase hstep

/-! ## Whose signals are handed out -/

def Attach.lease : Attach → HuddleLease
  | .started lease => lease
  | .checked lease => lease
  | .vacant lease => lease
  | .inserted lease => lease
  | .retracting lease => lease
  | .retracted lease => lease
  | .returned lease _ => lease

/-- The signals are those of a lease of this community and session. -/
def HuddleOwnerSignals.Of (signals : HuddleOwnerSignals) (lease : HuddleLease) : Prop :=
  ∀ token, token = signals.lost ∨ token = signals.draining →
    token.lease.community = lease.community ∧ token.lease.session = lease.session

section Communities

variable (communityOf : Uuid → Uuid)

/-- The session of an attached lease is a session of one community only. -/
def OneCommunity : RegistryInput → Prop
  | .attach _ lease => lease.community = communityOf lease.session
  | _ => True

/-- Leases are stored under their session, and only those of its community are attached. -/
structure Belongs (r : Registry) : Prop where
  entries : ∀ session lease, r.entries.lookup session = some lease →
    lease.session = session ∧ lease.community = communityOf session
  attached : ∀ call phase, r.attaches.lookup call = some phase →
    phase.lease.community = communityOf phase.lease.session
  returned : ∀ call lease signals, r.attaches.lookup call = some (.returned lease signals) →
    signals.Of lease

variable {communityOf}

theorem HuddleOwnerSignals.of_of {lease lease' : HuddleLease}
    (hcommunity : lease'.community = lease.community) (hsession : lease'.session = lease.session) :
    (HuddleOwnerSignals.of lease').Of lease := by
  rintro token (rfl | rfl)
  · exact ⟨hcommunity, hsession⟩
  · exact ⟨hcommunity, hsession⟩

theorem Belongs.clears {r' : Registry} (hr : Belongs communityOf r) (h : Clears r r') :
    Belongs communityOf r' := by
  refine ⟨fun session lease hlease => hr.entries session lease (h.entries session lease hlease),
    ?_, ?_⟩
  · rw [h.attaches]
    exact hr.attached
  · rw [h.attaches]
    exact hr.returned

theorem Belongs.setAttach {call : Nat} {phase : Attach} (hr : Belongs communityOf r)
    (hlease : phase.lease.community = communityOf phase.lease.session)
    (hsignals : ∀ lease signals, phase = .returned lease signals → signals.Of lease) :
    Belongs communityOf (r.setAttach call phase) := by
  refine ⟨hr.entries, ?_, ?_⟩
  · intro call' phase' hphase'
    change (r.attaches.insert call phase).lookup call' = some phase' at hphase'
    rw [HashMap.lookup_insert_eq] at hphase'
    split_ifs at hphase'
    · cases hphase'
      exact hlease
    · exact hr.attached call' phase' hphase'
  · intro call' lease signals hphase'
    change (r.attaches.insert call phase).lookup call' = some _ at hphase'
    rw [HashMap.lookup_insert_eq] at hphase'
    split_ifs at hphase'
    · cases hphase'
      exact hsignals lease signals rfl
    · exact hr.returned call' lease signals hphase'

theorem Belongs.cancel {cancelled drained : List HuddleLease} (hr : Belongs communityOf r) :
    Belongs communityOf { r with cancelled := cancelled, drained := drained } :=
  ⟨hr.entries, hr.attached, hr.returned⟩

theorem Belongs.insert {lease : HuddleLease} (hr : Belongs communityOf r)
    (hlease : lease.community = communityOf lease.session) :
    Belongs communityOf { r with entries := r.entries.insert lease.session lease } := by
  refine ⟨?_, hr.attached, hr.returned⟩
  intro session lease' hlease'
  change (r.entries.insert lease.session lease).lookup session = some lease' at hlease'
  rw [HashMap.lookup_insert_eq] at hlease'
  split_ifs at hlease' with hsame
  · cases hlease'
    rw [hsame]
    exact ⟨rfl, hlease⟩
  · exact hr.entries session lease' hlease'

theorem Belongs.advance {call : Nat} {phase : Attach} (hr : Belongs communityOf r)
    (hphase : r.attaches.lookup call = some phase) :
    Belongs communityOf (r.advance call phase) := by
  have hlease := hr.attached call phase hphase
  cases phase with
  | started lease =>
      simp only [Registry.advance]
      split_ifs
      · refine Belongs.setAttach hr.cancel hlease ?_
        rintro _ _ ⟨⟩ token (rfl | rfl)
        · exact ⟨rfl, rfl⟩
        · exact ⟨rfl, rfl⟩
      · exact hr.setAttach hlease (by rintro _ _ ⟨⟩)
  | checked lease =>
      simp only [Registry.advance]
      split
      · next existing hexisting =>
          -- the entry found is of the session, so of the same community
          refine Belongs.setAttach hr.cancel hlease ?_
          rintro _ _ ⟨⟩
          have hentry := hr.entries lease.session existing hexisting
          exact HuddleOwnerSignals.of_of (hentry.2.trans hlease.symm) hentry.1
      · exact hr.setAttach hlease (by rintro _ _ ⟨⟩)
  | vacant lease => exact Belongs.setAttach (hr.insert hlease) hlease (by rintro _ _ ⟨⟩)
  | inserted lease =>
      simp only [Registry.advance]
      split_ifs
      · exact hr.setAttach hlease (by rintro _ _ ⟨⟩)
      · refine hr.setAttach hlease ?_
        rintro _ _ ⟨⟩
        exact HuddleOwnerSignals.of_of rfl rfl
  | retracting lease =>
      exact Belongs.setAttach (hr.clears (removes_drain r lease.session lease.generation).clears)
        hlease (by rintro _ _ ⟨⟩)
  | retracted lease =>
      refine Belongs.setAttach hr.cancel hlease ?_
      rintro _ _ ⟨⟩
      exact HuddleOwnerSignals.of_of rfl rfl
  | returned lease signals => exact hr

theorem Belongs.step {shards : Shards} {input : RegistryInput} (hr : Belongs communityOf r)
    (hinput : OneCommunity communityOf input) : Belongs communityOf (r.step shards input) := by
  rcases r.step_cases shards input with hclears | ⟨call, lease, rfl, heq⟩ |
    ⟨call, phase, rfl, hphase, heq⟩
  · exact hr.clears hclears
  · rw [heq]
    exact hr.setAttach hinput (by rintro _ _ ⟨⟩)
  · rw [heq]
    exact hr.advance hphase

end Communities

/-! ## Calls of a session that do not overlap -/

def Attach.Unfinished : Attach → Prop
  | .returned _ _ => False
  | _ => True

instance Attach.Unfinished.decidable : DecidablePred Attach.Unfinished
  | .started _ => isTrue trivial
  | .checked _ => isTrue trivial
  | .vacant _ => isTrue trivial
  | .inserted _ => isTrue trivial
  | .retracting _ => isTrue trivial
  | .retracted _ => isTrue trivial
  | .returned _ _ => isFalse not_false

/-- A call begins when no call of its session is under way. -/
def NoOverlap (r : Registry) : RegistryInput → Prop
  | .attach _ lease => ∀ call phase, r.attaches.lookup call = some phase → phase.Unfinished →
      phase.lease.session ≠ lease.session
  | _ => True

/-- One call of a session is under way at most, and what it found vacant still is. -/
structure Apart (r : Registry) : Prop where
  alone : ∀ call call' phase phase', r.attaches.lookup call = some phase →
    r.attaches.lookup call' = some phase' → phase.Unfinished → phase'.Unfinished →
    phase.lease.session = phase'.lease.session → call = call'
  vacant : ∀ call lease, r.attaches.lookup call = some (.vacant lease) →
    r.entries.lookup lease.session = none

theorem Apart.clears {r' : Registry} (hr : Apart r) (h : Clears r r') : Apart r' := by
  refine ⟨?_, ?_⟩
  · rw [h.attaches]
    exact hr.alone
  · intro call lease hphase
    rw [h.attaches] at hphase
    cases hlease : r'.entries.lookup lease.session with
    | none => rfl
    | some lease' =>
        have := h.entries lease.session lease' hlease
        rw [hr.vacant call lease hphase] at this
        cases this

theorem Apart.setAttach {call : Nat} {phase : Attach} (hr : Apart r)
    (halone : ∀ call' phase', r.attaches.lookup call' = some phase' → phase'.Unfinished →
      phase.Unfinished → phase'.lease.session = phase.lease.session → call' = call)
    (hvacant : ∀ lease, phase = .vacant lease → r.entries.lookup lease.session = none) :
    Apart (r.setAttach call phase) := by
  have hlookup : ∀ call', (r.setAttach call phase).attaches.lookup call' =
      if call' = call then some phase else r.attaches.lookup call' :=
    fun call' => HashMap.lookup_insert_eq call call' phase r.attaches
  refine ⟨?_, ?_⟩
  · intro a b pa pb ha hb hpa hpb hsame
    rw [hlookup] at ha hb
    split_ifs at ha with hcall
    · cases ha
      split_ifs at hb with hcall'
      · rw [hcall, hcall']
      · rw [hcall]
        exact (halone b pb hb hpb hpa hsame.symm).symm
    · split_ifs at hb with hcall'
      · cases hb
        rw [hcall']
        exact halone a pa ha hpa hpb hsame
      · exact hr.alone a b pa pb ha hb hpa hpb hsame
  · intro call' lease hphase'
    rw [hlookup] at hphase'
    split_ifs at hphase'
    · cases hphase'
      exact hvacant lease rfl
    · exact hr.vacant call' lease hphase'

theorem Apart.move {call : Nat} {old phase : Attach} (hr : Apart r)
    (hold : r.attaches.lookup call = some old) (hunfinished : old.Unfinished)
    (hlease : old.lease = phase.lease)
    (hvacant : ∀ lease, phase = .vacant lease → r.entries.lookup lease.session = none) :
    Apart (r.setAttach call phase) := by
  refine hr.setAttach ?_ hvacant
  intro call' phase' hphase' hunfinished' _ hsame
  rw [← hlease] at hsame
  exact hr.alone call' call phase' old hphase' hold hunfinished' hunfinished hsame

theorem Apart.cancel {cancelled drained : List HuddleLease} (hr : Apart r) :
    Apart { r with cancelled := cancelled, drained := drained } :=
  ⟨hr.alone, hr.vacant⟩

theorem Apart.insert {call : Nat} {lease : HuddleLease} (hr : Apart r)
    (hphase : r.attaches.lookup call = some (.vacant lease)) :
    Apart (({ r with entries := r.entries.insert lease.session lease } :
      Registry).setAttach call (.inserted lease)) := by
  have hmoved : Apart (r.setAttach call (.inserted lease)) :=
    hr.move hphase trivial rfl fun _ h => nomatch h
  refine ⟨hmoved.alone, ?_⟩
  intro call' lease' hphase'
  change (r.entries.insert lease.session lease).lookup lease'.session = none
  rw [HashMap.lookup_insert_eq, if_neg]
  · exact hmoved.vacant call' lease' hphase'
  · intro hsame
    have hother : call' = call := by
      refine hmoved.alone call' call _ (.inserted lease) hphase' ?_ trivial trivial hsame
      change (r.attaches.insert call (.inserted lease)).lookup call = _
      rw [HashMap.lookup_insert_eq, if_pos rfl]
    change (r.attaches.insert call (.inserted lease)).lookup call' = _ at hphase'
    rw [HashMap.lookup_insert_eq, if_pos hother] at hphase'
    cases hphase'

theorem Apart.advance {call : Nat} {phase : Attach} (hr : Apart r)
    (hphase : r.attaches.lookup call = some phase) : Apart (r.advance call phase) := by
  cases phase with
  | started lease =>
      simp only [Registry.advance]
      split_ifs
      · exact Apart.move hr.cancel hphase trivial rfl fun _ h => nomatch h
      · exact hr.move hphase trivial rfl fun _ h => nomatch h
  | checked lease =>
      simp only [Registry.advance]
      split
      · exact Apart.move hr.cancel hphase trivial rfl fun _ h => nomatch h
      · next hnone =>
          refine hr.move hphase trivial rfl ?_
          rintro _ ⟨⟩
          exact hnone
  | vacant lease => exact hr.insert hphase
  | inserted lease =>
      simp only [Registry.advance]
      split_ifs
      · exact hr.move hphase trivial rfl fun _ h => nomatch h
      · exact hr.move hphase trivial rfl fun _ h => nomatch h
  | retracting lease =>
      have hremoves := removes_drain r lease.session lease.generation
      have hphase' : (r.drain lease.session lease.generation).1.attaches.lookup call =
          some (.retracting lease) := by
        rw [hremoves.attaches]
        exact hphase
      exact (hr.clears hremoves.clears).move hphase' trivial rfl fun _ h => nomatch h
  | retracted lease => exact Apart.move hr.cancel hphase trivial rfl fun _ h => nomatch h
  | returned lease signals => exact hr

theorem Apart.step {shards : Shards} {input : RegistryInput} (hr : Apart r)
    (hinput : NoOverlap r input) : Apart (r.step shards input) := by
  rcases r.step_cases shards input with hclears | ⟨call, lease, rfl, heq⟩ |
    ⟨call, phase, rfl, hphase, heq⟩
  · exact hr.clears hclears
  · rw [heq]
    refine hr.setAttach ?_ fun _ h => nomatch h
    intro call' phase' hphase' hunfinished _ hsame
    exact absurd hsame (hinput call' phase' hphase' hunfinished)
  · rw [heq]
    exact hr.advance hphase

theorem Apart.noOverwrite {input : RegistryInput} (hr : Apart r) : NoOverwrite r input := by
  cases input with
  | advance call => exact fun lease hphase => hr.vacant call lease hphase
  | _ => trivial

end Audio
end Relay
end Maju
