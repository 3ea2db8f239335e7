import Maju.Pubsub.RunnerLease

/-!
# RunnerExclusion — what the lease of a runner excludes

* `Exclusive` — an active caller held the lease at its last write, one token is renewable, the
  metadata describes the holder of the lease, and a standby caller is told of a holder with another
  token;
* `Undisturbed` — the steps that fall between two commands of a call without harm: the lease does
  not go away between the commands of its holder, it is not taken before the metadata of the last
  holder has gone, and a caller that reads the metadata finds another runner's;
* `runner_lease_exclusive` — runs of undisturbed steps are exclusive;
* `runner_lease_shared` — an expiry between two commands leaves two active runners.
-/

namespace Maju
namespace Pubsub
namespace Runner

open Lib

/-! ## Exclusion -/

/-- A renewal or a release with the token would succeed. -/
def Keys.Accepts (k : Keys) (token : Text) : Prop :=
  (∃ runner, (k.renewRunner token runner).2 = true) ∨ (k.releaseRunner token).2 = true

theorem Keys.accepts_iff (k : Keys) (token : Text) : k.Accepts token ↔ k.lease = some token := by
  constructor
  · intro h
    by_contra hne
    simp [Accepts, renewRunner, releaseRunner, hne] at h
  · intro h
    exact Or.inr (by simp [releaseRunner, h])

theorem Keys.Accepts.unique {k : Keys} {token token' : Text} (h : k.Accepts token)
    (h' : k.Accepts token') : token = token' := by
  rw [accepts_iff] at h h'
  exact Option.some.inj (h.symm.trans h')

/-- The metadata, if there, is that of the holder of the lease. -/
def Keys.Described (k : Keys) : Prop :=
  ∀ token runner, k.lease = some token → k.metadata = some runner → runner.token = token

structure Exclusive (s : System) : Prop where
  active : ∀ c ∈ s.calls, ∀ token lease, c.stage = .returned (.active token) lease →
    token = c.runner.token ∧ lease = some token
  fenced : ∀ token token', s.keys.Accepts token → s.keys.Accepts token' → token = token'
  described : s.keys.Described
  standby : ∀ c ∈ s.calls, ∀ active lease, c.stage = .returned (.standby active) lease →
    active.token ≠ c.runner.token ∧ active.token ∈ c.held

/-! ## Undisturbed steps -/

/-- The call took the lease, or found it its own, and its last write is to come. -/
def Call.Pending (c : Call) : Bool :=
  match c.stage with
  | .acquired => true
  | .owned => true
  | _ => false

/-- No call of the holder of the lease is between two of its commands. -/
def System.Settled (s : System) : Prop :=
  ∀ c ∈ s.calls, c.Pending = true → s.keys.lease ≠ some c.runner.token

/-- The next command of the call finds no trace of an earlier holder, or of no other one. -/
def Call.Undisturbed (k : Keys) (c : Call) : Prop :=
  match c.stage with
  | .started => k.lease = none → ∀ runner ∈ k.metadata, runner.token = c.runner.token
  | .other => ∃ runner ∈ k.metadata, runner.token ≠ c.runner.token
  | _ => True

instance (s : System) : Decidable s.Settled :=
  inferInstanceAs (Decidable (∀ c ∈ s.calls, c.Pending = true → s.keys.lease ≠ some c.runner.token))

instance (k : Keys) : (c : Call) → Decidable (c.Undisturbed k)
  | ⟨runner, .started, _⟩ =>
      inferInstanceAs (Decidable (k.lease = none → ∀ r ∈ k.metadata, r.token = runner.token))
  | ⟨runner, .other, _⟩ =>
      inferInstanceAs (Decidable (∃ r ∈ k.metadata, r.token ≠ runner.token))
  | ⟨_, .acquired, _⟩ => isTrue trivial
  | ⟨_, .refused, _⟩ => isTrue trivial
  | ⟨_, .owned, _⟩ => isTrue trivial
  | ⟨_, .waiting _, _⟩ => isTrue trivial
  | ⟨_, .abandoned, _⟩ => isTrue trivial
  | ⟨_, .returned _ _, _⟩ => isTrue trivial

/-- A step that does not come between two commands of a call. -/
def Undisturbed (s : System) : Input → Prop
  | .advance call => ∀ c ∈ s.calls[call]?, c.Undisturbed s.keys
  | .release runner => s.keys.lease = some runner.token → s.Settled
  | .expireLease => s.Settled
  | .acquire _ => True
  | .abandon _ => True
  | .renew _ => True
  | .expireMetadata => True
  | .expireStandby _ => True

instance (s : System) : (i : Input) → Decidable (Undisturbed s i)
  | .advance call => inferInstanceAs (Decidable (∀ c ∈ s.calls[call]?, c.Undisturbed s.keys))
  | .release runner =>
      inferInstanceAs (Decidable (s.keys.lease = some runner.token → s.Settled))
  | .expireLease => inferInstanceAs (Decidable s.Settled)
  | .acquire _ => isTrue trivial
  | .abandon _ => isTrue trivial
  | .renew _ => isTrue trivial
  | .expireMetadata => isTrue trivial
  | .expireStandby _ => isTrue trivial

/-! ## The invariant -/

/-- What is known of a call between its commands. -/
def Call.Sound (k : Keys) (c : Call) : Prop :=
  match c.stage with
  | .started => True
  | .acquired => k.lease = some c.runner.token
  | .refused => ∀ runner, k.metadata = some runner → runner.token ∈ c.held
  | .owned => k.lease = some c.runner.token
  | .other => ∀ runner, k.metadata = some runner → runner.token ∈ c.held
  | .waiting active => active.token ≠ c.runner.token ∧ active.token ∈ c.held
  | .abandoned => True
  | .returned (.active token) lease => token = c.runner.token ∧ lease = some token
  | .returned (.standby active) _ => active.token ≠ c.runner.token ∧ active.token ∈ c.held

/-- The invariant; a call in progress has seen the present holder. -/
structure Inv (s : System) : Prop where
  described : s.keys.Described
  current : ∀ c ∈ s.calls, c.Open = true → ∀ token, s.keys.lease = some token → token ∈ c.held
  sound : ∀ c ∈ s.calls, c.Sound s.keys

theorem Inv.exclusive {s : System} (h : Inv s) : Exclusive s where
  active := by
    intro c hc token lease hstage
    simpa [Call.Sound, hstage] using h.sound c hc
  fenced := fun _ _ => Keys.Accepts.unique
  described := h.described
  standby := by
    intro c hc active lease hstage
    simpa [Call.Sound, hstage] using h.sound c hc

theorem inv_empty : Inv System.empty where
  described := by
    intro token runner h
    exact nomatch h
  current := by
    intro c hc
    exact nomatch hc
  sound := by
    intro c hc
    exact nomatch hc

/-! ## Commands -/

/-- A call that does not move keeps what is known of it, if the lease stays with a pending caller
and new metadata is that of the present holder. -/
theorem Call.Sound.observe {k k' : Keys} {c : Call} (h : c.Sound k)
    (hcurrent : c.Open = true → ∀ token, k'.lease = some token → token ∈ (c.observe k').held)
    (hlease : c.Pending = true → k'.lease = k.lease)
    (hmetadata : ∀ runner, k'.metadata = some runner →
      k.metadata = some runner ∨ k'.lease = some runner.token) : (c.observe k').Sound k' := by
  have hseen (hopen : c.Open = true) (hold : ∀ runner, k.metadata = some runner →
      runner.token ∈ c.held) : ∀ runner, k'.metadata = some runner →
        runner.token ∈ (c.observe k').held := by
    intro runner hrunner
    rcases hmetadata runner hrunner with hbefore | hholder
    · exact c.held_subset_observe k' (hold runner hbefore)
    · exact hcurrent hopen _ hholder
  unfold Sound at h ⊢
  simp only [observe_stage, observe_runner]
  cases hstage : c.stage with
  | started => trivial
  | acquired =>
      simp only [hstage] at h ⊢
      exact (hlease (by simp [Pending, hstage])).trans h
  | refused =>
      simp only [hstage] at h ⊢
      exact hseen (by simp [Open, hstage]) h
  | owned =>
      simp only [hstage] at h ⊢
      exact (hlease (by simp [Pending, hstage])).trans h
  | other =>
      simp only [hstage] at h ⊢
      exact hseen (by simp [Open, hstage]) h
  | waiting active =>
      simp only [hstage] at h ⊢
      exact ⟨h.1, c.held_subset_observe k' h.2⟩
  | abandoned => trivial
  | returned admission lease =>
      cases admission with
      | active token =>
          simp only [hstage] at h ⊢
          exact h
      | standby active =>
          simp only [hstage] at h ⊢
          exact ⟨h.1, c.held_subset_observe k' h.2⟩

/-- What one command of a call does to the keys, as the other calls see it. -/
structure Keys.Orderly (k k' : Keys) : Prop where
  described : k'.Described
  lease : k.lease ≠ none → k'.lease = k.lease
  metadata : ∀ runner, k'.metadata = some runner →
    k.metadata = some runner ∨ k'.lease = some runner.token

theorem Keys.Orderly.of_eq {k k' : Keys} (h : k.Described) (hlease : k'.lease = k.lease)
    (hmetadata : k'.metadata = k.metadata) : k.Orderly k' where
  described := by
    intro token runner htoken hrunner
    exact h token runner (hlease ▸ htoken) (hmetadata ▸ hrunner)
  lease := fun _ => hlease
  metadata := fun runner hrunner => Or.inl (hmetadata ▸ hrunner)

theorem Keys.Orderly.of_holder {k k' : Keys} {runner : AgentRunner}
    (hholder : k.lease = some runner.token) (hlease : k'.lease = k.lease)
    (hmetadata : k'.metadata = some runner) : k.Orderly k' where
  described := by
    intro token other htoken hother
    obtain rfl : runner = other := Option.some.inj (hmetadata.symm.trans hother)
    exact Option.some.inj ((hlease.trans hholder).symm.trans htoken)
  lease := fun _ => hlease
  metadata := by
    intro other hother
    obtain rfl : runner = other := Option.some.inj (hmetadata.symm.trans hother)
    exact Or.inr (hlease.trans hholder)

theorem Call.step_orderly {k : Keys} {c : Call} (hk : k.Described) (h : c.Sound k)
    (hc : c.Undisturbed k) : k.Orderly (c.step k).1 := by
  unfold Undisturbed at hc
  unfold Sound at h
  unfold step
  cases hstage : c.stage with
  | started =>
      simp only [hstage] at hc ⊢
      unfold Keys.setNx
      split
      next hlease =>
        refine ⟨?_, fun hne => absurd hlease hne, fun runner hrunner => Or.inl hrunner⟩
        intro token runner htoken hrunner
        exact (hc hlease runner hrunner).trans (Option.some.inj htoken)
      next => exact .of_eq hk rfl rfl
  | acquired =>
      simp only [hstage] at h ⊢
      exact .of_holder h (by simp) (by simp)
  | refused => exact .of_eq hk rfl rfl
  | owned =>
      simp only [hstage] at h ⊢
      exact .of_holder h (by simp) (by simp [Keys.renewRunner, h])
  | other => exact .of_eq hk rfl rfl
  | waiting active => exact .of_eq hk (by simp) (by simp)
  | abandoned => exact .of_eq hk rfl rfl
  | returned admission lease => exact .of_eq hk rfl rfl

theorem Call.step_sound {k : Keys} {c : Call} (hk : k.Described)
    (hcurrent : c.Open = true → ∀ token, k.lease = some token → token ∈ c.held)
    (h : c.Sound k) (hc : c.Undisturbed k) : ((c.step k).2.observe (c.step k).1).Sound (c.step k).1 := by
  unfold Undisturbed at hc
  unfold Sound at h
  unfold step
  cases hstage : c.stage with
  | started =>
      simp only
      unfold Keys.setNx
      split
      next => simp [Sound]
      next token hlease =>
        -- The holder that refused the call is seen by it, and its metadata is the only one there.
        have hopen : c.Open = true := by simp [Open, hstage]
        simp only [Sound, observe_stage, Bool.false_eq_true, if_false]
        intro runner hrunner
        rw [hk token runner hlease hrunner]
        exact held_subset_observe _ _ (hcurrent hopen token hlease)
  | acquired =>
      simp only [hstage] at h ⊢
      simp [Sound, h]
  | refused =>
      simp only [hstage] at h ⊢
      by_cases hown : k.lease = some c.runner.token
      · simp [Sound, hown]
      · simp only [Sound, observe_stage, hown, if_false]
        intro runner hrunner
        exact held_subset_observe _ _ (h runner hrunner)
  | owned =>
      simp only [hstage] at h ⊢
      simp [Sound, h]
  | other =>
      simp only [hstage] at h hc ⊢
      obtain ⟨runner, hrunner, hne⟩ := hc
      have hget : k.metadata.getD c.runner = runner := by simp [Option.mem_def.mp hrunner]
      simp only [Sound, observe_stage, observe_runner, hget]
      exact ⟨hne, held_subset_observe _ _ (h runner hrunner)⟩
  | waiting active =>
      simp only [hstage] at h ⊢
      simp only [Sound, observe_stage, observe_runner]
      exact ⟨h.1, held_subset_observe _ _ h.2⟩
  | abandoned => simp [Sound, hstage]
  | returned admission lease =>
      -- A returned call observes nothing more.
      have hobserve : c.observe k = c := by simp [observe, Open, hstage]
      simp only [hobserve, Sound]
      exact h

/-! ## Steps -/

theorem Inv.of_act {s : System} {i : Input} (hdescribed : (s.act i).keys.Described)
    (hsound : ∀ c ∈ (s.act i).calls, (c.observe (s.act i).keys).Sound (s.act i).keys) :
    Inv (s.step i) where
  described := hdescribed
  current := by
    intro c hc hopen token htoken
    obtain ⟨before, hbefore, rfl⟩ := List.mem_map.mp hc
    exact Call.mem_held_observe (by simpa [Call.Open] using hopen) htoken
  sound := by
    intro c hc
    obtain ⟨before, hbefore, rfl⟩ := List.mem_map.mp hc
    exact hsound before hbefore

theorem Call.Sound.lease_of_pending {k : Keys} {c : Call} (h : c.Sound k)
    (hpending : c.Pending = true) : k.lease = some c.runner.token := by
  unfold Pending at hpending
  unfold Sound at h
  split at hpending
  next hstage => simpa [hstage] using h
  next hstage => simpa [hstage] using h
  next => exact nomatch hpending

theorem Inv.sound_of_orderly {s : System} (h : Inv s) {k : Keys} (hk : s.keys.Orderly k)
    {c : Call} (hc : c ∈ s.calls) : (c.observe k).Sound k := by
  refine (h.sound c hc).observe (fun hopen token => Call.mem_held_observe hopen) ?_ hk.metadata
  intro hpending
  refine hk.lease ?_
  simp [(h.sound c hc).lease_of_pending hpending]

theorem Inv.sound_of_removed {s : System} (h : Inv s) (hsettled : s.Settled) {k : Keys}
    (hmetadata : ∀ runner, k.metadata = some runner → s.keys.metadata = some runner)
    {c : Call} (hc : c ∈ s.calls) : (c.observe k).Sound k := by
  refine (h.sound c hc).observe (fun hopen token => Call.mem_held_observe hopen) ?_
    fun runner hrunner => Or.inl (hmetadata runner hrunner)
  intro hpending
  exact absurd ((h.sound c hc).lease_of_pending hpending) (hsettled c hc hpending)

theorem Inv.step {s : System} {i : Input} (h : Inv s) (hi : Undisturbed s i) : Inv (s.step i) := by
  have hsame : s.keys.Orderly s.keys := .of_eq h.described rfl rfl
  cases i with
  | acquire runner =>
      refine .of_act h.described fun c hc => ?_
      rcases List.mem_append.mp hc with hold | hnew
      · exact h.sound_of_orderly hsame hold
      · obtain rfl := List.mem_singleton.mp hnew
        simp [Call.Sound]
  | advance call =>
      cases hcall : s.calls[call]? with
      | none =>
          have hact : s.act (.advance call) = s := by simp [System.act, hcall]
          refine .of_act (hact.symm ▸ h.described) ?_
          rw [hact]
          exact fun c hc => h.sound_of_orderly hsame hc
      | some c =>
          have hmem : c ∈ s.calls := List.mem_of_getElem? hcall
          have hcalm : c.Undisturbed s.keys := hi c hcall
          have horderly := Call.step_orderly h.described (h.sound c hmem) hcalm
          have hact : s.act (.advance call) =
              ⟨(c.step s.keys).1, s.calls.set call (c.step s.keys).2⟩ := by
            simp [System.act, hcall]
          refine .of_act (hact.symm ▸ horderly.described) ?_
          rw [hact]
          intro d hd
          rcases List.mem_or_eq_of_mem_set hd with hold | rfl
          · exact h.sound_of_orderly horderly hold
          · exact Call.step_sound h.described (h.current c hmem) (h.sound c hmem) hcalm
  | abandon call =>
      cases hcall : s.calls[call]? with
      | none =>
          have hact : s.act (.abandon call) = s := by simp [System.act, hcall]
          refine .of_act (hact.symm ▸ h.described) ?_
          rw [hact]
          exact fun c hc => h.sound_of_orderly hsame hc
      | some c =>
          have hact : s.act (.abandon call) = { s with calls := s.calls.set call c.abandon } := by
            simp [System.act, hcall]
          refine .of_act (hact.symm ▸ h.described) ?_
          rw [hact]
          intro d hd
          rcases List.mem_or_eq_of_mem_set hd with hold | rfl
          · exact h.sound_of_orderly hsame hold
          · unfold Call.abandon
            split
            next => simp [Call.Sound]
            next => exact h.sound_of_orderly hsame (List.mem_of_getElem? hcall)
  | renew runner =>
      have horderly : s.keys.Orderly (s.keys.renewRunner runner.token runner).1 := by
        by_cases hlease : s.keys.lease = some runner.token
        · exact .of_holder hlease (by simp) (by simp [Keys.renewRunner, hlease])
        · exact .of_eq h.described (by simp) (by simp [Keys.renewRunner, hlease])
      exact .of_act horderly.described fun c hc => h.sound_of_orderly horderly hc
  | release runner =>
      by_cases hlease : s.keys.lease = some runner.token
      · have hact : s.act (.release runner) =
            ⟨{ s.keys with lease := none, metadata := none }, s.calls⟩ := by
          simp [System.act, Keys.releaseRunner, hlease]
        refine .of_act ?_ ?_
        · rw [hact]
          exact fun token other hnone => nomatch hnone
        · rw [hact]
          refine fun c hc => h.sound_of_removed (hi hlease) ?_ hc
          exact fun other hnone => nomatch hnone
      · have hact : s.act (.release runner) = s := by
          simp [System.act, Keys.releaseRunner, hlease]
        refine .of_act (hact.symm ▸ h.described) ?_
        rw [hact]
        exact fun c hc => h.sound_of_orderly hsame hc
  | expireLease =>
      refine .of_act (fun token runner hnone => nomatch hnone) fun c hc => ?_
      refine h.sound_of_removed hi ?_ hc
      exact fun runner hrunner => hrunner
  | expireMetadata =>
      have horderly : s.keys.Orderly { s.keys with metadata := none } :=
        ⟨fun _ _ _ hnone => (nomatch hnone), fun _ => rfl, fun _ hnone => (nomatch hnone)⟩
      exact .of_act horderly.described fun c hc => h.sound_of_orderly horderly hc
  | expireStandby device =>
      have horderly : s.keys.Orderly { s.keys with standby := s.keys.standby.erase device } :=
        .of_eq h.described rfl rfl
      exact .of_act horderly.described fun c hc => h.sound_of_orderly horderly hc

/-! ## Runs -/

/-- Every state of a run of undisturbed steps is exclusive. -/
theorem runner_lease_exclusive (inputs : List Input)
    (h : Run.Along Undisturbed System.step System.empty inputs) :
    Exclusive (System.run inputs) :=
  (Run.invariant Inv (fun _ _ hs hi => hs.step hi) inv_empty h).exclusive

namespace Sample

/-- A runner of the one agent on a device. -/
def runner (device session : Text) : AgentRunner where
  agentPubkey := "a1".toList
  ownerPubkey := "b2".toList
  deviceId := device
  sessionId := session
  runnerId := "r".toList
  deviceName := device

def laptop : AgentRunner := runner "laptop".toList "s".toList

def phone : AgentRunner := runner "phone".toList "t".toList

/-- A call of the phone ends behind its first command and the lease runs out; the laptop becomes
active, the phone waits, the lease runs out again and the phone becomes active. -/
def handover : List Input :=
  [.acquire phone, .advance 0, .abandon 0, .expireLease,
    .acquire laptop, .advance 1, .advance 1,
    .acquire phone, .advance 2, .advance 2, .advance 2, .advance 2,
    .expireMetadata, .expireLease, .acquire phone, .advance 3, .advance 3]

/-- The lease of the laptop runs out between its first and its second command. -/
def takeover : List Input :=
  [.acquire laptop, .advance 0, .expireLease,
    .acquire phone, .advance 1, .advance 1, .advance 0]

end Sample

theorem runner_lease_exclusive_handover :
    Run.Along Undisturbed System.step System.empty Sample.handover ∧
      (System.run Sample.handover).calls.map Call.stage =
        [.abandoned, .returned (.active Sample.laptop.token) (some Sample.laptop.token),
          .returned (.standby Sample.laptop) (some Sample.laptop.token),
          .returned (.active Sample.phone.token) (some Sample.phone.token)] ∧
      Exclusive (System.run Sample.handover) := by
  have horderly : Run.Along Undisturbed System.step System.empty Sample.handover := by decide
  exact ⟨horderly, by decide, runner_lease_exclusive Sample.handover horderly⟩

/-- Two runners with different tokens are both told that they are active; the lease is the one's
and the metadata the other's. -/
theorem runner_lease_shared :
    Sample.laptop.token ≠ Sample.phone.token ∧
      (System.run Sample.takeover).calls.map Call.stage =
        [.returned (.active Sample.laptop.token) (some Sample.phone.token),
          .returned (.active Sample.phone.token) (some Sample.phone.token)] ∧
      (System.run Sample.takeover).keys.lease = some Sample.phone.token ∧
      (System.run Sample.takeover).keys.metadata = some Sample.laptop ∧
      ¬ Exclusive (System.run Sample.takeover) := by
  have htokens : Sample.laptop.token ≠ Sample.phone.token := by decide
  have hlease : (System.run Sample.takeover).keys.lease = some Sample.phone.token := by decide
  have hmetadata : (System.run Sample.takeover).keys.metadata = some Sample.laptop := by decide
  refine ⟨htokens, by decide, hlease, hmetadata, fun h => ?_⟩
  exact htokens (h.described _ _ hlease hmetadata)

end Runner
end Pubsub
end Maju
