import Maju.Relay.Tunnel.Fencing

/-!
# Runs — session lease fencing over every interleaving

A run is any list of calls by any runtimes on any sessions, mixed with expiries of keys.  Each step
moves the fence of each session by one `Fence.Step`, so the counter of a session only grows, and a
tuple whose generation has fallen behind the counter is never accepted again.
-/

namespace Maju
namespace Relay
namespace Tunnel
namespace Directory

open Lib Core

variable {slot : Slot} {f : Fence}

/-! ## Calls -/

theorem invoke_fst (attempt : Attempt) (script : Slot → Except RedisError (Slot × Reply))
    (slot : Slot) :
    (invoke attempt script slot).1 = slot ∨
      (invoke attempt script slot).1 = afterScript slot (script slot) := by
  cases attempt with
  | refused => exact Or.inl rfl
  | noConnection => exact Or.inl rfl
  | fenced ran => cases ran with
      | false => exact Or.inl rfl
      | true => exact Or.inr rfl
  | broken ran => cases ran with
      | false => exact Or.inl rfl
      | true => exact Or.inr rfl
  | completed finished =>
      unfold invoke
      cases script slot with
      | error e => exact Or.inl rfl
      | ok result => exact Or.inr rfl

theorem invoke_ok {attempt : Attempt} {script : Slot → Except RedisError (Slot × Reply)}
    {reply : Reply} {finished : Bool}
    (h : (invoke attempt script slot).2 = .ok (reply, finished)) :
    ∃ slot', script slot = .ok (slot', reply) ∧ (invoke attempt script slot).1 = slot' := by
  cases attempt with
  | refused => cases h
  | noConnection => cases h
  | fenced ran => cases h
  | broken ran => cases h
  | completed finished' =>
      unfold invoke at h ⊢
      cases hscript : script slot with
      | error e =>
          rw [hscript] at h
          cases h
      | ok result =>
          rw [hscript] at h
          cases h
          exact ⟨result.1, rfl, rfl⟩

theorem readAcquire_acquired {c : CommunityId} {s : Uuid} {reply : Reply} {finished : Bool}
    {lease : SessionLease} (h : readAcquire c s reply finished = .ok (.acquired lease)) :
    reply.status = .acquired ∧ parseLease c s reply.value = .ok lease := by
  unfold readAcquire at h
  cases hparse : parseLease c s reply.value with
  | error e =>
      rw [hparse] at h
      cases h
  | ok parsed =>
      rw [hparse] at h
      cases finished with
      | false => cases h
      | true =>
          cases hstatus : reply.status with
          | acquired =>
              simp only [hstatus] at h
              cases h
              exact ⟨rfl, rfl⟩
          | _ =>
              simp only [hstatus] at h
              cases h

/-- `acquire` grants at most the next generation, and what it reports as acquired is what it
granted. -/
theorem Represents.acquire_spec (h : Represents slot f) (ttl : Nat) (attempt : Attempt)
    (c : CommunityId) (s : Uuid) (owner : RuntimeId) (profile : Profile) :
    ∃ g, Fence.Step f g ∧ Represents (acquire ttl attempt c s owner profile slot).1 g ∧
      ∀ lease, (Directory.acquire ttl attempt c s owner profile slot).2 = .ok (.acquired lease) →
        f.counter < g.counter ∧ lease.generation = g.counter ∧
          lease.communityId = c ∧ lease.sessionId = s := by
  have hkeep : ∀ e : DirectoryError, ∃ g, Fence.Step f g ∧ Represents slot g ∧
      ∀ lease, (.error e : Except DirectoryError AcquireResult) = .ok (.acquired lease) →
        f.counter < g.counter ∧ lease.generation = g.counter ∧
          lease.communityId = c ∧ lease.sessionId = s :=
    fun e => ⟨f, .stay f, h, fun lease hlease => by cases hlease⟩
  unfold Directory.acquire
  by_cases hrefused : attempt = .refused
  · rw [if_pos hrefused]
    exact hkeep _
  rw [if_neg hrefused]
  cases ttlMs ttl with
  | error e => exact hkeep e
  | ok ttl' =>
      dsimp only
      set script := acquireScript (toHex owner) profile.asWireStr ttl' with hscript
      -- what the caller reads is what the script returned
      have hread : ∀ lease, ((invoke attempt script slot).2.bind fun answer =>
          readAcquire c s answer.1 answer.2) = .ok (.acquired lease) →
          ∃ reply, script slot = .ok ((invoke attempt script slot).1, reply) ∧
            reply.status = .acquired ∧ parseLease c s reply.value = .ok lease := by
        intro lease hlease
        cases hsnd : (invoke attempt script slot).2 with
        | error e =>
            rw [hsnd] at hlease
            cases hlease
        | ok pair =>
            rw [hsnd] at hlease
            rcases invoke_ok hsnd with ⟨slot', hrun, hfst⟩
            exact ⟨pair.1, by rw [hrun, hfst], readAcquire_acquired hlease⟩
      rcases h.acquireScript_cases owner profile ttl' with ⟨result, hresult, hafter, hnot⟩ |
        ⟨hvacant, slot', known, hgrant, hrep⟩
      · refine ⟨f, .stay f, ?_, ?_⟩
        · rcases invoke_fst attempt script slot with hfst | hfst
          · rw [hfst]
            exact h
          · rw [hfst, hscript, hresult, hafter]
            exact h
        · intro lease hlease
          rcases hread lease hlease with ⟨reply, hrun, hstatus, _⟩
          rw [hscript, hresult] at hrun
          exact absurd hstatus (hnot _ _ hrun)
      · have hstep : Fence.Step f ⟨f.counter + 1, some (owner, profile)⟩ := by
          have hgrantStep := Fence.Step.grant f.counter (owner, profile)
          rw [← hvacant] at hgrantStep
          exact hgrantStep
        rcases invoke_fst attempt script slot with hfst | hfst
        · -- the guard stopped the call before the script ran
          refine ⟨f, .stay f, by rw [hfst]; exact h, ?_⟩
          intro lease hlease
          rcases hread lease hlease with ⟨reply, hrun, _, _⟩
          rw [hfst, hscript, hgrant] at hrun
          have hslot : slot' = slot := congrArg Prod.fst (Except.ok.inj hrun)
          rw [hslot] at hrep
          have hheld := hrep.lease
          rw [h.lease_of_vacant hvacant] at hheld
          cases hheld
        · have hafter : afterScript slot (script slot) = slot' := by
            rw [hscript, hgrant]
            rfl
          refine ⟨_, hstep, by rw [hfst, hafter]; exact hrep, ?_⟩
          intro lease hlease
          rcases hread lease hlease with ⟨reply, hrun, _, hparse⟩
          rw [hscript, hgrant] at hrun
          have hreply := congrArg Prod.snd (Except.ok.inj hrun)
          dsimp only at hreply
          rw [← hreply, parseLease_holderValue c s (Nat.succ_pos _)] at hparse
          split at hparse
          · cases hparse
            exact ⟨Nat.lt_succ_self _, rfl, rfl, rfl⟩
          · cases hparse

theorem Represents.renew_spec (h : Represents slot f) (ttl : Nat) (attempt : Attempt)
    (lease : SessionLease) : Represents (renew ttl attempt lease slot).1 f := by
  unfold Directory.renew
  split_ifs with hrefused
  · exact h
  cases ttlMs ttl with
  | error e => exact h
  | ok ttl' =>
      dsimp only
      rcases invoke_fst attempt (fun slot => .ok (renewScript (toHex lease.ownerRuntimeId)
        (decimal lease.generation) ttl' slot)) slot with hfst | hfst
      · rw [hfst]
        exact h
      · rw [hfst]
        exact h.renewScript_spec lease.ownerRuntimeId lease.generation ttl'

theorem Represents.release_spec (h : Represents slot f) (attempt : Attempt) (lease : SessionLease) :
    ∃ g, Fence.Step f g ∧ Represents (release attempt lease slot).1 g := by
  unfold Directory.release
  dsimp only
  rcases invoke_fst attempt (fun slot => .ok (releaseScript (toHex lease.ownerRuntimeId)
    (decimal lease.generation) slot)) slot with hfst | hfst
  · rw [hfst]
    exact ⟨f, .stay f, h⟩
  · rw [hfst]
    exact h.releaseScript_spec lease.ownerRuntimeId lease.generation

/-- A renewal or a release under another tuple than the holder's leaves both keys as they were,
their times to live included. -/
theorem Represents.renew_of_not_holds (h : Represents slot f) {lease : SessionLease}
    (hnot : ¬Holds f lease.ownerRuntimeId lease.generation) (ttl : Nat) (attempt : Attempt) :
    (Directory.renew ttl attempt lease slot).1 = slot := by
  unfold Directory.renew
  split_ifs with hrefused
  · rfl
  cases ttlMs ttl with
  | error e => rfl
  | ok ttl' =>
      dsimp only
      rcases invoke_fst attempt (fun slot => .ok (renewScript (toHex lease.ownerRuntimeId)
        (decimal lease.generation) ttl' slot)) slot with hfst | hfst
      · exact hfst
      · rw [hfst]
        rcases h.ownerScript_cases .renewed (fun current => some ⟨current.value, some ttl'⟩)
          lease.ownerRuntimeId lease.generation with ⟨_, hsame⟩ | ⟨hholds, _⟩
        · exact hsame
        · exact absurd hholds hnot

theorem Represents.release_of_not_holds (h : Represents slot f) {lease : SessionLease}
    (hnot : ¬Holds f lease.ownerRuntimeId lease.generation) (attempt : Attempt) :
    (Directory.release attempt lease slot).1 = slot := by
  unfold Directory.release
  dsimp only
  rcases invoke_fst attempt (fun slot => .ok (releaseScript (toHex lease.ownerRuntimeId)
    (decimal lease.generation) slot)) slot with hfst | hfst
  · exact hfst
  · rw [hfst]
    rcases h.ownerScript_cases .released (fun _ => none) lease.ownerRuntimeId lease.generation with
      ⟨_, hsame⟩ | ⟨hholds, _⟩
    · exact hsame
    · exact absurd hholds hnot

def acquiredLease : Outcome → Option SessionLease
  | .acquire (.ok (.acquired lease)) => some lease
  | _ => none

theorem Represents.exec_spec (h : Represents slot f) (call : Call) :
    ∃ g, Fence.Step f g ∧ Represents (call.exec slot).1 g ∧
      ∀ lease, acquiredLease (call.exec slot).2 = some lease →
        f.counter < g.counter ∧ lease.generation = g.counter ∧
          (lease.communityId, lease.sessionId) = call.session := by
  have hgranted : ∀ (ttl : Nat) (attempt : Attempt) (c : CommunityId) (s : Uuid)
      (owner : RuntimeId) (profile : Profile), ∃ g, Fence.Step f g ∧
        Represents (Directory.acquire ttl attempt c s owner profile slot).1 g ∧
        ∀ lease, acquiredLease
            (.acquire (Directory.acquire ttl attempt c s owner profile slot).2) = some lease →
          f.counter < g.counter ∧ lease.generation = g.counter ∧
            (lease.communityId, lease.sessionId) = (c, s) := by
    intro ttl attempt c s owner profile
    rcases h.acquire_spec ttl attempt c s owner profile with ⟨g, hstep, hrep, hread⟩
    refine ⟨g, hstep, hrep, ?_⟩
    intro lease hlease
    cases hout : (Directory.acquire ttl attempt c s owner profile slot).2 with
    | error e =>
        rw [hout] at hlease
        cases hlease
    | ok result =>
        rw [hout] at hlease
        cases result with
        | acquired got =>
            cases hlease
            rcases hread _ hout with ⟨hlt, hgeneration, hcommunity, hsession⟩
            exact ⟨hlt, hgeneration, by rw [hcommunity, hsession]⟩
        | «exists» got => cases hlease
  cases call with
  | acquire ttl attempt c s owner profile => exact hgranted ttl attempt c s owner profile
  | takeover ttl attempt c s owner profile => exact hgranted ttl attempt c s owner profile
  | renew ttl attempt lease =>
      exact ⟨f, .stay f, h.renew_spec ttl attempt lease, fun _ hlease => by cases hlease⟩
  | release attempt lease =>
      rcases h.release_spec attempt lease with ⟨g, hstep, hrep⟩
      exact ⟨g, hstep, hrep, fun _ hlease => by cases hlease⟩
  | lookup c s => exact ⟨f, .stay f, h, fun _ hlease => by cases hlease⟩
  | validate c fenced => exact ⟨f, .stay f, h, fun _ hlease => by cases hlease⟩

/-! ## Steps of the shared Redis -/

variable {redis redis' : Redis} {k : CommunityId × Uuid}

/-- The lease that a step reports as acquired for a session. -/
def acquiredFor (k : CommunityId × Uuid) : Input × Option Outcome → Option SessionLease
  | (.call call, some outcome) => if call.session = k then acquiredLease outcome else none
  | _ => none

theorem acquiredFor_call (redis : Redis) (call : Call) (k : CommunityId × Uuid) :
    acquiredFor k (.call call, (exec redis (.call call)).2) =
      if call.session = k then acquiredLease (call.exec (slotOf redis call.session)).2
      else none := rfl

theorem slotOf_call (redis : Redis) (call : Call) (k : CommunityId × Uuid) :
    slotOf (step redis (.call call)) k =
      if k = call.session then (call.exec (slotOf redis k)).1 else slotOf redis k := by
  have hstore := slotOf_store redis call.session k (call.exec (slotOf redis call.session)).1
  refine hstore.trans ?_
  by_cases hk : k = call.session
  · rw [if_pos hk, if_pos hk, hk]
  · rw [if_neg hk, if_neg hk]

theorem lookup_step_call (call : Call)
    (h : (call.exec (slotOf redis call.session)).1 = slotOf redis call.session) (key : Text) :
    (step redis (.call call)).lookup key = redis.lookup key := by
  show ((keysOf call.session).store redis (call.exec (slotOf redis call.session)).1).lookup key = _
  rw [h]
  exact lookup_store_slotOf redis call.session key

theorem Represents.expire_spec (h : Represents (slotOf redis k) f) (key : Text) :
    ∃ g, Fence.Step f g ∧ Represents (slotOf (redis.expire key) k) g := by
  have hgeneration : (slotOf (redis.expire key) k).generation = (slotOf redis k).generation := by
    show (redis.expire key).lookup _ = redis.lookup _
    rw [lookup_expire]
    refine if_neg ?_
    rintro ⟨rfl, httl⟩
    -- the counter carries no time to live
    have hkey : redis.lookup (keysOf k).generation = _ := h.generation
    rw [hkey] at httl
    split at httl <;> cases httl
  by_cases hlease : (slotOf (redis.expire key) k).lease = (slotOf redis k).lease
  · refine ⟨f, .stay f, ?_⟩
    have hsame : slotOf (redis.expire key) k = slotOf redis k := by
      cases hslot : slotOf (redis.expire key) k
      cases hslot' : slotOf redis k
      rw [hslot, hslot'] at hlease hgeneration
      simp only at hlease hgeneration
      rw [hlease, hgeneration]
    rw [hsame]
    exact h
  · have hnone : (slotOf (redis.expire key) k).lease = none := by
      have hlookup := lookup_expire redis key (keysOf k).lease
      by_cases hcond : (keysOf k).lease = key ∧ ((redis.lookup key).bind Entry.pttl).isSome
      · rw [if_pos hcond] at hlookup
        exact hlookup
      · rw [if_neg hcond] at hlookup
        exact absurd hlookup hlease
    refine ⟨⟨f.counter, none⟩, .vacate f.counter f.holder, ?_⟩
    refine ⟨hgeneration.trans h.generation, h.bound, ?_, fun hne => absurd rfl hne⟩
    rw [hnone]
    rfl

theorem Represents.step_spec (h : Represents (slotOf redis k) f) (input : Input) :
    ∃ g, Fence.Step f g ∧ Represents (slotOf (step redis input) k) g ∧
      ∀ lease, acquiredFor k (input, (exec redis input).2) = some lease →
        f.counter < g.counter ∧ lease.generation = g.counter ∧
          (lease.communityId, lease.sessionId) = k := by
  cases input with
  | expire key =>
      rcases h.expire_spec key with ⟨g, hstep, hrep⟩
      exact ⟨g, hstep, hrep, fun _ hlease => by cases hlease⟩
  | call call =>
      rw [slotOf_call]
      by_cases hk : k = call.session
      · subst hk
        rcases h.exec_spec call with ⟨g, hstep, hrep, hread⟩
        rw [if_pos rfl]
        refine ⟨g, hstep, hrep, ?_⟩
        intro lease hlease
        rw [acquiredFor_call, if_pos rfl] at hlease
        exact hread lease hlease
      · rw [if_neg hk]
        refine ⟨f, .stay f, h, ?_⟩
        intro lease hlease
        rw [acquiredFor_call, if_neg (Ne.symm hk)] at hlease
        cases hlease

theorem Represents.run_spec (h : Represents (slotOf redis k) f) (inputs : List Input) :
    ∃ g, f.counter ≤ g.counter ∧ Represents (slotOf (Run.run step redis inputs) k) g ∧
      ∀ lease ∈ (trace redis inputs).filterMap (acquiredFor k),
        f.counter < lease.generation ∧ lease.generation ≤ g.counter ∧
          (lease.communityId, lease.sessionId) = k := by
  induction inputs generalizing redis f with
  | nil => exact ⟨f, Nat.le_refl _, h, fun _ hlease => by cases hlease⟩
  | cons input inputs ih =>
      rcases h.step_spec input with ⟨g, hstep, hrep, hread⟩
      rcases ih hrep with ⟨g', hle, hrep', hrest⟩
      have hgrow := hstep.counter_le
      refine ⟨g', Nat.le_trans hgrow hle, hrep', ?_⟩
      intro lease hmem
      rcases List.mem_filterMap.1 hmem with ⟨entry, hentry, hacquired⟩
      rcases List.mem_cons.1 hentry with rfl | hlater
      · rcases hread lease hacquired with ⟨hlt, hgeneration, hsession⟩
        exact ⟨by omega, by omega, hsession⟩
      · have hafter := hrest lease (List.mem_filterMap.2 ⟨entry, hlater, hacquired⟩)
        exact ⟨by omega, hafter.2.1, hafter.2.2⟩

/-- The generations acquired for a session over a run. -/
def acquiredGenerations (k : CommunityId × Uuid) (steps : List (Input × Option Outcome)) :
    List Nat :=
  (steps.filterMap (acquiredFor k)).map SessionLease.generation

theorem Represents.acquiredGenerations_pairwise (h : Represents (slotOf redis k) f)
    (inputs : List Input) : (acquiredGenerations k (trace redis inputs)).Pairwise (· < ·) := by
  induction inputs generalizing redis f with
  | nil => exact List.Pairwise.nil
  | cons input inputs ih =>
      rcases h.step_spec input with ⟨g, hstep, hrep, hread⟩
      have hrest := ih hrep
      cases hacquired : acquiredFor k (input, (exec redis input).2) with
      | none => simpa [acquiredGenerations, trace, hacquired] using hrest
      | some lease =>
          have hlater : ∀ generation ∈ acquiredGenerations k (trace (step redis input) inputs),
              lease.generation < generation := by
            intro generation hmem
            rcases List.mem_map.1 hmem with ⟨later, hlater, rfl⟩
            rcases hrep.run_spec inputs with ⟨g', _, _, hruns⟩
            have hgrown := (hruns later hlater).1
            rw [(hread lease hacquired).2.1]
            exact hgrown
          have hcons := List.pairwise_cons.2 ⟨hlater, hrest⟩
          simpa [acquiredGenerations, trace, hacquired] using hcons

/-! ## Sessions do not interfere -/

/-- The inputs that name a session or one of its keys. -/
def concerns (k : CommunityId × Uuid) : Input → Bool
  | .call call => call.session = k
  | .expire key => key = (keysOf k).lease ∨ key = (keysOf k).generation

theorem slotOf_step_of_not_concerns (redis : Redis) {input : Input} (h : concerns k input = false) :
    slotOf (step redis input) k = slotOf redis k := by
  cases input with
  | call call =>
      have hne : ¬k = call.session := by
        rintro rfl
        simp [concerns] at h
      rw [slotOf_call, if_neg hne]
  | expire key =>
      simp only [concerns, decide_eq_false_iff_not, not_or] at h
      have hlease : ¬(keysOf k).lease = key := fun he => h.1 he.symm
      have hgeneration : ¬(keysOf k).generation = key := fun he => h.2 he.symm
      show (keysOf k).slot (redis.expire key) = (keysOf k).slot redis
      simp [SessionKeys.slot, lookup_expire, hlease, hgeneration]

theorem step_congr (hslot : slotOf redis k = slotOf redis' k) {input : Input}
    (h : concerns k input = true) :
    (exec redis input).2 = (exec redis' input).2 ∧
      slotOf (step redis input) k = slotOf (step redis' input) k := by
  cases input with
  | call call =>
      have hk : call.session = k := by simpa [concerns] using h
      subst hk
      refine ⟨?_, ?_⟩
      · show some (call.exec (slotOf redis call.session)).2 =
          some (call.exec (slotOf redis' call.session)).2
        rw [hslot]
      · rw [slotOf_call, slotOf_call, hslot]
  | expire key =>
      refine ⟨rfl, ?_⟩
      have hlease : redis.lookup (keysOf k).lease = redis'.lookup (keysOf k).lease :=
        congrArg Slot.lease hslot
      have hgeneration : redis.lookup (keysOf k).generation = redis'.lookup (keysOf k).generation :=
        congrArg Slot.generation hslot
      show (keysOf k).slot (redis.expire key) = (keysOf k).slot (redis'.expire key)
      simp only [concerns, decide_eq_true_eq] at h
      rcases h with rfl | rfl
      · simp [SessionKeys.slot, lookup_expire, hlease, hgeneration]
      · simp [SessionKeys.slot, lookup_expire, hlease, hgeneration]

theorem trace_filter (hslot : slotOf redis k = slotOf redis' k) (inputs : List Input) :
    (trace redis inputs).filter (fun entry => concerns k entry.1) =
      trace redis' (inputs.filter (concerns k)) := by
  induction inputs generalizing redis redis' with
  | nil => rfl
  | cons input inputs ih =>
      cases hk : concerns k input with
      | false =>
          have hstep := (slotOf_step_of_not_concerns redis hk).trans hslot
          simp only [trace, List.filter_cons, hk]
          exact ih hstep
      | true =>
          rcases step_congr hslot hk with ⟨hout, hstep⟩
          simp only [trace, List.filter_cons, hk, if_true, hout]
          rw [ih hstep]

/-! ## The promises -/

/-- The Redis that the relays share after a run. -/
def reached (inputs : List Input) : Redis := Run.run step ∅ inputs

def Accepts (redis : Redis) (c : CommunityId) (fenced : FencedHeader) : Prop :=
  validateFencedHeader c fenced (slotOf redis (c, fenced.sessionId)) = .ok ()

/-- The fence is the tuple of the live lease. -/
def Live (redis : Redis) (c : CommunityId) (fenced : FencedHeader) : Prop :=
  ∃ lease, lookup c fenced.sessionId (slotOf redis (c, fenced.sessionId)) = .ok (some lease) ∧
    lease.fencedHeader = fenced

/-- The fence was given to a caller, or would have passed at the end of the run. -/
def Issued (inputs : List Input) (c : CommunityId) (fenced : FencedHeader) : Prop :=
  Accepts (reached inputs) c fenced ∨
    ∃ entry ∈ trace ∅ inputs, ∃ lease, acquiredFor (c, fenced.sessionId) entry = some lease ∧
      lease.fencedHeader = fenced

/-- The step creates the lease of the session. -/
def Acquires (redis : Redis) (input : Input) (k : CommunityId × Uuid) : Prop :=
  (slotOf redis k).lease = none ∧ (slotOf (step redis input) k).lease ≠ none

theorem represents_empty (k : CommunityId × Uuid) :
    Represents (slotOf (∅ : Redis) k) Fence.initial := by
  have hslot : slotOf (∅ : Redis) k = ⟨none, none⟩ := by
    simp [slotOf, SessionKeys.slot]
  rw [hslot]
  exact represents_initial

theorem represents_reached (inputs : List Input) (k : CommunityId × Uuid) :
    ∃ f, Represents (slotOf (reached inputs) k) f := by
  rcases (represents_empty k).run_spec inputs with ⟨g, _, hrep, _⟩
  exact ⟨g, hrep⟩

theorem Represents.live_iff {c : CommunityId} (fenced : FencedHeader)
    (h : Represents (slotOf redis (c, fenced.sessionId)) f) :
    Live redis c fenced ↔ Holds f fenced.ownerRuntimeId fenced.generation := by
  unfold Live
  rw [h.lookup_eq]
  constructor
  · rintro ⟨lease, hlookup, hheader⟩
    cases hf : f.holder with
    | none =>
        rw [hf] at hlookup
        cases hlookup
    | some holder =>
        rw [hf] at hlookup
        dsimp only at hlookup
        split at hlookup
        · next hsmall =>
            cases hlookup
            rw [← hheader]
            exact ⟨holder.2, hf, rfl, hsmall⟩
        · cases hlookup
  · rintro ⟨profile, hholder, hgeneration, hsmall⟩
    refine ⟨⟨c, fenced.sessionId, fenced.ownerRuntimeId, f.counter, profile⟩, ?_, ?_⟩
    · rw [hholder]
      dsimp only
      rw [if_pos hsmall]
    · unfold SessionLease.fencedHeader
      rw [← hgeneration]

theorem Represents.generation_of_accepts {c : CommunityId} {fenced : FencedHeader}
    (h : Represents (slotOf redis (c, fenced.sessionId)) f) (haccepts : Accepts redis c fenced) :
    fenced.generation = f.counter := by
  rcases (h.validate_iff c fenced).1 haccepts with ⟨_, _, hgeneration, _⟩
  exact hgeneration

theorem not_accepts_of_superseded {earlier between later : List Input} {input : Input}
    {c : CommunityId} {fenced : FencedHeader} (hissued : Issued earlier c fenced)
    (hacquires : Acquires (reached (earlier ++ between)) input (c, fenced.sessionId)) :
    ¬Accepts (reached (earlier ++ between ++ input :: later)) c fenced := by
  rcases (represents_empty (c, fenced.sessionId)).run_spec earlier with ⟨f₁, _, hrep₁, hacquired⟩
  have hold : fenced.generation ≤ f₁.counter := by
    rcases hissued with haccepts | ⟨entry, hentry, lease, hlease, hheader⟩
    · exact Nat.le_of_eq (hrep₁.generation_of_accepts haccepts)
    · have hbound := (hacquired lease (List.mem_filterMap.2 ⟨entry, hentry, hlease⟩)).2.1
      rw [← hheader]
      exact hbound
  rcases hrep₁.run_spec between with ⟨f₂, hle₂, hrep₂, _⟩
  rcases hrep₂.step_spec input with ⟨f₃, hstep, hrep₃, _⟩
  rcases hrep₃.run_spec later with ⟨f₄, hle₄, hrep₄, _⟩
  have hmid : Run.run step (Run.run step ∅ earlier) between = reached (earlier ++ between) := by
    simp [Run.run, reached]
  have hend : Run.run step (step (reached (earlier ++ between)) input) later =
      reached (earlier ++ between ++ input :: later) := by
    simp [Run.run, reached]
  rw [hmid] at hrep₂ hrep₃ hrep₄
  rw [hend] at hrep₄
  -- only a grant can have filled the lease key
  have hlt : f₂.counter < f₃.counter := by
    refine hstep.counter_lt ?_ ?_
    · have hlease := hrep₂.lease
      rw [hacquires.1] at hlease
      exact Option.map_eq_none_iff.1 hlease.symm
    · intro hvacant
      exact hacquires.2 (hrep₃.lease_of_vacant hvacant)
  intro haccepts
  have hnow := hrep₄.generation_of_accepts haccepts
  omega

/-- Session lease fencing, over every interleaving of calls and expiries: acquired generations
increase, only the live tuple passes, a superseded tuple never passes again, a renewal or a release
under any other tuple changes no key, and sessions do not interfere. -/
theorem session_lease_fencing :
    (∀ (inputs : List Input) (k : CommunityId × Uuid),
      (acquiredGenerations k (trace ∅ inputs)).Pairwise (· < ·)) ∧
    (∀ (inputs : List Input) (c : CommunityId) (fenced : FencedHeader),
      (Accepts (reached inputs) c fenced ↔ Live (reached inputs) c fenced) ∧
      ∀ fenced' : FencedHeader, fenced'.sessionId = fenced.sessionId →
        Accepts (reached inputs) c fenced → Accepts (reached inputs) c fenced' →
          fenced' = fenced) ∧
    (∀ (earlier between later : List Input) (input : Input) (c : CommunityId)
      (fenced : FencedHeader), Issued earlier c fenced →
        Acquires (reached (earlier ++ between)) input (c, fenced.sessionId) →
          ¬Accepts (reached (earlier ++ between ++ input :: later)) c fenced) ∧
    (∀ (inputs : List Input) (lease : SessionLease) (ttl : Nat) (attempt : Attempt),
      ¬Live (reached inputs) lease.communityId lease.fencedHeader → ∀ key : Text,
        (step (reached inputs) (.call (.renew ttl attempt lease))).lookup key =
            (reached inputs).lookup key ∧
          (step (reached inputs) (.call (.release attempt lease))).lookup key =
            (reached inputs).lookup key) ∧
    (∀ (inputs : List Input) (k : CommunityId × Uuid),
      (trace ∅ inputs).filter (fun entry => concerns k entry.1) =
        trace ∅ (inputs.filter (concerns k))) := by
  refine ⟨?_, ?_, ?_, ?_, ?_⟩
  · intro inputs k
    exact (represents_empty k).acquiredGenerations_pairwise inputs
  · intro inputs c fenced
    rcases represents_reached inputs (c, fenced.sessionId) with ⟨f, hrep⟩
    refine ⟨?_, ?_⟩
    · rw [hrep.live_iff fenced]
      exact hrep.validate_iff c fenced
    · intro fenced' hsession haccepts haccepts'
      rw [Accepts, hsession] at haccepts'
      rcases (hrep.validate_iff c fenced).1 haccepts with ⟨_, hholder, hgeneration, _⟩
      rcases (hrep.validate_iff c fenced').1 haccepts' with ⟨_, hholder', hgeneration', _⟩
      rw [hholder] at hholder'
      cases fenced with
      | mk session generation owner =>
          cases fenced' with
          | mk session' generation' owner' =>
              cases hholder'
              simp only at hsession hgeneration hgeneration'
              rw [hsession, hgeneration, hgeneration']
  · intro earlier between later input c fenced hissued hacquires
    exact not_accepts_of_superseded hissued hacquires
  · intro inputs lease ttl attempt hnot key
    rcases represents_reached inputs (lease.communityId, lease.sessionId) with ⟨f, hrep⟩
    have hholds : ¬Holds f lease.ownerRuntimeId lease.generation :=
      fun hholds => hnot ((hrep.live_iff lease.fencedHeader).2 hholds)
    have hrenew := hrep.renew_of_not_holds hholds ttl attempt
    have hrelease := hrep.release_of_not_holds hholds attempt
    refine ⟨?_, ?_⟩
    · exact lookup_step_call (.renew ttl attempt lease) hrenew key
    · exact lookup_step_call (.release attempt lease) hrelease key
  · intro inputs k
    exact trace_filter rfl inputs

/-- Two runtimes take the same session over from each other. -/
def handover : List Input :=
  [.call (.acquire 30000 (.completed true) ⟨1⟩ 2 3 .realtimeMedia),
    .expire (keysOf (⟨1⟩, 2)).lease]

theorem superseded_after_handover :
    Issued handover ⟨1⟩ ⟨2, 1, 3⟩ ∧
      Acquires (reached handover)
        (.call (.takeover 30000 (.completed true) ⟨1⟩ 2 4 .realtimeMedia)) (⟨1⟩, 2) ∧
      ¬Accepts (reached (handover ++
        [.call (.takeover 30000 (.completed true) ⟨1⟩ 2 4 .realtimeMedia)])) ⟨1⟩ ⟨2, 1, 3⟩ := by
  have hissued : Issued handover ⟨1⟩ ⟨2, 1, 3⟩ := by
    refine Or.inr ⟨_, List.mem_cons_self, ⟨⟨1⟩, 2, 3, 1, .realtimeMedia⟩, ?_, rfl⟩
    rfl
  have hacquires : Acquires (reached handover)
      (.call (.takeover 30000 (.completed true) ⟨1⟩ 2 4 .realtimeMedia)) (⟨1⟩, 2) := by
    unfold Acquires
    decide
  exact ⟨hissued, hacquires, session_lease_fencing.2.2.1 handover [] [] _ ⟨1⟩ ⟨2, 1, 3⟩ hissued
    hacquires⟩

end Directory
end Tunnel
end Relay
end Maju
