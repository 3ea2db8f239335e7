import Maju.Lib.Lockstep
import Maju.PushGateway.Safety

/-!
# Agreement — where the two authority stores answer alike

The reference store and the store in production are run on the same calls.

* `Promised` — what the callers promise: timestamps that can be represented, quotas of at least 1;
* `Alike` — the calls on which the stores do the same, in terms of the reference store;
* `Agrees` — the relation of the two states that such calls keep;
* `stores_agree` — along such calls every answer is the same.
-/

namespace Maju
namespace PushGateway

open Lib Core

/-! ## Calls -/

/-- A time in the range of both `DateTime` and a timestamp column. -/
def Representable (t : Int) : Prop := Db.Replaceable.minTimestamptz ≤ t ∧ t ≤ Db.maxTimestamp

instance Representable.decidable (t : Int) : Decidable (Representable t) :=
  inferInstanceAs (Decidable (_ ∧ _))

/-- The timestamps of a call, with the start of the window of challenges, and its quotas. -/
def Promised (now : Int) : Request → Prop
  | .putChallenge c => Representable (c.createdAt - challengeQuotaWindowSeconds) ∧
      Representable c.createdAt ∧ Representable c.expiresAt
  | .consumeChallenge _ _ => Representable now
  | .createInstallation n => Representable now ∧ Representable n.expiresAt
  | .matchingInstallation _ _ _ _ expiresAt => Representable now ∧ Representable expiresAt
  | .installation _ => Representable now
  | .upsertDelegation d => Representable d.notBefore ∧ Representable d.expiresAt
  | .authorizeDelivery q => Representable now ∧ Representable q.requestExpiresAt ∧
      1 ≤ q.quotaWindowSeconds ∧ 1 ≤ q.quotaMaxDeliveries
  | .reapExpired => False
  | _ => True

instance Promised.decidable (now : Int) : (request : Request) → Decidable (Promised now request)
  | .putChallenge c => inferInstanceAs (Decidable
      (Representable (c.createdAt - challengeQuotaWindowSeconds) ∧ Representable c.createdAt ∧
        Representable c.expiresAt))
  | .consumeChallenge _ _ => inferInstanceAs (Decidable (Representable now))
  | .createInstallation n =>
      inferInstanceAs (Decidable (Representable now ∧ Representable n.expiresAt))
  | .matchingInstallation _ _ _ _ expiresAt =>
      inferInstanceAs (Decidable (Representable now ∧ Representable expiresAt))
  | .installation _ => inferInstanceAs (Decidable (Representable now))
  | .upsertDelegation d =>
      inferInstanceAs (Decidable (Representable d.notBefore ∧ Representable d.expiresAt))
  | .authorizeDelivery q => inferInstanceAs (Decidable
      (Representable now ∧ Representable q.requestExpiresAt ∧ 1 ≤ q.quotaWindowSeconds ∧
        1 ≤ q.quotaMaxDeliveries))
  | .reapExpired => isFalse id
  | .ready | .advanceAssertionCounter _ _ _ | .rotateEndpoint _ _ _ _ _ | .revokeDelegation _ _ _
  | .revokeInstallation _ _ _ | .finishDelivery _ _ => isTrue trivial

/-- The delegation is newer than the one it replaces, if there is one. -/
def MemoryState.Supersedes (s : MemoryState) (d : Delegation Bool) : Prop :=
  ∀ old ∈ s.delegations.lookup d.key, old.generation < d.generation

instance MemoryState.Supersedes.decidable (s : MemoryState) (d : Delegation Bool) :
    Decidable (s.Supersedes d) :=
  inferInstanceAs (Decidable (∀ old ∈ s.delegations.lookup d.key, _))

/-- The calls that both stores treat in the same way. -/
def Alike (s : MemoryState) (now : Int) : Request → Prop
  -- a challenge has an id of its own, unless the quota refuses it
  | .putChallenge c => challengeQuotaMaxRequests ≤
        s.issuedSince (c.createdAt - challengeQuotaWindowSeconds) ∨
      s.challenges.lookup c.id = none
  -- a challenge that is stored is answered rightly and in time
  | .consumeChallenge id value => ∀ c ∈ s.challenges.lookup id, c.value = value ∧ now ≤ c.expiresAt
  -- an installation fits its columns and does not have the id of one that it replaces, unless a
  -- live one is in its way
  | .createInstallation n => (∃ i ∈ s.replaced n, i.revoked = false ∧ now ≤ i.expiresAt) ∨
      ((n.stored ()).ColumnsFit ∧ ∀ i ∈ s.installations.lookup n.id, n.conflicts i = false)
  -- a delegation to be checked is well-formed; one to be stored has a new id and is not revoked
  | .upsertDelegation d => ∀ i ∈ s.installations.lookup d.installationId,
      i.revoked = false → i.endpointEpoch = d.endpointEpoch →
      0 < d.generation ∧ d.notBefore < d.expiresAt ∧
        (s.Supersedes d → s.delegationIds.lookup d.id = none ∧ d.revoked = false)
  -- a token to be set fits its column and is not that of another installation
  | .rotateEndpoint id expected new ciphertext fingerprint => notSuccessor expected new = false →
      ∀ i ∈ s.installations.lookup id, i.revoked = false → i.endpointEpoch = expected →
      (1 ≤ ciphertext.length ∧ ciphertext.length ≤ 2048) ∧
        ∀ owner ∈ s.tokenOwners.lookup (i.profile, fingerprint), owner = id
  -- the window of a quota that is in use does not reach back too far
  | .authorizeDelivery q => ∀ key ∈ s.delegationIds.lookup q.delegationId,
      ∀ d ∈ s.delegations.lookup key, ∀ i ∈ s.installations.lookup d.installationId,
      q.Admissible d i now → (s.endpointQuotas.lookup i.tokenFingerprint).isSome = true →
      Db.Replaceable.minTimestamptz ≤ now - q.quotaWindowSeconds
  | _ => True

-- ids and keys are finitely many, so what is found under one has to be named as the range
instance Alike.decidable (s : MemoryState) (now : Int) :
    (request : Request) → Decidable (Alike s now request)
  | .putChallenge c => inferInstanceAs (Decidable (challengeQuotaMaxRequests ≤
        s.issuedSince (c.createdAt - challengeQuotaWindowSeconds) ∨
      s.challenges.lookup c.id = none))
  | .consumeChallenge id value => inferInstanceAs (Decidable
      (∀ c ∈ s.challenges.lookup id, c.value = value ∧ now ≤ c.expiresAt))
  | .createInstallation n => inferInstanceAs (Decidable
      ((∃ i ∈ s.replaced n, i.revoked = false ∧ now ≤ i.expiresAt) ∨
        ((n.stored ()).ColumnsFit ∧ ∀ i ∈ s.installations.lookup n.id, n.conflicts i = false)))
  | .upsertDelegation d => inferInstanceAs (Decidable
      (∀ i ∈ s.installations.lookup d.installationId,
        i.revoked = false → i.endpointEpoch = d.endpointEpoch →
        0 < d.generation ∧ d.notBefore < d.expiresAt ∧
          (s.Supersedes d → s.delegationIds.lookup d.id = none ∧ d.revoked = false)))
  | .rotateEndpoint id expected new ciphertext fingerprint =>
      have (i : Installation Bool) : Decidable
          (∀ owner ∈ s.tokenOwners.lookup (i.profile, fingerprint), owner = id) :=
        Option.decidableForallMem _
      inferInstanceAs (Decidable (notSuccessor expected new = false →
        ∀ i ∈ s.installations.lookup id, i.revoked = false → i.endpointEpoch = expected →
        (1 ≤ ciphertext.length ∧ ciphertext.length ≤ 2048) ∧
          ∀ owner ∈ s.tokenOwners.lookup (i.profile, fingerprint), owner = id))
  | .authorizeDelivery q =>
      have : DecidablePred fun key => ∀ d ∈ s.delegations.lookup key,
          ∀ i ∈ s.installations.lookup d.installationId, q.Admissible d i now →
          (s.endpointQuotas.lookup i.tokenFingerprint).isSome = true →
          Db.Replaceable.minTimestamptz ≤ now - q.quotaWindowSeconds :=
        fun _ => inferInstance
      Option.decidableForallMem (s.delegationIds.lookup q.delegationId)
  | .reapExpired | .ready | .matchingInstallation _ _ _ _ _ | .installation _
  | .advanceAssertionCounter _ _ _ | .revokeDelegation _ _ _ | .revokeInstallation _ _ _
  | .finishDelivery _ _ => isTrue trivial

/-! ## The relation -/

/-- A challenge as it is stored in production. -/
def challengeRow (sha256 : Bytes → Bytes) (c : Challenge) : ChallengeRow :=
  ⟨sha256 c.value, c.expiresAt, c.createdAt⟩

/-- A quota without the time of its last change. -/
def quotaOf (row : QuotaRow) : Int × Int := (row.windowStartedAt, row.admitted)

/-- What the states share beside the view, and what each of them keeps for itself. -/
structure Rest (sha256 : Bytes → Bytes) (m : MemoryState) (p : PostgresState) : Prop where
  challenges : ∀ id, p.challenges.lookup id = (m.challenges.lookup id).map (challengeRow sha256)
  issued : ∀ windowStart, p.issuedSince windowStart = m.issuedSince windowStart
  quotas : ∀ fingerprint, m.endpointQuotas.lookup fingerprint =
    (p.endpointQuotas.lookup fingerprint).map quotaOf
  started : ∀ fingerprint row, p.endpointQuotas.lookup fingerprint = some row →
    Representable row.windowStartedAt
  tokens : ∀ token owner, m.tokenOwners.lookup token = some owner →
    ∃ i, m.installations.lookup owner = some i ∧ i.token = token
  ids : ∀ key d, m.delegations.lookup key = some d → m.delegationIds.lookup d.id = some key
  fits : ∀ id i, p.installations.lookup id = some i → i.ColumnsFit

structure Agrees (sha256 : Bytes → Bytes) (m : MemoryState) (p : PostgresState) : Prop where
  view : m.view = p.view
  soundMemory : m.Sound
  soundPostgres : p.Sound
  unique : Unique m.view
  rest : Rest sha256 m p

/-! ## Statements -/

section Statements

variable {α β : Type} {t : Int}

theorem timeAt_of (h : Representable t) : timeAt t = .ok t := by
  obtain ⟨hlow, hhigh⟩ := h
  unfold Db.Replaceable.minTimestamptz at hlow
  unfold timeAt Db.fromTimestamp Db.minTimestamp
  rw [if_pos ⟨by omega, hhigh⟩]

theorem timestamptz_of (h : Db.Replaceable.minTimestamptz ≤ t) : timestamptz t = .ok () :=
  if_neg (Int.not_lt.2 h)

theorem ensure_of {holds : Prop} [Decidable holds] (h : holds) : ensure holds = .ok () := if_pos h

theorem ensure_not {holds : Prop} [Decidable holds] (h : ¬ holds) :
    ensure holds = .error .rejected :=
  if_neg h

theorem constraint_of {holds : Prop} [Decidable holds] (h : holds) : constraint holds = .ok () :=
  if_pos h

theorem ok_bind (a : α) (f : α → Except AuthorityError β) : (Except.ok a >>= f) = f a := rfl

theorem error_bind (e : AuthorityError) (f : α → Except AuthorityError β) :
    (Except.error e >>= f) = .error e := rfl

end Statements

theorem saturatingSub_of {a b : Int} (ha : Representable a) (hb : Representable b) :
    saturatingSub a b = a - b := by
  obtain ⟨halow, hahigh⟩ := ha
  obtain ⟨hblow, hbhigh⟩ := hb
  unfold Db.Replaceable.minTimestamptz at halow hblow
  unfold Db.maxTimestamp at hahigh hbhigh
  unfold saturatingSub i64Min i64Max
  omega

section Challenges

variable {sha256 : Bytes → Bytes} {m : MemoryState} {p : PostgresState} {now : Int}

theorem saturatingSub_window {createdAt : Int} (h : Representable createdAt) :
    saturatingSub createdAt challengeQuotaWindowSeconds =
      createdAt - challengeQuotaWindowSeconds := by
  refine saturatingSub_of h ?_
  decide

theorem putChallenge_agrees {c : Challenge} (h : Rest sha256 m p)
    (hpromised : Promised now (.putChallenge c)) (halike : Alike m now (.putChallenge c)) :
    (m.exec now (.putChallenge c)).1 = (p.exec sha256 now (.putChallenge c)).1 ∧
      Rest sha256 (m.exec now (.putChallenge c)).2 (p.exec sha256 now (.putChallenge c)).2 := by
  obtain ⟨hwindow, hcreated, hexpires⟩ := hpromised
  simp only [MemoryState.exec, PostgresState.exec, MemoryState.putChallenge,
    PostgresState.putChallenge, saturatingSub_window hcreated, timeAt_of hwindow,
    timeAt_of hcreated, timeAt_of hexpires, timestamptz_of hwindow.1, timestamptz_of hcreated.1,
    timestamptz_of hexpires.1, ok_bind, h.issued]
  by_cases hquota : challengeQuotaMaxRequests ≤
      m.issuedSince (c.createdAt - challengeQuotaWindowSeconds)
  · rw [if_pos hquota, if_pos hquota]
    exact ⟨rfl, h⟩
  · have hfresh : m.challenges.lookup c.id = none := halike.resolve_left hquota
    have hfresh' : p.challenges.lookup c.id = none := by rw [h.challenges, hfresh]; rfl
    rw [if_neg hquota, if_neg hquota, constraint_of hfresh', hfresh]
    refine ⟨rfl, ?_, ?_, h.quotas, h.started, h.tokens, h.ids, h.fits⟩
    · intro id
      change (p.challenges.insert c.id _).lookup id = ((m.challenges.insert c.id c).lookup id).map _
      rw [HashMap.lookup_insert_eq, HashMap.lookup_insert_eq]
      split_ifs
      · rfl
      · exact h.challenges id
    · intro windowStart
      -- an id that is not stored adds its own weight
      have hsum := h.issued windowStart
      unfold PostgresState.issuedSince MemoryState.issuedSince at hsum ⊢
      rw [HashMap.total_eq_lookup_add_erase _ c.id p.challenges,
        HashMap.total_eq_lookup_add_erase _ c.id m.challenges, hfresh, hfresh'] at hsum
      change HashMap.total _ (p.challenges.insert c.id _) =
        HashMap.total _ (m.challenges.insert c.id c)
      rw [HashMap.total_insert, HashMap.total_insert]
      simp only [Option.elim_none, Nat.zero_add] at hsum
      rw [hsum]

theorem consumeChallenge_agrees {id : Uuid} {value : Bytes} (h : Rest sha256 m p)
    (hpromised : Promised now (.consumeChallenge id value))
    (halike : Alike m now (.consumeChallenge id value)) :
    (m.exec now (.consumeChallenge id value)).1 =
        (p.exec sha256 now (.consumeChallenge id value)).1 ∧
      Rest sha256 (m.exec now (.consumeChallenge id value)).2
        (p.exec sha256 now (.consumeChallenge id value)).2 := by
  have hnow : Representable now := hpromised
  simp only [MemoryState.exec, PostgresState.exec, MemoryState.consumeChallenge,
    PostgresState.consumeChallenge, timeAt_of hnow, timestamptz_of hnow.1, ok_bind]
  have hlookup := h.challenges id
  cases hc : m.challenges.lookup id with
  | none =>
      rw [hc] at hlookup
      rw [hlookup]
      exact ⟨rfl, h⟩
  | some c =>
      obtain ⟨rfl, hintime⟩ := halike c hc
      rw [hc] at hlookup
      rw [hlookup]
      have hright : (challengeRow sha256 c).challengeHash = sha256 c.value ∧
          now ≤ (challengeRow sha256 c).expiresAt := ⟨rfl, hintime⟩
      have hanswer : ¬ (c.value ≠ c.value ∨ c.expiresAt < now) := by
        rintro (hne | hlate)
        · exact hne rfl
        · exact absurd hintime (Int.not_le.2 hlate)
      simp only [Option.map_some, fetched, ok_bind, ensure_of hright, if_neg hanswer]
      refine ⟨rfl, ?_, ?_, h.quotas, h.started, h.tokens, h.ids, h.fits⟩
      · intro other
        change (p.challenges.erase id).lookup other = ((m.challenges.erase id).lookup other).map _
        rw [HashMap.lookup_erase_eq, HashMap.lookup_erase_eq]
        split_ifs
        · rfl
        · exact h.challenges other
      · intro windowStart
        have hsum := h.issued windowStart
        unfold PostgresState.issuedSince MemoryState.issuedSince at hsum ⊢
        rw [HashMap.total_eq_lookup_add_erase _ id p.challenges,
          HashMap.total_eq_lookup_add_erase _ id m.challenges, hc, hlookup] at hsum
        exact Nat.add_left_cancel hsum

end Challenges

/-! ## Installations -/

section Installations

variable {sha256 : Bytes → Bytes} {m : MemoryState} {p : PostgresState} {now : Int}

theorem Agrees.installation (h : Agrees sha256 m p) (id : Uuid) :
    m.installations.lookup id = (p.installations.lookup id).map PostgresState.shown :=
  congrFun (congrArg Authority.installation h.view) id

theorem Agrees.delegation (h : Agrees sha256 m p) (key : Uuid × PublicKey) :
    m.delegations.lookup key = (p.delegations.lookup key).map PostgresState.shownDelegation :=
  congrFun (congrArg Authority.delegation h.view) key

theorem pos_of_successor {expected new : Int} (h : notSuccessor expected new = false)
    (hpos : 0 < expected) : 0 < new := by
  unfold notSuccessor at h
  have hnew : new = expected + 1 := by
    by_contra hne
    simp [hne] at h
  omega

theorem shown_revoked (i : Installation (Option Int)) :
    (PostgresState.shown i).revoked = true ↔ ¬ i.revoked = none := by
  simp [PostgresState.shown, Installation.setRevoked, ← Option.ne_none_iff_isSome]

theorem shown_live (i : Installation (Option Int)) (now : Int) :
    (!(PostgresState.shown i).revoked && decide (now ≤ (PostgresState.shown i).expiresAt)) = true ↔
      i.revoked = none ∧ now ≤ i.expiresAt := by
  rw [Bool.and_eq_true, decide_eq_true_iff, Bool.not_eq_true']
  refine and_congr ?_ Iff.rfl
  rw [← Bool.not_eq_true, shown_revoked, not_not]

theorem Rest.setInstallation (h : Rest sha256 m p) {id : Uuid} {i : Installation Bool}
    {i' : Installation (Option Int)} (hfits : i'.ColumnsFit) {old : Installation Bool}
    (hold : m.installations.lookup id = some old) (htoken : i.token = old.token) :
    Rest sha256 { m with installations := m.installations.insert id i }
      { p with installations := p.installations.insert id i' } := by
  refine ⟨h.challenges, h.issued, h.quotas, h.started, ?_, h.ids, ?_⟩
  · intro token owner howner
    obtain ⟨j, hj, hjtoken⟩ := h.tokens token owner howner
    change ∃ k, (m.installations.insert id i).lookup owner = some k ∧ k.token = token
    rw [HashMap.lookup_insert_eq]
    split_ifs with hid
    · subst hid
      rw [hold] at hj
      cases hj
      exact ⟨i, rfl, htoken.trans hjtoken⟩
    · exact ⟨j, hj, hjtoken⟩
  · intro other j hj
    change (p.installations.insert id i').lookup other = some j at hj
    rw [HashMap.lookup_insert_eq] at hj
    split_ifs at hj
    · cases hj
      exact hfits
    · exact h.fits other j hj

theorem installation_agrees {id : Uuid} (h : Agrees sha256 m p)
    (hpromised : Promised now (.installation id)) :
    (m.exec now (.installation id)).1 = (p.exec sha256 now (.installation id)).1 := by
  have hnow : Representable now := hpromised
  simp only [MemoryState.exec, PostgresState.exec, MemoryState.installation,
    PostgresState.installation, timeAt_of hnow, timestamptz_of hnow.1, ok_bind]
  rw [h.installation id]
  cases hi : p.installations.lookup id with
  | none => rfl
  | some i =>
      have hlive := shown_live i now
      simp only [Option.map_some, fetched, ok_bind]
      by_cases hfound : i.revoked = none ∧ now ≤ i.expiresAt
      · rw [ensure_of hfound, if_pos (hlive.2 hfound)]
        simp only [PostgresState.shown, PostgresState.returned, hfound.1]
        rfl
      · rw [ensure_not hfound, if_neg (fun hboth => hfound (hlive.1 hboth))]
        rfl

theorem advanceAssertionCounter_agrees {id : Uuid} {previous next : UInt32}
    (h : Agrees sha256 m p) :
    (m.exec now (.advanceAssertionCounter id previous next)).1 =
        (p.exec sha256 now (.advanceAssertionCounter id previous next)).1 ∧
      Rest sha256 (m.exec now (.advanceAssertionCounter id previous next)).2
        (p.exec sha256 now (.advanceAssertionCounter id previous next)).2 := by
  simp only [MemoryState.exec, PostgresState.exec, MemoryState.advanceAssertionCounter,
    PostgresState.advanceAssertionCounter]
  by_cases hnext : next ≤ previous
  · rw [if_pos hnext, ensure_not (not_not.2 hnext)]
    exact ⟨rfl, h.rest⟩
  · rw [if_neg hnext, ensure_of hnext, h.installation id]
    cases hi : p.installations.lookup id with
    | none => exact ⟨rfl, h.rest⟩
    | some i =>
        have hi' := h.installation id
        rw [hi] at hi'
        simp only [Option.map_some, fetched, ok_bind]
        have hrefused : ((PostgresState.shown i).revoked = true ∨
            (PostgresState.shown i).assertionCounter ≠ previous) ↔
            ¬ (i.assertionCounter = previous ∧ i.revoked = none) := by
          rw [shown_revoked, ← not_and_or]
          exact not_congr and_comm
        by_cases hcan : i.assertionCounter = previous ∧ i.revoked = none
        · rw [ensure_of hcan, if_neg (fun hbad => hrefused.1 hbad hcan)]
          exact ⟨rfl, h.rest.setInstallation (h.rest.fits id i hi) hi' rfl⟩
        · rw [ensure_not hcan, if_pos (hrefused.2 hcan)]
          exact ⟨rfl, h.rest⟩

theorem refused_iff {i : Installation (Option Int)} {expected : Int} :
    ((PostgresState.shown i).revoked = true ∨
        (PostgresState.shown i).endpointEpoch ≠ expected) ↔
      ¬ (i.endpointEpoch = expected ∧ i.revoked = none) := by
  rw [shown_revoked, ← not_and_or]
  exact not_congr and_comm

theorem revokeInstallation_agrees {id : Uuid} {expected new : Int} (h : Agrees sha256 m p) :
    (m.exec now (.revokeInstallation id expected new)).1 =
        (p.exec sha256 now (.revokeInstallation id expected new)).1 ∧
      Rest sha256 (m.exec now (.revokeInstallation id expected new)).2
        (p.exec sha256 now (.revokeInstallation id expected new)).2 := by
  simp only [MemoryState.exec, PostgresState.exec, MemoryState.revokeInstallation,
    PostgresState.revokeInstallation]
  cases hsuccessor : notSuccessor expected new with
  | true => exact ⟨rfl, h.rest⟩
  | false =>
      have hi' := h.installation id
      rw [if_neg Bool.false_ne_true, ensure_of rfl, hi']
      cases hi : p.installations.lookup id with
      | none => exact ⟨rfl, h.rest⟩
      | some i =>
          rw [hi] at hi'
          simp only [Option.map_some, fetched, ok_bind]
          by_cases hcan : i.endpointEpoch = expected ∧ i.revoked = none
          · have hfits : Installation.ColumnsFit
                { i with endpointEpoch := new, revoked := some now } := by
              obtain ⟨hkey, hpublic, htoken, hepoch⟩ := h.rest.fits id i hi
              exact ⟨hkey, hpublic, htoken, pos_of_successor hsuccessor (hcan.1 ▸ hepoch)⟩
            rw [ensure_of hcan, if_neg (fun hbad => refused_iff.1 hbad hcan), ok_bind,
              constraint_of hfits]
            exact ⟨rfl, h.rest.setInstallation hfits hi' rfl⟩
          · rw [ensure_not hcan, if_pos (refused_iff.2 hcan)]
            exact ⟨rfl, h.rest⟩

theorem tokenFree_of (h : Agrees sha256 m p) {id : Uuid} {i i' : Installation (Option Int)}
    (hi : p.installations.lookup id = some i) (hid : i'.id = i.id)
    (howner : ∀ owner ∈ m.tokenOwners.lookup i'.token, owner = id) : p.TokenFree i' := by
  intro e he htoken
  have he' := h.installation e.1
  rw [HashMap.lookup_of_mem_entries he] at he'
  have hown := h.soundMemory.owners e.1 _ he'
  change m.tokenOwners.lookup e.2.token = some e.1 at hown
  rw [htoken] at hown
  rw [hid, h.soundPostgres.ids id i hi]
  exact howner e.1 hown

theorem Rest.setToken (h : Rest sha256 m p) {id : Uuid} {i old : Installation Bool}
    {i' : Installation (Option Int)} (hfits : i'.ColumnsFit)
    (hold : m.installations.lookup id = some old) :
    Rest sha256
      { m with
        tokenOwners := (m.tokenOwners.erase old.token).insert i.token id
        installations := m.installations.insert id i }
      { p with installations := p.installations.insert id i' } := by
  refine ⟨h.challenges, h.issued, h.quotas, h.started, ?_, h.ids, ?_⟩
  · intro token owner howner
    change ((m.tokenOwners.erase old.token).insert i.token id).lookup token = some owner at howner
    change ∃ k, (m.installations.insert id i).lookup owner = some k ∧ k.token = token
    rw [HashMap.lookup_insert_eq, HashMap.lookup_erase_eq] at howner
    rw [HashMap.lookup_insert_eq]
    split_ifs at howner with hnew hgone
    · cases howner
      exact ⟨i, if_pos rfl, hnew.symm⟩
    · obtain ⟨j, hj, hjtoken⟩ := h.tokens token owner howner
      -- the installation that is set had the token that goes
      have hne : owner ≠ id := by
        rintro rfl
        rw [hold] at hj
        cases hj
        exact hgone hjtoken.symm
      exact ⟨j, by rw [if_neg hne, hj], hjtoken⟩
  · exact (h.setInstallation hfits hold (i := old) rfl).fits

theorem rotateEndpoint_agrees {id : Uuid} {expected new : Int} {ciphertext : Bytes}
    {fingerprint : Fingerprint} (h : Agrees sha256 m p)
    (halike : Alike m now (.rotateEndpoint id expected new ciphertext fingerprint)) :
    (m.exec now (.rotateEndpoint id expected new ciphertext fingerprint)).1 =
        (p.exec sha256 now (.rotateEndpoint id expected new ciphertext fingerprint)).1 ∧
      Rest sha256 (m.exec now (.rotateEndpoint id expected new ciphertext fingerprint)).2
        (p.exec sha256 now (.rotateEndpoint id expected new ciphertext fingerprint)).2 := by
  simp only [MemoryState.exec, PostgresState.exec, MemoryState.rotateEndpoint,
    PostgresState.rotateEndpoint]
  cases hsuccessor : notSuccessor expected new with
  | true => exact ⟨rfl, h.rest⟩
  | false =>
      have hi' := h.installation id
      rw [if_neg Bool.false_ne_true, ensure_of rfl, hi']
      cases hi : p.installations.lookup id with
      | none => exact ⟨rfl, h.rest⟩
      | some i =>
          rw [hi] at hi'
          simp only [Option.map_some, fetched, ok_bind]
          by_cases hcan : i.endpointEpoch = expected ∧ i.revoked = none
          · have hlive : (PostgresState.shown i).revoked = false := by
              rw [← Bool.not_eq_true, shown_revoked, not_not]
              exact hcan.2
            obtain ⟨hlength, howner⟩ := halike hsuccessor _ hi' hlive hcan.1
            have hfits : Installation.ColumnsFit { i with
                endpointEpoch := new, tokenCiphertext := ciphertext,
                tokenFingerprint := fingerprint } := by
              obtain ⟨hkey, hpublic, _, hepoch⟩ := h.rest.fits id i hi
              exact ⟨hkey, hpublic, hlength, pos_of_successor hsuccessor (hcan.1 ▸ hepoch)⟩
            have hfree : p.TokenFree { i with
                endpointEpoch := new, tokenCiphertext := ciphertext,
                tokenFingerprint := fingerprint } :=
              tokenFree_of h hi rfl howner
            have hnone : ¬ ((m.tokenOwners.lookup
                ((PostgresState.shown i).profile, fingerprint)).any fun owner =>
                  decide (owner ≠ id)) = true := by
              rw [Option.any_eq_true]
              rintro ⟨owner, hlookup, hother⟩
              exact of_decide_eq_true hother (howner owner hlookup)
            rw [ensure_of hcan, if_neg (fun hbad => refused_iff.1 hbad hcan), if_neg hnone, ok_bind,
              constraint_of hfits, ok_bind, constraint_of hfree]
            exact ⟨rfl, h.rest.setToken hfits hi'⟩
          · rw [ensure_not hcan, if_pos (refused_iff.2 hcan)]
            exact ⟨rfl, h.rest⟩

theorem find?_of_only {α : Type} {l : List α} {f : α → Bool} {a : α} (ha : a ∈ l) (hf : f a = true)
    (honly : ∀ b ∈ l, f b = true → b = a) : l.find? f = some a := by
  cases hfind : l.find? f with
  | none => exact absurd hf (List.find?_eq_none.1 hfind a ha)
  | some b =>
      rw [honly b (List.mem_of_find?_eq_some hfind) (List.find?_some hfind)]

theorem mem_values {R : Type} {installations : HashMap Uuid (Installation R)}
    {i : Installation R} :
    i ∈ installations.entries.map Sigma.snd ↔ ∃ id, installations.lookup id = some i := by
  rw [List.mem_map]
  constructor
  · rintro ⟨e, he, rfl⟩
    exact ⟨e.1, HashMap.lookup_of_mem_entries he⟩
  · rintro ⟨id, hid⟩
    exact ⟨⟨id, i⟩, HashMap.mem_entries_iff.2 hid, rfl⟩

theorem find?_agrees (h : Agrees sha256 m p) {f : Installation Bool → Bool}
    {f' : Installation (Option Int) → Bool} (keyId : Bytes)
    (hsame : ∀ i, f (PostgresState.shown i) = f' i) (hlive : ∀ i, f' i = true → i.revoked = none)
    (hkey : ∀ i, f i = true → i.appAttestKeyId = keyId) :
    (m.installations.entries.map Sigma.snd).find? f =
      ((p.installations.entries.map Sigma.snd).find? f').map PostgresState.returned := by
  cases hfind : (p.installations.entries.map Sigma.snd).find? f' with
  | none =>
      rw [Option.map_none, List.find?_eq_none]
      intro j hj hmatch
      obtain ⟨id, hid⟩ := mem_values.1 hj
      rw [h.installation id] at hid
      obtain ⟨i, hi, rfl⟩ := Option.map_eq_some_iff.1 hid
      rw [hsame i] at hmatch
      exact List.find?_eq_none.1 hfind i (mem_values.2 ⟨id, hi⟩) hmatch
  | some i =>
      obtain ⟨id, hi⟩ := mem_values.1 (List.mem_of_find?_eq_some hfind)
      have hmatch := List.find?_some hfind
      have hi' := h.installation id
      rw [hi] at hi'
      have hreturned : PostgresState.shown i = PostgresState.returned i := by
        simp only [PostgresState.shown, PostgresState.returned, hlive i hmatch]
        rfl
      rw [Option.map_some, ← hreturned]
      refine find?_of_only (mem_values.2 ⟨id, hi'⟩) ((hsame i).trans hmatch) ?_
      -- an installation of the same key is the same
      intro j hj hjmatch
      obtain ⟨id', hid'⟩ := mem_values.1 hj
      have hkeys : j.appAttestKeyId = (PostgresState.shown i).appAttestKeyId :=
        (hkey j hjmatch).trans (hkey _ ((hsame i).trans hmatch)).symm
      have hids := h.unique id' id j _ hid' hi' (Or.inl hkeys)
      rw [hids, hi'] at hid'
      exact (Option.some.inj hid').symm

theorem matchingInstallation_agrees {keyId : Bytes} {profile : AppProfile}
    {fingerprint : Fingerprint} {epoch expiresAt : Int} (h : Agrees sha256 m p)
    (hpromised : Promised now (.matchingInstallation keyId profile fingerprint epoch expiresAt)) :
    (m.exec now (.matchingInstallation keyId profile fingerprint epoch expiresAt)).1 =
      (p.exec sha256 now (.matchingInstallation keyId profile fingerprint epoch expiresAt)).1 := by
  obtain ⟨hnow, hexpires⟩ := hpromised
  change _ = p.matchingInstallation keyId profile fingerprint epoch expiresAt now
  unfold PostgresState.matchingInstallation
  rw [timeAt_of hnow, timeAt_of hexpires, ok_bind, ok_bind, timestamptz_of hnow.1,
    timestamptz_of hexpires.1]
  refine congrArg (fun found => Except.ok (Response.matching found)) (find?_agrees h keyId ?_ ?_ ?_)
  · intro i
    rw [Bool.eq_iff_iff]
    simp only [Bool.and_eq_true, decide_eq_true_iff]
    rw [Bool.not_eq_true', ← Bool.not_eq_true, shown_revoked, not_not]
    constructor
    · rintro ⟨⟨⟨⟨⟨⟨hlive, hexp⟩, hkey⟩, hprofile⟩, hfingerprint⟩, hepoch⟩, hexpiry⟩
      exact ⟨⟨⟨⟨⟨⟨hkey, hprofile⟩, hfingerprint⟩, hepoch⟩, hexpiry⟩, hlive⟩, hexp⟩
    · rintro ⟨⟨⟨⟨⟨⟨hkey, hprofile⟩, hfingerprint⟩, hepoch⟩, hexpiry⟩, hlive⟩, hexp⟩
      exact ⟨⟨⟨⟨⟨⟨hlive, hexp⟩, hkey⟩, hprofile⟩, hfingerprint⟩, hepoch⟩, hexpiry⟩
  · intro i hmatch
    simp only [Bool.and_eq_true, decide_eq_true_iff] at hmatch
    exact hmatch.1.2
  · intro i hmatch
    simp only [Bool.and_eq_true, decide_eq_true_iff] at hmatch
    exact hmatch.1.1.1.1.2

theorem any_replaced_iff (h : Agrees sha256 m p) (n : NewInstallation) :
    ((m.replaced n).any fun i => !i.revoked && decide (now ≤ i.expiresAt)) = true ↔
      ¬ ∀ i ∈ p.existing n, ¬ (i.revoked = none ∧ now ≤ i.expiresAt) := by
  rw [List.any_eq_true]
  constructor
  · rintro ⟨j, hj, hlive⟩ hall
    obtain ⟨⟨id, hid⟩, hconflict⟩ := mem_conflicting.1 hj
    rw [h.installation id] at hid
    obtain ⟨i, hi, rfl⟩ := Option.map_eq_some_iff.1 hid
    exact hall i (mem_conflicting.2 ⟨⟨id, hi⟩, hconflict⟩) ((shown_live i now).1 hlive)
  · intro hsome
    by_contra hnone
    refine hsome fun i hi hlive => hnone ?_
    obtain ⟨⟨id, hid⟩, hconflict⟩ := mem_conflicting.1 hi
    refine ⟨PostgresState.shown i, ?_, (shown_live i now).2 hlive⟩
    refine mem_conflicting.2 ⟨⟨id, ?_⟩, hconflict⟩
    rw [h.installation id, hid]
    rfl

theorem Rest.create (h : Rest sha256 m p) (hm : m.Sound) {n : NewInstallation}
    (hfits : (n.stored ()).ColumnsFit) (hfree : m.installations.lookup n.id = none) :
    Rest sha256
      { m.remove (m.replaced n) with
        tokenOwners := (m.remove (m.replaced n)).tokenOwners.insert
          (n.profile, n.tokenFingerprint) n.id
        installations := (m.remove (m.replaced n)).installations.insert n.id (n.stored false) }
      { p with
        delegations := p.delegations.retain fun key _ =>
          decide (key.1 ∉ (p.existing n).map Installation.id)
        installations := (p.installations.retain fun id _ =>
          decide (id ∉ (p.existing n).map Installation.id)).insert n.id (n.stored none) } := by
  refine ⟨h.challenges, h.issued, h.quotas, h.started, ?_, ?_, ?_⟩
  · intro token owner howner
    change AList.lookup token (AList.insert (n.profile, n.tokenFingerprint) n.id
      (m.tokenOwners.retain _)) = some owner at howner
    change ∃ k, ((m.remove (m.replaced n)).installations.insert n.id _).lookup owner = some k ∧
      k.token = token
    rw [HashMap.lookup_insert_eq, HashMap.lookup_retain] at howner
    rw [HashMap.lookup_insert_eq]
    split_ifs at howner with hnew
    · cases howner
      exact ⟨n.stored false, if_pos rfl, hnew.symm⟩
    · obtain ⟨howner, hkept⟩ := Option.filter_eq_some_iff.1 howner
      obtain ⟨j, hj, hjtoken⟩ := h.tokens token owner howner
      have hne : owner ≠ n.id := by
        rintro rfl
        rw [hfree] at hj
        cases hj
      -- an installation that conflicts would have taken its token with it
      have hstays : n.conflicts j = false := by
        cases hconflict : n.conflicts j with
        | false => rfl
        | true =>
            have hmem : j ∈ m.replaced n := mem_conflicting.2 ⟨⟨owner, hj⟩, hconflict⟩
            exact absurd (List.mem_map.2 ⟨j, hmem, hjtoken⟩) (of_decide_eq_true hkept)
      refine ⟨j, ?_, hjtoken⟩
      rw [if_neg hne, MemoryState.lookup_remove hm, hj]
      simp [hstays]
  · intro key d hd
    change (m.delegations.retain _).lookup key = some d at hd
    change (m.delegationIds.retain _).lookup d.id = some key
    rw [HashMap.lookup_retain] at hd ⊢
    obtain ⟨hd, hkept⟩ := Option.filter_eq_some_iff.1 hd
    rw [h.ids key d hd]
    exact Option.filter_eq_some_iff.2 ⟨rfl, hkept⟩
  · intro id i hi
    change ((p.installations.retain _).insert n.id _).lookup id = some i at hi
    rw [HashMap.lookup_insert_eq, HashMap.lookup_retain] at hi
    split_ifs at hi
    · cases hi
      exact hfits
    · exact h.fits id i (Option.filter_eq_some_iff.1 hi).1

theorem createInstallation_agrees {n : NewInstallation} (h : Agrees sha256 m p)
    (hpromised : Promised now (.createInstallation n))
    (halike : Alike m now (.createInstallation n)) :
    (m.exec now (.createInstallation n)).1 = (p.exec sha256 now (.createInstallation n)).1 ∧
      Rest sha256 (m.exec now (.createInstallation n)).2
        (p.exec sha256 now (.createInstallation n)).2 := by
  obtain ⟨hnow, hexpires⟩ := hpromised
  simp only [MemoryState.exec, PostgresState.exec, MemoryState.createInstallation,
    PostgresState.createInstallation, timeAt_of hnow, ok_bind]
  by_cases hblocked : ((m.replaced n).any fun i => !i.revoked && decide (now ≤ i.expiresAt)) = true
  · rw [ensure_not ((any_replaced_iff h n).1 hblocked), if_pos hblocked, ite_self]
    exact ⟨rfl, h.rest⟩
  · have hopen : ∀ i ∈ p.existing n, ¬ (i.revoked = none ∧ now ≤ i.expiresAt) :=
      not_not.1 (mt (any_replaced_iff h n).2 hblocked)
    obtain ⟨hfits, hid⟩ : (n.stored ()).ColumnsFit ∧
        ∀ i ∈ m.installations.lookup n.id, n.conflicts i = false := by
      refine halike.resolve_left ?_
      rintro ⟨i, hi, hlive, hintime⟩
      exact hblocked (List.any_eq_true.2 ⟨i, hi, by simp [hlive, hintime]⟩)
    rw [ensure_of hopen, ok_bind, timeAt_of hexpires, ok_bind, timestamptz_of hexpires.1, ok_bind,
      constraint_of hfits, ok_bind, if_neg hblocked]
    -- what the id is taken by stays in both stores
    have hkept : (p.installations.retain fun id _ =>
        decide (id ∉ (p.existing n).map Installation.id)).lookup n.id =
        p.installations.lookup n.id := by
      have hretained := lookup_retain_conflicting (n := n) h.soundPostgres.ids n.id
      refine hretained.trans ?_
      have hid' := h.installation n.id
      cases hi : p.installations.lookup n.id with
      | none => rfl
      | some i =>
          rw [hi] at hid'
          have hfree : n.conflicts i = false := hid _ hid'
          simp [Option.filter, hfree]
    rw [hkept, h.installation n.id]
    cases hi : p.installations.lookup n.id with
    | some i => exact ⟨rfl, h.rest⟩
    | none =>
        have hfree : m.installations.lookup n.id = none := by rw [h.installation n.id, hi]; rfl
        exact ⟨rfl, h.rest.create h.soundMemory hfits hfree⟩

end Installations

/-! ## Delegations -/

section Delegations

variable {sha256 : Bytes → Bytes} {m : MemoryState} {p : PostgresState} {now : Int}

theorem shownDelegation_revoked (d : Delegation (Option Int)) :
    (PostgresState.shownDelegation d).revoked = true ↔ ¬ d.revoked = none := by
  simp [PostgresState.shownDelegation, Delegation.setRevoked, ← Option.ne_none_iff_isSome]

theorem supersedes_iff (h : Agrees sha256 m p) (d : Delegation Bool) :
    m.Supersedes d ↔ ∀ old ∈ p.delegations.lookup d.key, old.generation < d.generation := by
  unfold MemoryState.Supersedes
  rw [h.delegation d.key]
  cases p.delegations.lookup d.key with
  | none => simp
  | some old => simp [PostgresState.shownDelegation, Delegation.setRevoked]

theorem idFree_of (h : Agrees sha256 m p) {d : Delegation Bool}
    (hnew : m.delegationIds.lookup d.id = none) : p.IdFree d := by
  intro e he hid
  have he' := h.delegation e.1
  rw [HashMap.lookup_of_mem_entries he] at he'
  have hseen := h.rest.ids e.1 _ he'
  change m.delegationIds.lookup e.2.id = some e.1 at hseen
  rw [hid, hnew] at hseen
  cases hseen

theorem Rest.setDelegation (h : Rest sha256 m p) {d : Delegation Bool}
    {d' : Delegation (Option Int)} (hnew : m.delegationIds.lookup d.id = none) :
    Rest sha256
      { m with
        delegationIds := m.delegationIds.insert d.id d.key
        delegations := m.delegations.insert d.key d }
      { p with delegations := p.delegations.insert d.key d' } := by
  refine ⟨h.challenges, h.issued, h.quotas, h.started, h.tokens, ?_, h.fits⟩
  intro key e he
  change (m.delegations.insert d.key d).lookup key = some e at he
  change (m.delegationIds.insert d.id d.key).lookup e.id = some key
  rw [HashMap.lookup_insert_eq] at he ⊢
  split_ifs at he with hkey
  · cases he
    rw [if_pos rfl, hkey]
  · have hseen := h.ids key e he
    rw [if_neg, hseen]
    rintro hid
    rw [hid, hnew] at hseen
    cases hseen

/-- An installation lasts at least as long as what it delegates. -/
def Installation.extend {R : Type} (i : Installation R) (t : Int) : Installation R :=
  { i with expiresAt := max i.expiresAt t }

theorem upsertDelegation_cases {d : Delegation Bool} (h : Agrees sha256 m p)
    (hpromised : Promised now (.upsertDelegation d)) (halike : Alike m now (.upsertDelegation d)) :
    ((m.exec now (.upsertDelegation d)) = (.error .rejected, m) ∧
      (p.exec sha256 now (.upsertDelegation d)) = (.error .rejected, p)) ∨
    ∃ i, p.installations.lookup d.installationId = some i ∧
      m.delegationIds.lookup d.id = none ∧ d.revoked = false ∧
      (m.exec now (.upsertDelegation d)) = (.ok .done, { m with
        installations := m.installations.insert d.installationId
          ((PostgresState.shown i).extend d.expiresAt)
        delegationIds := m.delegationIds.insert d.id d.key
        delegations := m.delegations.insert d.key d }) ∧
      (p.exec sha256 now (.upsertDelegation d)) = (.ok .done, { p with
        delegations := p.delegations.insert d.key (d.setRevoked none)
        installations := p.installations.insert d.installationId
          (i.extend d.expiresAt) }) := by
  obtain ⟨hstart, hexpires⟩ := hpromised
  simp only [MemoryState.exec, PostgresState.exec, MemoryState.upsertDelegation,
    PostgresState.upsertDelegation]
  have hi' := h.installation d.installationId
  rw [hi']
  cases hi : p.installations.lookup d.installationId with
  | none => exact Or.inl ⟨rfl, rfl⟩
  | some i =>
      rw [hi] at hi'
      simp only [Option.map_some, fetched, ok_bind]
      by_cases hcan : i.revoked = none ∧ i.endpointEpoch = d.endpointEpoch
      · have hlive : (PostgresState.shown i).revoked = false := by
          rw [← Bool.not_eq_true, shown_revoked, not_not]
          exact hcan.1
        obtain ⟨hgeneration, hwindow, hstored⟩ := halike _ hi' hlive hcan.2
        have hepoch : 0 < d.endpointEpoch := hcan.2 ▸ (h.rest.fits _ i hi).2.2.2
        have hgood : ¬ ((PostgresState.shown i).revoked = true ∨
            (PostgresState.shown i).endpointEpoch ≠ d.endpointEpoch ∨ d.generation < 1 ∨
            d.expiresAt ≤ d.notBefore) := by
          rintro (hrevoked | hother | hsmall | hempty)
          · rw [hlive] at hrevoked
            cases hrevoked
          · exact hother hcan.2
          · omega
          · omega
        rw [if_neg hgood, ensure_of hcan, ok_bind, timeAt_of hstart, ok_bind, timeAt_of hexpires,
          ok_bind, timestamptz_of hstart.1, ok_bind, timestamptz_of hexpires.1, ok_bind,
          constraint_of ⟨hepoch, hgeneration, hwindow⟩, ok_bind]
        by_cases hnewer : m.Supersedes d
        · obtain ⟨hnew, hrevoked⟩ := hstored hnewer
          have hfresh : ¬ (((m.delegations.lookup d.key).any fun old =>
              decide (d.generation ≤ old.generation)) = true ∨
              (m.delegationIds.lookup d.id).isSome = true) := by
            rintro (hold | hseen)
            · obtain ⟨old, hlookup, hle⟩ := (Option.any_eq_true _ _).1 hold
              have := hnewer old hlookup
              have := of_decide_eq_true hle
              omega
            · rw [hnew] at hseen
              cases hseen
          rw [if_neg hfresh, ensure_of ((supersedes_iff h d).1 hnewer), ok_bind,
            constraint_of (idFree_of h hnew)]
          exact Or.inr ⟨i, rfl, hnew, hrevoked, rfl, rfl⟩
        · have hstale : ((m.delegations.lookup d.key).any fun old =>
              decide (d.generation ≤ old.generation)) = true ∨
              (m.delegationIds.lookup d.id).isSome = true := by
            refine Or.inl ?_
            by_contra hnone
            refine hnewer fun old hold => Int.not_le.1 fun hle => hnone ?_
            exact (Option.any_eq_true _ _).2 ⟨old, hold, decide_eq_true hle⟩
          rw [if_pos hstale, ensure_not (mt (supersedes_iff h d).2 hnewer)]
          exact Or.inl ⟨rfl, rfl⟩
      · have hbad : (PostgresState.shown i).revoked = true ∨
            (PostgresState.shown i).endpointEpoch ≠ d.endpointEpoch ∨ d.generation < 1 ∨
            d.expiresAt ≤ d.notBefore := by
          rcases not_and_or.1 hcan with hrevoked | hother
          · exact Or.inl ((shown_revoked i).2 hrevoked)
          · exact Or.inr (Or.inl hother)
        rw [if_pos hbad, ensure_not hcan]
        exact Or.inl ⟨rfl, rfl⟩

theorem revokeDelegation_agrees {id : Uuid} {relay : PublicKey} {generation : Int}
    (h : Agrees sha256 m p) :
    (m.exec now (.revokeDelegation id relay generation)).1 =
        (p.exec sha256 now (.revokeDelegation id relay generation)).1 ∧
      Rest sha256 (m.exec now (.revokeDelegation id relay generation)).2
        (p.exec sha256 now (.revokeDelegation id relay generation)).2 := by
  simp only [MemoryState.exec, PostgresState.exec, MemoryState.revokeDelegation,
    PostgresState.revokeDelegation]
  have hd' := h.delegation (id, relay)
  rw [hd']
  cases hd : p.delegations.lookup (id, relay) with
  | none => exact ⟨rfl, h.rest⟩
  | some d =>
      rw [hd] at hd'
      simp only [Option.map_some, fetched, ok_bind]
      have hrefused : ((PostgresState.shownDelegation d).revoked = true ∨
          generation ≠ (PostgresState.shownDelegation d).generation) ↔
          ¬ (d.generation = generation ∧ d.revoked = none) := by
        rw [shownDelegation_revoked, ← not_and_or]
        exact not_congr (and_comm.trans (and_congr_left fun _ => eq_comm))
      by_cases hcan : d.generation = generation ∧ d.revoked = none
      · rw [ensure_of hcan, if_neg (fun hbad => hrefused.1 hbad hcan)]
        refine ⟨rfl, h.rest.challenges, h.rest.issued, h.rest.quotas, h.rest.started, h.rest.tokens,
          ?_, h.rest.fits⟩
        intro key e he
        change AList.lookup key (AList.insert (id, relay) _ m.delegations) = some e at he
        rw [HashMap.lookup_insert_eq] at he
        split_ifs at he with hkey
        · cases he
          rw [hkey]
          exact h.rest.ids _ (PostgresState.shownDelegation d) hd'
        · exact h.rest.ids key e he
      · rw [ensure_not hcan, if_pos (hrefused.2 hcan)]
        exact ⟨rfl, h.rest⟩

end Delegations

/-! ## Deliveries -/

section Deliveries

variable {sha256 : Bytes → Bytes} {m : MemoryState} {p : PostgresState} {now : Int} {q : Delivery}

theorem delegationOf_agrees (h : Agrees sha256 m p) (id : Uuid) :
    (∃ d, p.delegationOf id = some d ∧ m.delegationIds.lookup id = some d.key ∧
      m.delegations.lookup d.key = some (PostgresState.shownDelegation d)) ∨
    (p.delegationOf id = none ∧ ∀ key ∈ m.delegationIds.lookup id,
      ∀ d ∈ m.delegations.lookup key, d.id ≠ id) := by
  cases hd : p.delegationOf id with
  | some d =>
      obtain ⟨hlookup, rfl⟩ := PostgresState.delegationOf_eq_some h.soundPostgres hd
      have hd' := h.delegation d.key
      rw [hlookup] at hd'
      exact Or.inl ⟨d, rfl, h.rest.ids d.key _ hd', hd'⟩
  | none =>
      refine Or.inr ⟨rfl, ?_⟩
      rintro key _ d' hd' rfl
      rw [Option.mem_def, h.delegation key] at hd'
      obtain ⟨d, hlookup, rfl⟩ := Option.map_eq_some_iff.1 hd'
      have hmem : d ∈ p.delegations.entries.map Sigma.snd :=
        List.mem_map.2 ⟨⟨key, d⟩, HashMap.mem_entries_iff.2 hlookup, rfl⟩
      exact List.find?_eq_none.1 hd d hmem (decide_eq_true rfl)

theorem admissible_iff {d : Delegation (Option Int)} {i : Installation (Option Int)}
    (hid : d.id = q.delegationId) :
    q.Admissible (PostgresState.shownDelegation d) (PostgresState.shown i) now ↔
      (i.revoked = none ∧ i.endpointEpoch = q.endpointEpoch) ∧ now ≤ i.expiresAt ∧
      (d.relayPubkey = q.relayPubkey ∧ d.endpointEpoch = q.endpointEpoch ∧
        d.generation = q.generation ∧ d.revoked = none ∧ d.notBefore ≤ now ∧ now ≤ d.expiresAt) ∧
      (now ≤ q.requestExpiresAt ∧ q.requestExpiresAt ≤ d.expiresAt) := by
  unfold Delivery.Admissible
  rw [← Bool.not_eq_true, shownDelegation_revoked, ← Bool.not_eq_true (PostgresState.shown i).revoked,
    shown_revoked, not_not, not_not]
  constructor
  · rintro ⟨hd, hi, _, hrelay, hdepoch, hgeneration, hiepoch, hstart, hdexp, hiexp, hfuture, hwithin⟩
    exact ⟨⟨hi, hiepoch⟩, hiexp, ⟨hrelay, hdepoch, hgeneration, hd, hstart, hdexp⟩, hfuture, hwithin⟩
  · rintro ⟨⟨hi, hiepoch⟩, hiexp, ⟨hrelay, hdepoch, hgeneration, hd, hstart, hdexp⟩, hfuture, hwithin⟩
    exact ⟨hd, hi, hid, hrelay, hdepoch, hgeneration, hiepoch, hstart, hdexp, hiexp, hfuture, hwithin⟩

/-- The store in production refuses what is not admissible, and reserves quota and fences for what
is. -/
theorem authorizeDelivery_eq {d : Delegation (Option Int)} {i : Installation (Option Int)}
    (hpromised : Promised now (.authorizeDelivery q)) (hd : p.delegationOf q.delegationId = some d)
    (hid : d.id = q.delegationId) (hi : p.installations.lookup d.installationId = some i) :
    p.authorizeDelivery q now =
      if q.Admissible (PostgresState.shownDelegation d) (PostgresState.shown i) now then do
        let quota ← p.admitted q i.tokenFingerprint now
        ensure (p.deliveryAuthReplays.lookup (q.relayPubkey, q.eventId) = none ∧
          p.deliveryRequestReplays.lookup (q.relayPubkey, q.requestId) = none)
        return (.permit (q.permit i d.expiresAt), { p with
          endpointQuotas := p.endpointQuotas.insert i.tokenFingerprint quota
          deliveryAuthReplays := p.deliveryAuthReplays.insert (q.relayPubkey, q.eventId)
            q.requestExpiresAt
          deliveryRequestReplays := p.deliveryRequestReplays.insert (q.relayPubkey, q.requestId)
            q.requestExpiresAt })
      else .error .rejected := by
  obtain ⟨hnow, hrequest, hwindow, hmax⟩ := hpromised
  have hquotas : ¬ (q.quotaWindowSeconds < 1 ∨ q.quotaMaxDeliveries < 1) := by omega
  simp only [PostgresState.authorizeDelivery, hd, fetched, ok_bind, hi, timeAt_of hnow,
    timestamptz_of hnow.1, timeAt_of hrequest, if_neg hquotas]
  by_cases hadmissible : q.Admissible (PostgresState.shownDelegation d) (PostgresState.shown i) now
  · obtain ⟨hlive, hexpires, hgrant, hintime⟩ := (admissible_iff hid).1 hadmissible
    rw [if_pos hadmissible, ensure_of hlive, ensure_of hexpires, ensure_of hgrant,
      ensure_of hintime]
    rfl
  · rw [if_neg hadmissible]
    by_cases hlive : i.revoked = none ∧ i.endpointEpoch = q.endpointEpoch
    · rw [ensure_of hlive, ok_bind]
      by_cases hexpires : now ≤ i.expiresAt
      · rw [ensure_of hexpires, ok_bind]
        by_cases hgrant : d.relayPubkey = q.relayPubkey ∧ d.endpointEpoch = q.endpointEpoch ∧
            d.generation = q.generation ∧ d.revoked = none ∧ d.notBefore ≤ now ∧ now ≤ d.expiresAt
        · rw [ensure_of hgrant, ok_bind, ensure_not]
          · rfl
          · intro hintime
            exact hadmissible ((admissible_iff hid).2 ⟨hlive, hexpires, hgrant, hintime⟩)
        · rw [ensure_not hgrant]
          rfl
      · rw [ensure_not hexpires]
        rfl
    · rw [ensure_not hlive]
      rfl

/-- The quota admits in both stores, with the same window and count, or it refuses in both and is
as it was. -/
theorem quota_agrees (h : Rest sha256 m p) (hnow : Representable now)
    (hwindow : 1 ≤ q.quotaWindowSeconds) (hmax : 1 ≤ q.quotaMaxDeliveries)
    {fingerprint : Fingerprint}
    (hreach : (m.endpointQuotas.lookup fingerprint).isSome = true →
      Db.Replaceable.minTimestamptz ≤ now - q.quotaWindowSeconds) :
    (∃ row, p.admitted q fingerprint now = .ok row ∧ Representable row.windowStartedAt ∧
      (m.quota q fingerprint now).2 < q.quotaMaxDeliveries ∧
      quotaOf row = ((m.quota q fingerprint now).1, (m.quota q fingerprint now).2 + 1)) ∨
    (p.admitted q fingerprint now = .error .rejected ∧
      q.quotaMaxDeliveries ≤ (m.quota q fingerprint now).2 ∧
      m.endpointQuotas.lookup fingerprint = some (m.quota q fingerprint now)) := by
  have hquota := h.quotas fingerprint
  have hself : saturatingSub now now = 0 := by rw [saturatingSub_of hnow hnow, Int.sub_self]
  unfold MemoryState.quota PostgresState.admitted
  cases hrow : p.endpointQuotas.lookup fingerprint with
  | none =>
      rw [hrow] at hquota
      refine Or.inl ⟨⟨now, 1, now⟩, rfl, hnow, ?_⟩
      rw [hquota]
      simp only [Option.map_none, Option.getD_none, hself]
      rw [if_neg (by omega)]
      exact ⟨by change (0 : Int) < _; omega, rfl⟩
  | some row =>
      rw [hrow] at hquota
      have hrange := hreach (by rw [hquota]; rfl)
      have hstarted := h.started fingerprint row hrow
      have helapsed : q.quotaWindowSeconds ≤ saturatingSub now (quotaOf row).1 ↔
          row.windowStartedAt ≤ now - q.quotaWindowSeconds := by
        rw [show (quotaOf row).1 = row.windowStartedAt from rfl, saturatingSub_of hnow hstarted]
        omega
      simp only [hquota, Option.map_some, Option.getD_some, timestamptz_of hrange, ok_bind]
      by_cases hnew : row.windowStartedAt ≤ now - q.quotaWindowSeconds
      · rw [if_pos hnew, if_pos (helapsed.2 hnew)]
        refine Or.inl ⟨⟨now, 1, now⟩, rfl, hnow, ?_, rfl⟩
        change (0 : Int) < _
        omega
      · rw [if_neg hnew, if_neg (fun hle => hnew (helapsed.1 hle))]
        by_cases hroom : row.admitted < q.quotaMaxDeliveries
        · refine Or.inl ⟨⟨row.windowStartedAt, row.admitted + 1, now⟩, ?_, hstarted, hroom, rfl⟩
          rw [ensure_of hroom]
          rfl
        · refine Or.inr ⟨?_, Int.not_lt.1 hroom, rfl⟩
          rw [ensure_not hroom]
          rfl

theorem Rest.setQuota (h : Rest sha256 m p) {fingerprint : Fingerprint} {row : QuotaRow}
    (hstarted : Representable row.windowStartedAt) (auth : HashMap (PublicKey × EventId) Int)
    (request : HashMap (PublicKey × Uuid) Int) (auth' : HashMap (PublicKey × EventId) Int)
    (request' : HashMap (PublicKey × Uuid) Int) :
    Rest sha256
      { m with
        endpointQuotas := m.endpointQuotas.insert fingerprint (quotaOf row)
        deliveryAuthReplays := auth
        deliveryRequestReplays := request }
      { p with
        endpointQuotas := p.endpointQuotas.insert fingerprint row
        deliveryAuthReplays := auth'
        deliveryRequestReplays := request' } := by
  refine ⟨h.challenges, h.issued, ?_, ?_, h.tokens, h.ids, h.fits⟩
  · intro other
    change (m.endpointQuotas.insert fingerprint _).lookup other =
      ((p.endpointQuotas.insert fingerprint row).lookup other).map quotaOf
    rw [HashMap.lookup_insert_eq, HashMap.lookup_insert_eq]
    split_ifs
    · rfl
    · exact h.quotas other
  · intro other row' hrow'
    change (p.endpointQuotas.insert fingerprint row).lookup other = some row' at hrow'
    rw [HashMap.lookup_insert_eq] at hrow'
    split_ifs at hrow'
    · cases hrow'
      exact hstarted
    · exact h.started other row' hrow'

theorem Rest.resetQuota (h : Rest sha256 m p) {fingerprint : Fingerprint} {quota : Int × Int}
    (hquota : m.endpointQuotas.lookup fingerprint = some quota) :
    Rest sha256 { m with endpointQuotas := m.endpointQuotas.insert fingerprint quota } p := by
  refine ⟨h.challenges, h.issued, ?_, h.started, h.tokens, h.ids, h.fits⟩
  intro other
  change (m.endpointQuotas.insert fingerprint quota).lookup other = _
  rw [HashMap.lookup_insert_eq]
  split_ifs with hsame
  · rw [hsame, ← hquota]
    exact h.quotas fingerprint
  · exact h.quotas other

theorem memory_authorizeDelivery_eq {key : Uuid × PublicKey} {d : Delegation Bool}
    {i : Installation Bool} (hkey : m.delegationIds.lookup q.delegationId = some key)
    (hd : m.delegations.lookup key = some d)
    (hi : m.installations.lookup d.installationId = some i) :
    m.authorizeDelivery q now =
      if ¬ q.Admissible d i now then (.error .rejected, m)
      else if (m.deliveryAuthReplays.lookup (q.relayPubkey, q.eventId)).isSome ∨
          (m.deliveryRequestReplays.lookup (q.relayPubkey, q.requestId)).isSome then
        (.error .rejected, m)
      else if q.quotaMaxDeliveries ≤ (m.quota q i.tokenFingerprint now).2 then
        (.error .rejected, { m with
          endpointQuotas := m.endpointQuotas.insert i.tokenFingerprint
            (m.quota q i.tokenFingerprint now) })
      else (.ok (.permit (q.permit i d.expiresAt)), { m with
        endpointQuotas := m.endpointQuotas.insert i.tokenFingerprint
          ((m.quota q i.tokenFingerprint now).1, (m.quota q i.tokenFingerprint now).2 + 1)
        deliveryAuthReplays := m.deliveryAuthReplays.insert (q.relayPubkey, q.eventId)
          q.requestExpiresAt
        deliveryRequestReplays := m.deliveryRequestReplays.insert (q.relayPubkey, q.requestId)
          q.requestExpiresAt }) := by
  unfold MemoryState.authorizeDelivery
  rw [hkey]
  simp only [hd, hi]

theorem memory_authorizeDelivery_refused
    (hother : ∀ key ∈ m.delegationIds.lookup q.delegationId, ∀ d ∈ m.delegations.lookup key,
      ∀ i ∈ m.installations.lookup d.installationId, ¬ q.Admissible d i now) :
    m.authorizeDelivery q now = (.error .rejected, m) := by
  unfold MemoryState.authorizeDelivery
  split
  · rfl
  · next key hkey =>
      split
      · rfl
      · next d hd =>
          split
          · rfl
          · next i hi => rw [if_pos (hother key hkey d hd i hi)]

theorem reserve_agrees (h : Agrees sha256 m p) (hpromised : Promised now (.authorizeDelivery q))
    (halike : Alike m now (.authorizeDelivery q)) {d : Delegation (Option Int)}
    {i : Installation (Option Int)} (hd : p.delegationOf q.delegationId = some d)
    (hi : p.installations.lookup d.installationId = some i)
    (hkey : m.delegationIds.lookup q.delegationId = some d.key)
    (hd' : m.delegations.lookup d.key = some (PostgresState.shownDelegation d))
    (hi' : m.installations.lookup d.installationId = some (PostgresState.shown i))
    (hadmissible : q.Admissible (PostgresState.shownDelegation d) (PostgresState.shown i) now) :
    (m.authorizeDelivery q now).1 = (p.settle (p.authorizeDelivery q now)).1 ∧
      Rest sha256 (m.authorizeDelivery q now).2 (p.settle (p.authorizeDelivery q now)).2 := by
  have hid := (PostgresState.delegationOf_eq_some h.soundPostgres hd).2
  have hauth : m.deliveryAuthReplays.lookup (q.relayPubkey, q.eventId) =
      p.deliveryAuthReplays.lookup (q.relayPubkey, q.eventId) :=
    congrFun (congrArg Authority.authReplay h.view) _
  have hrequest : m.deliveryRequestReplays.lookup (q.relayPubkey, q.requestId) =
      p.deliveryRequestReplays.lookup (q.relayPubkey, q.requestId) :=
    congrFun (congrArg Authority.requestReplay h.view) _
  have hquota := quota_agrees h.rest hpromised.1 hpromised.2.2.1 hpromised.2.2.2
    (halike d.key hkey _ hd' _ hi' hadmissible)
  rw [memory_authorizeDelivery_eq hkey hd' hi', authorizeDelivery_eq hpromised hd hid hi,
    if_neg (not_not.2 hadmissible), if_pos hadmissible, hauth, hrequest]
  by_cases hfresh : p.deliveryAuthReplays.lookup (q.relayPubkey, q.eventId) = none ∧
      p.deliveryRequestReplays.lookup (q.relayPubkey, q.requestId) = none
  · rw [if_neg (by simp [hfresh]), ensure_of hfresh]
    rcases hquota with ⟨row, hrow, hstarted, hroom, hvalue⟩ | ⟨hrow, hfull, hsame⟩
    · change p.admitted q i.tokenFingerprint now = .ok row at hrow
      rw [if_neg (Int.not_le.2 hroom), hrow, ← hvalue]
      exact ⟨rfl, h.rest.setQuota hstarted _ _ _ _⟩
    · change p.admitted q i.tokenFingerprint now = _ at hrow
      rw [if_pos hfull, hrow]
      exact ⟨rfl, h.rest.resetQuota hsame⟩
  · have hreplayed : (p.deliveryAuthReplays.lookup (q.relayPubkey, q.eventId)).isSome = true ∨
        (p.deliveryRequestReplays.lookup (q.relayPubkey, q.requestId)).isSome = true := by
      rw [not_and_or] at hfresh
      simpa only [← Option.ne_none_iff_isSome] using hfresh
    rw [if_pos hreplayed, ensure_not hfresh]
    -- the quota may refuse first, with the same answer
    rcases hquota with ⟨row, hrow, _⟩ | ⟨hrow, _⟩
    · change p.admitted q i.tokenFingerprint now = _ at hrow
      rw [hrow]
      exact ⟨rfl, h.rest⟩
    · change p.admitted q i.tokenFingerprint now = _ at hrow
      rw [hrow]
      exact ⟨rfl, h.rest⟩

theorem authorizeDelivery_agrees (h : Agrees sha256 m p)
    (hpromised : Promised now (.authorizeDelivery q)) (halike : Alike m now (.authorizeDelivery q)) :
    (m.exec now (.authorizeDelivery q)).1 = (p.exec sha256 now (.authorizeDelivery q)).1 ∧
      Rest sha256 (m.exec now (.authorizeDelivery q)).2
        (p.exec sha256 now (.authorizeDelivery q)).2 := by
  change (m.authorizeDelivery q now).1 = (p.settle (p.authorizeDelivery q now)).1 ∧
    Rest sha256 (m.authorizeDelivery q now).2 (p.settle (p.authorizeDelivery q now)).2
  -- refused by both stores
  have hrefused : p.authorizeDelivery q now = .error .rejected →
      m.authorizeDelivery q now = (.error .rejected, m) →
      (m.authorizeDelivery q now).1 = (p.settle (p.authorizeDelivery q now)).1 ∧
        Rest sha256 (m.authorizeDelivery q now).2 (p.settle (p.authorizeDelivery q now)).2 := by
    intro hp hm
    rw [hp, hm]
    exact ⟨rfl, h.rest⟩
  rcases delegationOf_agrees h q.delegationId with ⟨d, hd, hkey, hd'⟩ | ⟨hnone, hother⟩
  · have hid := (PostgresState.delegationOf_eq_some h.soundPostgres hd).2
    have hi' := h.installation d.installationId
    cases hi : p.installations.lookup d.installationId with
    | none =>
        rw [hi] at hi'
        refine hrefused ?_ (memory_authorizeDelivery_refused ?_)
        · simp only [PostgresState.authorizeDelivery, hd, fetched, ok_bind, hi, error_bind]
        · intro key hk e he j hj
          cases hkey.symm.trans hk
          cases hd'.symm.trans he
          cases hi'.symm.trans hj
    | some i =>
        rw [hi] at hi'
        by_cases hadmissible :
            q.Admissible (PostgresState.shownDelegation d) (PostgresState.shown i) now
        · exact reserve_agrees h hpromised halike hd hi hkey hd' hi' hadmissible
        · refine hrefused ?_ (memory_authorizeDelivery_refused ?_)
          · rw [authorizeDelivery_eq hpromised hd hid hi, if_neg hadmissible]
          · intro key hk e he j hj
            cases hkey.symm.trans hk
            cases hd'.symm.trans he
            cases hi'.symm.trans hj
            exact hadmissible
  · refine hrefused ?_ (memory_authorizeDelivery_refused ?_)
    · simp only [PostgresState.authorizeDelivery, hnone, fetched, error_bind]
    · -- the reference store may still know the id, but not as that of a delegation
      intro key hk e he j hj hadmissible
      exact hother key hk e he hadmissible.2.2.1

end Deliveries

/-! ## Steps -/

/-- A call that succeeds changes the view in one way only, but for the state of a delegation that is
stored and for what is reaped. -/
theorem Performed.unique {now : Int} {a b c : Authority} {request : Request} {response : Response}
    (hb : Performed now a b request response) (hc : Performed now a c request response)
    (hupsert : ∀ d, request ≠ .upsertDelegation d) (hreap : request ≠ .reapExpired) : b = c := by
  cases request with
  | createInstallation n =>
      ext1
      · funext id
        by_cases hid : id = n.id
        · rw [hid, hb.created, hc.created]
        · rw [hb.others id hid, hc.others id hid]
      · funext key
        rw [hb.delegations, hc.delegations]
      · rw [hb.authReplay, hc.authReplay]
      · rw [hb.requestReplay, hc.requestReplay]
  | advanceAssertionCounter id previous next =>
      obtain ⟨i, hi, _, _, _, rfl⟩ := hb
      obtain ⟨j, hj, _, _, _, rfl⟩ := hc
      cases hi.symm.trans hj
      rfl
  | upsertDelegation d => exact absurd rfl (hupsert d)
  | rotateEndpoint id expected new ciphertext fingerprint =>
      obtain ⟨i, hi, _, _, _, _, rfl⟩ := hb
      obtain ⟨j, hj, _, _, _, _, rfl⟩ := hc
      cases hi.symm.trans hj
      rfl
  | revokeDelegation id relay generation =>
      obtain ⟨d, hd, _, _, _, rfl⟩ := hb
      obtain ⟨e, he, _, _, _, rfl⟩ := hc
      cases hd.symm.trans he
      rfl
  | revokeInstallation id expected new =>
      obtain ⟨i, hi, _, _, _, rfl⟩ := hb
      obtain ⟨j, hj, _, _, _, rfl⟩ := hc
      cases hi.symm.trans hj
      rfl
  | authorizeDelivery q =>
      obtain ⟨_, _, _, _, _, _, _, _, _, rfl⟩ := hb
      obtain ⟨_, _, _, _, _, _, _, _, _, rfl⟩ := hc
      rfl
  | finishDelivery permit disposition =>
      cases disposition with
      | terminal => exact Eq.trans hb (Eq.symm hc)
      | retryable => exact Eq.trans hb (Eq.symm hc)
  | reapExpired => exact absurd rfl hreap
  | ready => exact Eq.trans hb (Eq.symm hc)
  | putChallenge c => exact Eq.trans hb (Eq.symm hc)
  | consumeChallenge id value => exact Eq.trans hb (Eq.symm hc)
  | matchingInstallation keyId profile fingerprint epoch expiresAt =>
      exact Eq.trans hb (Eq.symm hc)
  | installation id => exact Eq.trans hb (Eq.symm hc)

section Steps

variable {sha256 : Bytes → Bytes} {m : MemoryState} {p : PostgresState} {now : Int}
  {request : Request}

theorem Agrees.exec (h : Agrees sha256 m p) (hupsert : ∀ d, request ≠ .upsertDelegation d)
    (hreap : request ≠ .reapExpired)
    (hanswer : (m.exec now request).1 = (p.exec sha256 now request).1)
    (hrest : Rest sha256 (m.exec now request).2 (p.exec sha256 now request).2) :
    Agrees sha256 (m.exec now request).2 (p.exec sha256 now request).2 := by
  obtain ⟨hm, hmsound⟩ : Outcome now m.view (m.exec now request).2.view request
      (m.exec now request).1 ∧ (m.exec now request).2.Sound :=
    MemoryState.outcome_exec h.soundMemory request
  obtain ⟨hp, hpsound⟩ : Outcome now p.view (p.exec sha256 now request).2.view request
      (p.exec sha256 now request).1 ∧ (p.exec sha256 now request).2.Sound :=
    PostgresState.outcome_exec sha256 h.soundPostgres request
  refine ⟨?_, hmsound, hpsound, h.unique.outcome hm, hrest⟩
  rw [← h.view, ← hanswer] at hp
  cases hresult : (m.exec now request).1 with
  | error e =>
      rw [hresult] at hm hp
      exact Eq.trans hm (Eq.symm hp)
  | ok response =>
      rw [hresult] at hm hp
      exact Performed.unique hm hp hupsert hreap

theorem upsertDelegation_agrees {d : Delegation Bool} (h : Agrees sha256 m p)
    (hpromised : Promised now (.upsertDelegation d)) (halike : Alike m now (.upsertDelegation d)) :
    (m.exec now (.upsertDelegation d)).1 = (p.exec sha256 now (.upsertDelegation d)).1 ∧
      Agrees sha256 (m.exec now (.upsertDelegation d)).2
        (p.exec sha256 now (.upsertDelegation d)).2 := by
  obtain ⟨hm, hmsound⟩ : Outcome now m.view (m.exec now (.upsertDelegation d)).2.view
      (.upsertDelegation d) (m.exec now (.upsertDelegation d)).1 ∧
      (m.exec now (.upsertDelegation d)).2.Sound :=
    MemoryState.outcome_exec h.soundMemory (.upsertDelegation d)
  have hpsound : (p.exec sha256 now (.upsertDelegation d)).2.Sound :=
    (PostgresState.outcome_exec sha256 h.soundPostgres (.upsertDelegation d)).2
  have hunique := h.unique.outcome hm
  rcases upsertDelegation_cases h hpromised halike with ⟨hm', hp'⟩ |
    ⟨i, hi, hnew, hrevoked, hm', hp'⟩
  · rw [hm', hp']
    exact ⟨rfl, h⟩
  · rw [hm'] at hmsound hunique ⊢
    rw [hp'] at hpsound ⊢
    have hi' := h.installation d.installationId
    rw [hi] at hi'
    refine ⟨rfl, ?_, hmsound, hpsound, hunique, ?_⟩
    · have hstored : PostgresState.shownDelegation (d.setRevoked none) = d := by
        rcases d with ⟨_, _, _, _, _, _, _, revoked⟩
        cases hrevoked
        rfl
      calc
        _ = (m.view.setInstallation d.installationId
              ((PostgresState.shown i).extend d.expiresAt)).setDelegation d := by
              ext1
              · exact lookup_insert_update _ _ m.installations
              · exact lookup_insert_update _ _ m.delegations
              · rfl
              · rfl
        _ = (p.view.setInstallation d.installationId
              (PostgresState.shown (i.extend d.expiresAt))).setDelegation
                (PostgresState.shownDelegation (d.setRevoked none)) := by
              rw [h.view, hstored]
              rfl
        _ = _ := by
              rw [← PostgresState.view_setInstallation]
              exact (PostgresState.view_setDelegation _ (d.setRevoked none)).symm
    · have hset : Rest sha256
          { m with
            installations := m.installations.insert d.installationId
              ((PostgresState.shown i).extend d.expiresAt) }
          { p with
            installations := p.installations.insert d.installationId (i.extend d.expiresAt) } :=
        h.rest.setInstallation (h.rest.fits _ i hi) hi' rfl
      exact hset.setDelegation hnew

theorem finishDelivery_agrees {permit : DeliveryPermit} {disposition : DeliveryDisposition}
    (h : Rest sha256 m p) :
    (m.exec now (.finishDelivery permit disposition)).1 =
        (p.exec sha256 now (.finishDelivery permit disposition)).1 ∧
      Rest sha256 (m.exec now (.finishDelivery permit disposition)).2
        (p.exec sha256 now (.finishDelivery permit disposition)).2 := by
  cases disposition with
  | terminal => exact ⟨rfl, h⟩
  | retryable =>
      exact ⟨rfl, h.challenges, h.issued, h.quotas, h.started, h.tokens, h.ids, h.fits⟩

theorem Agrees.step (h : Agrees sha256 m p) (hpromised : Promised now request)
    (halike : Alike m now request) :
    (m.exec now request).1 = (p.exec sha256 now request).1 ∧
      Agrees sha256 (m.exec now request).2 (p.exec sha256 now request).2 := by
  have hkeep : (∀ d, request ≠ .upsertDelegation d) → request ≠ .reapExpired →
      ((m.exec now request).1 = (p.exec sha256 now request).1 ∧
        Rest sha256 (m.exec now request).2 (p.exec sha256 now request).2) →
      (m.exec now request).1 = (p.exec sha256 now request).1 ∧
        Agrees sha256 (m.exec now request).2 (p.exec sha256 now request).2 := by
    intro hupsert hreap hboth
    exact ⟨hboth.1, h.exec hupsert hreap hboth.1 hboth.2⟩
  cases request with
  | upsertDelegation d => exact upsertDelegation_agrees h hpromised halike
  | reapExpired => exact hpromised.elim
  | ready => exact hkeep (nofun) (nofun) ⟨rfl, h.rest⟩
  | putChallenge c =>
      exact hkeep (nofun) (nofun) (putChallenge_agrees h.rest hpromised halike)
  | consumeChallenge id value =>
      exact hkeep (nofun) (nofun) (consumeChallenge_agrees h.rest hpromised halike)
  | createInstallation n =>
      exact hkeep (nofun) (nofun) (createInstallation_agrees h hpromised halike)
  | matchingInstallation keyId profile fingerprint epoch expiresAt =>
      exact hkeep (nofun) (nofun) ⟨matchingInstallation_agrees h hpromised, h.rest⟩
  | installation id =>
      exact hkeep (nofun) (nofun) ⟨installation_agrees h hpromised, h.rest⟩
  | advanceAssertionCounter id previous next =>
      exact hkeep (nofun) (nofun) (advanceAssertionCounter_agrees h)
  | rotateEndpoint id expected new ciphertext fingerprint =>
      exact hkeep (nofun) (nofun) (rotateEndpoint_agrees h halike)
  | revokeDelegation id relay generation =>
      exact hkeep (nofun) (nofun) (revokeDelegation_agrees h)
  | revokeInstallation id expected new =>
      exact hkeep (nofun) (nofun) (revokeInstallation_agrees h)
  | authorizeDelivery q =>
      exact hkeep (nofun) (nofun) (authorizeDelivery_agrees h hpromised halike)
  | finishDelivery permit disposition =>
      exact hkeep (nofun) (nofun) (finishDelivery_agrees h.rest)

theorem agrees_empty (sha256 : Bytes → Bytes) : Agrees sha256 .empty .empty where
  view := rfl
  soundMemory := MemoryState.sound_empty
  soundPostgres := PostgresState.sound_empty
  unique := fun _ _ _ _ h => (by cases h)
  rest :=
    ⟨fun _ => rfl, fun _ => rfl, fun _ => rfl, fun _ _ h => (by cases h), fun _ _ h => (by cases h),
      fun _ _ h => (by cases h), fun _ _ h => (by cases h)⟩

end Steps

/-! ## Runs -/

abbrev TimedCall := Int × Request

/-- The reference store answers a call. -/
def memoryAnswer (s : MemoryState) (call : TimedCall) : Result × MemoryState :=
  s.exec call.1 call.2

/-- The store in production answers a call. -/
def postgresAnswer (sha256 : Bytes → Bytes) (s : PostgresState) (call : TimedCall) :
    Result × PostgresState :=
  s.exec sha256 call.1 call.2

/-- A call within what is promised, on which the stores do the same. -/
def AlikeCall (s : MemoryState) (call : TimedCall) : Prop :=
  Promised call.1 call.2 ∧ Alike s call.1 call.2

instance AlikeCall.decidable (s : MemoryState) (call : TimedCall) : Decidable (AlikeCall s call) :=
  inferInstanceAs (Decidable (_ ∧ _))

theorem stores_agree (sha256 : Bytes → Bytes) (calls : List TimedCall)
    (h : Run.Along AlikeCall (Lockstep.next memoryAnswer) .empty calls) :
    Lockstep.answers memoryAnswer .empty calls =
      Lockstep.answers (postgresAnswer sha256) .empty calls := by
  have hstep : ∀ m p call, Agrees sha256 m p → AlikeCall m call →
      (memoryAnswer m call).1 = (postgresAnswer sha256 p call).1 ∧
        Agrees sha256 (memoryAnswer m call).2 (postgresAnswer sha256 p call).2 := by
    intro m p call hagrees hcall
    exact hagrees.step hcall.1 hcall.2
  exact Lockstep.answers_eq (Agrees sha256) hstep (agrees_empty sha256) h

namespace Sample

def zeros : Bytes := List.replicate 32 0

def ones : Bytes := List.replicate 32 1

def sha256 (value : Bytes) : Bytes :=
  if value = ones then
    [114, 205, 110, 132, 34, 196, 7, 251, 109, 9, 134, 144, 241, 19, 11, 125, 237, 126, 194, 247,
      245, 225, 211, 11, 217, 213, 33, 240, 21, 54, 55, 147]
  else
    [102, 104, 122, 173, 248, 98, 189, 119, 108, 143, 193, 139, 142, 159, 142, 32, 8, 151, 20, 133,
      110, 226, 51, 179, 144, 42, 89, 29, 13, 95, 41, 37]

def challenge : Challenge := ⟨1, zeros, 100, 400⟩

/-- A challenge that is answered, an installation, and a push that is sent again. -/
def enrolment : List TimedCall :=
  [(100, .putChallenge challenge), (110, .consumeChallenge 1 zeros),
    (120, .createInstallation phone), (121, .upsertDelegation (grant 5 5 1000)),
    (130, .authorizeDelivery (push 1 150)), (131, .finishDelivery permit .retryable),
    (132, .authorizeDelivery (push 2 150)), (140, .rotateEndpoint 1 1 2 [4] 6),
    (150, .authorizeDelivery (push 3 200))]

/-- A challenge that is first answered wrongly. -/
def guessed : List TimedCall :=
  [(100, .putChallenge challenge), (101, .consumeChallenge 1 ones), (102, .consumeChallenge 1 zeros)]

/-- Runs of other kinds on which the stores differ: a challenge is put twice, a revoked installation
is created again, a delegation has no generation, the id of a delegation is used again, a token is
that of another installation, and a key is empty. -/
def differing : List (List TimedCall) :=
  [[(100, .putChallenge challenge), (100, .putChallenge challenge)],
    [(0, .createInstallation phone), (1, .revokeInstallation 1 1 2), (2, .createInstallation phone)],
    [(0, .createInstallation phone), (1, .upsertDelegation (grant 5 0 100))],
    [(0, .createInstallation phone), (1, .upsertDelegation (grant 5 1 100)),
      (2, .upsertDelegation (grant 5 2 100))],
    [(0, .createInstallation phone),
      (1, .createInstallation { phone with id := 2, appAttestKeyId := [2], tokenFingerprint := 8 }),
      (2, .rotateEndpoint 2 1 2 [4] 4)],
    [(0, .createInstallation { phone with appAttestKeyId := [] })]]

end Sample

theorem stores_agree_enrolment :
    Run.Along AlikeCall (Lockstep.next memoryAnswer) .empty Sample.enrolment ∧
      Lockstep.answers memoryAnswer .empty Sample.enrolment =
        Lockstep.answers (postgresAnswer Sample.sha256) .empty Sample.enrolment := by
  have halong : Run.Along AlikeCall (Lockstep.next memoryAnswer) .empty Sample.enrolment := by
    decide
  exact ⟨halong, stores_agree Sample.sha256 Sample.enrolment halong⟩

/-- A wrong answer uses up the challenge in the reference store only. -/
theorem stores_differ :
    (¬ ∀ calls : List TimedCall, (∀ call ∈ calls, Promised call.1 call.2) →
      Lockstep.answers memoryAnswer .empty calls =
        Lockstep.answers (postgresAnswer Sample.sha256) .empty calls) ∧
    ∀ calls ∈ Sample.differing, (∀ call ∈ calls, Promised call.1 call.2) ∧
      Lockstep.answers memoryAnswer .empty calls ≠
        Lockstep.answers (postgresAnswer Sample.sha256) .empty calls := by
  constructor
  · intro hall
    have hsame := hall Sample.guessed (by decide)
    exact absurd hsame (by decide)
  · decide

end PushGateway
end Maju
