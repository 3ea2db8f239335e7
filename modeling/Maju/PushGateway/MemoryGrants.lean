import Maju.PushGateway.Memory
import Maju.PushGateway.Grants

/-!
# MemoryGrants — the reference store does what a store may do

* `MemoryState.Sound` — installations and delegations are stored under their own keys, and the
  owner of every token is its installation;
* `MemoryState.outcome_exec` — a call does what `Grants` says of it.
-/

namespace Maju
namespace PushGateway
namespace MemoryState

open Lib Core

def view (s : MemoryState) : Authority where
  installation id := s.installations.lookup id
  delegation key := s.delegations.lookup key
  authReplay key := s.deliveryAuthReplays.lookup key
  requestReplay key := s.deliveryRequestReplays.lookup key

structure Sound (s : MemoryState) : Prop where
  ids : ∀ id i, s.installations.lookup id = some i → i.id = id
  owners : ∀ id i, s.installations.lookup id = some i → s.tokenOwners.lookup i.token = some id
  keys : ∀ key d, s.delegations.lookup key = some d → d.key = key

theorem sound_empty : Sound empty :=
  ⟨fun _ _ h => (nomatch h), fun _ _ h => (nomatch h), fun _ _ h => (nomatch h)⟩

variable {s : MemoryState} {now : Int}

theorem Sound.token_unique (hs : Sound s) {id id' : Uuid} {i i' : Installation Bool}
    (hi : s.installations.lookup id = some i) (hi' : s.installations.lookup id' = some i')
    (htoken : i.token = i'.token) : id = id' := by
  have howner := hs.owners id i hi
  rw [htoken, hs.owners id' i' hi'] at howner
  exact (Option.some.inj howner).symm

/-! ## Calls that set an installation or a delegation -/

theorem view_setInstallation (s : MemoryState) (id : Uuid) (i : Installation Bool)
    (owners : HashMap (AppProfile × Fingerprint) Uuid) :
    view { s with installations := s.installations.insert id i, tokenOwners := owners } =
      s.view.setInstallation id i := by
  ext1
  · funext id'
    rw [setInstallation_apply]
    exact HashMap.lookup_insert_eq id id' i s.installations
  all_goals rfl

theorem view_setDelegation (s : MemoryState) (d : Delegation Bool) :
    view { s with delegations := s.delegations.insert d.key d } = s.view.setDelegation d := by
  ext1
  · rfl
  · funext key
    rw [setDelegation_apply]
    exact HashMap.lookup_insert_eq d.key key d s.delegations
  all_goals rfl

theorem Sound.setInstallation (hs : Sound s) {id : Uuid} {i i' : Installation Bool}
    (hi : s.installations.lookup id = some i) (hid : i'.id = i.id) (htoken : i'.token = i.token) :
    Sound { s with installations := s.installations.insert id i' } := by
  have hcases : ∀ id' j, (s.installations.insert id i').lookup id' = some j →
      (id' = id ∧ j = i') ∨ s.installations.lookup id' = some j := by
    intro id' j hj
    rw [HashMap.lookup_insert_eq] at hj
    split_ifs at hj with hsame
    · exact Or.inl ⟨hsame, (Option.some.inj hj).symm⟩
    · exact Or.inr hj
  refine ⟨?_, ?_, hs.keys⟩
  · intro id' j hj
    rcases hcases id' j hj with ⟨rfl, rfl⟩ | hold
    · exact hid.trans (hs.ids id' i hi)
    · exact hs.ids id' j hold
  · intro id' j hj
    change s.tokenOwners.lookup j.token = some id'
    rcases hcases id' j hj with ⟨rfl, rfl⟩ | hold
    · rw [htoken]
      exact hs.owners id' i hi
    · exact hs.owners id' j hold

theorem Sound.setDelegation (hs : Sound s) (d : Delegation Bool) :
    Sound { s with delegations := s.delegations.insert d.key d } := by
  refine ⟨hs.ids, hs.owners, ?_⟩
  intro key e he
  change (s.delegations.insert d.key d).lookup key = some e at he
  rw [HashMap.lookup_insert_eq] at he
  split_ifs at he with hsame
  · cases he
    exact hsame.symm
  · exact hs.keys key e he

/-! ## Creation -/

theorem lookup_remove (hs : Sound s) (n : NewInstallation) (id : Uuid) :
    (s.remove (s.replaced n)).installations.lookup id =
      (s.installations.lookup id).filter fun i => !n.conflicts i :=
  lookup_retain_conflicting hs.ids id

theorem Sound.remove (hs : Sound s) (n : NewInstallation) : Sound (s.remove (s.replaced n)) := by
  have hleft : ∀ id i, (s.remove (s.replaced n)).installations.lookup id = some i →
      s.installations.lookup id = some i ∧ n.conflicts i = false := by
    intro id i hi
    rw [lookup_remove hs] at hi
    obtain ⟨hi, hfree⟩ := Option.filter_eq_some_iff.1 hi
    exact ⟨hi, by simpa using hfree⟩
  refine ⟨fun id i hi => hs.ids id i (hleft id i hi).1, ?_, ?_⟩
  · intro id i hi
    obtain ⟨hold, hfree⟩ := hleft id i hi
    change (s.tokenOwners.retain _).lookup i.token = some id
    rw [HashMap.lookup_retain, hs.owners id i hold, Option.filter_some, if_pos]
    -- a replaced installation of the same token would be this one
    simp only [decide_eq_true_eq, List.mem_map, not_exists, not_and]
    intro j hj htoken
    obtain ⟨⟨id', hid'⟩, hconflict⟩ := mem_conflicting.1 hj
    have hsame := hs.token_unique hid' hold htoken
    rw [hsame, hold] at hid'
    cases hid'
    rw [hfree] at hconflict
    cases hconflict
  · intro key d hd
    change (s.delegations.retain _).lookup key = some d at hd
    rw [HashMap.lookup_retain] at hd
    exact hs.keys key d (Option.filter_eq_some_iff.1 hd).1

theorem createInstallation_ok {n : NewInstallation} (hs : Sound s) {s' : MemoryState}
    {response : Response} (h : s.createInstallation n now = (.ok response, s')) :
    Creates now s.view s'.view n ∧ Sound s' := by
  unfold createInstallation at h
  split at h
  · cases h
  next hnew =>
  split at h
  · cases h
  next hdead =>
  cases h
  have hremoved := hs.remove n
  have hlookup : ∀ id, ((s.remove (s.replaced n)).installations.insert n.id
      (n.stored false)).lookup id = if id = n.id then some (n.stored false)
        else (s.installations.lookup id).filter fun i => !n.conflicts i := by
    intro id
    rw [HashMap.lookup_insert_eq, lookup_remove hs]
  refine ⟨⟨?_, ?_, ?_, ?_, ?_, rfl, rfl⟩, ?_, ?_, hremoved.keys⟩
  · intro id i hi hconflict hlive
    refine hdead (List.any_eq_true.2 ⟨i, mem_conflicting.2 ⟨⟨id, hi⟩, hconflict⟩, ?_⟩)
    simpa [Installation.Live] using hlive
  · intro i hi
    exact absurd (show (s.installations.lookup n.id).isSome = true by
      rw [show s.installations.lookup n.id = some i from hi]; rfl) hnew
  · exact (hlookup n.id).trans (if_pos rfl)
  · intro id hne
    exact (hlookup id).trans (if_neg hne)
  · intro key
    exact lookup_retain_delegations hs.ids s.delegations key
  · intro id i hi
    change ((s.remove (s.replaced n)).installations.insert n.id (n.stored false)).lookup id =
      some i at hi
    rw [HashMap.lookup_insert_eq] at hi
    split_ifs at hi with hsame
    · cases hi
      exact hsame.symm
    · exact hremoved.ids id i hi
  · intro id i hi
    change ((s.remove (s.replaced n)).tokenOwners.insert (n.profile, n.tokenFingerprint)
      n.id).lookup i.token = some id
    change ((s.remove (s.replaced n)).installations.insert n.id (n.stored false)).lookup id =
      some i at hi
    rw [HashMap.lookup_insert_eq] at hi ⊢
    split_ifs at hi with hsame
    · cases hi
      rw [if_pos (show (n.stored false).token = (n.profile, n.tokenFingerprint) from rfl), hsame]
    · rw [if_neg]
      · exact hremoved.owners id i hi
      · -- an installation left does not have the token of the new one
        intro htoken
        rw [lookup_remove hs] at hi
        have hfree := (Option.filter_eq_some_iff.1 hi).2
        rw [conflicts_of (Or.inr htoken)] at hfree
        cases hfree

/-! ## Every call -/

variable {s' : MemoryState} {response : Response}

theorem advanceAssertionCounter_ok {id : Uuid} {previous next : UInt32} (hs : Sound s)
    (h : s.advanceAssertionCounter id previous next = (.ok response, s')) :
    Performed now s.view s'.view (.advanceAssertionCounter id previous next) response ∧
      Sound s' := by
  unfold advanceAssertionCounter at h
  split at h
  · cases h
  next hlt =>
  split at h
  · cases h
  next i hi =>
  split at h
  · cases h
  next hlive =>
  cases h
  rw [not_or] at hlive
  refine ⟨⟨i, hi, by simpa using hlive.1, not_not.1 hlive.2, UInt32.not_le.1 hlt, ?_⟩, ?_⟩
  · exact view_setInstallation s id _ s.tokenOwners
  · exact hs.setInstallation hi rfl rfl

theorem upsertDelegation_ok {d : Delegation Bool} (hs : Sound s)
    (h : s.upsertDelegation d = (.ok response, s')) :
    Performed now s.view s'.view (.upsertDelegation d) response ∧ Sound s' := by
  unfold upsertDelegation at h
  split at h
  · cases h
  next i hi =>
  split at h
  · cases h
  next hlive =>
  split at h
  · cases h
  next hnewer =>
  cases h
  simp only [not_or] at hlive hnewer
  have hset : Sound { s with
      installations := s.installations.insert d.installationId
        { i with expiresAt := max i.expiresAt d.expiresAt } } := hs.setInstallation hi rfl rfl
  refine ⟨⟨i, d.revoked, hi, by simpa using hlive.1, not_not.1 hlive.2.1, ?_, ?_⟩, ?_⟩
  · intro old hold
    have hnot := hnewer.1
    rw [show s.delegations.lookup d.key = some old from hold] at hnot
    simpa using hnot
  · have hview := view_setDelegation { s with
      installations := s.installations.insert d.installationId
        { i with expiresAt := max i.expiresAt d.expiresAt } } d
    rw [view_setInstallation s d.installationId _ s.tokenOwners] at hview
    exact hview
  · have hboth := hset.setDelegation d
    exact ⟨hboth.ids, hboth.owners, hboth.keys⟩

theorem rotateEndpoint_ok {id : Uuid} {expected new : Int} {ciphertext : Bytes}
    {fingerprint : Fingerprint} (hs : Sound s)
    (h : s.rotateEndpoint id expected new ciphertext fingerprint = (.ok response, s')) :
    Performed now s.view s'.view (.rotateEndpoint id expected new ciphertext fingerprint)
        response ∧
      Sound s' := by
  unfold rotateEndpoint at h
  split at h
  · cases h
  next hsuccessor =>
  split at h
  · cases h
  next i hi =>
  split at h
  · cases h
  next hlive =>
  split at h
  · cases h
  next hfree =>
  cases h
  rw [not_or] at hlive
  have hnew : new = expected + 1 := by
    simp only [notSuccessor, decide_eq_true_eq, not_or] at hsuccessor
    exact not_not.1 hsuccessor.2
  -- an installation with the new token is its owner
  have howner : ∀ id' j, s.installations.lookup id' = some j →
      j.token = (i.profile, fingerprint) → id' = id := by
    intro id' j hj htoken
    by_contra hne
    refine hfree ?_
    rw [← htoken, hs.owners id' j hj]
    simpa using hne
  refine ⟨⟨i, hi, by simpa using hlive.1, not_not.1 hlive.2, hnew, howner, ?_⟩, ?_, ?_, hs.keys⟩
  · exact view_setInstallation s id _ _
  · intro id' j hj
    change (s.installations.insert id _).lookup id' = some j at hj
    rw [HashMap.lookup_insert_eq] at hj
    split_ifs at hj with hsame
    · cases hj
      exact (hs.ids id i hi).trans hsame.symm
    · exact hs.ids id' j hj
  · intro id' j hj
    change ((s.tokenOwners.erase i.token).insert (i.profile, fingerprint) id).lookup j.token =
      some id'
    change (s.installations.insert id _).lookup id' = some j at hj
    rw [HashMap.lookup_insert_eq] at hj ⊢
    split_ifs at hj with hsame
    · cases hj
      refine (if_pos ?_).trans (by rw [hsame])
      rfl
    · rw [if_neg fun htoken => hsame (howner id' j hj htoken), HashMap.lookup_erase_eq, if_neg]
      · exact hs.owners id' j hj
      · exact fun htoken => hsame (hs.token_unique hj hi htoken)

theorem revokeDelegation_ok {id : Uuid} {relay : PublicKey} {generation : Int} (hs : Sound s)
    (h : s.revokeDelegation id relay generation = (.ok response, s')) :
    Performed now s.view s'.view (.revokeDelegation id relay generation) response ∧ Sound s' := by
  unfold revokeDelegation at h
  split at h
  · cases h
  next d hd =>
  split at h
  · cases h
  next hlive =>
  cases h
  rw [not_or] at hlive
  have hkey := hs.keys (id, relay) d hd
  have hset := hs.setDelegation { d with revoked := true }
  rw [show ({ d with revoked := true } : Delegation Bool).key = (id, relay) from hkey] at hset
  refine ⟨⟨d, hd, by simpa using hlive.1, (not_not.1 hlive.2).symm, hkey, ?_⟩, hset⟩
  rw [← view_setDelegation, show ({ d with revoked := true } : Delegation Bool).key = (id, relay)
    from hkey]

theorem revokeInstallation_ok {id : Uuid} {expected new : Int} (hs : Sound s)
    (h : s.revokeInstallation id expected new = (.ok response, s')) :
    Performed now s.view s'.view (.revokeInstallation id expected new) response ∧ Sound s' := by
  unfold revokeInstallation at h
  split at h
  · cases h
  next hsuccessor =>
  split at h
  · cases h
  next i hi =>
  split at h
  · cases h
  next hlive =>
  cases h
  rw [not_or] at hlive
  have hnew : new = expected + 1 := by
    simp only [notSuccessor, decide_eq_true_eq, not_or] at hsuccessor
    exact not_not.1 hsuccessor.2
  refine ⟨⟨i, hi, by simpa using hlive.1, not_not.1 hlive.2, hnew, ?_⟩, ?_⟩
  · exact view_setInstallation s id _ s.tokenOwners
  · exact hs.setInstallation hi rfl rfl

theorem authorizeDelivery_ok {q : Delivery} (hs : Sound s)
    (h : s.authorizeDelivery q now = (.ok response, s')) :
    Performed now s.view s'.view (.authorizeDelivery q) response ∧ Sound s' := by
  unfold authorizeDelivery at h
  split at h
  · cases h
  next key hkey =>
  split at h
  · cases h
  next d hd =>
  split at h
  · cases h
  next i hi =>
  split at h
  · cases h
  next hadmissible =>
  split at h
  · cases h
  next hfresh =>
  simp only at h
  split at h
  · cases h
  cases h
  simp only [not_or] at hfresh
  refine ⟨⟨d, i, ?_, hi, not_not.1 hadmissible, hs.ids _ i hi, rfl,
    Option.not_isSome_iff_eq_none.1 hfresh.1, Option.not_isSome_iff_eq_none.1 hfresh.2, ?_⟩,
    hs.ids, hs.owners, hs.keys⟩
  · rw [hs.keys key d hd]
    exact hd
  · ext1
    · rfl
    · rfl
    · exact lookup_insert_update _ _ s.deliveryAuthReplays
    · exact lookup_insert_update _ _ s.deliveryRequestReplays

theorem finishDelivery_ok {permit : DeliveryPermit} {disposition : DeliveryDisposition}
    (hs : Sound s) (h : s.finishDelivery permit disposition = (.ok response, s')) :
    Performed now s.view s'.view (.finishDelivery permit disposition) response ∧ Sound s' := by
  unfold finishDelivery at h
  cases disposition with
  | terminal =>
      cases h
      exact ⟨rfl, hs⟩
  | retryable =>
      cases h
      refine ⟨?_, hs.ids, hs.owners, hs.keys⟩
      change view _ = _
      ext1
      · rfl
      · rfl
      · rfl
      · exact lookup_erase_update _ s.deliveryRequestReplays

theorem reapExpired_ok (hs : Sound s) (h : s.reapExpired now = (.ok response, s')) :
    Performed now s.view s'.view .reapExpired response ∧ Sound s' ∧
      s'.view.delegation = s.view.delegation := by
  cases h
  refine ⟨⟨fun _ => Or.inl rfl, fun _ => Or.inl rfl, ?_, ?_⟩, ⟨hs.ids, hs.owners, hs.keys⟩, rfl⟩
  · exact fades_retain now s.deliveryAuthReplays
  · exact fades_retain now s.deliveryRequestReplays

theorem view_of_error {request : Request} {e : AuthorityError}
    (h : exec now s request = (.error e, s')) :
    s'.view = s.view ∧ s'.installations = s.installations ∧ s'.tokenOwners = s.tokenOwners ∧
      s'.delegations = s.delegations := by
  cases request with
  | ready => cases h
  | putChallenge c =>
      simp only [exec, putChallenge] at h
      split_ifs at h <;> cases h <;> exact ⟨rfl, rfl, rfl, rfl⟩
  | consumeChallenge id value =>
      simp only [exec, consumeChallenge] at h
      split at h
      · cases h
        exact ⟨rfl, rfl, rfl, rfl⟩
      · split_ifs at h <;> cases h
        exact ⟨rfl, rfl, rfl, rfl⟩
  | createInstallation n =>
      simp only [exec, createInstallation] at h
      split_ifs at h <;> cases h <;> exact ⟨rfl, rfl, rfl, rfl⟩
  | matchingInstallation keyId profile fingerprint epoch expiresAt => cases h
  | installation id =>
      obtain ⟨_, rfl⟩ := Prod.mk.inj h
      exact ⟨rfl, rfl, rfl, rfl⟩
  | advanceAssertionCounter id previous next =>
      simp only [exec, advanceAssertionCounter] at h
      split_ifs at h
      · cases h
        exact ⟨rfl, rfl, rfl, rfl⟩
      · split at h
        · cases h
          exact ⟨rfl, rfl, rfl, rfl⟩
        · split_ifs at h <;> cases h
          exact ⟨rfl, rfl, rfl, rfl⟩
  | upsertDelegation d =>
      simp only [exec, upsertDelegation] at h
      split at h
      · cases h
        exact ⟨rfl, rfl, rfl, rfl⟩
      · split_ifs at h <;> cases h <;> exact ⟨rfl, rfl, rfl, rfl⟩
  | rotateEndpoint id expected new ciphertext fingerprint =>
      simp only [exec, rotateEndpoint] at h
      split_ifs at h
      · cases h
        exact ⟨rfl, rfl, rfl, rfl⟩
      · split at h
        · cases h
          exact ⟨rfl, rfl, rfl, rfl⟩
        · split_ifs at h <;> cases h <;> exact ⟨rfl, rfl, rfl, rfl⟩
  | revokeDelegation id relay generation =>
      simp only [exec, revokeDelegation] at h
      split at h
      · cases h
        exact ⟨rfl, rfl, rfl, rfl⟩
      · split_ifs at h <;> cases h
        exact ⟨rfl, rfl, rfl, rfl⟩
  | revokeInstallation id expected new =>
      simp only [exec, revokeInstallation] at h
      split_ifs at h
      · cases h
        exact ⟨rfl, rfl, rfl, rfl⟩
      · split at h
        · cases h
          exact ⟨rfl, rfl, rfl, rfl⟩
        · split_ifs at h <;> cases h
          exact ⟨rfl, rfl, rfl, rfl⟩
  | authorizeDelivery q =>
      simp only [exec, authorizeDelivery] at h
      split at h
      · cases h
        exact ⟨rfl, rfl, rfl, rfl⟩
      split at h
      · cases h
        exact ⟨rfl, rfl, rfl, rfl⟩
      split at h
      · cases h
        exact ⟨rfl, rfl, rfl, rfl⟩
      split_ifs at h <;> cases h <;> exact ⟨rfl, rfl, rfl, rfl⟩
  | finishDelivery permit disposition =>
      simp only [exec, finishDelivery] at h
      split_ifs at h <;> cases h
  | reapExpired => cases h

theorem outcome_exec (hs : Sound s) (request : Request) :
    Outcome now s.view (exec now s request).2.view request (exec now s request).1 ∧
      Sound (exec now s request).2 := by
  rcases hexec : exec now s request with ⟨result, s'⟩
  cases result with
  | error e =>
      obtain ⟨hview, hinstallations, howners, hdelegations⟩ := view_of_error hexec
      refine ⟨hview, ?_, ?_, ?_⟩
      · rw [hinstallations]
        exact hs.ids
      · rw [hinstallations, howners]
        exact hs.owners
      · rw [hdelegations]
        exact hs.keys
  | ok response =>
      cases request with
      | ready =>
          cases hexec
          exact ⟨rfl, hs⟩
      | putChallenge c =>
          simp only [exec, putChallenge] at hexec
          split_ifs at hexec <;> cases hexec
          exact ⟨rfl, hs.ids, hs.owners, hs.keys⟩
      | consumeChallenge id value =>
          simp only [exec, consumeChallenge] at hexec
          split at hexec
          · cases hexec
          · split_ifs at hexec <;> cases hexec
            exact ⟨rfl, hs.ids, hs.owners, hs.keys⟩
      | createInstallation n => exact createInstallation_ok hs hexec
      | matchingInstallation keyId profile fingerprint epoch expiresAt =>
          cases hexec
          exact ⟨rfl, hs⟩
      | installation id =>
          obtain ⟨_, rfl⟩ := Prod.mk.inj hexec
          exact ⟨rfl, hs⟩
      | advanceAssertionCounter id previous next =>
          have hdone : Performed now s.view s'.view _ response ∧ Sound s' :=
            advanceAssertionCounter_ok hs hexec
          exact hdone
      | upsertDelegation d =>
          have hdone : Performed now s.view s'.view _ response ∧ Sound s' :=
            upsertDelegation_ok hs hexec
          exact hdone
      | rotateEndpoint id expected new ciphertext fingerprint =>
          have hdone : Performed now s.view s'.view _ response ∧ Sound s' :=
            rotateEndpoint_ok hs hexec
          exact hdone
      | revokeDelegation id relay generation =>
          have hdone : Performed now s.view s'.view _ response ∧ Sound s' :=
            revokeDelegation_ok hs hexec
          exact hdone
      | revokeInstallation id expected new =>
          have hdone : Performed now s.view s'.view _ response ∧ Sound s' :=
            revokeInstallation_ok hs hexec
          exact hdone
      | authorizeDelivery q => exact authorizeDelivery_ok hs hexec
      | finishDelivery permit disposition =>
          have hdone : Performed now s.view s'.view _ response ∧ Sound s' :=
            finishDelivery_ok hs hexec
          exact hdone
      | reapExpired =>
          have hreaped := reapExpired_ok hs hexec
          exact ⟨hreaped.1, hreaped.2.1⟩

end MemoryState
end PushGateway
end Maju
