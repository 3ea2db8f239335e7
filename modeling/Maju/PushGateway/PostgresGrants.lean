import Maju.PushGateway.Postgres
import Maju.PushGateway.Grants

/-!
# PostgresGrants — the store in production does what a store may do

* `PostgresState.Sound` — rows are stored under their own keys;
* `PostgresState.outcome_exec` — a call does what `Grants` says of it;
* `PostgresState.reapExpired_marks` — reaping leaves the delegations of an installation that it
  keeps, if each of them that lapses does so with its installation.
-/

namespace Maju
namespace PushGateway

open Lib Core

/-! ## Statements that succeed -/

section Statements

variable {α β : Type}

theorem bind_eq_ok {x : Except AuthorityError α} {f : α → Except AuthorityError β} {b : β} :
    (x >>= f) = .ok b ↔ ∃ a, x = .ok a ∧ f a = .ok b := by
  cases x with
  | error e => simp [bind, Except.bind]
  | ok a => simp [bind, Except.bind]

theorem ensure_eq_ok {holds : Prop} [Decidable holds] {u : Unit} :
    ensure holds = .ok u ↔ holds := by
  unfold ensure
  split_ifs with h
  · simp [h]
  · simp [h]

theorem constraint_eq_ok {holds : Prop} [Decidable holds] {u : Unit} :
    constraint holds = .ok u ↔ holds := by
  unfold constraint
  split_ifs with h
  · simp [h]
  · simp [h]

theorem fetched_eq_ok {o : Option α} {a : α} : fetched o = .ok a ↔ o = some a := by
  cases o with
  | none => simp [fetched]
  | some b => simp [fetched]

theorem pure_eq_ok {a b : α} : (pure a : Except AuthorityError α) = .ok b ↔ a = b := by
  simp [pure, Except.pure]

theorem timeAt_eq_ok {t t' : Int} (h : timeAt t = .ok t') : t' = t := by
  unfold timeAt Db.fromTimestamp at h
  split_ifs at h
  cases h
  rfl

end Statements

namespace PostgresState

/-- An installation with whether it is revoked. -/
def shown (i : Installation (Option Int)) : Installation Bool := i.setRevoked i.revoked.isSome

/-- A delegation with whether it is revoked. -/
def shownDelegation (d : Delegation (Option Int)) : Delegation Bool :=
  d.setRevoked d.revoked.isSome

def view (s : PostgresState) : Authority where
  installation id := (s.installations.lookup id).map shown
  delegation key := (s.delegations.lookup key).map shownDelegation
  authReplay key := s.deliveryAuthReplays.lookup key
  requestReplay key := s.deliveryRequestReplays.lookup key

structure Sound (s : PostgresState) : Prop where
  ids : ∀ id i, s.installations.lookup id = some i → i.id = id
  keys : ∀ key d, s.delegations.lookup key = some d → d.key = key

theorem sound_empty : Sound empty := ⟨fun _ _ h => (nomatch h), fun _ _ h => (nomatch h)⟩

variable {s s' : PostgresState} {now : Int} {response : Response}

theorem view_installation {id : Uuid} {i : Installation (Option Int)}
    (h : s.installations.lookup id = some i) : s.view.installation id = some (shown i) := by
  simp [view, h]

theorem view_delegation {key : Uuid × PublicKey} {d : Delegation (Option Int)}
    (h : s.delegations.lookup key = some d) : s.view.delegation key = some (shownDelegation d) := by
  simp [view, h]

/-! ## Calls that set an installation or a delegation -/

theorem view_setInstallation (s : PostgresState) (id : Uuid) (i : Installation (Option Int)) :
    view { s with installations := s.installations.insert id i } =
      s.view.setInstallation id (shown i) := by
  ext1
  · funext id'
    rw [setInstallation_apply]
    change ((s.installations.insert id i).lookup id').map shown = _
    rw [HashMap.lookup_insert_eq]
    split_ifs
    · rfl
    · rfl
  all_goals rfl

theorem view_setDelegation (s : PostgresState) (d : Delegation (Option Int)) :
    view { s with delegations := s.delegations.insert d.key d } =
      s.view.setDelegation (shownDelegation d) := by
  ext1
  · rfl
  · funext key
    rw [setDelegation_apply]
    change ((s.delegations.insert d.key d).lookup key).map shownDelegation = _
    rw [HashMap.lookup_insert_eq]
    change _ = if key = d.key then _ else _
    split_ifs
    · rfl
    · rfl
  all_goals rfl

theorem Sound.setInstallation (hs : Sound s) {id : Uuid} {i : Installation (Option Int)}
    (hid : i.id = id) : Sound { s with installations := s.installations.insert id i } := by
  refine ⟨?_, hs.keys⟩
  intro id' j hj
  change (s.installations.insert id i).lookup id' = some j at hj
  rw [HashMap.lookup_insert_eq] at hj
  split_ifs at hj with hsame
  · cases hj
    exact hid.trans hsame.symm
  · exact hs.ids id' j hj

theorem Sound.setDelegation (hs : Sound s) (d : Delegation (Option Int)) :
    Sound { s with delegations := s.delegations.insert d.key d } := by
  refine ⟨hs.ids, ?_⟩
  intro key e he
  change (s.delegations.insert d.key d).lookup key = some e at he
  rw [HashMap.lookup_insert_eq] at he
  split_ifs at he with hsame
  · cases he
    exact hsame.symm
  · exact hs.keys key e he

/-! ## Every call -/

theorem createInstallation_ok {n : NewInstallation} (hs : Sound s)
    (h : s.createInstallation n now = .ok (response, s')) :
    Creates now s.view s'.view n ∧ Sound s' := by
  simp only [createInstallation, bind_eq_ok, ensure_eq_ok, constraint_eq_ok, pure_eq_ok] at h
  obtain ⟨t, ht, _, hdead, expiresAt, _, _, _, _, _, _, hfree, hs'⟩ := h
  cases timeAt_eq_ok ht
  cases hs'
  have hconflicts : ∀ i : Installation (Option Int), n.conflicts (shown i) = n.conflicts i :=
    fun _ => rfl
  have hleft : ∀ id, (s.installations.retain fun id _ =>
      decide (id ∉ (s.existing n).map Installation.id)).lookup id =
        (s.installations.lookup id).filter fun i => !n.conflicts i :=
    fun id => lookup_retain_conflicting hs.ids id
  have hlookup : ∀ id, ((s.installations.retain fun id _ =>
      decide (id ∉ (s.existing n).map Installation.id)).insert n.id (n.stored none)).lookup id =
        if id = n.id then some (n.stored none)
        else (s.installations.lookup id).filter fun i => !n.conflicts i := by
    intro id
    rw [HashMap.lookup_insert_eq, hleft]
  refine ⟨⟨?_, ?_, ?_, ?_, ?_, rfl, rfl⟩, ?_, ?_⟩
  · intro id i hi hconflict hlive
    obtain ⟨j, hj, rfl⟩ := Option.map_eq_some_iff.1 hi
    refine hdead j (mem_conflicting.2 ⟨⟨id, hj⟩, hconflict⟩) ⟨?_, hlive.2⟩
    have hrevoked : j.revoked.isSome = false := hlive.1
    simpa using hrevoked
  · intro i hi
    obtain ⟨j, hj, rfl⟩ := Option.map_eq_some_iff.1 hi
    rw [hleft, hj] at hfree
    simpa [Option.filter, hconflicts] using hfree
  · change (_ : Option (Installation (Option Int))).map shown = _
    rw [hlookup, if_pos rfl]
    rfl
  · intro id hne
    change (_ : Option (Installation (Option Int))).map shown = ((_ : Option _).map shown).filter _
    rw [hlookup, if_neg hne]
    cases s.installations.lookup id with
    | none => rfl
    | some i =>
        cases hconflict : n.conflicts i with
        | false => simp [Option.filter, hconflict, hconflicts]
        | true => simp [Option.filter, hconflict, hconflicts]
  · intro key
    change (_ : Option (Delegation (Option Int))).map shownDelegation =
      if ((s.installations.lookup key.1).map shown).any n.conflicts then none
      else (s.delegations.lookup key).map shownDelegation
    rw [show (s.delegations.retain fun key _ =>
      decide (key.1 ∉ (s.existing n).map Installation.id)).lookup key = _ from
        lookup_retain_delegations hs.ids s.delegations key]
    simp only [Option.any_map, hconflicts]
    split_ifs
    · rfl
    · rfl
  · intro id i hi
    change _ = some i at hi
    rw [hlookup] at hi
    split_ifs at hi with hsame
    · cases hi
      exact hsame.symm
    · exact hs.ids id i (Option.filter_eq_some_iff.1 hi).1
  · intro key d hd
    change (s.delegations.retain _).lookup key = some d at hd
    rw [HashMap.lookup_retain] at hd
    exact hs.keys key d (Option.filter_eq_some_iff.1 hd).1

theorem advanceAssertionCounter_ok {id : Uuid} {previous next : UInt32} (hs : Sound s)
    (h : s.advanceAssertionCounter id previous next = .ok (response, s')) :
    Performed now s.view s'.view (.advanceAssertionCounter id previous next) response ∧
      Sound s' := by
  simp only [advanceAssertionCounter, bind_eq_ok, ensure_eq_ok, fetched_eq_ok, pure_eq_ok] at h
  obtain ⟨_, hlt, i, hi, _, ⟨hcounter, hlive⟩, hs'⟩ := h
  cases hs'
  refine ⟨⟨shown i, view_installation hi, by simp [shown, Installation.setRevoked, hlive], hcounter,
    UInt32.not_le.1 hlt, ?_⟩, hs.setInstallation (hs.ids id i hi)⟩
  exact view_setInstallation s id _

theorem upsertDelegation_ok {d : Delegation Bool} (hs : Sound s)
    (h : s.upsertDelegation d = .ok (response, s')) :
    Performed now s.view s'.view (.upsertDelegation d) response ∧ Sound s' := by
  simp only [upsertDelegation, bind_eq_ok, ensure_eq_ok, constraint_eq_ok, fetched_eq_ok,
    pure_eq_ok] at h
  obtain ⟨i, hi, _, ⟨hlive, hepoch⟩, notBefore, _, expiresAt, hexpires, _, _, _, _, _, _, _, hnewer,
    _, _, hs'⟩ := h
  cases timeAt_eq_ok hexpires
  cases hs'
  set i' : Installation (Option Int) := { i with expiresAt := max i.expiresAt d.expiresAt } with hi'
  have hset := hs.setInstallation (i := i') (hs.ids d.installationId i hi)
  refine ⟨⟨shown i, false, view_installation hi, by simp [shown, Installation.setRevoked, hlive],
    hepoch, ?_, ?_⟩, ?_⟩
  · intro old hold
    obtain ⟨e, he, rfl⟩ := Option.map_eq_some_iff.1 hold
    exact hnewer e he
  · have hview := view_setDelegation { s with
      installations := s.installations.insert d.installationId i' } (d.setRevoked none)
    rw [view_setInstallation] at hview
    exact hview
  · have hboth := hset.setDelegation (d.setRevoked none)
    exact ⟨hboth.ids, hboth.keys⟩

theorem rotateEndpoint_ok {id : Uuid} {expected new : Int} {ciphertext : Bytes}
    {fingerprint : Fingerprint} (hs : Sound s)
    (h : s.rotateEndpoint id expected new ciphertext fingerprint = .ok (response, s')) :
    Performed now s.view s'.view (.rotateEndpoint id expected new ciphertext fingerprint)
        response ∧
      Sound s' := by
  simp only [rotateEndpoint, bind_eq_ok, ensure_eq_ok, constraint_eq_ok, fetched_eq_ok,
    pure_eq_ok] at h
  obtain ⟨_, hsuccessor, i, hi, _, ⟨hepoch, hlive⟩, _, _, _, hfree, hs'⟩ := h
  cases hs'
  have hid := hs.ids id i hi
  have hnew : new = expected + 1 := by
    simp only [notSuccessor, decide_eq_false_iff_not, not_or] at hsuccessor
    exact not_not.1 hsuccessor.2
  refine ⟨⟨shown i, view_installation hi, by simp [shown, Installation.setRevoked, hlive], hepoch,
    hnew, ?_, ?_⟩, hs.setInstallation hid⟩
  · intro id' j hj htoken
    obtain ⟨k, hk, rfl⟩ := Option.map_eq_some_iff.1 hj
    exact (hfree ⟨id', k⟩ (HashMap.mem_entries_iff.2 hk) htoken).trans hid
  · exact view_setInstallation s id _

theorem revokeDelegation_ok {id : Uuid} {relay : PublicKey} {generation : Int} (hs : Sound s)
    (h : s.revokeDelegation id relay generation now = .ok (response, s')) :
    Performed now s.view s'.view (.revokeDelegation id relay generation) response ∧ Sound s' := by
  simp only [revokeDelegation, bind_eq_ok, ensure_eq_ok, fetched_eq_ok, pure_eq_ok] at h
  obtain ⟨d, hd, _, ⟨hgeneration, hlive⟩, hs'⟩ := h
  cases hs'
  have hkey := hs.keys (id, relay) d hd
  have hset := hs.setDelegation { d with revoked := some now }
  have hview := view_setDelegation s { d with revoked := some now }
  rw [show ({ d with revoked := some now } : Delegation (Option Int)).key = (id, relay) from
    hkey] at hset hview
  refine ⟨⟨shownDelegation d, view_delegation hd,
    by simp [shownDelegation, Delegation.setRevoked, hlive], hgeneration, hkey, hview⟩, hset⟩

theorem revokeInstallation_ok {id : Uuid} {expected new : Int} (hs : Sound s)
    (h : s.revokeInstallation id expected new now = .ok (response, s')) :
    Performed now s.view s'.view (.revokeInstallation id expected new) response ∧ Sound s' := by
  simp only [revokeInstallation, bind_eq_ok, ensure_eq_ok, constraint_eq_ok, fetched_eq_ok,
    pure_eq_ok] at h
  obtain ⟨_, hsuccessor, i, hi, _, ⟨hepoch, hlive⟩, _, _, hs'⟩ := h
  cases hs'
  have hnew : new = expected + 1 := by
    simp only [notSuccessor, decide_eq_false_iff_not, not_or] at hsuccessor
    exact not_not.1 hsuccessor.2
  refine ⟨⟨shown i, view_installation hi, by simp [shown, Installation.setRevoked, hlive], hepoch,
    hnew, ?_⟩, hs.setInstallation (hs.ids id i hi)⟩
  exact view_setInstallation s id _

theorem delegationOf_eq_some (hs : Sound s) {id : Uuid} {d : Delegation (Option Int)}
    (h : s.delegationOf id = some d) : s.delegations.lookup d.key = some d ∧ d.id = id := by
  have hid := List.find?_some h
  obtain ⟨e, he, hed⟩ := List.mem_map.1 (List.mem_of_find?_eq_some h)
  have hlookup := HashMap.lookup_of_mem_entries he
  rw [hed] at hlookup
  rw [hs.keys e.1 d hlookup]
  exact ⟨hlookup, by simpa using hid⟩

theorem authorizeDelivery_ok {q : Delivery} (hs : Sound s)
    (h : s.authorizeDelivery q now = .ok (response, s')) :
    Performed now s.view s'.view (.authorizeDelivery q) response ∧ Sound s' := by
  simp only [authorizeDelivery, bind_eq_ok, ensure_eq_ok, fetched_eq_ok] at h
  obtain ⟨owner, howner, i, hi, _, ⟨hilive, hiepoch⟩, t, ht, _, hiexpires, _, _, d, hd, _,
    ⟨hrelay, hdepoch, hgeneration, hdlive, hstart, hdexpires⟩, _, ⟨hfuture, hwithin⟩, h⟩ := h
  cases timeAt_eq_ok ht
  split at h
  · cases h
  simp only [bind_eq_ok, ensure_eq_ok, pure_eq_ok] at h
  obtain ⟨quota, _, requestExpiresAt, hrequest, _, ⟨hauth, hfresh⟩, hs'⟩ := h
  cases timeAt_eq_ok hrequest
  cases hs'
  rw [howner] at hd
  cases hd
  obtain ⟨hlookup, hid⟩ := delegationOf_eq_some hs howner
  refine ⟨⟨shownDelegation owner, shown i, view_delegation hlookup, view_installation hi, ?_,
    hs.ids _ i hi, rfl, hauth, hfresh, ?_⟩, hs.ids, hs.keys⟩
  · refine ⟨?_, ?_, hid, hrelay, hdepoch, hgeneration, hiepoch, hstart, hdexpires, hiexpires,
      hfuture, hwithin⟩
    · simp [shownDelegation, Delegation.setRevoked, hdlive]
    · simp [shown, Installation.setRevoked, hilive]
  · ext1
    · rfl
    · rfl
    · exact lookup_insert_update _ _ s.deliveryAuthReplays
    · exact lookup_insert_update _ _ s.deliveryRequestReplays

theorem finishDelivery_ok {permit : DeliveryPermit} {disposition : DeliveryDisposition}
    (hs : Sound s) (h : s.finishDelivery permit disposition = .ok (response, s')) :
    Performed now s.view s'.view (.finishDelivery permit disposition) response ∧ Sound s' := by
  unfold finishDelivery at h
  cases disposition with
  | terminal =>
      cases h
      exact ⟨rfl, hs⟩
  | retryable =>
      cases h
      refine ⟨?_, hs.ids, hs.keys⟩
      change view _ = _
      ext1
      · rfl
      · rfl
      · rfl
      · exact lookup_erase_update _ s.deliveryRequestReplays

theorem not_live_of_retired {i : Installation (Option Int)} (h : retired now i = true) :
    ¬ (shown i).Live now := by
  rintro ⟨hrevoked, hexpires⟩
  change i.revoked.isSome = false at hrevoked
  change now ≤ i.expiresAt at hexpires
  have hnone : i.revoked = none := by simpa using hrevoked
  simp only [retired, hnone, Option.any_none, Bool.or_false, decide_eq_true_eq] at h
  omega

theorem reapExpired_ok (hs : Sound s) (h : s.reapExpired now = .ok (response, s')) :
    Performed now s.view s'.view .reapExpired response ∧ Sound s' := by
  simp only [reapExpired, bind_eq_ok, pure_eq_ok] at h
  obtain ⟨t, ht, _, _, hs'⟩ := h
  cases timeAt_eq_ok ht
  cases hs'
  refine ⟨⟨?_, ?_, ?_, ?_⟩, ?_, ?_⟩
  · intro id
    change ((s.installations.retain _).lookup id).map shown = (s.installations.lookup id).map shown ∨
      ((s.installations.retain _).lookup id).map shown = none ∧ _
    rw [HashMap.lookup_retain]
    cases hi : s.installations.lookup id with
    | none => exact Or.inl rfl
    | some i =>
        cases hretired : retired now i with
        | false => exact Or.inl (by simp [Option.filter, hretired])
        | true =>
            exact Or.inr ⟨by simp [Option.filter, hretired], shown i, view_installation hi,
              not_live_of_retired hretired⟩
  · intro key
    change ((s.delegations.retain _).lookup key).map shownDelegation =
      (s.delegations.lookup key).map shownDelegation ∨
      ((s.delegations.retain _).lookup key).map shownDelegation = none
    rw [HashMap.lookup_retain]
    cases hd : s.delegations.lookup key with
    | none => exact Or.inl rfl
    | some d =>
        cases hlapsed : s.lapsed now d with
        | false => exact Or.inl (by simp [Option.filter, hlapsed])
        | true => exact Or.inr (by simp [Option.filter, hlapsed])
  · exact fades_retain now s.deliveryAuthReplays
  · exact fades_retain now s.deliveryRequestReplays
  · intro id i hi
    change (s.installations.retain _).lookup id = some i at hi
    rw [HashMap.lookup_retain] at hi
    exact hs.ids id i (Option.filter_eq_some_iff.1 hi).1
  · intro key d hd
    change (s.delegations.retain _).lookup key = some d at hd
    rw [HashMap.lookup_retain] at hd
    exact hs.keys key d (Option.filter_eq_some_iff.1 hd).1

/-- Every delegation that lapses does so with its installation. -/
def MarksKept (s : PostgresState) (now : Int) : Prop :=
  ∀ e ∈ s.delegations.entries, s.lapsed now e.2 = true →
    (s.installations.lookup e.1.1).any (retired now) = true

instance MarksKept.decidable (s : PostgresState) (now : Int) : Decidable (s.MarksKept now) :=
  inferInstanceAs (Decidable (∀ e ∈ s.delegations.entries, _))

theorem reapExpired_marks (hmarks : s.MarksKept now)
    (h : s.reapExpired now = .ok (response, s')) (key : Uuid × PublicKey)
    (hkept : (s'.view.installation key.1).isSome = true) :
    s'.view.delegation key = s.view.delegation key := by
  simp only [reapExpired, bind_eq_ok, pure_eq_ok] at h
  obtain ⟨t, ht, _, _, hs'⟩ := h
  cases timeAt_eq_ok ht
  cases hs'
  change (((s.installations.retain _).lookup key.1).map shown).isSome = true at hkept
  change ((s.delegations.retain _).lookup key).map shownDelegation = _
  rw [HashMap.lookup_retain] at hkept ⊢
  cases hd : s.delegations.lookup key with
  | none => simp [view, hd]
  | some d =>
      cases hlapsed : s.lapsed now d with
      | false => simp [view, hd, Option.filter, hlapsed]
      | true =>
          -- its installation is past its retention, so it is not kept
          have hretired := hmarks ⟨key, d⟩ (HashMap.mem_entries_iff.2 hd) hlapsed
          change (s.installations.lookup key.1).any (retired now) = true at hretired
          cases hi : s.installations.lookup key.1 with
          | none =>
              rw [hi] at hretired
              cases hretired
          | some i =>
              rw [hi] at hretired hkept
              change retired now i = true at hretired
              simp [Option.filter, hretired] at hkept

theorem settle_ok {result : Except AuthorityError (Response × PostgresState)}
    (h : s.settle result = (.ok response, s')) : result = .ok (response, s') := by
  unfold settle at h
  split at h
  · cases h
    rfl
  · cases h

theorem settle_error {result : Except AuthorityError (Response × PostgresState)}
    {e : AuthorityError} (h : s.settle result = (.error e, s')) : s' = s := by
  unfold settle at h
  split at h
  · cases h
  · cases h
    rfl

theorem exec_error {sha256 : Bytes → Bytes} {request : Request} {e : AuthorityError}
    (h : exec sha256 now s request = (.error e, s')) : s' = s := by
  cases request with
  | ready => cases h
  | matchingInstallation keyId profile fingerprint epoch expiresAt =>
      exact (Prod.mk.inj h).2.symm
  | installation id => exact (Prod.mk.inj h).2.symm
  | _ => exact settle_error h

theorem outcome_exec (sha256 : Bytes → Bytes) (hs : Sound s) (request : Request) :
    Outcome now s.view (exec sha256 now s request).2.view request
        (exec sha256 now s request).1 ∧
      Sound (exec sha256 now s request).2 := by
  rcases hexec : exec sha256 now s request with ⟨result, s'⟩
  cases result with
  | error e =>
      cases exec_error hexec
      exact ⟨rfl, hs⟩
  | ok response =>
      cases request with
      | ready =>
          cases hexec
          exact ⟨rfl, hs⟩
      | putChallenge c =>
          have hok := settle_ok hexec
          simp only [putChallenge, bind_eq_ok] at hok
          obtain ⟨_, _, _, _, hok⟩ := hok
          split at hok
          · cases hok
          · simp only [bind_eq_ok, pure_eq_ok] at hok
            obtain ⟨_, _, _, _, _, _, _, _, _, _, hok⟩ := hok
            cases hok
            exact ⟨rfl, hs.ids, hs.keys⟩
      | consumeChallenge id value =>
          have hok := settle_ok hexec
          simp only [consumeChallenge, bind_eq_ok, pure_eq_ok] at hok
          obtain ⟨_, _, _, _, _, _, _, _, hok⟩ := hok
          cases hok
          exact ⟨rfl, hs.ids, hs.keys⟩
      | createInstallation n => exact createInstallation_ok hs (settle_ok hexec)
      | matchingInstallation keyId profile fingerprint epoch expiresAt =>
          cases (Prod.mk.inj hexec).2
          exact ⟨rfl, hs⟩
      | installation id =>
          cases (Prod.mk.inj hexec).2
          exact ⟨rfl, hs⟩
      | advanceAssertionCounter id previous next =>
          have hdone : Performed now s.view s'.view _ response ∧ Sound s' :=
            advanceAssertionCounter_ok hs (settle_ok hexec)
          exact hdone
      | upsertDelegation d =>
          have hdone : Performed now s.view s'.view _ response ∧ Sound s' :=
            upsertDelegation_ok hs (settle_ok hexec)
          exact hdone
      | rotateEndpoint id expected new ciphertext fingerprint =>
          have hdone : Performed now s.view s'.view _ response ∧ Sound s' :=
            rotateEndpoint_ok hs (settle_ok hexec)
          exact hdone
      | revokeDelegation id relay generation =>
          have hdone : Performed now s.view s'.view _ response ∧ Sound s' :=
            revokeDelegation_ok hs (settle_ok hexec)
          exact hdone
      | revokeInstallation id expected new =>
          have hdone : Performed now s.view s'.view _ response ∧ Sound s' :=
            revokeInstallation_ok hs (settle_ok hexec)
          exact hdone
      | authorizeDelivery q => exact authorizeDelivery_ok hs (settle_ok hexec)
      | finishDelivery permit disposition =>
          have hdone : Performed now s.view s'.view _ response ∧ Sound s' :=
            finishDelivery_ok hs (settle_ok hexec)
          exact hdone
      | reapExpired => exact reapExpired_ok hs (settle_ok hexec)

end PostgresState
end PushGateway
end Maju
