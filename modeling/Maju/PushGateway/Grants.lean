import Mathlib.Logic.Function.Basic
import Maju.Lib.HashMap
import Maju.PushGateway.Authority

/-!
# Grants — what a call of an authority store may do

The store seen as four partial functions, whatever holds them.  `Performed` says for each request
what a call of it that succeeds finds and changes, `Unique` is kept by every call, and a grant that
is `Dead` stays so while its installation is kept.
-/

namespace Maju
namespace PushGateway

open Lib Core

/-! ## The view of a store -/

@[ext] structure Authority where
  installation : Uuid → Option (Installation Bool)
  delegation : Uuid × PublicKey → Option (Delegation Bool)
  authReplay : PublicKey × EventId → Option Int
  requestReplay : PublicKey × Uuid → Option Int

namespace Authority

def setInstallation (a : Authority) (id : Uuid) (i : Installation Bool) : Authority :=
  { a with installation := Function.update a.installation id (some i) }

def setDelegation (a : Authority) (d : Delegation Bool) : Authority :=
  { a with delegation := Function.update a.delegation d.key (some d) }

end Authority

/-- An installation that is neither revoked nor expired. -/
def Installation.Live (i : Installation Bool) (now : Int) : Prop :=
  i.revoked = false ∧ now ≤ i.expiresAt

/-! ## What a call does -/

section Calls

variable (now : Int) (a a' : Authority)

/-- The installations of the same key or token are dead and make way with their delegations. -/
structure Creates (n : NewInstallation) : Prop where
  dead : ∀ id i, a.installation id = some i → n.conflicts i = true → ¬ i.Live now
  free : ∀ i, a.installation n.id = some i → n.conflicts i = true
  created : a'.installation n.id = some (n.stored false)
  others : ∀ id, id ≠ n.id → a'.installation id =
    (a.installation id).filter fun i => !n.conflicts i
  delegations : ∀ key, a'.delegation key =
    if (a.installation key.1).any n.conflicts then none else a.delegation key
  authReplay : a'.authReplay = a.authReplay
  requestReplay : a'.requestReplay = a.requestReplay

/-- A fence is kept, or it has expired. -/
def Fades {K : Type} (old new : K → Option Int) : Prop :=
  ∀ key, new key = old key ∨ (new key = none ∧ ∃ expiresAt, old key = some expiresAt ∧
    expiresAt < now)

/-- Expired fences and dead installations go, with delegations. -/
structure Reaps : Prop where
  installations : ∀ id, a'.installation id = a.installation id ∨
    (a'.installation id = none ∧ ∃ i, a.installation id = some i ∧ ¬ i.Live now)
  delegations : ∀ key, a'.delegation key = a.delegation key ∨ a'.delegation key = none
  authReplay : Fades now a.authReplay a'.authReplay
  requestReplay : Fades now a.requestReplay a'.requestReplay

/-- What a call that succeeds has found and changed. -/
def Performed : Request → Response → Prop
  | .createInstallation n, _ => Creates now a a' n
  | .advanceAssertionCounter id previous next, _ =>
      ∃ i, a.installation id = some i ∧ i.revoked = false ∧ i.assertionCounter = previous ∧
        previous < next ∧ a' = a.setInstallation id { i with assertionCounter := next }
  | .upsertDelegation d, _ =>
      ∃ i revoked, a.installation d.installationId = some i ∧ i.revoked = false ∧
        i.endpointEpoch = d.endpointEpoch ∧
        (∀ old, a.delegation d.key = some old → old.generation < d.generation) ∧
        a' = (a.setInstallation d.installationId
          { i with expiresAt := max i.expiresAt d.expiresAt }).setDelegation
            (d.setRevoked revoked)
  | .rotateEndpoint id expected new ciphertext fingerprint, _ =>
      ∃ i, a.installation id = some i ∧ i.revoked = false ∧ i.endpointEpoch = expected ∧
        new = expected + 1 ∧
        (∀ id' i', a.installation id' = some i' → i'.token = (i.profile, fingerprint) → id' = id) ∧
        a' = a.setInstallation id
          { i with
            endpointEpoch := new, tokenCiphertext := ciphertext, tokenFingerprint := fingerprint }
  | .revokeDelegation id relay generation, _ =>
      ∃ d, a.delegation (id, relay) = some d ∧ d.revoked = false ∧ d.generation = generation ∧
        d.key = (id, relay) ∧ a' = a.setDelegation { d with revoked := true }
  | .revokeInstallation id expected new, _ =>
      ∃ i, a.installation id = some i ∧ i.revoked = false ∧ i.endpointEpoch = expected ∧
        new = expected + 1 ∧
        a' = a.setInstallation id { i with endpointEpoch := new, revoked := true }
  | .authorizeDelivery q, response =>
      ∃ d i, a.delegation d.key = some d ∧ a.installation d.installationId = some i ∧
        q.Admissible d i now ∧ i.id = d.installationId ∧
        response = .permit (q.permit i d.expiresAt) ∧
        a.authReplay (q.relayPubkey, q.eventId) = none ∧
        a.requestReplay (q.relayPubkey, q.requestId) = none ∧
        a' = { a with
          authReplay := Function.update a.authReplay (q.relayPubkey, q.eventId)
            (some q.requestExpiresAt)
          requestReplay := Function.update a.requestReplay (q.relayPubkey, q.requestId)
            (some q.requestExpiresAt) }
  | .finishDelivery permit .retryable, _ =>
      a' = { a with
        requestReplay := Function.update a.requestReplay (permit.relayPubkey, permit.requestId)
          none }
  | .reapExpired, _ => Reaps now a a'
  | _, _ => a' = a

/-- A call that fails changes nothing of this. -/
def Outcome (request : Request) : Result → Prop
  | .ok response => Performed now a a' request response
  | .error _ => a' = a

end Calls

variable {now : Int} {a a' : Authority}

/-! ## Keys and tokens -/

/-- No two installations share a key or a token. -/
def Unique (a : Authority) : Prop :=
  ∀ id id' i i', a.installation id = some i → a.installation id' = some i' →
    (i.appAttestKeyId = i'.appAttestKeyId ∨ i.token = i'.token) → id = id'

theorem Unique.setInstallation {id : Uuid} {i i' : Installation Bool} (ha : Unique a)
    (hi : a.installation id = some i) (hkey : i'.appAttestKeyId = i.appAttestKeyId)
    (htoken : i'.token = i.token ∨ ∀ other j, a.installation other = some j →
      j.token = i'.token → other = id) : Unique (a.setInstallation id i') := by
  have hold : ∀ other j, a.installation other = some j →
      (j.appAttestKeyId = i'.appAttestKeyId ∨ j.token = i'.token) → other = id := by
    rintro other j hj (hsame | hsame)
    · exact ha other id j i hj hi (Or.inl (hsame.trans hkey))
    · rcases htoken with htoken | hfree
      · exact ha other id j i hj hi (Or.inr (hsame.trans htoken))
      · exact hfree other j hj hsame
  intro x y ix iy hx hy hsame
  simp only [Authority.setInstallation, Function.update_apply] at hx hy
  split_ifs at hx hy with hxid hyid hyid
  · exact hxid.trans hyid.symm
  · cases hx
    exact hxid.trans (hold y iy hy (hsame.imp Eq.symm Eq.symm)).symm
  · cases hy
    exact (hold x ix hx hsame).trans hyid.symm
  · exact ha x y ix iy hx hy hsame

theorem conflicts_of {n : NewInstallation} {i : Installation Bool}
    (h : i.appAttestKeyId = n.appAttestKeyId ∨ i.token = (n.profile, n.tokenFingerprint)) :
    n.conflicts i = true := by
  unfold NewInstallation.conflicts
  rcases h with hkey | htoken
  · simp [hkey]
  · obtain ⟨hprofile, hfingerprint⟩ := Prod.mk.inj htoken
    rw [hprofile, hfingerprint]
    simp

theorem Unique.creates {n : NewInstallation} (ha : Unique a) (h : Creates now a a' n) :
    Unique a' := by
  -- an installation that is left does not conflict with the new one
  have hleft : ∀ id i, id ≠ n.id → a'.installation id = some i →
      a.installation id = some i ∧ n.conflicts i = false := by
    intro id i hne hi
    rw [h.others id hne] at hi
    obtain ⟨hi, hfree⟩ := Option.filter_eq_some_iff.1 hi
    exact ⟨hi, by simpa using hfree⟩
  have hclash : ∀ id i, id ≠ n.id → a'.installation id = some i →
      (i.appAttestKeyId = (n.stored false).appAttestKeyId ∨ i.token = (n.stored false).token) →
      False := by
    intro id i hne hi hsame
    have hconflict := conflicts_of (n := n) hsame
    rw [(hleft id i hne hi).2] at hconflict
    cases hconflict
  intro x y ix iy hx hy hsame
  by_cases hxn : x = n.id
  · by_cases hyn : y = n.id
    · exact hxn.trans hyn.symm
    · rw [hxn, h.created] at hx
      cases hx
      exact (hclash y iy hyn hy (hsame.imp Eq.symm Eq.symm)).elim
  · by_cases hyn : y = n.id
    · rw [hyn, h.created] at hy
      cases hy
      exact (hclash x ix hxn hx hsame).elim
    · exact ha x y ix iy (hleft x ix hxn hx).1 (hleft y iy hyn hy).1 hsame

theorem Unique.performed {request : Request} {response : Response} (ha : Unique a)
    (h : Performed now a a' request response) : Unique a' := by
  cases request with
  | createInstallation n => exact ha.creates h
  | advanceAssertionCounter id previous next =>
      obtain ⟨i, hi, _, _, _, rfl⟩ := h
      exact ha.setInstallation hi rfl (Or.inl rfl)
  | upsertDelegation d =>
      obtain ⟨i, _, hi, _, _, _, rfl⟩ := h
      have hset : Unique (a.setInstallation d.installationId
          { i with expiresAt := max i.expiresAt d.expiresAt }) :=
        ha.setInstallation hi rfl (Or.inl rfl)
      exact hset
  | rotateEndpoint id expected new ciphertext fingerprint =>
      obtain ⟨i, hi, _, _, _, hfree, rfl⟩ := h
      exact ha.setInstallation hi rfl (Or.inr hfree)
  | revokeDelegation id relay generation =>
      obtain ⟨d, _, _, _, _, rfl⟩ := h
      exact ha
  | revokeInstallation id expected new =>
      obtain ⟨i, hi, _, _, _, rfl⟩ := h
      exact ha.setInstallation hi rfl (Or.inl rfl)
  | authorizeDelivery q =>
      obtain ⟨d, i, _, _, _, _, _, _, _, rfl⟩ := h
      exact ha
  | finishDelivery permit disposition =>
      cases disposition with
      | terminal =>
          cases h
          exact ha
      | retryable =>
          cases h
          exact ha
  | reapExpired =>
      intro x y ix iy hx hy hsame
      have hleft : ∀ id i, a'.installation id = some i → a.installation id = some i := by
        intro id i hi
        rcases h.installations id with hkept | ⟨hgone, _⟩
        · rw [← hkept]
          exact hi
        · rw [hgone] at hi
          cases hi
      exact ha x y ix iy (hleft x ix hx) (hleft y iy hy) hsame
  | ready => cases h; exact ha
  | putChallenge c => cases h; exact ha
  | consumeChallenge id value => cases h; exact ha
  | matchingInstallation keyId profile fingerprint epoch expiresAt => cases h; exact ha
  | installation id => cases h; exact ha

theorem Unique.outcome {request : Request} {result : Result} (ha : Unique a)
    (h : Outcome now a a' request result) : Unique a' := by
  cases result with
  | error e =>
      cases h
      exact ha
  | ok response => exact ha.performed h

/-! ## While an installation is kept -/

/-- The call neither removes the installation nor replaces it. -/
def Keeps (a a' : Authority) (request : Request) (result : Result) (id : Uuid) : Prop :=
  (a'.installation id).isSome = true ∧
    ∀ n response, request = .createInstallation n → result = .ok response →
      ∀ i, a.installation id = some i → n.conflicts i = false

/-- Reaping leaves the delegations of the installations that it keeps. -/
def KeepsMarks (a a' : Authority) (request : Request) : Prop :=
  request = .reapExpired → ∀ key, (a'.installation key.1).isSome = true →
    a'.delegation key = a.delegation key

/-- An installation with what only moves forward. -/
def Forward (i i' : Installation Bool) : Prop :=
  i.assertionCounter ≤ i'.assertionCounter ∧ i.endpointEpoch ≤ i'.endpointEpoch ∧
    (i.revoked = true → i'.revoked = true)

theorem Forward.refl (i : Installation Bool) : Forward i i :=
  ⟨UInt32.le_refl _, Int.le_refl _, fun h => h⟩

section Kept

variable {request : Request} {result : Result} {id : Uuid}

theorem setInstallation_apply (other : Uuid) (i : Installation Bool) :
    (a.setInstallation id i).installation other =
      if other = id then some i else a.installation other := by
  simp [Authority.setInstallation, Function.update_apply]

theorem forward_set {i j j' : Installation Bool} {other : Uuid}
    (hi : a.installation id = some i) (hj : a.installation other = some j)
    (hforward : Forward j j') :
    ∃ i', (a.setInstallation other j').installation id = some i' ∧ Forward i i' := by
  rw [setInstallation_apply]
  split_ifs with hsame
  · rw [hsame, hj] at hi
    cases hi
    exact ⟨j', rfl, hforward⟩
  · exact ⟨i, hi, Forward.refl i⟩

theorem installation_forward {i : Installation Bool} (houtcome : Outcome now a a' request result)
    (hkeeps : Keeps a a' request result id) (hi : a.installation id = some i) :
    ∃ i', a'.installation id = some i' ∧ Forward i i' := by
  have hsame : ∀ {b : Authority}, b = a → ∃ i', b.installation id = some i' ∧ Forward i i' := by
    rintro b rfl
    exact ⟨i, hi, Forward.refl i⟩
  cases result with
  | error e => exact hsame houtcome
  | ok response =>
      cases request with
      | createInstallation n =>
          have hfree := hkeeps.2 n response rfl rfl i hi
          have hne : id ≠ n.id := by
            rintro rfl
            have hconflict := houtcome.free i hi
            rw [hfree] at hconflict
            cases hconflict
          refine ⟨i, ?_, Forward.refl i⟩
          rw [houtcome.others id hne, hi]
          simp [hfree]
      | advanceAssertionCounter other previous next =>
          obtain ⟨j, hj, _, rfl, hlt, rfl⟩ := houtcome
          exact forward_set hi hj ⟨UInt32.le_of_lt hlt, Int.le_refl _, fun h => h⟩
      | upsertDelegation d =>
          obtain ⟨j, _, hj, _, _, _, rfl⟩ := houtcome
          have hforward : Forward j { j with expiresAt := max j.expiresAt d.expiresAt } :=
            Forward.refl j
          exact forward_set hi hj hforward
      | rotateEndpoint other expected new ciphertext fingerprint =>
          obtain ⟨j, hj, _, rfl, rfl, _, rfl⟩ := houtcome
          exact forward_set hi hj ⟨UInt32.le_refl _, by simp, fun h => h⟩
      | revokeDelegation other relay generation =>
          obtain ⟨d, _, _, _, _, rfl⟩ := houtcome
          exact ⟨i, hi, Forward.refl i⟩
      | revokeInstallation other expected new =>
          obtain ⟨j, hj, _, rfl, rfl, rfl⟩ := houtcome
          exact forward_set hi hj ⟨UInt32.le_refl _, by simp, fun _ => rfl⟩
      | authorizeDelivery q =>
          obtain ⟨d, j, _, _, _, _, _, _, _, rfl⟩ := houtcome
          exact ⟨i, hi, Forward.refl i⟩
      | finishDelivery permit disposition =>
          cases disposition with
          | terminal => exact hsame houtcome
          | retryable =>
              cases houtcome
              exact ⟨i, hi, Forward.refl i⟩
      | reapExpired =>
          rcases houtcome.installations id with hkept | ⟨hgone, _⟩
          · exact ⟨i, by rw [hkept, hi], Forward.refl i⟩
          · have hpresent := hkeeps.1
            rw [hgone] at hpresent
            cases hpresent
      | ready => exact hsame houtcome
      | putChallenge c => exact hsame houtcome
      | consumeChallenge other value => exact hsame houtcome
      | matchingInstallation keyId profile fingerprint epoch expiresAt => exact hsame houtcome
      | installation other => exact hsame houtcome

/-- A delegation makes way for a newer generation only, and stays revoked. -/
def Newer (d d' : Delegation Bool) : Prop :=
  d.generation < d'.generation ∨
    (d'.generation = d.generation ∧ (d.revoked = true → d'.revoked = true))

theorem Newer.refl (d : Delegation Bool) : Newer d d := Or.inr ⟨rfl, fun h => h⟩

theorem Newer.le {d d' : Delegation Bool} (h : Newer d d') : d.generation ≤ d'.generation := by
  rcases h with hlt | ⟨heq, _⟩
  · exact Int.le_of_lt hlt
  · exact Int.le_of_eq heq.symm

theorem setDelegation_apply (key : Uuid × PublicKey) (d : Delegation Bool) :
    (a.setDelegation d).delegation key = if key = d.key then some d else a.delegation key := by
  simp [Authority.setDelegation, Function.update_apply]

theorem delegation_newer {relay : PublicKey} {d : Delegation Bool}
    (houtcome : Outcome now a a' request result) (hkeeps : Keeps a a' request result id)
    (hmarks : KeepsMarks a a' request) (hpresent : (a.installation id).isSome = true)
    (hd : a.delegation (id, relay) = some d) :
    ∃ d', a'.delegation (id, relay) = some d' ∧ Newer d d' := by
  have hsame : ∀ {b : Authority}, b.delegation = a.delegation →
      ∃ d', b.delegation (id, relay) = some d' ∧ Newer d d' := by
    intro b hb
    exact ⟨d, by rw [hb, hd], Newer.refl d⟩
  cases result with
  | error e => exact hsame (congrArg Authority.delegation houtcome)
  | ok response =>
      cases request with
      | createInstallation n =>
          obtain ⟨i, hi⟩ := Option.isSome_iff_exists.1 hpresent
          refine ⟨d, ?_, Newer.refl d⟩
          rw [houtcome.delegations, if_neg, hd]
          simp [hi, hkeeps.2 n response rfl rfl i hi]
      | advanceAssertionCounter other previous next =>
          obtain ⟨j, _, _, _, _, rfl⟩ := houtcome
          exact hsame rfl
      | upsertDelegation e =>
          obtain ⟨j, _, _, _, _, hnewer, rfl⟩ := houtcome
          rw [setDelegation_apply]
          split_ifs with hkey
          · refine ⟨_, rfl, Or.inl (hnewer d ?_)⟩
            rw [show e.key = (id, relay) from hkey.symm]
            exact hd
          · exact ⟨d, hd, Newer.refl d⟩
      | rotateEndpoint other expected new ciphertext fingerprint =>
          obtain ⟨j, _, _, _, _, _, rfl⟩ := houtcome
          exact hsame rfl
      | revokeDelegation other relay' generation =>
          obtain ⟨e, he, _, _, hkey, rfl⟩ := houtcome
          rw [setDelegation_apply]
          split_ifs with hsameKey
          · have hother : (id, relay) = (other, relay') := hsameKey.trans hkey
            rw [hother, he] at hd
            cases hd
            exact ⟨_, rfl, Or.inr ⟨rfl, fun _ => rfl⟩⟩
          · exact ⟨d, hd, Newer.refl d⟩
      | revokeInstallation other expected new =>
          obtain ⟨j, _, _, _, _, rfl⟩ := houtcome
          exact hsame rfl
      | authorizeDelivery q =>
          obtain ⟨e, j, _, _, _, _, _, _, _, rfl⟩ := houtcome
          exact hsame rfl
      | finishDelivery permit disposition =>
          cases disposition with
          | terminal => exact hsame (congrArg Authority.delegation houtcome)
          | retryable =>
              cases houtcome
              exact hsame rfl
      | reapExpired =>
          exact ⟨d, by rw [hmarks rfl (id, relay) hkeeps.1, hd], Newer.refl d⟩
      | ready => exact hsame (congrArg Authority.delegation houtcome)
      | putChallenge c => exact hsame (congrArg Authority.delegation houtcome)
      | consumeChallenge other value => exact hsame (congrArg Authority.delegation houtcome)
      | matchingInstallation keyId profile fingerprint epoch expiresAt =>
          exact hsame (congrArg Authority.delegation houtcome)
      | installation other => exact hsame (congrArg Authority.delegation houtcome)

/-- A generation of a relay that the installation has delegated before. -/
def Spent (id : Uuid) (relay : PublicKey) (generation : Int) (a : Authority) : Prop :=
  (a.installation id).isSome = true ∧
    ∃ d, a.delegation (id, relay) = some d ∧ generation ≤ d.generation

theorem Spent.outcome {relay : PublicKey} {generation : Int} (ha : Spent id relay generation a)
    (houtcome : Outcome now a a' request result) (hkeeps : Keeps a a' request result id)
    (hmarks : KeepsMarks a a' request) : Spent id relay generation a' := by
  obtain ⟨hpresent, d, hd, hle⟩ := ha
  obtain ⟨d', hd', hnewer⟩ := delegation_newer houtcome hkeeps hmarks hpresent hd
  exact ⟨hkeeps.1, d', hd', Int.le_trans hle hnewer.le⟩

/-- A grant of an installation that a rotation, a revocation or a newer generation has ended. -/
def Dead (id : Uuid) (relay : PublicKey) (epoch generation : Int) (a : Authority) : Prop :=
  ∃ i, a.installation id = some i ∧ (epoch < i.endpointEpoch ∨ i.revoked = true ∨
    ∃ d, a.delegation (id, relay) = some d ∧ (generation < d.generation ∨
      (d.generation = generation ∧ d.revoked = true)))

theorem Dead.outcome {relay : PublicKey} {epoch generation : Int}
    (ha : Dead id relay epoch generation a) (houtcome : Outcome now a a' request result)
    (hkeeps : Keeps a a' request result id) (hmarks : KeepsMarks a a' request) :
    Dead id relay epoch generation a' := by
  obtain ⟨i, hi, hdead⟩ := ha
  obtain ⟨i', hi', _, hepoch, hrevoked⟩ := installation_forward houtcome hkeeps hi
  refine ⟨i', hi', ?_⟩
  rcases hdead with hlt | hgone | ⟨d, hd, hnewer⟩
  · exact Or.inl (Int.lt_of_lt_of_le hlt hepoch)
  · exact Or.inr (Or.inl (hrevoked hgone))
  · have hpresent : (a.installation id).isSome = true := by rw [hi]; rfl
    obtain ⟨d', hd', hd'newer⟩ := delegation_newer houtcome hkeeps hmarks hpresent hd
    refine Or.inr (Or.inr ⟨d', hd', ?_⟩)
    rcases hnewer with hlt | ⟨heq, hrev⟩
    · exact Or.inl (Int.lt_of_lt_of_le hlt hd'newer.le)
    · rcases hd'newer with hlt | ⟨heq', hrev'⟩
      · exact Or.inl (heq ▸ hlt)
      · exact Or.inr ⟨heq'.trans heq, hrev' hrev⟩

theorem Dead.not_admitted {q : Delivery} {permit : DeliveryPermit}
    (h : Performed now a a' (.authorizeDelivery q) (.permit permit))
    (ha : Dead permit.authority.installationId q.relayPubkey q.endpointEpoch q.generation a) :
    False := by
  obtain ⟨d, i, hd, hi, hadmissible, hid, hresponse, _⟩ := h
  obtain ⟨hdlive, hilive, _, hrelay, _, hgeneration, hepoch, _⟩ := hadmissible
  cases hresponse
  obtain ⟨j, hj, hdead⟩ := ha
  change a.installation i.id = some j at hj
  rw [hid, hi] at hj
  cases hj
  rcases hdead with hlt | hrevoked | ⟨e, he, hnewer⟩
  · exact absurd hepoch (Int.ne_of_gt hlt)
  · rw [hilive] at hrevoked
    cases hrevoked
  · change a.delegation (i.id, q.relayPubkey) = some e at he
    rw [hid, ← hrelay, show (d.installationId, d.relayPubkey) = d.key from rfl, hd] at he
    cases he
    rcases hnewer with hlt | ⟨_, hrevoked⟩
    · exact absurd hgeneration (Int.ne_of_gt hlt)
    · rw [hdlive] at hrevoked
      cases hrevoked

end Kept

/-! ## Maps -/

section Lookups

variable {K V : Type} [DecidableEq K]

theorem lookup_insert_update (k : K) (v : V) (m : HashMap K V) :
    (fun k' => (m.insert k v).lookup k') = Function.update (fun k' => m.lookup k') k (some v) := by
  funext k'
  rw [Function.update_apply]
  exact HashMap.lookup_insert_eq k k' v m

theorem lookup_erase_update (k : K) (m : HashMap K V) :
    (fun k' => (m.erase k).lookup k') = Function.update (fun k' => m.lookup k') k none := by
  funext k'
  rw [Function.update_apply]
  exact HashMap.lookup_erase_eq k k' m

theorem fades_retain (now : Int) (m : HashMap K Int) :
    Fades now (fun k => m.lookup k)
      (fun k => (m.retain fun _ expiresAt => decide (now ≤ expiresAt)).lookup k) := by
  intro k
  change (m.retain _).lookup k = m.lookup k ∨ (m.retain _).lookup k = none ∧ _
  rw [HashMap.lookup_retain]
  cases hk : m.lookup k with
  | none => exact Or.inl rfl
  | some expiresAt =>
      by_cases hle : now ≤ expiresAt
      · exact Or.inl (by simp [Option.filter, hle])
      · exact Or.inr ⟨by simp [Option.filter, hle], expiresAt, hk, Int.not_le.1 hle⟩

end Lookups

section Maps

variable {R : Type} {m : HashMap Uuid (Installation R)} {n : NewInstallation}

theorem mem_conflicting {i : Installation R} :
    i ∈ (m.entries.map Sigma.snd).filter n.conflicts ↔
      (∃ id, m.lookup id = some i) ∧ n.conflicts i = true := by
  simp only [List.mem_filter, List.mem_map]
  refine and_congr_left fun _ => ?_
  constructor
  · rintro ⟨e, he, rfl⟩
    exact ⟨e.1, HashMap.lookup_of_mem_entries he⟩
  · rintro ⟨id, hid⟩
    exact ⟨⟨id, i⟩, HashMap.mem_entries_iff.2 hid, rfl⟩

theorem mem_conflicting_ids (hids : ∀ id i, m.lookup id = some i → i.id = id) (id : Uuid) :
    id ∈ ((m.entries.map Sigma.snd).filter n.conflicts).map Installation.id ↔
      (m.lookup id).any n.conflicts = true := by
  rw [List.mem_map]
  constructor
  · rintro ⟨i, hi, rfl⟩
    obtain ⟨⟨id, hid⟩, hconflict⟩ := mem_conflicting.1 hi
    rw [hids id i hid, hid]
    exact hconflict
  · intro hany
    cases hi : m.lookup id with
    | none =>
        rw [hi] at hany
        cases hany
    | some i =>
        rw [hi] at hany
        exact ⟨i, mem_conflicting.2 ⟨⟨id, hi⟩, hany⟩, hids id i hi⟩

theorem lookup_retain_conflicting (hids : ∀ id i, m.lookup id = some i → i.id = id) (id : Uuid) :
    (m.retain fun id _ => decide
      (id ∉ ((m.entries.map Sigma.snd).filter n.conflicts).map Installation.id)).lookup id =
      (m.lookup id).filter fun i => !n.conflicts i := by
  rw [HashMap.lookup_retain]
  cases hi : m.lookup id with
  | none => rfl
  | some i =>
      have hmem := mem_conflicting_ids (n := n) hids id
      rw [hi] at hmem
      change _ ↔ n.conflicts i = true at hmem
      cases hconflict : n.conflicts i with
      | false =>
          rw [hconflict] at hmem
          simp [Option.filter, hconflict, hmem]
      | true =>
          rw [hconflict] at hmem
          simp [Option.filter, hconflict, hmem]

theorem lookup_retain_delegations {D : Type} (hids : ∀ id i, m.lookup id = some i → i.id = id)
    (ds : HashMap (Uuid × PublicKey) D) (key : Uuid × PublicKey) :
    (ds.retain fun key _ => decide
      (key.1 ∉ ((m.entries.map Sigma.snd).filter n.conflicts).map Installation.id)).lookup key =
      if (m.lookup key.1).any n.conflicts then none else ds.lookup key := by
  have hmem := mem_conflicting_ids (n := n) hids key.1
  rw [HashMap.lookup_retain]
  cases hconflict : (m.lookup key.1).any n.conflicts with
  | false =>
      rw [hconflict] at hmem
      cases hd : ds.lookup key with
      | none => rfl
      | some d => simp [Option.filter, hmem]
  | true =>
      rw [hconflict] at hmem
      cases hd : ds.lookup key with
      | none => rfl
      | some d => simp [Option.filter, hmem]

end Maps

end PushGateway
end Maju
