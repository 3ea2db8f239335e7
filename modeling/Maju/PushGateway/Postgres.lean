import Maju.Db.Replaceable
import Maju.PushGateway.Authority

/-!
# Postgres — `PostgresAuthorityStore`, the store of the push gateway in production

Each call is one transaction on six tables; an error of a statement or of a check rolls it back, so
a failed call changes nothing.  The keys, the unique and the check constraints of the schema are
part of the model, and so is the range of a timestamp column.
-/

namespace Maju
namespace PushGateway

open Lib Core

structure ChallengeRow where
  challengeHash : Bytes
  expiresAt : Int
  createdAt : Int
  deriving DecidableEq, Repr

structure QuotaRow where
  windowStartedAt : Int
  admitted : Int
  updatedAt : Int
  deriving DecidableEq, Repr

/-- The tables, the delegations by their unique pair of installation and relay.  `revoked` of a row
is its `revoked_at`. -/
structure PostgresState where
  challenges : HashMap Uuid ChallengeRow
  installations : HashMap Uuid (Installation (Option Int))
  delegations : HashMap (Uuid × PublicKey) (Delegation (Option Int))
  endpointQuotas : HashMap Fingerprint QuotaRow
  deliveryAuthReplays : HashMap (PublicKey × EventId) Int
  deliveryRequestReplays : HashMap (PublicKey × Uuid) Int

/-- `at`. -/
def timeAt (t : Int) : Except AuthorityError Int :=
  match Db.fromTimestamp t with
  | some t => .ok t
  | none => .error .rejected

/-- A value of a timestamp column or expression. -/
def timestamptz (t : Int) : Except AuthorityError Unit :=
  if t < Db.Replaceable.minTimestamptz then .error .unavailable else .ok ()

/-- A check or a unique constraint of the schema. -/
def constraint (holds : Prop) [Decidable holds] : Except AuthorityError Unit :=
  if holds then .ok () else .error .unavailable

/-- A condition that the code itself answers with a rejection. -/
def ensure (holds : Prop) [Decidable holds] : Except AuthorityError Unit :=
  if holds then .ok () else .error .rejected

def fetched {α : Type} : Option α → Except AuthorityError α
  | some row => .ok row
  | none => .error .rejected

def secondsPerDay : Int := 86400

/-- The checks on the columns of an installation. -/
def Installation.ColumnsFit {R : Type} (i : Installation R) : Prop :=
  (1 ≤ i.appAttestKeyId.length ∧ i.appAttestKeyId.length ≤ 128) ∧
    (33 ≤ i.appAttestPublicKey.length ∧ i.appAttestPublicKey.length ≤ 256) ∧
    (1 ≤ i.tokenCiphertext.length ∧ i.tokenCiphertext.length ≤ 2048) ∧ 0 < i.endpointEpoch

instance Installation.ColumnsFit.decidable {R : Type} (i : Installation R) :
    Decidable i.ColumnsFit :=
  inferInstanceAs (Decidable (_ ∧ _))

namespace PostgresState

def empty : PostgresState := ⟨∅, ∅, ∅, ∅, ∅, ∅⟩

variable (sha256 : Bytes → Bytes)

def issuedSince (s : PostgresState) (windowStart : Int) : Nat :=
  s.challenges.total fun _ c => if windowStart ≤ c.createdAt then 1 else 0

def putChallenge (s : PostgresState) (c : Challenge) :
    Except AuthorityError (Response × PostgresState) := do
  let windowStart ← timeAt (saturatingSub c.createdAt challengeQuotaWindowSeconds)
  timestamptz windowStart
  if challengeQuotaMaxRequests ≤ s.issuedSince windowStart then throw .rateLimited
  let expiresAt ← timeAt c.expiresAt
  let createdAt ← timeAt c.createdAt
  timestamptz expiresAt
  timestamptz createdAt
  -- the primary key
  constraint (s.challenges.lookup c.id = none)
  return (.done, { s with
    challenges := s.challenges.insert c.id ⟨sha256 c.value, expiresAt, createdAt⟩ })

def consumeChallenge (s : PostgresState) (id : Uuid) (value : Bytes) (now : Int) :
    Except AuthorityError (Response × PostgresState) := do
  let now ← timeAt now
  timestamptz now
  let c ← fetched (s.challenges.lookup id)
  ensure (c.challengeHash = sha256 value ∧ now ≤ c.expiresAt)
  return (.done, { s with challenges := s.challenges.erase id })

/-- The installations with the key or the token of a new one. -/
def existing (s : PostgresState) (n : NewInstallation) : List (Installation (Option Int)) :=
  (s.installations.entries.map Sigma.snd).filter n.conflicts

def createInstallation (s : PostgresState) (n : NewInstallation) (now : Int) :
    Except AuthorityError (Response × PostgresState) := do
  let now ← timeAt now
  ensure (∀ i ∈ s.existing n, ¬ (i.revoked = none ∧ now ≤ i.expiresAt))
  let replaced := (s.existing n).map Installation.id
  let delegations := s.delegations.retain fun key _ => key.1 ∉ replaced
  let installations := s.installations.retain fun id _ => id ∉ replaced
  let expiresAt ← timeAt n.expiresAt
  timestamptz expiresAt
  constraint (n.stored ()).ColumnsFit
  -- `ON CONFLICT DO NOTHING`: only the id can be taken now
  ensure (installations.lookup n.id = none)
  return (.done, { s with
    delegations := delegations
    installations := installations.insert n.id (n.stored none) })

/-- An installation as it is returned. -/
def returned (i : Installation (Option Int)) : Installation Bool := i.setRevoked false

def installation (s : PostgresState) (id : Uuid) (now : Int) : Except AuthorityError Response := do
  let now ← timeAt now
  timestamptz now
  let i ← fetched (s.installations.lookup id)
  ensure (i.revoked = none ∧ now ≤ i.expiresAt)
  return .installation (returned i)

def matchingInstallation (s : PostgresState) (keyId : Bytes) (profile : AppProfile)
    (fingerprint : Fingerprint) (epoch expiresAt now : Int) : Except AuthorityError Response := do
  let expiresAt ← timeAt expiresAt
  let now ← timeAt now
  timestamptz expiresAt
  timestamptz now
  return .matching (((s.installations.entries.map Sigma.snd).find? fun i =>
    decide (i.appAttestKeyId = keyId) && decide (i.profile = profile) &&
      decide (i.tokenFingerprint = fingerprint) && decide (i.endpointEpoch = epoch) &&
      decide (i.expiresAt = expiresAt) && decide (i.revoked = none) &&
      decide (now ≤ i.expiresAt)).map returned)

def advanceAssertionCounter (s : PostgresState) (id : Uuid) (previous next : UInt32) :
    Except AuthorityError (Response × PostgresState) := do
  ensure (¬ next ≤ previous)
  let i ← fetched (s.installations.lookup id)
  ensure (i.assertionCounter = previous ∧ i.revoked = none)
  return (.done, { s with
    installations := s.installations.insert id { i with assertionCounter := next } })

def IdFree (s : PostgresState) (d : Delegation Bool) : Prop :=
  ∀ e ∈ s.delegations.entries, e.2.id = d.id → e.1 = d.key

instance IdFree.decidable (s : PostgresState) (d : Delegation Bool) : Decidable (s.IdFree d) :=
  inferInstanceAs (Decidable (∀ e ∈ s.delegations.entries, _))

def upsertDelegation (s : PostgresState) (d : Delegation Bool) :
    Except AuthorityError (Response × PostgresState) := do
  let i ← fetched (s.installations.lookup d.installationId)
  ensure (i.revoked = none ∧ i.endpointEpoch = d.endpointEpoch)
  let notBefore ← timeAt d.notBefore
  let expiresAt ← timeAt d.expiresAt
  timestamptz notBefore
  timestamptz expiresAt
  constraint (0 < d.endpointEpoch ∧ 0 < d.generation ∧ notBefore < expiresAt)
  -- `ON CONFLICT(installation_id,relay_pubkey) DO UPDATE … WHERE` the generation is newer
  ensure (∀ old ∈ s.delegations.lookup d.key, old.generation < d.generation)
  constraint (s.IdFree d)
  return (.done, { s with
    delegations := s.delegations.insert d.key (d.setRevoked none)
    installations := s.installations.insert d.installationId
      { i with expiresAt := max i.expiresAt expiresAt } })

/-- No other installation has the token. -/
def TokenFree (s : PostgresState) (i : Installation (Option Int)) : Prop :=
  ∀ e ∈ s.installations.entries, e.2.token = i.token → e.1 = i.id

instance TokenFree.decidable (s : PostgresState) (i : Installation (Option Int)) :
    Decidable (s.TokenFree i) :=
  inferInstanceAs (Decidable (∀ e ∈ s.installations.entries, _))

def rotateEndpoint (s : PostgresState) (id : Uuid) (expected new : Int) (ciphertext : Bytes)
    (fingerprint : Fingerprint) : Except AuthorityError (Response × PostgresState) := do
  ensure (notSuccessor expected new = false)
  let i ← fetched (s.installations.lookup id)
  ensure (i.endpointEpoch = expected ∧ i.revoked = none)
  let i' := { i with
    endpointEpoch := new, tokenCiphertext := ciphertext, tokenFingerprint := fingerprint }
  constraint i'.ColumnsFit
  constraint (s.TokenFree i')
  return (.done, { s with installations := s.installations.insert id i' })

def revokeDelegation (s : PostgresState) (id : Uuid) (relay : PublicKey)
    (expectedGeneration now : Int) : Except AuthorityError (Response × PostgresState) := do
  let d ← fetched (s.delegations.lookup (id, relay))
  ensure (d.generation = expectedGeneration ∧ d.revoked = none)
  return (.done, { s with
    delegations := s.delegations.insert (id, relay) { d with revoked := some now } })

def revokeInstallation (s : PostgresState) (id : Uuid) (expected new now : Int) :
    Except AuthorityError (Response × PostgresState) := do
  ensure (notSuccessor expected new = false)
  let i ← fetched (s.installations.lookup id)
  ensure (i.endpointEpoch = expected ∧ i.revoked = none)
  let i' := { i with endpointEpoch := new, revoked := some now }
  constraint i'.ColumnsFit
  return (.done, { s with installations := s.installations.insert id i' })

def delegationOf (s : PostgresState) (id : Uuid) : Option (Delegation (Option Int)) :=
  (s.delegations.entries.map Sigma.snd).find? fun d => d.id = id

/-- The statement on `push_gateway_endpoint_quotas`; `none` where it changes no row. -/
def admitted (s : PostgresState) (q : Delivery) (fingerprint : Fingerprint) (now : Int) :
    Except AuthorityError QuotaRow := do
  match s.endpointQuotas.lookup fingerprint with
  | none => return ⟨now, 1, now⟩
  | some row =>
      timestamptz (now - q.quotaWindowSeconds)
      if row.windowStartedAt ≤ now - q.quotaWindowSeconds then return ⟨now, 1, now⟩
      ensure (row.admitted < q.quotaMaxDeliveries)
      return ⟨row.windowStartedAt, row.admitted + 1, now⟩

def authorizeDelivery (s : PostgresState) (q : Delivery) (now : Int) :
    Except AuthorityError (Response × PostgresState) := do
  let owner ← fetched (s.delegationOf q.delegationId)
  let i ← fetched (s.installations.lookup owner.installationId)
  ensure (i.revoked = none ∧ i.endpointEpoch = q.endpointEpoch)
  let now ← timeAt now
  ensure (now ≤ i.expiresAt)
  timestamptz now
  let d ← fetched (s.delegationOf q.delegationId)
  ensure (d.relayPubkey = q.relayPubkey ∧ d.endpointEpoch = q.endpointEpoch ∧
    d.generation = q.generation ∧ d.revoked = none ∧ d.notBefore ≤ now ∧ now ≤ d.expiresAt)
  ensure (now ≤ q.requestExpiresAt ∧ q.requestExpiresAt ≤ d.expiresAt)
  if q.quotaWindowSeconds < 1 ∨ q.quotaMaxDeliveries < 1 then throw .unavailable
  let quota ← s.admitted q i.tokenFingerprint now
  let requestExpiresAt ← timeAt q.requestExpiresAt
  ensure (s.deliveryAuthReplays.lookup (q.relayPubkey, q.eventId) = none ∧
    s.deliveryRequestReplays.lookup (q.relayPubkey, q.requestId) = none)
  return (.permit (q.permit i d.expiresAt), { s with
    endpointQuotas := s.endpointQuotas.insert i.tokenFingerprint quota
    deliveryAuthReplays := s.deliveryAuthReplays.insert (q.relayPubkey, q.eventId)
      requestExpiresAt
    deliveryRequestReplays := s.deliveryRequestReplays.insert (q.relayPubkey, q.requestId)
      requestExpiresAt })

def finishDelivery (s : PostgresState) (permit : DeliveryPermit)
    (disposition : DeliveryDisposition) : Except AuthorityError (Response × PostgresState) :=
  if disposition = .retryable then
    .ok (.done, { s with
      deliveryRequestReplays := s.deliveryRequestReplays.erase
        (permit.relayPubkey, permit.requestId) })
  else .ok (.done, s)

/-- The installation is past its retention. -/
def retired (now : Int) (i : Installation (Option Int)) : Bool :=
  decide (i.expiresAt < now) || i.revoked.any fun at_ => at_ < now - secondsPerDay

/-- The delegation is past its retention, or its installation is. -/
def lapsed (s : PostgresState) (now : Int) (d : Delegation (Option Int)) : Bool :=
  decide (d.expiresAt < now) || (d.revoked.any fun at_ => at_ < now - secondsPerDay) ||
    (s.installations.lookup d.installationId).any (retired now)

def reapExpired (s : PostgresState) (now : Int) :
    Except AuthorityError (Response × PostgresState) := do
  let now ← timeAt now
  timestamptz (now - secondsPerDay)
  return (.done, { s with
    challenges := s.challenges.retain fun _ c => now ≤ c.expiresAt
    deliveryAuthReplays := s.deliveryAuthReplays.retain fun _ expiresAt => now ≤ expiresAt
    deliveryRequestReplays := s.deliveryRequestReplays.retain fun _ expiresAt => now ≤ expiresAt
    endpointQuotas := s.endpointQuotas.retain fun _ quota => now - secondsPerDay ≤ quota.updatedAt
    delegations := s.delegations.retain fun _ d => !s.lapsed now d
    installations := s.installations.retain fun _ i => !retired now i })

/-- The result and the state of a call. -/
def settle (s : PostgresState) :
    Except AuthorityError (Response × PostgresState) → Result × PostgresState
  | .ok (response, s') => (.ok response, s')
  | .error e => (.error e, s)

/-- A call at a time, which is the clock of the database too. -/
def exec (now : Int) (s : PostgresState) : Request → Result × PostgresState
  | .ready => (.ok .done, s)
  | .putChallenge c => s.settle (s.putChallenge sha256 c)
  | .consumeChallenge id value => s.settle (s.consumeChallenge sha256 id value now)
  | .createInstallation n => s.settle (s.createInstallation n now)
  | .matchingInstallation keyId profile fingerprint epoch expiresAt =>
      (s.matchingInstallation keyId profile fingerprint epoch expiresAt now, s)
  | .installation id => (s.installation id now, s)
  | .advanceAssertionCounter id previous next =>
      s.settle (s.advanceAssertionCounter id previous next)
  | .upsertDelegation d => s.settle (s.upsertDelegation d)
  | .rotateEndpoint id expected new ciphertext fingerprint =>
      s.settle (s.rotateEndpoint id expected new ciphertext fingerprint)
  | .revokeDelegation id relay expectedGeneration =>
      s.settle (s.revokeDelegation id relay expectedGeneration now)
  | .revokeInstallation id expected new => s.settle (s.revokeInstallation id expected new now)
  | .authorizeDelivery q => s.settle (s.authorizeDelivery q now)
  | .finishDelivery permit disposition => s.settle (s.finishDelivery permit disposition)
  | .reapExpired => s.settle (s.reapExpired now)

end PostgresState

end PushGateway
end Maju
