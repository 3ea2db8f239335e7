import Maju.Lib.HashMap
import Maju.PushGateway.Authority

/-!
# Memory — `MemoryAuthorityStore`, the reference store of the push gateway

Hash maps under one lock.  A call returns its result and the state, which a failed call may have
changed too: a challenge is consumed by a wrong answer.
-/

namespace Maju
namespace PushGateway

open Lib Core

structure MemoryState where
  challenges : HashMap Uuid Challenge
  installations : HashMap Uuid (Installation Bool)
  tokenOwners : HashMap (AppProfile × Fingerprint) Uuid
  delegations : HashMap (Uuid × PublicKey) (Delegation Bool)
  delegationIds : HashMap Uuid (Uuid × PublicKey)
  deliveryAuthReplays : HashMap (PublicKey × EventId) Int
  deliveryRequestReplays : HashMap (PublicKey × Uuid) Int
  endpointQuotas : HashMap Fingerprint (Int × Int)

namespace MemoryState

def empty : MemoryState := ⟨∅, ∅, ∅, ∅, ∅, ∅, ∅, ∅⟩

/-- The number of stored challenges that are created from `windowStart` on. -/
def issuedSince (s : MemoryState) (windowStart : Int) : Nat :=
  s.challenges.total fun _ c => if windowStart ≤ c.createdAt then 1 else 0

def putChallenge (s : MemoryState) (c : Challenge) : Result × MemoryState :=
  if challengeQuotaMaxRequests ≤
      s.issuedSince (saturatingSub c.createdAt challengeQuotaWindowSeconds) then
    (.error .rateLimited, s)
  else
    -- the insert replaces a challenge of the same id before it is reported
    let s' := { s with challenges := s.challenges.insert c.id c }
    if (s.challenges.lookup c.id).isSome then (.error .rejected, s') else (.ok .done, s')

def consumeChallenge (s : MemoryState) (id : Uuid) (value : Bytes) (now : Int) :
    Result × MemoryState :=
  match s.challenges.lookup id with
  | none => (.error .rejected, s)
  | some c =>
      let s' := { s with challenges := s.challenges.erase id }
      if c.value ≠ value ∨ c.expiresAt < now then (.error .rejected, s') else (.ok .done, s')

/-- The installations that a new one would replace. -/
def replaced (s : MemoryState) (n : NewInstallation) : List (Installation Bool) :=
  (s.installations.entries.map Sigma.snd).filter n.conflicts

/-- The installations are removed with their tokens and delegations. -/
def remove (s : MemoryState) (old : List (Installation Bool)) : MemoryState :=
  let ids := old.map Installation.id
  { s with
    installations := s.installations.retain fun id _ => id ∉ ids
    tokenOwners := s.tokenOwners.retain fun token _ => token ∉ old.map Installation.token
    delegations := s.delegations.retain fun key _ => key.1 ∉ ids
    delegationIds := s.delegationIds.retain fun _ key => key.1 ∉ ids }

def createInstallation (s : MemoryState) (n : NewInstallation) (now : Int) :
    Result × MemoryState :=
  if (s.installations.lookup n.id).isSome then (.error .rejected, s)
  else if (s.replaced n).any fun i => !i.revoked && decide (now ≤ i.expiresAt) then
    -- app identity and token possession never supersede a live installation
    (.error .rejected, s)
  else
    let s' := s.remove (s.replaced n)
    (.ok .done, { s' with
      tokenOwners := s'.tokenOwners.insert (n.profile, n.tokenFingerprint) n.id
      installations := s'.installations.insert n.id (n.stored false) })

def installation (s : MemoryState) (id : Uuid) (now : Int) : Result :=
  match s.installations.lookup id with
  | some i => if !i.revoked && decide (now ≤ i.expiresAt) then .ok (.installation i)
      else .error .rejected
  | none => .error .rejected

def matchingInstallation (s : MemoryState) (keyId : Bytes) (profile : AppProfile)
    (fingerprint : Fingerprint) (epoch expiresAt now : Int) : Result :=
  .ok (.matching ((s.installations.entries.map Sigma.snd).find? fun i =>
    !i.revoked && decide (now ≤ i.expiresAt) && decide (i.appAttestKeyId = keyId) &&
      decide (i.profile = profile) && decide (i.tokenFingerprint = fingerprint) &&
      decide (i.endpointEpoch = epoch) && decide (i.expiresAt = expiresAt)))

def advanceAssertionCounter (s : MemoryState) (id : Uuid) (previous next : UInt32) :
    Result × MemoryState :=
  if next ≤ previous then (.error .rejected, s)
  else
    match s.installations.lookup id with
    | none => (.error .rejected, s)
    | some i =>
        if i.revoked ∨ i.assertionCounter ≠ previous then (.error .rejected, s)
        else (.ok .done, { s with
          installations := s.installations.insert id { i with assertionCounter := next } })

def upsertDelegation (s : MemoryState) (d : Delegation Bool) : Result × MemoryState :=
  match s.installations.lookup d.installationId with
  | none => (.error .rejected, s)
  | some i =>
      if i.revoked ∨ i.endpointEpoch ≠ d.endpointEpoch ∨ d.generation < 1 ∨
          d.expiresAt ≤ d.notBefore then (.error .rejected, s)
      else if ((s.delegations.lookup d.key).any fun old => d.generation ≤ old.generation) ∨
          (s.delegationIds.lookup d.id).isSome then (.error .rejected, s)
      else (.ok .done, { s with
        installations := s.installations.insert d.installationId
          { i with expiresAt := max i.expiresAt d.expiresAt }
        delegationIds := s.delegationIds.insert d.id d.key
        delegations := s.delegations.insert d.key d })

def rotateEndpoint (s : MemoryState) (id : Uuid) (expected new : Int) (ciphertext : Bytes)
    (fingerprint : Fingerprint) : Result × MemoryState :=
  if notSuccessor expected new then (.error .rejected, s)
  else
    match s.installations.lookup id with
    | none => (.error .rejected, s)
    | some i =>
        if i.revoked ∨ i.endpointEpoch ≠ expected then (.error .rejected, s)
        else if (s.tokenOwners.lookup (i.profile, fingerprint)).any fun owner => owner ≠ id then
          (.error .rejected, s)
        else (.ok .done, { s with
          tokenOwners := (s.tokenOwners.erase i.token).insert (i.profile, fingerprint) id
          installations := s.installations.insert id
            { i with
              endpointEpoch := new, tokenCiphertext := ciphertext, tokenFingerprint := fingerprint } })

def revokeDelegation (s : MemoryState) (id : Uuid) (relay : PublicKey)
    (expectedGeneration : Int) : Result × MemoryState :=
  match s.delegations.lookup (id, relay) with
  | none => (.error .rejected, s)
  | some old =>
      if old.revoked ∨ expectedGeneration ≠ old.generation then (.error .rejected, s)
      else (.ok .done, { s with
        delegations := s.delegations.insert (id, relay) { old with revoked := true } })

def revokeInstallation (s : MemoryState) (id : Uuid) (expected new : Int) :
    Result × MemoryState :=
  if notSuccessor expected new then (.error .rejected, s)
  else
    match s.installations.lookup id with
    | none => (.error .rejected, s)
    | some i =>
        if i.revoked ∨ i.endpointEpoch ≠ expected then (.error .rejected, s)
        else (.ok .done, { s with
          installations := s.installations.insert id
            { i with endpointEpoch := new, revoked := true } })

/-- The quota of a token at a time: its window and what was admitted in it. -/
def quota (s : MemoryState) (q : Delivery) (fingerprint : Fingerprint) (now : Int) : Int × Int :=
  let stored := (s.endpointQuotas.lookup fingerprint).getD (now, 0)
  if q.quotaWindowSeconds ≤ saturatingSub now stored.1 then (now, 0) else stored

def authorizeDelivery (s : MemoryState) (q : Delivery) (now : Int) : Result × MemoryState :=
  match s.delegationIds.lookup q.delegationId with
  | none => (.error .rejected, s)
  | some key =>
      match s.delegations.lookup key with
      | none => (.error .rejected, s)
      | some d =>
          match s.installations.lookup d.installationId with
          | none => (.error .rejected, s)
          | some i =>
              if ¬ q.Admissible d i now then (.error .rejected, s)
              else if (s.deliveryAuthReplays.lookup (q.relayPubkey, q.eventId)).isSome ∨
                  (s.deliveryRequestReplays.lookup (q.relayPubkey, q.requestId)).isSome then
                (.error .rejected, s)
              else
                let (started, admitted) := s.quota q i.tokenFingerprint now
                if q.quotaMaxDeliveries ≤ admitted then
                  -- the entry of the quota is set before it is compared
                  (.error .rejected, { s with
                    endpointQuotas := s.endpointQuotas.insert i.tokenFingerprint
                      (started, admitted) })
                else (.ok (.permit (q.permit i d.expiresAt)), { s with
                  endpointQuotas := s.endpointQuotas.insert i.tokenFingerprint
                    (started, admitted + 1)
                  deliveryAuthReplays := s.deliveryAuthReplays.insert
                    (q.relayPubkey, q.eventId) q.requestExpiresAt
                  deliveryRequestReplays := s.deliveryRequestReplays.insert
                    (q.relayPubkey, q.requestId) q.requestExpiresAt })

def finishDelivery (s : MemoryState) (permit : DeliveryPermit)
    (disposition : DeliveryDisposition) : Result × MemoryState :=
  if disposition = .retryable then
    (.ok .done, { s with
      deliveryRequestReplays := s.deliveryRequestReplays.erase
        (permit.relayPubkey, permit.requestId) })
  else (.ok .done, s)

def reapExpired (s : MemoryState) (now : Int) : Result × MemoryState :=
  (.ok .done, { s with
    challenges := s.challenges.retain fun _ c => now ≤ c.expiresAt
    deliveryAuthReplays := s.deliveryAuthReplays.retain fun _ expiresAt => now ≤ expiresAt
    deliveryRequestReplays := s.deliveryRequestReplays.retain fun _ expiresAt => now ≤ expiresAt
    endpointQuotas := s.endpointQuotas.retain fun _ quota => saturatingSub now quota.1 < 86400 })

def exec (now : Int) (s : MemoryState) : Request → Result × MemoryState
  | .ready => (.ok .done, s)
  | .putChallenge c => s.putChallenge c
  | .consumeChallenge id value => s.consumeChallenge id value now
  | .createInstallation n => s.createInstallation n now
  | .matchingInstallation keyId profile fingerprint epoch expiresAt =>
      (s.matchingInstallation keyId profile fingerprint epoch expiresAt now, s)
  | .installation id => (s.installation id now, s)
  | .advanceAssertionCounter id previous next => s.advanceAssertionCounter id previous next
  | .upsertDelegation d => s.upsertDelegation d
  | .rotateEndpoint id expected new ciphertext fingerprint =>
      s.rotateEndpoint id expected new ciphertext fingerprint
  | .revokeDelegation id relay expectedGeneration =>
      s.revokeDelegation id relay expectedGeneration
  | .revokeInstallation id expected new => s.revokeInstallation id expected new
  | .authorizeDelivery q => s.authorizeDelivery q now
  | .finishDelivery permit disposition => s.finishDelivery permit disposition
  | .reapExpired => s.reapExpired now

end MemoryState

end PushGateway
end Maju
