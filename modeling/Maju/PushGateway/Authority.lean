import Maju.Core.Nostr
import Maju.Lib.Bytes

/-!
# Authority — requests to the authority store of the push gateway

An installation of the app attests a key and submits a token; it delegates to relays, and a relay
with a delegation may have pushes delivered.  The store behind the gateway keeps all of this, with
the fences against replay.  A request is one atomic operation of the store at a time of the clock;
relay keys and event ids are 64 lowercase hexadecimal digits, so they are numbers here.
-/

namespace Maju
namespace PushGateway

open Lib Core

/-! ## Records -/

inductive AppProfile where
  | majuIosDogfood
  deriving DecidableEq, Repr

abbrev Fingerprint := BitVec 256

structure Challenge where
  id : Uuid
  value : Bytes
  createdAt : Int
  expiresAt : Int
  deriving DecidableEq, Repr

structure NewInstallation where
  id : Uuid
  appAttestKeyId : Bytes
  appAttestPublicKey : Bytes
  assertionCounter : UInt32
  profile : AppProfile
  tokenCiphertext : Bytes
  tokenFingerprint : Fingerprint
  endpointEpoch : Int
  expiresAt : Int
  deriving DecidableEq, Repr

/-- An installation; `R` says whether it is revoked, or since when. -/
structure Installation (R : Type) where
  id : Uuid
  appAttestKeyId : Bytes
  appAttestPublicKey : Bytes
  assertionCounter : UInt32
  profile : AppProfile
  tokenCiphertext : Bytes
  tokenFingerprint : Fingerprint
  endpointEpoch : Int
  expiresAt : Int
  revoked : R
  deriving DecidableEq, Repr

/-- A delegation of an installation to a relay. -/
structure Delegation (R : Type) where
  id : Uuid
  installationId : Uuid
  relayPubkey : PublicKey
  endpointEpoch : Int
  generation : Int
  notBefore : Int
  expiresAt : Int
  revoked : R
  deriving DecidableEq, Repr

namespace Installation

variable {R R' : Type}

/-- The token of an installation is unique for its profile. -/
def token (i : Installation R) : AppProfile × Fingerprint := (i.profile, i.tokenFingerprint)

def setRevoked (i : Installation R) (revoked : R') : Installation R' :=
  ⟨i.id, i.appAttestKeyId, i.appAttestPublicKey, i.assertionCounter, i.profile, i.tokenCiphertext,
    i.tokenFingerprint, i.endpointEpoch, i.expiresAt, revoked⟩

end Installation

namespace NewInstallation

def stored {R : Type} (n : NewInstallation) (revoked : R) : Installation R :=
  ⟨n.id, n.appAttestKeyId, n.appAttestPublicKey, n.assertionCounter, n.profile, n.tokenCiphertext,
    n.tokenFingerprint, n.endpointEpoch, n.expiresAt, revoked⟩

/-- The installation has the key or the token of the new one. -/
def conflicts {R : Type} (n : NewInstallation) (i : Installation R) : Bool :=
  decide (i.appAttestKeyId = n.appAttestKeyId) ||
    (decide (i.profile = n.profile) && decide (i.tokenFingerprint = n.tokenFingerprint))

end NewInstallation

namespace Delegation

variable {R R' : Type}

def key (d : Delegation R) : Uuid × PublicKey := (d.installationId, d.relayPubkey)

def setRevoked (d : Delegation R) (revoked : R') : Delegation R' :=
  ⟨d.id, d.installationId, d.relayPubkey, d.endpointEpoch, d.generation, d.notBefore, d.expiresAt,
    revoked⟩

end Delegation

structure DeliveryAuthority where
  delegationId : Uuid
  installationId : Uuid
  relayPubkey : PublicKey
  profile : AppProfile
  tokenCiphertext : Bytes
  endpointEpoch : Int
  generation : Int
  expiresAt : Int
  deriving DecidableEq, Repr

structure DeliveryPermit where
  authority : DeliveryAuthority
  relayPubkey : PublicKey
  requestId : Uuid
  deriving DecidableEq, Repr

inductive DeliveryDisposition where
  | terminal
  | retryable
  deriving DecidableEq, Repr

inductive AuthorityError where
  | rejected
  | rateLimited
  | unavailable
  deriving DecidableEq, Repr

/-! ## Requests -/

/-- The arguments of `authorize_delivery`. -/
structure Delivery where
  delegationId : Uuid
  relayPubkey : PublicKey
  endpointEpoch : Int
  generation : Int
  eventId : EventId
  requestId : Uuid
  requestExpiresAt : Int
  quotaWindowSeconds : Int
  quotaMaxDeliveries : Int
  deriving DecidableEq, Repr

/-- A call of the store. -/
inductive Request where
  | ready
  | putChallenge (challenge : Challenge)
  | consumeChallenge (id : Uuid) (value : Bytes)
  | createInstallation (installation : NewInstallation)
  | matchingInstallation (keyId : Bytes) (profile : AppProfile) (fingerprint : Fingerprint)
      (epoch expiresAt : Int)
  | installation (id : Uuid)
  | advanceAssertionCounter (id : Uuid) (previous next : UInt32)
  | upsertDelegation (delegation : Delegation Bool)
  | rotateEndpoint (id : Uuid) (expected new : Int) (ciphertext : Bytes)
      (fingerprint : Fingerprint)
  | revokeDelegation (id : Uuid) (relay : PublicKey) (expectedGeneration : Int)
  | revokeInstallation (id : Uuid) (expected new : Int)
  | authorizeDelivery (delivery : Delivery)
  | finishDelivery (permit : DeliveryPermit) (disposition : DeliveryDisposition)
  | reapExpired
  deriving DecidableEq, Repr

/-- What a call returns. -/
inductive Response where
  | done
  | installation (installation : Installation Bool)
  | matching (installation : Option (Installation Bool))
  | permit (permit : DeliveryPermit)
  deriving DecidableEq, Repr

abbrev Result := Except AuthorityError Response

def challengeQuotaWindowSeconds : Int := 60

def challengeQuotaMaxRequests : Nat := 600

def i64Min : Int := -2 ^ 63

def i64Max : Int := 2 ^ 63 - 1

def saturatingSub (a b : Int) : Int := max i64Min (min i64Max (a - b))

/-- `new != expected.checked_add(1)`, also where the sum overflows. -/
def notSuccessor (expected new : Int) : Bool := decide (expected = i64Max ∨ new ≠ expected + 1)

def Delivery.authority {R : Type} (q : Delivery) (i : Installation R) (expiresAt : Int) :
    DeliveryAuthority :=
  ⟨q.delegationId, i.id, q.relayPubkey, i.profile, i.tokenCiphertext, q.endpointEpoch,
    q.generation, expiresAt⟩

def Delivery.permit {R : Type} (q : Delivery) (i : Installation R) (expiresAt : Int) :
    DeliveryPermit :=
  ⟨q.authority i expiresAt, q.relayPubkey, q.requestId⟩

/-- What a delegation and its installation must be for a delivery to be admitted. -/
def Delivery.Admissible (q : Delivery) (d : Delegation Bool) (i : Installation Bool)
    (now : Int) : Prop :=
  d.revoked = false ∧ i.revoked = false ∧ d.id = q.delegationId ∧ d.relayPubkey = q.relayPubkey ∧
    d.endpointEpoch = q.endpointEpoch ∧ d.generation = q.generation ∧
    i.endpointEpoch = q.endpointEpoch ∧ d.notBefore ≤ now ∧ now ≤ d.expiresAt ∧
    now ≤ i.expiresAt ∧ now ≤ q.requestExpiresAt ∧ q.requestExpiresAt ≤ d.expiresAt

instance Delivery.Admissible.decidable (q : Delivery) (d : Delegation Bool) (i : Installation Bool)
    (now : Int) : Decidable (q.Admissible d i now) :=
  inferInstanceAs (Decidable (_ ∧ _))

end PushGateway
end Maju
