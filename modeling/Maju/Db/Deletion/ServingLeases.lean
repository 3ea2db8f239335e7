import Maju.Core.Nostr
import Maju.Lib.Run
import Maju.Lib.Text
import Mathlib.Data.List.Dedup
import Mathlib.Data.List.Sort
import Mathlib.Data.Char
import Mathlib.Data.List.Lex

/-!
# ServingLeases — serving writes and the lifecycle of one community

Serving writes of a community and the transitions of its deletion are transactions that take the
community lock, shared or exclusive, and hold it until they end.  `now()` is the time at which a
transaction began, however long it waited for the lock.

* `Store` — the rows of one community, and what each call reads and writes there;
* `Tx` — a transaction: begun, waiting for the lock, holding it, ready to commit, ended;
* `System.step` — the steps of any transactions, releases, reaps and changes of the requests.
-/

namespace Maju
namespace Db
namespace Deletion

open Lib Core

/-! ## Rows -/

inductive DeletionState where
  | active
  | quiescing
  | fenced
  | tombstone
  deriving DecidableEq, Repr

inductive DeletionStage where
  | submitted
  | inventoried
  | approved
  | fenced
  | drained
  | bindingsRemoved
  | postgresPurged
  | cachePurged
  | logicallyVerified
  | retentionPending
  | aborted
  deriving DecidableEq, Repr

/-- The columns of a row of `communities` that the deletion lifecycle uses. -/
structure Community where
  deletionState : DeletionState
  deletionFenceGeneration : Int
  deletedAt : Option Int
  archivedAt : Option Int
  deriving DecidableEq, Repr

/-- A row of `community_serving_write_leases`, and the record that its owner keeps of it, with the
fence generation of the community at the acquisition. -/
structure ServingWriteLease where
  id : Uuid
  operation : Text
  owner : Text
  generation : Int
  fenceGeneration : Int
  leaseUntil : Int
  deriving DecidableEq, Repr

/-- The columns of a row of `community_deletion_requests` that the transitions use; `approved` is an
approval of its inventory digest. -/
structure DeletionRequest where
  id : Uuid
  stage : DeletionStage
  approved : Bool
  leaseOwner : Option Text
  leaseGeneration : Int
  leaseUntil : Option Int
  blockedAt : Option Int
  fenceGeneration : Option Int
  preQuiesceArchivedAt : Option Int
  quiescingStartedAt : Option Int
  deriving DecidableEq, Repr

/-- The claim of an executor on a request. -/
structure LeaseToken where
  requestId : Uuid
  owner : Text
  generation : Int
  deriving DecidableEq, Repr

/-- Why a call fails, with the values that its message shows.  `duplicateKey` is a drawn id that is
the primary key of another row. -/
inductive DbError where
  | writeFenced (state : DeletionState)
  | tombstoned
  | notAdmitted
  | staleServingLease (id : Uuid)
  | staleDeletionLease (token : LeaseToken)
  | cannotQuiesce
  | servingWritesNotDrained (activeCount : Nat) (operations : List Text)
  | generationOverflow
  | notQuiescing
  | blankAbort
  | notFound (request : Uuid)
  | cannotAbort (request : Uuid) (stage : DeletionStage)
  | writesRemain (request : Uuid) (activeCount : Nat)
  | cannotRestore
  | duplicateKey
  deriving DecidableEq, Repr

/-- The rows of one community. -/
structure Store where
  community : Community
  requests : List DeletionRequest
  leases : List ServingWriteLease
  deriving DecidableEq, Repr

namespace Store

/-! ## Serving writes -/

/-- The condition on the lease row that every use of a lease repeats. -/
def leaseValid (s : Store) (now : Int) (lease : ServingWriteLease) : Bool :=
  s.leases.any fun row =>
    row.id = lease.id && row.owner = lease.owner && row.generation = lease.generation &&
      row.fenceGeneration = lease.fenceGeneration && decide (now ≤ row.leaseUntil) &&
      s.community.deletedAt.isNone &&
      (s.community.deletionState = .active || s.community.deletionState = .quiescing) &&
      s.community.deletionFenceGeneration = row.fenceGeneration

def guardTransaction (s : Store) : Except DbError Unit :=
  if s.community.deletedAt.isSome then .error .tombstoned
  else
    match s.community.deletionState with
    | .active => .ok ()
    | other => .error (.writeFenced other)

def guardTransactionWithServingLease (s : Store) (now : Int) (lease : ServingWriteLease) :
    Except DbError Unit :=
  if s.leaseValid now lease then .ok () else .error (.staleServingLease lease.id)

def verifyServingWriteLease (s : Store) (now : Int) (lease : ServingWriteLease) :
    Except DbError Unit :=
  if s.leaseValid now lease then .ok () else .error (.staleServingLease lease.id)

/-- Microseconds in a second; times are in microseconds. -/
def second : Int := 1000000

def renewServingWriteLease (s : Store) (now : Int) (lease : ServingWriteLease) (seconds : Nat) :
    Except DbError Int :=
  if s.leaseValid now lease then .ok (now + seconds * second)
  else .error (.staleServingLease lease.id)

/-- What is left of `assert_community_write_allowed` in a transaction without settings of its own:
the fence applies in every state but `active`. -/
def assertCommunityWriteAllowed (s : Store) : Bool := s.community.deletionState = .active

/-- The insert takes the generation from the row of the community; `id` is drawn for the new row. -/
def acquireServingWriteLease (s : Store) (now : Int) (id : Uuid) (operation owner : Text)
    (seconds : Nat) : Except DbError ServingWriteLease :=
  if !s.assertCommunityWriteAllowed then .error .notAdmitted
  else if s.community.deletionState = .active && s.community.deletedAt.isNone then
    if s.leases.any fun row => row.id = id then .error .duplicateKey
    else
      .ok
        { id := id
          operation := operation
          owner := owner
          generation := 1
          fenceGeneration := s.community.deletionFenceGeneration
          leaseUntil := now + seconds * second }
  else .error .notAdmitted

/-! ## Transitions of the lifecycle -/

def request? (s : Store) (id : Uuid) : Option DeletionRequest :=
  s.requests.find? fun request => request.id = id

/-- `verify_lease`: the row of the request, if the token is current for the stage. -/
def verifyLease (s : Store) (now : Int) (token : LeaseToken) (stage : DeletionStage) :
    Except DbError DeletionRequest :=
  match (s.request? token.requestId).filter fun request =>
      request.approved && request.stage = stage && request.leaseOwner = some token.owner &&
        request.leaseGeneration = token.generation &&
        (request.leaseUntil.any fun leaseUntil => decide (now ≤ leaseUntil)) &&
        request.blockedAt.isNone with
  | some request => .ok request
  | none => .error (.staleDeletionLease token)

def activeLeases (s : Store) (now : Int) : List ServingWriteLease :=
  s.leases.filter fun lease => decide (now ≤ lease.leaseUntil)

/-- The rows that a transition writes. -/
structure Transition where
  community : Community
  request : DeletionRequest
  deriving DecidableEq, Repr

/-- `COALESCE(archived_at, now())`. -/
def archive (c : Community) (now : Int) : Option Int := some (c.archivedAt.getD now)

def beginQuiescing (s : Store) (now : Int) (token : LeaseToken) : Except DbError Transition := do
  let request ← s.verifyLease now token .approved
  if (s.community.deletionState = .active || s.community.deletionState = .quiescing) &&
      s.community.deletedAt.isNone then
    .ok
      { community :=
          { s.community with
            deletionState := .quiescing
            archivedAt := archive s.community now }
        request :=
          if request.quiescingStartedAt.isNone then
            { request with
              preQuiesceArchivedAt := s.community.archivedAt
              quiescingStartedAt := some now }
          else request }
  else .error .cannotQuiesce

/-- `i64::checked_add(1)`. -/
def nextGeneration (generation : Int) : Option Int :=
  if generation + 1 < 2 ^ 63 then some (generation + 1) else none

/-- The distinct operations of the leases, in order. -/
def operations (leases : List ServingWriteLease) : List Text :=
  (leases.map ServingWriteLease.operation).dedup.mergeSort fun a b => decide (a ≤ b)

/-- The request that was verified is the one that `advance_request_tx` moves on. -/
def fence (s : Store) (now : Int) (token : LeaseToken) : Except DbError Transition := do
  let request ← s.verifyLease now token .approved
  let active := s.activeLeases now
  if 0 < active.length then .error (.servingWritesNotDrained active.length (operations active))
  else
    match nextGeneration s.community.deletionFenceGeneration with
    | none => .error .generationOverflow
    | some generation =>
        if s.community.deletionState = .quiescing then
          .ok
            { community :=
                { s.community with
                  deletionState := .fenced
                  deletionFenceGeneration := generation
                  archivedAt := archive s.community now }
              request := { request with stage := .fenced, fenceGeneration := some generation } }
        else .error .notQuiescing

def abort (s : Store) (now : Int) (requestId : Uuid) : Except DbError Transition :=
  match s.request? requestId with
  | none => .error (.notFound requestId)
  | some request =>
      if request.stage ≠ .approved ∧ request.stage ≠ .fenced then
        .error (.cannotAbort requestId request.stage)
      else
        let active := s.activeLeases now
        if 0 < active.length then .error (.writesRemain requestId active.length)
        else
          match nextGeneration s.community.deletionFenceGeneration with
          | none => .error .generationOverflow
          | some generation =>
              if s.community.deletionState ≠ .tombstone ∧ s.community.deletedAt.isNone then
                .ok
                  { community :=
                      { s.community with
                        deletionState := .active
                        deletionFenceGeneration := generation
                        archivedAt :=
                          if request.quiescingStartedAt.isSome then request.preQuiesceArchivedAt
                          else s.community.archivedAt }
                    request :=
                      { request with
                        stage := .aborted
                        fenceGeneration := some generation
                        leaseOwner := none
                        leaseUntil := none
                        leaseGeneration := request.leaseGeneration + 1
                        blockedAt := none } }
              else .error .cannotRestore

/-! ## Statements without the lock -/

def releaseServingWriteLease (s : Store) (lease : ServingWriteLease) : Store :=
  { s with
    leases := s.leases.filter fun row =>
      !(row.id = lease.id && row.owner = lease.owner && row.generation = lease.generation &&
        row.fenceGeneration = lease.fenceGeneration) }

/-- At most `limit` expired rows go, the oldest expiry first; rows in `locked` are skipped. -/
def reapExpiredServingWriteLeases (s : Store) (now limit : Int) (locked : List Uuid) : Store :=
  let expired := s.leases.filter fun row => decide (row.leaseUntil < now) && row.id ∉ locked
  let batch := (expired.mergeSort fun a b => decide (a.leaseUntil ≤ b.leaseUntil)).take
    (max 1 (min limit 10000)).toNat
  { s with leases := s.leases.filter fun row => row ∉ batch }

/-- Another operation on the requests writes a row. -/
def putRequest (s : Store) (row : DeletionRequest) : Store :=
  { s with requests := row :: s.requests.filter fun request => request.id ≠ row.id }

end Store

/-! ## Transactions -/

inductive Mode where
  | shared
  | exclusive
  deriving DecidableEq, Repr

/-- The calls; a mutation stands behind `guard_transaction`, a leased one behind
`guard_transaction_with_serving_lease`. -/
inductive Call where
  | acquireServingWriteLease (operation owner : Text) (seconds : Nat)
  | renewServingWriteLease (lease : ServingWriteLease) (seconds : Nat)
  | verifyServingWriteLease (lease : ServingWriteLease)
  | mutation
  | leasedMutation (lease : ServingWriteLease)
  | beginQuiescing (token : LeaseToken)
  | fence (token : LeaseToken)
  | abort (request : Uuid) (abortedBy reason : Text)
  deriving DecidableEq, Repr

/-- `lock_community_deletion` or `lock_community_deletion_shared`. -/
def Call.mode : Call → Mode
  | .beginQuiescing _ | .fence _ | .abort _ _ _ => .exclusive
  | _ => .shared

/-- What a transaction writes when it commits. -/
inductive Effect where
  | acquired (lease : ServingWriteLease)
  | renewed (lease : ServingWriteLease) (leaseUntil : Int)
  | verified (lease : ServingWriteLease)
  | mutated
  | mutatedUnder (lease : ServingWriteLease)
  | quiesced (after : Store.Transition)
  | fenced (after : Store.Transition)
  | aborted (after : Store.Transition)
  deriving DecidableEq, Repr

/-- Where a transaction is: `waiting` for the community lock, or `ready` to commit after its last
statement. -/
inductive Phase where
  | begun
  | waiting
  | locked
  | ready (effect : Effect)
  | committed
  | failed (error : DbError)
  | rolledBack
  deriving DecidableEq, Repr

/-- A transaction; `start` is `now()` in each of its statements. -/
structure Tx where
  call : Call
  start : Int
  phase : Phase
  deriving DecidableEq, Repr

namespace Tx

/-- The transaction holds the community lock. -/
def holds (tx : Tx) : Bool :=
  match tx.phase with
  | .locked | .ready _ => true
  | _ => false

def prepare (s : Store) (tx : Tx) : Except DbError Unit :=
  match tx.call with
  | .beginQuiescing token | .fence token =>
      (s.verifyLease tx.start token .approved).map fun _ => ()
  | .abort request abortedBy reason =>
      if (trim abortedBy).isEmpty || (trim reason).isEmpty then .error .blankAbort
      else if (s.request? request).isSome then .ok ()
      else .error (.notFound request)
  | _ => .ok ()

/-- The statements under the lock; `drawn` is the id of a new lease row. -/
def execute (s : Store) (drawn : Uuid) (tx : Tx) : Except DbError Effect :=
  match tx.call with
  | .acquireServingWriteLease operation owner seconds =>
      (s.acquireServingWriteLease tx.start drawn operation owner seconds).map .acquired
  | .renewServingWriteLease lease seconds =>
      (s.renewServingWriteLease tx.start lease seconds).map (.renewed lease)
  | .verifyServingWriteLease lease =>
      (s.verifyServingWriteLease tx.start lease).map fun _ => .verified lease
  | .mutation => s.guardTransaction.map fun _ => .mutated
  | .leasedMutation lease =>
      (s.guardTransactionWithServingLease tx.start lease).map fun _ => .mutatedUnder lease
  | .beginQuiescing token => (s.beginQuiescing tx.start token).map .quiesced
  | .fence token => (s.fence tx.start token).map .fenced
  | .abort request _ _ => (s.abort tx.start request).map .aborted

end Tx

/-- A commit makes the writes visible. -/
def Store.apply (s : Store) : Effect → Store
  | .acquired lease => { s with leases := s.leases ++ [lease] }
  | .renewed lease leaseUntil =>
      { s with
        leases := s.leases.map fun row =>
          if row.id = lease.id then { row with leaseUntil := leaseUntil } else row }
  | .verified _ | .mutated | .mutatedUnder _ => s
  | .quiesced after | .fenced after | .aborted after =>
      { s with
        community := after.community
        requests := s.requests.map fun row =>
          if row.id = after.request.id then after.request else row }

/-! ## The system -/

/-- The rows, the transactions in the order in which they began, and the committed effects in the
order of the commits. -/
structure System where
  store : Store
  txs : List Tx
  log : List Effect
  deriving DecidableEq, Repr

/-- A transaction begins, goes on (`drawn` is the id of a lease it may insert) or fails at whatever
step it is; or other code releases and reaps leases or writes a row of the requests. -/
inductive Input where
  | start (call : Call) (now : Int)
  | advance (tx : Nat) (drawn : Uuid)
  | rollback (tx : Nat)
  | release (lease : ServingWriteLease)
  | reap (now limit : Int)
  | request (row : DeletionRequest)
  deriving DecidableEq, Repr

namespace System

def initial (store : Store) : System := ⟨store, [], []⟩

/-- The lock can be granted in a mode. -/
def grantable (s : System) (mode : Mode) : Bool :=
  s.txs.all fun tx => !(tx.holds && (mode = .exclusive || tx.call.mode = .exclusive))

/-- The lease rows that are locked by a pending renewal or insert. -/
def lockedLeases (s : System) : List Uuid :=
  s.txs.filterMap fun tx =>
    match tx.phase with
    | .ready (.renewed lease _) | .ready (.acquired lease) => some lease.id
    | _ => none

/-- The request rows that are locked by a pending transition. -/
def lockedRequests (s : System) : List Uuid :=
  s.txs.filterMap fun tx =>
    match tx.phase with
    | .ready (.quiesced after) | .ready (.fenced after) | .ready (.aborted after) =>
        some after.request.id
    | _ => none

/-- The next statement waits for a row lock. -/
def blocked (s : System) (drawn : Uuid) (tx : Tx) : Bool :=
  match tx.call with
  | .renewServingWriteLease lease _ => lease.id ∈ s.lockedLeases
  | .acquireServingWriteLease _ _ _ => drawn ∈ s.lockedLeases
  | _ => false

def setPhase (s : System) (i : Nat) (tx : Tx) (phase : Phase) : System :=
  { s with txs := s.txs.set i { tx with phase := phase } }

def advance (s : System) (i : Nat) (drawn : Uuid) (tx : Tx) : System :=
  match tx.phase with
  | .begun =>
      match tx.prepare s.store with
      | .ok _ => s.setPhase i tx .waiting
      | .error error => s.setPhase i tx (.failed error)
  | .waiting => if s.grantable tx.call.mode then s.setPhase i tx .locked else s
  | .locked =>
      if s.blocked drawn tx then s
      else
        match tx.execute s.store drawn with
        | .ok effect => s.setPhase i tx (.ready effect)
        | .error error => s.setPhase i tx (.failed error)
  | .ready effect =>
      { (s.setPhase i tx .committed) with
        store := s.store.apply effect
        log := s.log ++ [effect] }
  | .committed | .failed _ | .rolledBack => s

def step (s : System) : Input → System
  | .start call now => { s with txs := s.txs ++ [⟨call, now, .begun⟩] }
  | .advance i drawn =>
      match s.txs[i]? with
      | some tx => s.advance i drawn tx
      | none => s
  | .rollback i =>
      match s.txs[i]? with
      | some tx =>
          match tx.phase with
          | .committed | .failed _ | .rolledBack => s
          | _ => s.setPhase i tx .rolledBack
      | none => s
  | .release lease =>
      if lease.id ∈ s.lockedLeases then s
      else { s with store := s.store.releaseServingWriteLease lease }
  | .reap now limit =>
      { s with store := s.store.reapExpiredServingWriteLeases now limit s.lockedLeases }
  | .request row =>
      if row.id ∈ s.lockedRequests then s
      else { s with store := s.store.putRequest row }

def run (store : Store) (inputs : List Input) : System := Run.run step (initial store) inputs

end System

end Deletion
end Db
end Maju
