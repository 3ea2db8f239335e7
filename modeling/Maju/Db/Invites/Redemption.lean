import Maju.Core.Nostr
import Maju.Lib.Run
import Maju.Lib.Slots
import Maju.Lib.Text
import Mathlib.Data.List.Sort

/-!
# Redemption — claims of use-limited invites, statement by statement

A claim of an invite is one transaction of several statements: it locks the row of the invite,
looks for a membership, inserts one, records the accepted policy and writes the use count back.
What a transaction writes is seen by the others when it commits; until then its row locks and its
uncommitted keys make them wait.

* `Tx.move` — the next statement of `claim_relay_invite`;
* `State.commit` — a commit makes the writes of a transaction visible, a rollback drops them;
* `State.step` — statements of any transactions, mints, removals, sweeps and failures.
-/

namespace Maju
namespace Db
namespace Invites

open Lib Core

/-! ## Rows -/

/-- A row of `relay_invites`; `serial` numbers the invites in the order of their mints. -/
structure Invite where
  community : CommunityId
  id : Uuid
  tokenHash : BitVec 256
  maxUses : Option Int
  useCount : Int
  expiresAt : Int
  serial : Nat
  deriving DecidableEq, Repr

namespace Invite

def key (r : Invite) : CommunityId × Uuid := (r.community, r.id)

/-- `max_uses - count`. -/
def usesRemaining (r : Invite) (count : Int) : Option Int := r.maxUses.map (· - count)

def exhausted (r : Invite) : Bool :=
  match r.maxUses with
  | some limit => limit ≤ r.useCount
  | none => false

end Invite

/-- A row of `join_policy_acceptances`. -/
structure Acceptance where
  community : CommunityId
  pubkey : Text
  policyVersion : Text
  deriving DecidableEq, Repr

inductive ClaimOutcome where
  | joined (useCount : Int) (usesRemaining : Option Int)
  | alreadyMember (useCount : Int) (usesRemaining : Option Int)
  | expired
  | exhausted
  | invalid
  deriving DecidableEq, Repr

/-! ## Minting -/

def minInviteTtlSecs : Nat := 60

def maxInviteTtlSecs : Nat := 30 * 24 * 60 * 60

def maxInviteUses : Int := 10000

def validateMintInputs (ttlSecs : Nat) (maxUses : Option Int) : Bool :=
  decide (minInviteTtlSecs ≤ ttlSecs ∧ ttlSecs ≤ maxInviteTtlSecs) &&
    match maxUses with
    | some limit => decide (1 ≤ limit ∧ limit ≤ maxInviteUses)
    | none => true

/-- What a mint is called with, and the hash and the id that are drawn for it. -/
structure Mint where
  community : CommunityId
  ttlSecs : Nat
  maxUses : Option Int
  tokenHash : BitVec 256
  id : Uuid
  now : Int
  deriving DecidableEq, Repr

/-! ## Claims -/

/-- The arguments of `claim_relay_invite`. -/
structure Claim where
  community : CommunityId
  tokenHash : BitVec 256
  claimer : Text
  policyVersion : Option Text
  deriving DecidableEq, Repr

/-- The membership that the claim asks for. -/
def Claim.key (c : Claim) : CommunityId × Text := (c.community, c.claimer)

/-- What a transaction has written and not committed; `useCount` is the key of an invite row and its
new use count. -/
structure Writes where
  member : Option (CommunityId × Text) := none
  acceptance : Option Acceptance := none
  useCount : Option ((CommunityId × Uuid) × Int) := none
  deriving DecidableEq, Repr

/-- The next statement of a claim; the invite is the locked row as it was read.  `vacant` found no
membership and is to insert one, `resolved` is to record the accepted policy, `counted` is to
commit. -/
inductive Stage where
  | started
  | locked (invite : Invite)
  | vacant (invite : Invite)
  | resolved (invite : Invite) (inserted : Bool)
  | recorded (invite : Invite) (inserted : Bool)
  | counted (invite : Invite) (useCount : Int)
  | returned (outcome : ClaimOutcome)
  | failed
  deriving DecidableEq, Repr

structure Tx where
  claim : Claim
  stage : Stage
  writes : Writes
  deriving DecidableEq, Repr

namespace Tx

/-- The row that the transaction has locked. -/
def invite (t : Tx) : Option Invite :=
  match t.stage with
  | .locked row => some row
  | .vacant row => some row
  | .resolved row _ => some row
  | .recorded row _ => some row
  | .counted row _ => some row
  | .started => none
  | .returned _ => none
  | .failed => none

/-- The transaction holds the lock of a row. -/
def holds (t : Tx) (r : Invite) : Bool := t.invite.any fun row => decide (row.key = r.key)

/-- The transaction ended with a new member. -/
def joined (t : Tx) : Bool :=
  match t.stage with
  | .returned (.joined _ _) => true
  | _ => false

def running (t : Tx) : Bool :=
  match t.stage with
  | .returned _ => false
  | .failed => false
  | _ => true

end Tx

/-- A membership row that a claim inserted; `invite` is the serial of the invite it had locked. -/
structure Admission where
  tx : Nat
  invite : Nat
  community : CommunityId
  pubkey : Text
  deriving DecidableEq, Repr

/-! ## The database -/

/-- The rows and the claims, in the order in which they began.  `minting` are rows of mints not
committed, `minted` is the community of every invite ever committed, by serial, and `admissions` are
the memberships that commits of claims have inserted. -/
structure State where
  invites : List Invite
  members : List (CommunityId × Text)
  acceptances : List Acceptance
  txs : List Tx
  minting : List Mint
  minted : List CommunityId
  admissions : List Admission
  deriving DecidableEq, Repr

/-- What a statement does, which may wait for another transaction. -/
inductive Move where
  | wait
  | next (stage : Stage) (writes : Writes)
  | rollback (stage : Stage)
  | commit (outcome : ClaimOutcome)
  deriving DecidableEq, Repr

def nextUseCount (count : Int) : Int := (count + 1).bmod (2 ^ 32)

/-- The checks of the table on a new use count. -/
def useCountAllowed (r : Invite) (count : Int) : Bool :=
  decide (0 ≤ count) && r.maxUses.all fun limit => decide (count ≤ limit)

/-- The next statement of `claim_relay_invite`. -/
def Tx.move (s : State) (t : Tx) (now : Int) : Move :=
  match t.stage with
  | .started =>
      match s.invites.find? fun r =>
        r.community = t.claim.community && r.tokenHash = t.claim.tokenHash with
      | none => .rollback (.returned .invalid)
      | some row =>
          if s.txs.any (·.holds row) then .wait else .next (.locked row) t.writes
  | .locked row =>
      if row.expiresAt ≤ now then .rollback (.returned .expired)
      else if t.claim.key ∈ s.members then .next (.resolved row false) t.writes
      else .next (.vacant row) t.writes
  | .vacant row =>
      if row.exhausted then .rollback (.returned .exhausted)
      -- An uncommitted row with the key makes the insert wait; a committed one makes it do nothing.
      else if s.txs.any (·.writes.member = some t.claim.key) then .wait
      else if t.claim.key ∈ s.members then .next (.resolved row false) t.writes
      else .next (.resolved row true) { t.writes with member := some t.claim.key }
  | .resolved row inserted =>
      match t.claim.policyVersion with
      | none => .next (.recorded row inserted) t.writes
      | some version =>
          let acceptance := ⟨t.claim.community, t.claim.claimer, version⟩
          if version.length ≠ 64 then .rollback .failed
          else if s.txs.any (·.writes.acceptance = some acceptance) then .wait
          else if acceptance ∈ s.acceptances then .next (.recorded row inserted) t.writes
          -- The evidence refers to a membership, which may have gone since it was found.
          else if t.claim.key ∈ s.members ∨ t.writes.member = some t.claim.key then
            .next (.recorded row inserted) { t.writes with acceptance := some acceptance }
          else .rollback .failed
  | .recorded row inserted =>
      if inserted then
        let count := nextUseCount row.useCount
        if useCountAllowed row count then
          .next (.counted row count)
            { t.writes with useCount := some ((t.claim.community, row.id), count) }
        else .rollback .failed
      else .commit (.alreadyMember row.useCount (row.usesRemaining row.useCount))
  | .counted row count => .commit (.joined count (row.usesRemaining count))
  | .returned _ => .wait
  | .failed => .wait

/-- `UPDATE relay_invites SET use_count`. -/
def setUseCount (invites : List Invite) (key : CommunityId × Uuid) (count : Int) : List Invite :=
  invites.map fun r => if r.key = key then { r with useCount := count } else r

/-- A mint inserts its row, where the guard found the community open for writes or not; the next
statement of a claim takes effect, or the claim fails and is rolled back; a member joins by other
means or leaves; `reap` is `reap_expired_relay_invites`, with the communities closed for writes. -/
inductive Input where
  | mint (call : Mint) (writable : Bool)
  | commitMint (call : Nat)
  | claim (claim : Claim)
  | advance (tx : Nat) (now : Int)
  | fail (tx : Nat)
  | join (community : CommunityId) (pubkey : Text)
  | remove (community : CommunityId) (pubkey : Text)
  | reap (cutoff : Int) (frozen : List CommunityId)
  deriving DecidableEq, Repr

namespace State

def empty : State := ⟨[], [], [], [], [], [], []⟩

def setTx (s : State) (i : Nat) (t : Tx) : State := { s with txs := s.txs.set i t }

/-- The writes of a transaction become visible, and its locks go. -/
def commit (s : State) (i : Nat) (t : Tx) (outcome : ClaimOutcome) : State where
  invites :=
    match t.writes.useCount with
    | some (key, count) => setUseCount s.invites key count
    | none => s.invites
  members := t.writes.member.toList ++ s.members
  acceptances := t.writes.acceptance.toList ++ s.acceptances
  txs := s.txs.set i ⟨t.claim, .returned outcome, {}⟩
  minting := s.minting
  minted := s.minted
  admissions :=
    match t.writes.member, t.invite with
    | some (community, pubkey), some row => s.admissions ++ [⟨i, row.serial, community, pubkey⟩]
    | _, _ => s.admissions

def apply (s : State) (i : Nat) (t : Tx) : Move → State
  | .wait => s
  | .next stage writes => s.setTx i ⟨t.claim, stage, writes⟩
  | .rollback stage => s.setTx i ⟨t.claim, stage, {}⟩
  | .commit outcome => s.commit i t outcome

def retentionSweepBatchSize : Nat := 1000

/-- The rows that a sweep chooses, the oldest first. -/
def expiredBatch (s : State) (cutoff : Int) (frozen : List CommunityId) : List Invite :=
  ((s.invites.filter fun r => r.expiresAt < cutoff && r.community ∉ frozen).insertionSort
    fun r r' => r.expiresAt ≤ r'.expiresAt).take retentionSweepBatchSize

/-- The commit of a mint; a row with one of its keys makes it fail. -/
def publish (s : State) (m : Mint) : State :=
  if s.invites.any fun r =>
      r.community = m.community && (r.id = m.id || r.tokenHash = m.tokenHash) then s
  else
    { s with
        invites := s.invites ++
          [⟨m.community, m.id, m.tokenHash, m.maxUses, 0, m.now + m.ttlSecs, s.minted.length⟩]
        minted := s.minted ++ [m.community] }

def step (s : State) : Input → State
  | .mint call writable =>
      if validateMintInputs call.ttlSecs call.maxUses && writable then
        { s with minting := s.minting ++ [call] }
      else s
  | .commitMint call =>
      match s.minting[call]? with
      | some m => { s with minting := s.minting.eraseIdx call }.publish m
      | none => s
  | .claim claim => { s with txs := s.txs ++ [⟨claim, .started, {}⟩] }
  | .advance i now =>
      match s.txs[i]? with
      | some t => s.apply i t (t.move s now)
      | none => s
  | .fail i =>
      match s.txs[i]? with
      | some t => if t.running then s.setTx i ⟨t.claim, .failed, {}⟩ else s
      | none => s
  | .join community pubkey =>
      if s.txs.any (·.writes.member = some (community, pubkey)) ∨ (community, pubkey) ∈ s.members
      then s
      else { s with members := (community, pubkey) :: s.members }
  | .remove community pubkey =>
      -- Uncommitted evidence keeps the row that it refers to.
      if s.txs.any fun t => t.writes.acceptance.any fun a =>
          a.community = community && a.pubkey = pubkey then s
      else
        { s with
            members := s.members.filter (· ≠ (community, pubkey))
            acceptances := s.acceptances.filter fun a =>
              ¬(a.community = community ∧ a.pubkey = pubkey) }
  | .reap cutoff frozen =>
      let batch := s.expiredBatch cutoff frozen
      -- A locked row makes the sweep wait.
      if batch.any fun r => s.txs.any (·.holds r) then s
      else { s with invites := s.invites.filter (· ∉ batch) }

def run (inputs : List Input) : State := Run.run step empty inputs

end State

end Invites
end Db
end Maju
