import Maju.Lib.HashMap
import Maju.Lib.Run
import Maju.Lib.Text

/-!
# RunnerLease — the lease of the representative runner of an agent

The relays keep in Redis, for one agent of one community, a lease key that holds the token of the
representative runner, and a second key with its metadata.  Every command, transaction and script
is atomic, but a call of `acquire_runner` is up to four of them:

* `Keys` — the keys of one agent and what each command does to them;
* `Call.step` — the next command of a call of `acquire_runner`;
* `System.step` — commands of any number of calls, renewals, releases and expiries, in any order.
-/

namespace Maju
namespace Pubsub
namespace Runner

open Lib

/-! ## Runners -/

/-- The representative that is stored next to the lease token. -/
structure AgentRunner where
  agentPubkey : Text
  ownerPubkey : Text
  deviceId : Text
  sessionId : Text
  runnerId : Text
  deviceName : Text
  deriving DecidableEq, Repr

def runnerToken (sessionId runnerId : Text) : Text := sessionId ++ ':' :: runnerId

def AgentRunner.token (runner : AgentRunner) : Text :=
  runnerToken runner.sessionId runner.runnerId

/-- The result of an attempt to become the representative runner: this process owns the lease, with
the token that fences renewal and release, or another device does. -/
inductive RunnerAdmission where
  | active (token : Text)
  | standby (active : AgentRunner)
  deriving DecidableEq, Repr

/-! ## The keys of an agent -/

/-- The keys of one agent: the lease, its metadata, the standby key of each device, and the owners
whose set of agents has the agent. -/
structure Keys where
  lease : Option Text
  metadata : Option AgentRunner
  standby : HashMap Text AgentRunner
  owners : List Text

namespace Keys

/-- `SADD` of the agent to the set of an owner. -/
def addAgent (k : Keys) (owner : Text) : Keys :=
  if owner ∈ k.owners then k else { k with owners := owner :: k.owners }

/-- `SET lease token NX`. -/
def setNx (k : Keys) (token : Text) : Keys × Bool :=
  match k.lease with
  | none => ({ k with lease := some token }, true)
  | some _ => (k, false)

/-- The transaction of a caller that set the lease. -/
def writeMetadata (k : Keys) (runner : AgentRunner) : Keys :=
  { k with
      metadata := some runner
      standby := k.standby.erase runner.deviceId }.addAgent runner.ownerPubkey

/-- The transaction of a caller that found the lease taken. -/
def writeStandby (k : Keys) (runner : AgentRunner) : Keys :=
  { k with standby := k.standby.insert runner.deviceId runner }.addAgent runner.ownerPubkey

/-- `renew_runner`: a script that writes the metadata only if the lease holds the token. -/
def renewRunner (k : Keys) (token : Text) (runner : AgentRunner) : Keys × Bool :=
  if k.lease = some token then ({ k with metadata := some runner }, true) else (k, false)

/-- `release_runner`: a script that deletes both keys only if the lease holds the token. -/
def releaseRunner (k : Keys) (token : Text) : Keys × Bool :=
  if k.lease = some token then ({ k with lease := none, metadata := none }, true) else (k, false)

@[simp] theorem addAgent_lease (k : Keys) (owner : Text) : (k.addAgent owner).lease = k.lease := by
  unfold addAgent
  split <;> rfl

@[simp] theorem addAgent_metadata (k : Keys) (owner : Text) :
    (k.addAgent owner).metadata = k.metadata := by
  unfold addAgent
  split <;> rfl

@[simp] theorem writeMetadata_lease (k : Keys) (runner : AgentRunner) :
    (k.writeMetadata runner).lease = k.lease := by
  simp [writeMetadata]

@[simp] theorem writeMetadata_metadata (k : Keys) (runner : AgentRunner) :
    (k.writeMetadata runner).metadata = some runner := by
  simp [writeMetadata]

@[simp] theorem writeStandby_lease (k : Keys) (runner : AgentRunner) :
    (k.writeStandby runner).lease = k.lease := by
  simp [writeStandby]

@[simp] theorem writeStandby_metadata (k : Keys) (runner : AgentRunner) :
    (k.writeStandby runner).metadata = k.metadata := by
  simp [writeStandby]

@[simp] theorem renewRunner_lease (k : Keys) (token : Text) (runner : AgentRunner) :
    (k.renewRunner token runner).1.lease = k.lease := by
  unfold renewRunner
  split <;> rfl

end Keys

/-! ## Calls of `acquire_runner` -/

/-- The next command of a call: `acquired` is to write the metadata, `refused` to read the lease
that was taken, `owned` to renew the lease that held its token, `other` to read the metadata,
`waiting` to write the standby key.  A returned call keeps the lease value at its last write, and an
abandoned one has no next command. -/
inductive Stage where
  | started
  | acquired
  | refused
  | owned
  | other
  | waiting (active : AgentRunner)
  | abandoned
  | returned (admission : RunnerAdmission) (lease : Option Text)
  deriving DecidableEq, Repr

/-- A call of `acquire_runner`, with the tokens that the lease key held since it began. -/
structure Call where
  runner : AgentRunner
  stage : Stage
  held : List Text
  deriving DecidableEq, Repr

namespace Call

/-- The next command of `acquire_runner`. -/
def step (k : Keys) (c : Call) : Keys × Call :=
  match c.stage with
  | .started =>
      let (k, acquired) := k.setNx c.runner.token
      (k, { c with stage := if acquired then .acquired else .refused })
  | .acquired =>
      let k := k.writeMetadata c.runner
      (k, { c with stage := .returned (.active c.runner.token) k.lease })
  | .refused =>
      (k, { c with stage := if k.lease = some c.runner.token then .owned else .other })
  | .owned =>
      -- The result of the renewal is not looked at.
      let (k, _) := k.renewRunner c.runner.token c.runner
      (k, { c with stage := .returned (.active c.runner.token) k.lease })
  | .other => (k, { c with stage := .waiting (k.metadata.getD c.runner) })
  | .waiting active =>
      let k := k.writeStandby c.runner
      (k, { c with stage := .returned (.standby active) k.lease })
  | .abandoned => (k, c)
  | .returned _ _ => (k, c)

/-- The call has not returned yet, and has not been abandoned. -/
def Open (c : Call) : Bool :=
  match c.stage with
  | .abandoned => false
  | .returned _ _ => false
  | _ => true

/-- The caller is gone: its process stopped, or a command failed or was given up. -/
def abandon (c : Call) : Call := if c.Open then { c with stage := .abandoned } else c

/-- A call in progress sees what the lease key holds now. -/
def observe (k : Keys) (c : Call) : Call :=
  if c.Open then { c with held := k.lease.toList ++ c.held } else c

@[simp] theorem observe_stage (k : Keys) (c : Call) : (c.observe k).stage = c.stage := by
  unfold observe
  split <;> rfl

@[simp] theorem observe_runner (k : Keys) (c : Call) : (c.observe k).runner = c.runner := by
  unfold observe
  split <;> rfl

theorem held_subset_observe (k : Keys) (c : Call) {token : Text} (h : token ∈ c.held) :
    token ∈ (c.observe k).held := by
  unfold observe
  split
  · exact List.mem_append_right _ h
  · exact h

theorem mem_held_observe {k : Keys} {c : Call} (hopen : c.Open = true) {token : Text}
    (h : k.lease = some token) : token ∈ (c.observe k).held := by
  simp [observe, hopen, h]

end Call

/-! ## The system -/

/-- The keys, and the calls of `acquire_runner` in the order in which they began. -/
structure System where
  keys : Keys
  calls : List Call

/-- A runner calls `acquire_runner`, `renew_runner` or `release_runner`, the next command of a call
takes effect, a call ends between two of its commands, or a key expires. -/
inductive Input where
  | acquire (runner : AgentRunner)
  | advance (call : Nat)
  | abandon (call : Nat)
  | renew (runner : AgentRunner)
  | release (runner : AgentRunner)
  | expireLease
  | expireMetadata
  | expireStandby (device : Text)
  deriving DecidableEq, Repr

namespace System

def empty : System := ⟨⟨none, none, ∅, []⟩, []⟩

/-- What an input does, before the calls in progress look at the lease again. -/
def act (s : System) : Input → System
  | .acquire runner => { s with calls := s.calls ++ [⟨runner, .started, []⟩] }
  | .advance call =>
      match s.calls[call]? with
      | some c =>
          let (k, c) := c.step s.keys
          ⟨k, s.calls.set call c⟩
      | none => s
  | .abandon call =>
      match s.calls[call]? with
      | some c => { s with calls := s.calls.set call c.abandon }
      | none => s
  | .renew runner => { s with keys := (s.keys.renewRunner runner.token runner).1 }
  | .release runner => { s with keys := (s.keys.releaseRunner runner.token).1 }
  | .expireLease => { s with keys := { s.keys with lease := none } }
  | .expireMetadata => { s with keys := { s.keys with metadata := none } }
  | .expireStandby device => { s with keys := { s.keys with standby := s.keys.standby.erase device } }

def step (s : System) (i : Input) : System :=
  let s := s.act i
  { s with calls := s.calls.map (Call.observe s.keys) }

def run (inputs : List Input) : System := Run.run step empty inputs

end System

end Runner
end Pubsub
end Maju
