import Maju.Lib.Run
import Maju.Pubsub.Topic
import Maju.Relay.Subscription.Runs

/-!
# Model — opening and closing subscriptions, step by step

Each REQ is handled by a task of its own; CLOSE and the cleanup after a disconnect run in the
receive loop of their connection; a channel revocation runs in the task of the event that caused
it.  All of them touch three shared tables, each under its own lock: the connection's table of
subscription ids, the registry, and the topic refcounts.  `Task` is one of these activities with
its progress, and one `advance` is one step between two locks.

The position of a task in the list is its place in the order of receipt.
-/

namespace Maju
namespace Relay

open Lib Core Pubsub

/-- The topics a subscription scope retains. -/
def scopeTopics (communityId : CommunityId) (scope : SubscriptionScope) : List EventTopicKey :=
  match scope with
  | .global => [⟨communityId, .global⟩]
  | .channels channelIds => channelIds.map fun ch => ⟨communityId, .channel ch⟩

/-- The scope a REQ resolves to: its authorized requested channels, which are distinct and not
empty, or the global scope. -/
structure RequestedScope where
  scope : SubscriptionScope
  nodup : scope.channelIds.Nodup
  nonempty : scope ≠ .channels []

/-- What a task does. -/
inductive Job where
  | req (subId : SubId) (filters : List Filter)
  | close (subId : SubId)
  | cleanup
  | revoke (channelId : Uuid)

/-- How far a task got.  A REQ has passed the limit check, then has its entry in the connection's
table, and is refused where it finishes without registering; a CLOSE has first taken its entry off
the table; a revocation is done with the registry before the table.  When the registry is done,
topics remain to be released and then retained. -/
inductive Phase where
  | started
  | checked
  | inserted (scope : RequestedScope)
  | updated (updates : List ChannelSubscriptionUpdate)
  | working (releases retains : List EventTopicKey)
  | finished
  | refused

structure Task where
  connId : ConnId
  job : Job
  phase : Phase

/-- The tables shared by the tasks of one pod, the tasks, and how often a release met an unretained
topic (`release_topic` logs a warning). -/
structure Pod where
  registry : SubscriptionRegistry
  connSubs : HashMap ConnId (HashMap SubId (List Filter))
  desired : DesiredTopics
  strayReleases : Nat
  tasks : List Task

namespace Task

def isDone (τ : Task) : Bool :=
  match τ.phase with
  | .finished | .refused => true
  | _ => false

/-- The receive loop is past this task, or never waits for it. -/
def leavesLoopFree (τ : Task) : Bool :=
  match τ.job with
  | .cleanup => false
  | .close _ => τ.isDone
  | _ => true

end Task

namespace Pod

def new : Pod where
  registry := .new
  connSubs := ∅
  desired := ∅
  strayReleases := 0
  tasks := []

/-- The subscriptions table of a connection. -/
def table (s : Pod) (connId : ConnId) : HashMap SubId (List Filter) :=
  (s.connSubs.lookup connId).getD ∅

/-- The receive loop of a connection is running and not busy with a CLOSE. -/
def loopFree (s : Pod) (connId : ConnId) : Bool :=
  s.tasks.all fun τ => decide (τ.connId ≠ connId) || τ.leavesLoopFree

/-- What can happen next.  Where a task takes its next step, `outcome` is what the checks of a REQ
between the limit check and the registration decide. -/
inductive Input where
  | receiveReq (connId : ConnId) (subId : SubId) (filters : List Filter)
  | receiveClose (connId : ConnId) (subId : SubId)
  | disconnect (connId : ConnId)
  | revoke (connId : ConnId) (channelId : Uuid)
  | advance (task : Nat) (outcome : Option RequestedScope)
      (ord : IterOrder (Sigma fun _ : SubId => SubEntry))

def spawn (s : Pod) (connId : ConnId) (job : Job) : Pod :=
  { s with tasks := s.tasks ++ [⟨connId, job, .started⟩] }

def setPhase (s : Pod) (k : Nat) (τ : Task) (phase : Phase) : Pod :=
  { s with tasks := s.tasks.set k { τ with phase := phase } }

def retainTopic (s : Pod) (t : EventTopicKey) : Pod :=
  { s with desired := (s.desired.retain t).1 }

def releaseTopic (s : Pod) (t : EventTopicKey) : Pod :=
  { s with
    desired := (s.desired.release t).1
    strayReleases :=
      if (s.desired.release t).2 = .unretained then s.strayReleases + 1 else s.strayReleases }

def setTable (s : Pod) (connId : ConnId) (table : HashMap SubId (List Filter)) : Pod :=
  { s with connSubs := s.connSubs.insert connId table }

/-- The connection was deregistered at the end of its cleanup. -/
def deregistered (s : Pod) (connId : ConnId) : Bool :=
  s.tasks.any fun τ =>
    decide (τ.connId = connId) && (match τ.job with | .cleanup => τ.isDone | _ => false)

section Steps

variable (tenant : ConnId → CommunityId)

/-- The registration of `handle_req`. -/
def register (registry : SubscriptionRegistry) (connId : ConnId) (subId : SubId)
    (filters : List Filter) (scope : SubscriptionScope) :
    SubscriptionRegistry × Option RemovedSubscription :=
  match scope with
  | .channels channelIds =>
      registry.registerChannelsScoped (tenant connId) connId subId filters channelIds
  | .global => registry.registerScoped (tenant connId) connId subId filters none

/-- The topics of subscriptions that were removed. -/
def removedTopics (connId : ConnId) (removed : List RemovedSubscription) :
    List EventTopicKey :=
  removed.flatMap fun r => scopeTopics (tenant connId) r.scope

/-- The next step of a REQ handler, up to the registration. -/
def advanceReq (s : Pod) (k : Nat) (τ : Task) (subId : SubId) (filters : List Filter)
    (outcome : Option RequestedScope) : Pod :=
  match τ.phase with
  | .started =>
      let subs := s.table τ.connId
      if subId ∉ subs ∧ maxSubscriptions ≤ subs.entries.length then s.setPhase k τ .refused
      else s.setPhase k τ .checked
  | .checked =>
      match outcome with
      | none => s.setPhase k τ .refused
      | some scope =>
          (s.setTable τ.connId ((s.table τ.connId).insert subId filters)).setPhase k τ
            (.inserted scope)
  | .inserted scope =>
      let r := register tenant s.registry τ.connId subId filters scope.scope
      { s with registry := r.1 }.setPhase k τ
        (.working (removedTopics tenant τ.connId r.2.toList)
          (scopeTopics (tenant τ.connId) scope.scope))
  | _ => s

/-- The next step of `handle_close`, up to the removal. -/
def advanceClose (s : Pod) (k : Nat) (τ : Task) (subId : SubId) : Pod :=
  match τ.phase with
  | .started =>
      (s.setTable τ.connId ((s.table τ.connId).erase subId)).setPhase k τ .checked
  | .checked =>
      let r := s.registry.removeSubscription τ.connId subId
      { s with registry := r.1 }.setPhase k τ
        (.working (removedTopics tenant τ.connId r.2.toList) [])
  | _ => s

/-- The removal step of the connection cleanup. -/
def advanceCleanup (s : Pod) (k : Nat) (τ : Task)
    (ord : IterOrder (Sigma fun _ : SubId => SubEntry)) : Pod :=
  match τ.phase with
  | .started =>
      let r := SubscriptionRegistry.removeConnection ord s.registry τ.connId
      { s with registry := r.1 }.setPhase k τ (.working (removedTopics tenant τ.connId r.2) [])
  | _ => s

/-- The connection's table without the subscriptions a revocation removed. -/
def dropRemoved (updates : List ChannelSubscriptionUpdate)
    (table : HashMap SubId (List Filter)) : HashMap SubId (List Filter) :=
  updates.foldl (fun table u => if u.removed then table.erase u.subId else table) table

/-- The next step of `evict_conn_channel_subscriptions`, up to the releases. -/
def advanceRevoke (s : Pod) (k : Nat) (τ : Task) (channelId : Uuid)
    (ord : IterOrder (Sigma fun _ : SubId => SubEntry)) : Pod :=
  match τ.phase with
  | .started =>
      let r := SubscriptionRegistry.removeChannelSubscriptionsScoped ord s.registry
        (tenant τ.connId) τ.connId channelId
      { s with registry := r.1 }.setPhase k τ
        (if r.2.isEmpty then .finished else .updated r.2)
  | .updated updates =>
      (if s.deregistered τ.connId then s
        else s.setTable τ.connId (dropRemoved updates (s.table τ.connId))).setPhase k τ
          (.working (updates.map fun _ => ⟨tenant τ.connId, .channel channelId⟩) [])
  | _ => s

def advanceTask (s : Pod) (k : Nat) (τ : Task) (outcome : Option RequestedScope)
    (ord : IterOrder (Sigma fun _ : SubId => SubEntry)) : Pod :=
  match τ.phase with
  | .working (t :: releases) retains =>
      (s.releaseTopic t).setPhase k τ (.working releases retains)
  | .working [] (t :: retains) => (s.retainTopic t).setPhase k τ (.working [] retains)
  | .working [] [] => s.setPhase k τ .finished
  | _ =>
      match τ.job with
      | .req subId filters => s.advanceReq tenant k τ subId filters outcome
      | .close subId => s.advanceClose tenant k τ subId
      | .cleanup => s.advanceCleanup tenant k τ ord
      | .revoke channelId => s.advanceRevoke tenant k τ channelId ord

/-- What happens next.  A busy or ended receive loop takes no message. -/
def step (s : Pod) : Input → Pod
  | .receiveReq connId subId filters =>
      if s.loopFree connId then s.spawn connId (.req subId filters) else s
  | .receiveClose connId subId =>
      if s.loopFree connId then s.spawn connId (.close subId) else s
  | .disconnect connId => if s.loopFree connId then s.spawn connId .cleanup else s
  | .revoke connId channelId => s.spawn connId (.revoke channelId)
  | .advance k outcome ord =>
      match s.tasks[k]? with
      | none => s
      | some τ => s.advanceTask tenant k τ outcome ord

/-- The pod after a sequence of inputs. -/
def run (inputs : List Input) : Pod := Run.run (step tenant) Pod.new inputs

end Steps

end Pod

end Relay
end Maju
