import Maju.Relay.Lifecycle.Topics

/-!
# Orderly — what holds while the tasks of a subscription run one after the other

`Orderly` collects what a client and an operator rely on: nothing of a connection survives its
cleanup, a closed id stays closed, the last REQ with an id wins, the subscription limit, and topic
counts that match the live subscriptions.  Tasks that overlap on one subscription break every part
of it, and so do REQs that are admitted together or refused over a live subscription.

* `Task.Conflicts` — two tasks touch one subscription: they have its id, or one is a cleanup or a
  revocation of the connection;
* `inTurn` — a task waits for the earlier tasks that conflict with it, a REQ finds room where it
  registers, and its id is not live where it is refused.

All other tasks may interleave in any way, those of one connection too.
-/

namespace Maju
namespace Relay

open Lib Core Pubsub

namespace Task

def isStarted (τ : Task) : Bool :=
  match τ.phase with
  | .started => true
  | _ => false

def pastRegistry (τ : Task) : Bool :=
  match τ.phase with
  | .working _ _ | .finished => true
  | _ => false

/-- The registry step is done, or the REQ is refused. -/
def isDecided (τ : Task) : Bool :=
  match τ.phase with
  | .working _ _ | .finished | .refused => true
  | _ => false

/-- The subscription id of a REQ or a CLOSE.  A cleanup and a revocation have none: they touch every
subscription of their connection. -/
def ownId (τ : Task) : Option SubId :=
  match τ.job with
  | .req subId _ => some subId
  | .close subId => some subId
  | .cleanup => none
  | .revoke _ => none

/-- The task may change what is known of the subscription. -/
def Touches (τ : Task) (connId : ConnId) (subId : SubId) : Prop :=
  τ.connId = connId ∧ (τ.ownId = none ∨ τ.ownId = some subId)

/-- The two tasks touch one subscription. -/
def Conflicts (σ τ : Task) : Prop :=
  σ.connId = τ.connId ∧ (σ.ownId = none ∨ τ.ownId = none ∨ σ.ownId = τ.ownId)

instance Conflicts.decidable (σ τ : Task) : Decidable (σ.Conflicts τ) :=
  inferInstanceAs (Decidable (_ ∧ _))

/-- The task opened the subscription id. -/
def Opened (τ : Task) (subId : SubId) : Prop :=
  (∃ filters, τ.job = .req subId filters) ∧ τ.pastRegistry = true

/-- The topics the task has yet to retain. -/
def retains (τ : Task) : List EventTopicKey :=
  match τ.phase with
  | .working _ retains => retains
  | _ => []

/-- The topics the task has yet to release: those it lists, or, for a revocation that has not
listed them yet, one for each subscription it changed. -/
def releases (tenant : ConnId → CommunityId) (τ : Task) : List EventTopicKey :=
  match τ.phase with
  | .working releases _ => releases
  | .updated updates =>
      match τ.job with
      | .revoke channelId => updates.map fun _ => ⟨tenant τ.connId, .channel channelId⟩
      | _ => []
  | _ => []

end Task

namespace Pod

/-- The live subscriptions of a connection. -/
def liveSubs (s : Pod) (connId : ConnId) : HashMap SubId SubEntry :=
  (s.registry.subs.lookup connId).getD ∅

/-- The number of live subscriptions whose scope contains a topic. -/
def subscribers (s : Pod) (t : EventTopicKey) : Nat :=
  s.registry.places.countP fun place =>
    (s.registry.entry place.1 place.2).any fun e => decide (t ∈ e.topics)

/-- No task is between two of its steps. -/
def Quiet (s : Pod) : Prop := ∀ τ ∈ s.tasks, τ.isStarted = true ∨ τ.isDone = true

/-- What clients and operators rely on.  `cleaned`: once the cleanup and all handlers of a
connection have finished, nothing of it is live.  `closed`: once a CLOSE is answered and the earlier
REQs with its id have finished, the id is not live unless a later REQ opened it.  `lastReq`: of two
REQs with one id that have finished, the later one, or one after it, determines the live filters.
`retained`: between steps, a topic's count is the number of live subscriptions that contain it. -/
structure Orderly (s : Pod) : Prop where
  cleaned : ∀ connId, (∃ τ ∈ s.tasks, τ.connId = connId ∧ τ.job = .cleanup) →
    (∀ τ ∈ s.tasks, τ.connId = connId → τ.isDone = true) →
    ∀ subId, s.registry.entry connId subId = none
  closed : ∀ (k : Nat) τ subId, s.tasks[k]? = some τ → τ.job = .close subId →
    τ.phase = .finished →
    (∀ (j : Nat) σ filters, j < k → s.tasks[j]? = some σ → σ.connId = τ.connId →
      σ.job = .req subId filters → σ.isDone = true) →
    s.registry.entry τ.connId subId ≠ none →
    ∃ (j : Nat) (σ : Task), k < j ∧ s.tasks[j]? = some σ ∧ σ.connId = τ.connId ∧ σ.Opened subId
  lastReq : ∀ (j k : Nat) σ τ subId filters, j < k → s.tasks[j]? = some σ →
    s.tasks[k]? = some τ → σ.connId = τ.connId → (∃ filters', σ.job = .req subId filters') →
    τ.job = .req subId filters → σ.isDone = true → τ.isDone = true →
    ∀ e, s.registry.entry τ.connId subId = some e →
      ∃ (m : Nat) (ρ : Task), k ≤ m ∧ s.tasks[m]? = some ρ ∧ ρ.connId = τ.connId ∧
        ρ.job = .req subId e.filters ∧ ρ.pastRegistry = true
  limit : ∀ connId, (s.liveSubs connId).entries.length ≤ maxSubscriptions
  retained : s.Quiet → ∀ t, s.desired.refcount t = s.subscribers t
  noStray : s.strayReleases = 0

/-- The subscription ids of a connection in its table or live. -/
def occupied (s : Pod) (connId : ConnId) : List SubId :=
  ((s.table connId).keys ++ (s.liveSubs connId).keys).dedup

/-- A REQ that is about to enter the connection's table finds room there and among the live
subscriptions; one that is about to be refused has nothing live. -/
def admits (s : Pod) (τ : Task) (outcome : Option RequestedScope) : Bool :=
  match τ.job, τ.phase, outcome with
  | .req subId _, .checked, some _ =>
      decide (subId ∈ s.table τ.connId ∨ (s.occupied τ.connId).length < maxSubscriptions)
  | .req subId _, .checked, none => (s.registry.entry τ.connId subId).isNone
  | _, _, _ => true

/-- A step of a task is taken after the tasks received before it that conflict with it. -/
def inTurn (s : Pod) : Input → Bool
  | .advance k outcome _ =>
      (s.tasks[k]?).all fun τ =>
        ((s.tasks.take k).all fun σ => !decide (σ.Conflicts τ) || σ.isDone) && s.admits τ outcome
  | _ => true

/-! ## What one step does -/

section Steps

variable (tenant : ConnId → CommunityId)

/-- The step of a task, by what it does. -/
inductive Advanced (s : Pod) (k : Nat) (τ : Task) (outcome : Option RequestedScope) : Pod → Prop
  | stuck : Advanced s k τ outcome s
  | release {t releases retains} (hphase : τ.phase = .working (t :: releases) retains) :
      Advanced s k τ outcome ((s.releaseTopic t).setPhase k τ (.working releases retains))
  | retain {t retains} (hphase : τ.phase = .working [] (t :: retains)) :
      Advanced s k τ outcome ((s.retainTopic t).setPhase k τ (.working [] retains))
  | finish (hphase : τ.phase = .working [] []) : Advanced s k τ outcome (s.setPhase k τ .finished)
  | refuse {subId filters} (hjob : τ.job = .req subId filters)
      (hphase : (τ.phase = .started ∧ subId ∉ s.table τ.connId) ∨
        (τ.phase = .checked ∧ outcome = none)) :
      Advanced s k τ outcome (s.setPhase k τ .refused)
  | check {subId filters} (hjob : τ.job = .req subId filters) (hphase : τ.phase = .started) :
      Advanced s k τ outcome (s.setPhase k τ .checked)
  | insert {subId filters} (hjob : τ.job = .req subId filters) (hphase : τ.phase = .checked)
      (scope : RequestedScope) (houtcome : outcome = some scope) :
      Advanced s k τ outcome
        ((s.setTable τ.connId ((s.table τ.connId).insert subId filters)).setPhase k τ
          (.inserted scope))
  | register {subId filters scope} (hjob : τ.job = .req subId filters)
      (hphase : τ.phase = .inserted scope) :
      Advanced s k τ outcome
        ({ s with
            registry := (s.registry.registerWithScope (tenant τ.connId) τ.connId subId filters
              scope.scope).1 }.setPhase k τ
          (.working
            (removedTopics tenant τ.connId
              (s.registry.registerWithScope (tenant τ.connId) τ.connId subId filters
                scope.scope).2.toList)
            (scopeTopics (tenant τ.connId) scope.scope)))
  | closeTable {subId} (hjob : τ.job = .close subId) (hphase : τ.phase = .started) :
      Advanced s k τ outcome
        ((s.setTable τ.connId ((s.table τ.connId).erase subId)).setPhase k τ .checked)
  | closeRegistry {subId} (hjob : τ.job = .close subId) (hphase : τ.phase = .checked) :
      Advanced s k τ outcome
        ({ s with registry := (s.registry.removeSubscription τ.connId subId).1 }.setPhase k τ
          (.working (removedTopics tenant τ.connId
            (s.registry.removeSubscription τ.connId subId).2.toList) []))
  | cleanup (ord : IterOrder (Sigma fun _ : SubId => SubEntry)) (hjob : τ.job = .cleanup)
      (hphase : τ.phase = .started) :
      Advanced s k τ outcome
        ({ s with
            registry := (SubscriptionRegistry.removeConnection ord s.registry
              τ.connId).1 }.setPhase k τ
          (.working (removedTopics tenant τ.connId
            (SubscriptionRegistry.removeConnection ord s.registry τ.connId).2) []))
  | revokeRegistry {channelId} (ord : IterOrder (Sigma fun _ : SubId => SubEntry))
      (hjob : τ.job = .revoke channelId) (hphase : τ.phase = .started) :
      Advanced s k τ outcome
        ({ s with
            registry := (SubscriptionRegistry.removeChannelSubscriptionsScoped ord s.registry
              (tenant τ.connId) τ.connId channelId).1 }.setPhase k τ
          (if (SubscriptionRegistry.removeChannelSubscriptionsScoped ord s.registry
              (tenant τ.connId) τ.connId channelId).2.isEmpty then .finished
            else .updated (SubscriptionRegistry.removeChannelSubscriptionsScoped ord s.registry
              (tenant τ.connId) τ.connId channelId).2))
  | revokeTable {channelId updates} (hjob : τ.job = .revoke channelId)
      (hphase : τ.phase = .updated updates) :
      Advanced s k τ outcome
        ((if s.deregistered τ.connId then s
          else s.setTable τ.connId (dropRemoved updates (s.table τ.connId))).setPhase k τ
            (.working (updates.map fun _ => ⟨tenant τ.connId, .channel channelId⟩) []))

theorem register_eq (registry : SubscriptionRegistry) (connId : ConnId) (subId : SubId)
    (filters : List Filter) (scope : SubscriptionScope) :
    register tenant registry connId subId filters scope =
      registry.registerWithScope (tenant connId) connId subId filters scope := by
  cases scope <;> rfl

theorem advanceTask_advanced (s : Pod) (k : Nat) (τ : Task) (outcome : Option RequestedScope)
    (ord : IterOrder (Sigma fun _ : SubId => SubEntry)) :
    Advanced tenant s k τ outcome (s.advanceTask tenant k τ outcome ord) := by
  unfold advanceTask
  split
  · next hphase => exact .release hphase
  · next hphase => exact .retain hphase
  · next hphase => exact .finish hphase
  · cases hjob : τ.job with
    | req subId filters =>
        dsimp only [advanceReq]
        split
        · next hphase =>
            split
            · next hfull => exact .refuse hjob (Or.inl ⟨hphase, hfull.1⟩)
            · exact .check hjob hphase
        · next hphase =>
            cases outcome with
            | none => exact .refuse hjob (Or.inr ⟨hphase, rfl⟩)
            | some scope => exact .insert hjob hphase scope rfl
        · next hphase =>
            rw [register_eq]
            exact .register hjob hphase
        · exact .stuck
    | close subId =>
        dsimp only [advanceClose]
        split
        · next hphase => exact .closeTable hjob hphase
        · next hphase => exact .closeRegistry hjob hphase
        · exact .stuck
    | cleanup =>
        dsimp only [advanceCleanup]
        split
        · next hphase => exact .cleanup ord hjob hphase
        · exact .stuck
    | revoke channelId =>
        dsimp only [advanceRevoke]
        split
        · next hphase => exact .revokeRegistry ord hjob hphase
        · next hphase => exact .revokeTable hjob hphase
        · exact .stuck

end Steps

end Pod

end Relay
end Maju
