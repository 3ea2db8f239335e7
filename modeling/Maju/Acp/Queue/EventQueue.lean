import Mathlib.Data.List.Sort
import Maju.Core.Nostr
import Maju.Lib.Buckets

/-!
# EventQueue — the harness's event queue

Events wait in one queue per session scope until `flushNext` drains a batch of the scope with the
oldest head event.  Beside the queues stand side tables: which scopes have a turn in flight and
until when, retry throttles, the carryover of cancelled batches, and events withheld while a
native steer is in flight.

Every operation that reads the clock takes the instant as an argument, and every operation that
iterates over a hash map takes the iteration orders.  An operation that enforces a cap returns the
events it dropped (the source logs a warning for each of them) beside the new state.
-/

namespace Maju
namespace Acp

open Lib Core

/-! ## Scopes, events and batches -/

/-- An ACP execution and conversational-context scope. -/
inductive SessionScope where
  | conversation (channelId : Uuid)
  | thread (channelId : Uuid) (rootEventId : String)
  deriving DecidableEq, Repr

/-- The channel this scope belongs to. -/
def SessionScope.channelId : SessionScope → Uuid
  | .conversation channelId => channelId
  | .thread channelId _ => channelId

/-- A monotonic clock reading, in nanoseconds. -/
abbrev Instant := Nat

/-- A number of seconds as a duration. -/
def fromSecs (secs : Nat) : Nat := secs * 1000000000

def maxPendingPerScope : Nat := 500
def maxPendingPerChannel : Nat := 500
def maxBatchEvents : Nat := 50
def maxRetries : Nat := 10
def baseRetryDelaySecs : Nat := 5
def maxRetryDelaySecs : Nat := 300
def inFlightDeadlineBufferSecs : Nat := 100
def defaultInFlightDeadlineSecs : Nat := 7300

/-- An event waiting in the queue; its scope belongs to its channel. -/
structure QueuedEvent where
  channelId : Uuid
  scope : SessionScope
  event : Event
  receivedAt : Instant
  promptTag : String
  scope_channelId : scope.channelId = channelId
  deriving DecidableEq

/-- A single event inside a batch. -/
structure BatchEvent where
  event : Event
  promptTag : String
  receivedAt : Instant
  deriving DecidableEq, Repr

/-- Why a batch's prior turn was cancelled. -/
inductive CancelReason where
  | interrupt
  | steer
  deriving DecidableEq, Repr

/-- A batch of events to prompt the agent with. -/
structure FlushBatch where
  channelId : Uuid
  scope : SessionScope
  events : List BatchEvent
  cancelledEvents : List BatchEvent
  cancelReason : Option CancelReason
  scope_channelId : scope.channelId = channelId
  deriving DecidableEq

/-- What happens to events of a scope with a turn in flight. -/
inductive DedupMode where
  | drop
  | queue
  deriving DecidableEq, Repr

/-- The part of a queued event that a batch carries. -/
def QueuedEvent.toBatchEvent (qe : QueuedEvent) : BatchEvent :=
  ⟨qe.event, qe.promptTag, qe.receivedAt⟩

/-- A batch event as the queue entry it is put back as. -/
def FlushBatch.queuedEvent (batch : FlushBatch) (be : BatchEvent) : QueuedEvent where
  channelId := batch.channelId
  scope := batch.scope
  event := be.event
  receivedAt := be.receivedAt
  promptTag := be.promptTag
  scope_channelId := batch.scope_channelId

abbrev ScopeQueues := Buckets SessionScope QueuedEvent

structure EventQueue where
  queues : ScopeQueues
  inFlightScopes : HashMap SessionScope Unit
  inFlightDeadlines : HashMap SessionScope Instant
  inFlightBatchSizes : HashMap SessionScope Nat
  retryAfter : HashMap SessionScope Instant
  retryCounts : HashMap SessionScope Nat
  dedupMode : DedupMode
  cancelledBatches : Buckets SessionScope BatchEvent
  cancelReasons : HashMap SessionScope CancelReason
  withheldNativeSteer : Buckets SessionScope QueuedEvent
  inFlightDeadline : Nat

/-- The orders in which one call iterates over the maps it visits. -/
structure Orders where
  queues : IterOrder (Sigma fun _ : SessionScope => List QueuedEvent)
  deadlines : IterOrder (Sigma fun _ : SessionScope => Instant)
  cancelled : IterOrder (Sigma fun _ : SessionScope => List BatchEvent)

/-- Every map is visited as it is stored. -/
def Orders.stored : Orders where
  queues := IterOrder.stored _
  deadlines := IterOrder.stored _
  cancelled := IterOrder.stored _

/-! ## Caps -/

/-- `q.front().unwrap().received_at`, read only where the queue is not empty. -/
def headReceivedAt : List QueuedEvent → Instant
  | [] => 0
  | qe :: _ => qe.receivedAt

def channelEventTotal (queues : ScopeQueues) (channelId : Uuid) : Nat :=
  HashMap.total (fun s q => if s.channelId = channelId then q.length else 0) queues

/-- The channel's scope whose head event is oldest. -/
def capVictim (ord : Orders) (channelId : Uuid) (queues : ScopeQueues) : Option SessionScope :=
  (((ord.queues.run queues.entries).filter fun e =>
    decide (e.1.channelId = channelId) && !e.2.isEmpty).argmin fun e =>
      headReceivedAt e.2).map Sigma.fst

/-- The loop of `enforce_channel_cap`; each round drops one event, so the number of queued
events bounds the rounds. -/
def enforceChannelCapLoop (ord : Orders) (channelId : Uuid) :
    Nat → ScopeQueues → ScopeQueues × List QueuedEvent
  | 0, queues => (queues, [])
  | fuel + 1, queues =>
      if channelEventTotal queues channelId ≤ maxPendingPerChannel then (queues, [])
      else
        match capVictim ord channelId queues with
        | none => (queues, [])
        | some scope =>
            let rest := enforceChannelCapLoop ord channelId fuel
              (queues.setBucket scope (queues.bucket scope).tail)
            (rest.1, (queues.bucket scope).take 1 ++ rest.2)

def enforceChannelCap (ord : Orders) (channelId : Uuid) (queues : ScopeQueues) :
    ScopeQueues × List QueuedEvent :=
  enforceChannelCapLoop ord channelId (channelEventTotal queues channelId) queues

/-- Put events back to the front of a scope's queue, trim the back to the per-scope cap and
enforce the channel cap: the common end of `requeue`, `requeue_preserve_timestamps`,
`release_native_steer` and `recover_withheld_for_expired_scope`. -/
def restoreFront (ord : Orders) (scope : SessionScope) (events : List QueuedEvent)
    (queues : ScopeQueues) : ScopeQueues × List QueuedEvent :=
  let queue := events ++ queues.bucket scope
  let capped := enforceChannelCap ord scope.channelId
    (queues.insert scope (queue.take maxPendingPerScope))
  (capped.1, queue.drop maxPendingPerScope ++ capped.2)

namespace EventQueue

/-! ## Construction -/

/-- `EventQueue::new`. -/
def new (dedupMode : DedupMode) : EventQueue where
  queues := ∅
  inFlightScopes := ∅
  inFlightDeadlines := ∅
  inFlightBatchSizes := ∅
  retryAfter := ∅
  retryCounts := ∅
  dedupMode := dedupMode
  cancelledBatches := ∅
  cancelReasons := ∅
  withheldNativeSteer := ∅
  inFlightDeadline := fromSecs defaultInFlightDeadlineSecs

def withInFlightDeadline (q : EventQueue) (maxTurnDurationSecs : Nat) : EventQueue :=
  { q with
    inFlightDeadline := fromSecs (maxTurnDurationSecs + inFlightDeadlineBufferSecs) }

def extendInFlightDeadline (q : EventQueue) (now : Instant) (scope : SessionScope)
    (maxTurnSecs : Nat) : EventQueue :=
  match q.inFlightDeadlines.lookup scope with
  | none => q
  | some current =>
      let extended := now + fromSecs (maxTurnSecs + inFlightDeadlineBufferSecs)
      if current < extended then
        { q with inFlightDeadlines := q.inFlightDeadlines.insert scope extended }
      else q

/-! ## Admission -/

/-- `push`: the new state, the events dropped by the caps, and whether the event was accepted. -/
def push (ord : Orders) (q : EventQueue) (qe : QueuedEvent) :
    EventQueue × List QueuedEvent × Bool :=
  if q.dedupMode = .drop ∧ qe.scope ∈ q.inFlightScopes then (q, [], false)
  else
    let queue := q.queues.bucket qe.scope
    -- A full partition drops its oldest event before the new one is appended.
    let dropped := if maxPendingPerScope ≤ queue.length then 1 else 0
    let capped := enforceChannelCap ord qe.channelId
      (q.queues.insert qe.scope (queue.drop dropped ++ [qe]))
    ({ q with queues := capped.1 }, queue.take dropped ++ capped.2, true)

/-! ## Expiry of stuck turns -/

def recoverWithheldForExpiredScope (ord : Orders) (q : EventQueue) (scope : SessionScope) :
    EventQueue × List QueuedEvent :=
  match q.withheldNativeSteer.lookup scope with
  | none => (q, [])
  | some entries =>
      let restored := restoreFront ord scope entries q.queues
      ({ q with
          queues := restored.1
          withheldNativeSteer := q.withheldNativeSteer.erase scope }, restored.2)

def clearInFlight (scope : SessionScope) (q : EventQueue) : EventQueue :=
  { q with
    inFlightBatchSizes := q.inFlightBatchSizes.erase scope
    inFlightScopes := q.inFlightScopes.erase scope
    inFlightDeadlines := q.inFlightDeadlines.erase scope }

def expireScope (ord : Orders) (acc : EventQueue × List QueuedEvent) (scope : SessionScope) :
    EventQueue × List QueuedEvent :=
  let recovered := recoverWithheldForExpiredScope ord (clearInFlight scope acc.1) scope
  (recovered.1, acc.2 ++ recovered.2)

/-- The in-flight scopes whose deadline has passed, in iteration order. -/
def expiredScopes (ord : Orders) (now : Instant) (q : EventQueue) : List SessionScope :=
  ((ord.deadlines.run q.inFlightDeadlines.entries).filter fun e =>
    decide (e.2 ≤ now)).map Sigma.fst

/-- The expiry loop that `flush_next` and `has_flushable_work` start with. -/
def expireInFlight (ord : Orders) (now : Instant) (q : EventQueue) :
    EventQueue × List QueuedEvent :=
  (q.expiredScopes ord now).foldl (expireScope ord) (q, [])

/-! ## Dispatch -/

/-- A scope that may be dispatched: not in flight and not throttled. -/
def ready (now : Instant) (q : EventQueue) (scope : SessionScope) : Bool :=
  !decide (scope ∈ q.inFlightScopes) && (q.retryAfter.lookup scope).all fun t => decide (t ≤ now)

/-- The ready scope whose head event has the oldest `received_at`. -/
def pickScope (ord : Orders) (now : Instant) (q : EventQueue) : Option SessionScope :=
  (((ord.queues.run q.queues.entries).filter fun e =>
    !e.2.isEmpty && q.ready now e.1).argmin fun e => headReceivedAt e.2).map Sigma.fst

/-- The first scope with cancelled events that is not in flight. -/
def pickCancelled (ord : Orders) (q : EventQueue) : Option SessionScope :=
  ((ord.cancelled.run q.cancelledBatches.entries).map Sigma.fst).find? fun scope =>
    !decide (scope ∈ q.inFlightScopes)

/-- Record a turn in flight for a scope. -/
def setInFlight (now : Instant) (scope : SessionScope) (size : Nat) (q : EventQueue) :
    EventQueue :=
  { q with
    inFlightScopes := q.inFlightScopes.insert scope ()
    inFlightDeadlines := q.inFlightDeadlines.insert scope (now + q.inFlightDeadline)
    inFlightBatchSizes := q.inFlightBatchSizes.insert scope size }

/-- Take the cancelled carryover of a scope. -/
def takeCancelled (scope : SessionScope) (q : EventQueue) : EventQueue :=
  { q with
    cancelledBatches := q.cancelledBatches.erase scope
    cancelReasons := q.cancelReasons.erase scope }

/-- Re-dispatch the cancelled events of a scope as a regular batch. -/
def flushCancelled (now : Instant) (scope : SessionScope) (q : EventQueue) :
    EventQueue × FlushBatch :=
  let cancelled := q.cancelledBatches.bucket scope
  (setInFlight now scope cancelled.length (takeCancelled scope q),
    { channelId := scope.channelId
      scope := scope
      events := cancelled
      cancelledEvents := []
      cancelReason := q.cancelReasons.lookup scope
      scope_channelId := rfl })

/-- Events in the order of `created_at`, equal ones in delivery order. -/
def sortByCreatedAt (events : List BatchEvent) : List BatchEvent :=
  events.insertionSort fun a b => a.event.createdAt ≤ b.event.createdAt

/-- Dispatch the front of a scope's queue, merged with the scope's cancelled carryover. -/
def flushScope (now : Instant) (scope : SessionScope) (q : EventQueue) :
    EventQueue × FlushBatch :=
  let queue := q.queues.bucket scope
  let events := sortByCreatedAt ((queue.take maxBatchEvents).map QueuedEvent.toBatchEvent)
  let q := { q with queues := q.queues.setBucket scope (queue.drop maxBatchEvents) }
  let cancelled := q.cancelledBatches.bucket scope
  (takeCancelled scope (setInFlight now scope events.length q),
    { channelId := scope.channelId
      scope := scope
      events := events
      cancelledEvents := cancelled
      cancelReason := if cancelled.isEmpty then none else q.cancelReasons.lookup scope
      scope_channelId := rfl })

def flushNext (ord : Orders) (now : Instant) (q : EventQueue) :
    EventQueue × List QueuedEvent × Option FlushBatch :=
  let expired := expireInFlight ord now q
  match expired.1.pickScope ord now with
  | some scope =>
      let flushed := flushScope now scope expired.1
      (flushed.1, expired.2, some flushed.2)
  | none =>
      match expired.1.pickCancelled ord with
      | some scope =>
          let flushed := flushCancelled now scope expired.1
          (flushed.1, expired.2, some flushed.2)
      | none => (expired.1, expired.2, none)

def hasFlushableWork (ord : Orders) (now : Instant) (q : EventQueue) :
    EventQueue × List QueuedEvent × Bool :=
  let expired := expireInFlight ord now q
  (expired.1, expired.2,
    (expired.1.queues.entries.any fun e => !e.2.isEmpty && expired.1.ready now e.1) ||
      expired.1.cancelledBatches.entries.any fun e =>
        !decide (e.1 ∈ expired.1.inFlightScopes))

def markComplete (now : Instant) (q : EventQueue) (scope : SessionScope) : EventQueue :=
  let q := clearInFlight scope q
  match q.retryAfter.lookup scope with
  | some deadline =>
      -- An active throttle means that the scope was requeued.
      if now < deadline then q
      else
        { q with
          retryAfter := q.retryAfter.erase scope
          retryCounts := q.retryCounts.erase scope }
  | none => { q with retryCounts := q.retryCounts.erase scope }

/-! ## Handing a batch back -/

/-- The retry delay in nanoseconds: exponential backoff, capped, times a jitter.  `jittered` is what
the floating point of the source makes of whole seconds at the time of the call. -/
def retryDelay (jittered : Nat → Nat) (attempt : Nat) : Nat :=
  let baseSecs := baseRetryDelaySecs * 2 ^ min (attempt - 1) 6
  let cappedSecs := min baseSecs maxRetryDelaySecs
  jittered cappedSecs

def requeue (ord : Orders) (now : Instant) (jittered : Nat → Nat) (q : EventQueue)
    (batch : FlushBatch) : EventQueue × List QueuedEvent × Option FlushBatch :=
  let attempt := (q.retryCounts.lookup batch.scope).getD 0 + 1
  if maxRetries < attempt then
    ({ q with
        retryCounts := q.retryCounts.erase batch.scope
        retryAfter := q.retryAfter.erase batch.scope }, [], some batch)
  else
    let restored := restoreFront ord batch.scope (batch.events.map batch.queuedEvent) q.queues
    ({ q with
        retryCounts := q.retryCounts.insert batch.scope attempt
        queues := restored.1
        retryAfter := q.retryAfter.insert batch.scope (now + retryDelay jittered attempt) },
      restored.2, none)

/-- The carryover part of `requeue_preserve_timestamps`. -/
def restoreCancelled (q : EventQueue) (batch : FlushBatch) : EventQueue :=
  if batch.cancelledEvents.isEmpty then q
  else
    { q with
      cancelledBatches := q.cancelledBatches.insert batch.scope
        (batch.cancelledEvents ++ q.cancelledBatches.bucket batch.scope)
      cancelReasons :=
        match batch.cancelReason, q.cancelReasons.lookup batch.scope with
        | some reason, none => q.cancelReasons.insert batch.scope reason
        | _, _ => q.cancelReasons }

def requeuePreserveTimestamps (ord : Orders) (q : EventQueue) (batch : FlushBatch) :
    EventQueue × List QueuedEvent :=
  let q := restoreCancelled q batch
  let restored := restoreFront ord batch.scope (batch.events.map batch.queuedEvent) q.queues
  ({ q with queues := restored.1 }, restored.2)

def requeueAsCancelled (q : EventQueue) (batch : FlushBatch) (reason : CancelReason) :
    EventQueue :=
  { q with
    cancelledBatches := q.cancelledBatches.insert batch.scope
      (q.cancelledBatches.bucket batch.scope ++ batch.cancelledEvents ++ batch.events)
    cancelReasons := q.cancelReasons.insert batch.scope reason }

/-! ## Queries -/

def hasUndispatchedWork (q : EventQueue) : Bool :=
  (q.queues.entries.any fun e => !e.2.isEmpty && !decide (e.1 ∈ q.inFlightScopes)) ||
    (q.cancelledBatches.entries.any fun e => !decide (e.1 ∈ q.inFlightScopes)) ||
    q.withheldNativeSteer.entries.any fun e =>
      !e.2.isEmpty && !decide (e.1 ∈ q.inFlightScopes)

def pendingChannels (q : EventQueue) : Nat := q.queues.entries.length

def isScopeInFlight (q : EventQueue) (scope : SessionScope) : Bool :=
  decide (scope ∈ q.inFlightScopes)

/-! ## Draining a channel -/

/-- The scopes of a channel with queued events, in iteration order. -/
def channelScopes (ord : Orders) (q : EventQueue) (channelId : Uuid) : List SessionScope :=
  ((ord.queues.run q.queues.entries).map Sigma.fst).filter fun s =>
    decide (s.channelId = channelId)

/-- `drain_channel`: the new state and the ids of the dropped queued events. -/
def drainChannel (ord : Orders) (q : EventQueue) (channelId : Uuid) :
    EventQueue × List String :=
  let scopes := q.channelScopes ord channelId
  let other : SessionScope → Bool := fun s => decide (s.channelId ≠ channelId)
  ({ q with
      queues := scopes.foldl (fun queues s => queues.erase s) q.queues
      retryAfter := HashMap.retain (fun s _ => other s) q.retryAfter
      retryCounts := HashMap.retain (fun s _ => other s) q.retryCounts
      cancelledBatches := HashMap.retain (fun s _ => other s) q.cancelledBatches
      cancelReasons := HashMap.retain (fun s _ => other s) q.cancelReasons
      withheldNativeSteer := HashMap.retain (fun s _ => other s) q.withheldNativeSteer },
    scopes.flatMap fun s => (q.queues.bucket s).map fun qe => toHex qe.event.id)

/-! ## Events withheld during a native steer -/

/-- `qe.event.id.to_hex() == event_id`. -/
def hasId (eventId : String) (qe : QueuedEvent) : Bool :=
  decide (toHex qe.event.id = eventId)

def markNativeSteerPending (q : EventQueue) (scope : SessionScope) (eventId : String) :
    EventQueue × Bool :=
  let queue := q.queues.bucket scope
  match queue.find? (hasId eventId) with
  | none => (q, false)
  | some qe =>
      ({ q with
          queues := q.queues.setBucket scope (queue.eraseP (hasId eventId))
          withheldNativeSteer := q.withheldNativeSteer.insert scope
            (q.withheldNativeSteer.bucket scope ++ [qe]) }, true)

def releaseNativeSteer (ord : Orders) (q : EventQueue) (scope : SessionScope)
    (eventId : String) : EventQueue × List QueuedEvent :=
  let entries := q.withheldNativeSteer.bucket scope
  match entries.find? (hasId eventId) with
  | none => (q, [])
  | some qe =>
      let restored := restoreFront ord scope [qe] q.queues
      ({ q with
          queues := restored.1
          withheldNativeSteer :=
            q.withheldNativeSteer.setBucket scope (entries.eraseP (hasId eventId)) },
        restored.2)

/-- Drop every event with this id from one scope of a table. -/
def dropEvent (eventId : String) (scope : SessionScope)
    (table : Buckets SessionScope QueuedEvent) : Buckets SessionScope QueuedEvent :=
  match table.lookup scope with
  | none => table
  | some entries => table.setBucket scope (entries.filter fun qe => !hasId eventId qe)

def removeEvent (q : EventQueue) (scope : SessionScope) (eventId : String) : EventQueue :=
  { q with
    withheldNativeSteer := dropEvent eventId scope q.withheldNativeSteer
    queues := dropEvent eventId scope q.queues }

def compactExpiredState (now : Instant) (q : EventQueue) : EventQueue :=
  let retryAfter := HashMap.retain (fun _ deadline => decide (now < deadline)) q.retryAfter
  { q with
    retryAfter := retryAfter
    retryCounts := HashMap.retain
      (fun scope _ =>
        decide (scope ∈ retryAfter) || !(q.queues.bucket scope).isEmpty ||
          decide (scope ∈ q.inFlightScopes)) q.retryCounts }

end EventQueue

end Acp
end Maju
