import Maju.Lib.Run
import Maju.Acp.Queue.EventQueue

/-!
# Harness — the queue together with the batches its caller holds

The queue hands batches out and its caller hands them back, completes them or lets them expire.
`Harness` is the queue with every batch it returned and what became of it, and with the record of
accepted and departed events; `Harness.step` is one call.  A requeue names a batch by its number,
so that only batches that `flushNext` returned can be handed back.
-/

namespace Maju
namespace Acp

open Lib Core

/-- What became of a returned batch. -/
inductive BatchStatus where
  | outstanding
  | completed
  | expired
  | handedBack
  | deadLettered
  deriving DecidableEq, Repr

/-- Why an event left the queue's tables other than in a batch. -/
inductive Departure where
  | removed
  | drained
  | evicted
  deriving DecidableEq, Repr

/-- One call of the queue. -/
inductive Call where
  | push (ord : Orders) (qe : QueuedEvent)
  | flushNext (ord : Orders) (now : Instant)
  | hasFlushableWork (ord : Orders) (now : Instant)
  | markComplete (now : Instant) (scope : SessionScope)
  | requeue (ord : Orders) (now : Instant) (jittered : Nat → Nat) (batch : Nat)
  | requeuePreserveTimestamps (ord : Orders) (batch : Nat)
  | requeueAsCancelled (batch : Nat) (reason : CancelReason)
  | drainChannel (ord : Orders) (channelId : Uuid)
  | markNativeSteerPending (scope : SessionScope) (eventId : String)
  | releaseNativeSteer (ord : Orders) (scope : SessionScope) (eventId : String)
  | removeEvent (scope : SessionScope) (eventId : String)
  | compactExpiredState (now : Instant)
  | extendInFlightDeadline (now : Instant) (scope : SessionScope) (maxTurnSecs : Nat)

/-- The queue, its returned batches, and the record of its events. -/
structure Harness where
  queue : EventQueue
  batches : List (FlushBatch × BatchStatus)
  accepted : List BatchEvent
  departed : List (Departure × BatchEvent)

namespace FlushBatch

def items (batch : FlushBatch) : List BatchEvent := batch.events ++ batch.cancelledEvents

end FlushBatch

namespace EventQueue

/-- The events that `removeEvent` takes out. -/
def removedEvents (q : EventQueue) (scope : SessionScope) (eventId : String) :
    List QueuedEvent :=
  (q.withheldNativeSteer.bucket scope).filter (hasId eventId) ++
    (q.queues.bucket scope).filter (hasId eventId)

/-- The events that `drainChannel` takes out. -/
def drainedEvents (ord : Orders) (q : EventQueue) (channelId : Uuid) : List BatchEvent :=
  let here : SessionScope → Bool := fun s => decide (s.channelId = channelId)
  ((q.channelScopes ord channelId).flatMap fun s =>
      (q.queues.bucket s).map QueuedEvent.toBatchEvent) ++
    ((HashMap.retain (fun s _ => here s) q.withheldNativeSteer).entries.flatMap fun e =>
      e.2.map QueuedEvent.toBatchEvent) ++
    (HashMap.retain (fun s _ => here s) q.cancelledBatches).entries.flatMap fun e => e.2

end EventQueue

namespace Harness

/-- The harness of a new queue, with the deadline derived from the configured turn duration if
one is given. -/
def start (dedupMode : DedupMode) (maxTurnSecs : Option Nat) : Harness where
  queue :=
    match maxTurnSecs with
    | none => EventQueue.new dedupMode
    | some secs => (EventQueue.new dedupMode).withInFlightDeadline secs
  batches := []
  accepted := []
  departed := []

/-- Outstanding batches of some scopes get a new status. -/
def settle (p : SessionScope → Bool) (status : BatchStatus)
    (batches : List (FlushBatch × BatchStatus)) : List (FlushBatch × BatchStatus) :=
  batches.map fun e =>
    if e.2 = .outstanding ∧ p e.1.scope = true then (e.1, status) else e

def evict (evicted : List QueuedEvent) (h : Harness) : Harness :=
  { h with
    departed := h.departed ++ evicted.map fun qe => (.evicted, qe.toBatchEvent) }

@[simp] theorem evict_queue (evicted : List QueuedEvent) (h : Harness) :
    (evict evicted h).queue = h.queue := rfl

@[simp] theorem evict_batches (evicted : List QueuedEvent) (h : Harness) :
    (evict evicted h).batches = h.batches := rfl

@[simp] theorem evict_accepted (evicted : List QueuedEvent) (h : Harness) :
    (evict evicted h).accepted = h.accepted := rfl

def step (h : Harness) : Call → Harness
  | .push ord qe =>
      let r := h.queue.push ord qe
      evict r.2.1
        { h with
          queue := r.1
          accepted := if r.2.2 then h.accepted ++ [qe.toBatchEvent] else h.accepted }
  | .flushNext ord now =>
      let r := h.queue.flushNext ord now
      evict r.2.1
        { h with
          queue := r.1
          batches :=
            settle (fun s => decide (s ∈ h.queue.expiredScopes ord now)) .expired h.batches ++
              r.2.2.toList.map fun batch => (batch, .outstanding) }
  | .hasFlushableWork ord now =>
      let r := h.queue.hasFlushableWork ord now
      evict r.2.1
        { h with
          queue := r.1
          batches :=
            settle (fun s => decide (s ∈ h.queue.expiredScopes ord now)) .expired h.batches }
  | .markComplete now scope =>
      { h with
        queue := h.queue.markComplete now scope
        batches := settle (fun s => decide (s = scope)) .completed h.batches }
  | .requeue ord now jittered batch =>
      match h.batches[batch]? with
      | none => h
      | some (b, _) =>
          let r := h.queue.requeue ord now jittered b
          evict r.2.1
            { h with
              queue := r.1
              batches := h.batches.set batch
                (b, if r.2.2.isSome then .deadLettered else .handedBack) }
  | .requeuePreserveTimestamps ord batch =>
      match h.batches[batch]? with
      | none => h
      | some (b, _) =>
          let r := h.queue.requeuePreserveTimestamps ord b
          evict r.2
            { h with queue := r.1, batches := h.batches.set batch (b, .handedBack) }
  | .requeueAsCancelled batch reason =>
      match h.batches[batch]? with
      | none => h
      | some (b, _) =>
          { h with
            queue := h.queue.requeueAsCancelled b reason
            batches := h.batches.set batch (b, .handedBack) }
  | .drainChannel ord channelId =>
      { h with
        queue := (h.queue.drainChannel ord channelId).1
        departed := h.departed ++
          (h.queue.drainedEvents ord channelId).map fun be => (.drained, be) }
  | .markNativeSteerPending scope eventId =>
      { h with queue := (h.queue.markNativeSteerPending scope eventId).1 }
  | .releaseNativeSteer ord scope eventId =>
      let r := h.queue.releaseNativeSteer ord scope eventId
      evict r.2 { h with queue := r.1 }
  | .removeEvent scope eventId =>
      { h with
        queue := h.queue.removeEvent scope eventId
        departed := h.departed ++
          (h.queue.removedEvents scope eventId).map fun qe => (.removed, qe.toBatchEvent) }
  | .compactExpiredState now => { h with queue := h.queue.compactExpiredState now }
  | .extendInFlightDeadline now scope maxTurnSecs =>
      { h with queue := h.queue.extendInFlightDeadline now scope maxTurnSecs }

/-- The harness after a sequence of calls. -/
def run (dedupMode : DedupMode) (maxTurnSecs : Option Nat) (calls : List Call) : Harness :=
  Run.run step (start dedupMode maxTurnSecs) calls

/-- A text message in the conversation of channel 1. -/
def sampleEvent (id : EventId) (createdAt : Timestamp) (receivedAt : Instant) : QueuedEvent where
  channelId := 1
  scope := .conversation 1
  event := { id := id, pubkey := 7, createdAt := createdAt, kind := 9, tags := [] }
  receivedAt := receivedAt
  promptTag := "mention"
  scope_channelId := rfl

end Harness

end Acp
end Maju
