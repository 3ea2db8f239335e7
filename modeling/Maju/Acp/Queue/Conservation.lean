import Mathlib.Tactic.Abel
import Maju.Lib.Slots
import Maju.Acp.Queue.Harness

/-!
# Conservation — no event is lost or duplicated

`EventQueue.pending` collects the events of the three tables an event can wait in.  Each
operation of the queue satisfies an equation between multisets: what was pending before, and what
came in, is what is pending after, and what went out.  `Harness.located` says where each event is
or how it left, and the equations add up to: the located events are the accepted ones.

The one operation without such an equation is a `requeue` of a batch that carries cancelled
events: it puts back the batch's own events only.
-/

namespace Maju
namespace Acp

open Lib Core

/-! ## Caps -/

theorem take_one_add_tail {α : Type} (l : List α) :
    ((l.take 1 : List α) : Multiset α) + ↑l.tail = ↑l := by
  cases l with
  | nil => rfl
  | cons a l => rfl

theorem elements_enforceChannelCapLoop (ord : Orders) (channelId : Uuid) (fuel : Nat)
    (queues : ScopeQueues) :
    (enforceChannelCapLoop ord channelId fuel queues).1.elements +
        ↑(enforceChannelCapLoop ord channelId fuel queues).2 = queues.elements := by
  induction fuel generalizing queues with
  | zero => simp [enforceChannelCapLoop]
  | succ fuel ih =>
      unfold enforceChannelCapLoop
      split
      · simp
      · cases capVictim ord channelId queues with
        | none => simp
        | some scope =>
            have hrest := ih (queues.setBucket scope (queues.bucket scope).tail)
            dsimp only
            rw [← Multiset.coe_add, add_left_comm, hrest, Buckets.elements_setBucket,
              ← add_assoc, take_one_add_tail, ← Buckets.elements_eq_bucket_add_erase]

theorem elements_enforceChannelCap (ord : Orders) (channelId : Uuid) (queues : ScopeQueues) :
    (enforceChannelCap ord channelId queues).1.elements +
        ↑(enforceChannelCap ord channelId queues).2 = queues.elements :=
  elements_enforceChannelCapLoop ord channelId _ queues

theorem elements_restoreFront (ord : Orders) (scope : SessionScope)
    (events : List QueuedEvent) (queues : ScopeQueues) :
    (restoreFront ord scope events queues).1.elements +
        ↑(restoreFront ord scope events queues).2 = queues.elements + ↑events := by
  have hcap := elements_enforceChannelCap ord scope.channelId
    (queues.insert scope ((events ++ queues.bucket scope).take maxPendingPerScope))
  have hsplit : (((events ++ queues.bucket scope).take maxPendingPerScope : List QueuedEvent) :
      Multiset QueuedEvent) + ↑((events ++ queues.bucket scope).drop maxPendingPerScope) =
        ↑events + ↑(queues.bucket scope) := by
    rw [Multiset.coe_add, List.take_append_drop, Multiset.coe_add]
  unfold restoreFront
  dsimp only
  rw [← Multiset.coe_add, add_left_comm, hcap, Buckets.elements_insert,
    Buckets.elements_eq_bucket_add_erase queues scope, ← add_assoc, add_comm (Multiset.ofList _),
    hsplit]
  abel

namespace EventQueue

/-! ## Operations of the queue -/

/-- The batch events of queue entries. -/
def batchEvents (l : Multiset QueuedEvent) : Multiset BatchEvent :=
  l.map QueuedEvent.toBatchEvent

@[simp] theorem batchEvents_add (l l' : Multiset QueuedEvent) :
    batchEvents (l + l') = batchEvents l + batchEvents l' :=
  Multiset.map_add _ l l'

/-- The events waiting in the queues, in the side table of withheld events and in the carryover
of cancelled batches. -/
def pending (q : EventQueue) : Multiset BatchEvent :=
  batchEvents q.queues.elements + batchEvents q.withheldNativeSteer.elements +
    q.cancelledBatches.elements

theorem pending_of_queues {q q' : EventQueue} (out incoming : Multiset QueuedEvent)
    (hq : q'.queues.elements + out = q.queues.elements + incoming)
    (hw : q'.withheldNativeSteer = q.withheldNativeSteer)
    (hc : q'.cancelledBatches = q.cancelledBatches) :
    q'.pending + batchEvents out = q.pending + batchEvents incoming := by
  have hmap := congrArg batchEvents hq
  simp only [batchEvents_add] at hmap
  unfold pending
  rw [hw, hc, add_right_comm, add_right_comm (batchEvents _), hmap]
  abel

theorem pending_push (ord : Orders) (q : EventQueue) (qe : QueuedEvent) :
    (q.push ord qe).1.pending + batchEvents ↑(q.push ord qe).2.1 =
      q.pending + if (q.push ord qe).2.2 then {qe.toBatchEvent} else 0 := by
  unfold push
  split
  · simp [batchEvents]
  · refine pending_of_queues _ {qe} ?_ rfl rfl
    have hcap := elements_enforceChannelCap ord qe.channelId
      (q.queues.insert qe.scope ((q.queues.bucket qe.scope).drop
        (if maxPendingPerScope ≤ (q.queues.bucket qe.scope).length then 1 else 0) ++ [qe]))
    rw [Buckets.elements_insert] at hcap
    dsimp only
    rw [← Multiset.coe_add, add_left_comm, hcap,
      Buckets.elements_eq_bucket_add_erase q.queues qe.scope, ← add_assoc, Multiset.coe_add,
      ← List.append_assoc, List.take_append_drop, ← Multiset.coe_add, Multiset.coe_singleton]
    abel

theorem pending_restore {q : EventQueue} (ord : Orders) (scope : SessionScope)
    {events : List QueuedEvent} {withheld : Buckets SessionScope QueuedEvent}
    (hw : withheld.elements + ↑events = q.withheldNativeSteer.elements) :
    ({ q with
        queues := (restoreFront ord scope events q.queues).1
        withheldNativeSteer := withheld } : EventQueue).pending +
      batchEvents ↑(restoreFront ord scope events q.queues).2 = q.pending := by
  have hq := congrArg batchEvents (elements_restoreFront ord scope events q.queues)
  have hw' := congrArg batchEvents hw
  simp only [batchEvents_add] at hq hw'
  unfold pending
  dsimp only
  rw [← hw', add_right_comm, add_right_comm (batchEvents _), hq]
  abel

theorem pending_recover (ord : Orders) (q : EventQueue) (scope : SessionScope) :
    (q.recoverWithheldForExpiredScope ord scope).1.pending +
      batchEvents ↑(q.recoverWithheldForExpiredScope ord scope).2 = q.pending := by
  unfold recoverWithheldForExpiredScope
  cases hl : q.withheldNativeSteer.lookup scope with
  | none => simp [batchEvents]
  | some entries =>
      refine pending_restore ord scope ?_
      rw [Buckets.elements_eq_bucket_add_erase q.withheldNativeSteer scope,
        Buckets.bucket_of_lookup hl, add_comm]

theorem pending_foldl_expireScope (ord : Orders) (scopes : List SessionScope)
    (acc : EventQueue × List QueuedEvent) :
    (scopes.foldl (expireScope ord) acc).1.pending +
        batchEvents ↑(scopes.foldl (expireScope ord) acc).2 =
      acc.1.pending + batchEvents ↑acc.2 := by
  induction scopes generalizing acc with
  | nil => rfl
  | cons scope scopes ih =>
      rw [List.foldl_cons, ih]
      unfold expireScope
      dsimp only
      rw [← Multiset.coe_add, batchEvents_add, add_left_comm, pending_recover, add_comm]
      rfl

theorem pending_expireInFlight (ord : Orders) (now : Instant) (q : EventQueue) :
    (q.expireInFlight ord now).1.pending + batchEvents ↑(q.expireInFlight ord now).2 =
      q.pending := by
  unfold expireInFlight
  rw [pending_foldl_expireScope]
  simp [batchEvents]

theorem coe_sortByCreatedAt (events : List BatchEvent) :
    ((sortByCreatedAt events : List BatchEvent) : Multiset BatchEvent) = ↑events :=
  Multiset.coe_eq_coe.2 (List.perm_insertionSort _ events)

theorem pending_flushScope (now : Instant) (scope : SessionScope) (q : EventQueue) :
    (q.flushScope now scope).1.pending + ↑(q.flushScope now scope).2.items = q.pending := by
  have hq : batchEvents q.queues.elements =
      batchEvents ↑((q.queues.bucket scope).take maxBatchEvents) +
        batchEvents
          (q.queues.setBucket scope ((q.queues.bucket scope).drop maxBatchEvents)).elements := by
    rw [← batchEvents_add, Buckets.elements_setBucket, ← add_assoc, Multiset.coe_add,
      List.take_append_drop, ← Buckets.elements_eq_bucket_add_erase]
  have hc := Buckets.elements_eq_bucket_add_erase q.cancelledBatches scope
  unfold pending
  rw [hq, hc]
  simp only [flushScope, takeCancelled, setInFlight, FlushBatch.items]
  rw [← Multiset.coe_add, coe_sortByCreatedAt]
  have hbatch : batchEvents ↑((q.queues.bucket scope).take maxBatchEvents) =
      ↑(((q.queues.bucket scope).take maxBatchEvents).map QueuedEvent.toBatchEvent) := rfl
  rw [hbatch]
  abel

theorem pending_flushCancelled (now : Instant) (scope : SessionScope) (q : EventQueue) :
    (q.flushCancelled now scope).1.pending + ↑(q.flushCancelled now scope).2.items =
      q.pending := by
  have hc := Buckets.elements_eq_bucket_add_erase q.cancelledBatches scope
  unfold pending
  rw [hc]
  simp only [flushCancelled, takeCancelled, setInFlight, FlushBatch.items, List.append_nil]
  abel

def returnedItems : Option FlushBatch → Multiset BatchEvent
  | none => 0
  | some batch => ↑batch.items

theorem pending_flushNext (ord : Orders) (now : Instant) (q : EventQueue) :
    (q.flushNext ord now).1.pending + returnedItems (q.flushNext ord now).2.2 +
      batchEvents ↑(q.flushNext ord now).2.1 = q.pending := by
  rw [← pending_expireInFlight ord now q]
  unfold flushNext
  dsimp only
  cases (q.expireInFlight ord now).1.pickScope ord now with
  | some scope =>
      dsimp only [returnedItems]
      rw [pending_flushScope]
  | none =>
      cases (q.expireInFlight ord now).1.pickCancelled ord with
      | some scope =>
          dsimp only [returnedItems]
          rw [pending_flushCancelled]
      | none => simp [returnedItems]

theorem pending_markComplete (now : Instant) (q : EventQueue) (scope : SessionScope) :
    (q.markComplete now scope).pending = q.pending := by
  unfold markComplete
  dsimp only
  cases (q.clearInFlight scope).retryAfter.lookup scope with
  | none => rfl
  | some deadline => dsimp only; split <;> rfl

theorem pending_extendInFlightDeadline (q : EventQueue) (now : Instant) (scope : SessionScope)
    (maxTurnSecs : Nat) :
    (q.extendInFlightDeadline now scope maxTurnSecs).pending = q.pending := by
  unfold extendInFlightDeadline
  cases q.inFlightDeadlines.lookup scope with
  | none => rfl
  | some current => dsimp only; split <;> rfl

theorem coe_map_queuedEvent (batch : FlushBatch) (events : List BatchEvent) :
    batchEvents ↑(events.map batch.queuedEvent) = ↑events := by
  unfold batchEvents
  rw [Multiset.map_coe, List.map_map]
  congr 1
  exact List.map_id'' (fun _ => rfl) events

/-- The batch that `requeue` does not put back: it is returned, or its cancelled events are
dropped. -/
theorem pending_requeue (ord : Orders) (now : Instant) (jittered : Nat → Nat) (q : EventQueue)
    (batch : FlushBatch) :
    (q.requeue ord now jittered batch).1.pending +
        batchEvents ↑(q.requeue ord now jittered batch).2.1 =
      q.pending +
        if (q.requeue ord now jittered batch).2.2.isSome then 0 else ↑batch.events := by
  unfold requeue
  dsimp only
  split
  · simp only [Option.isSome_some, if_true, add_zero]
    simp [batchEvents, pending]
  · simp only [Option.isSome_none, Bool.false_eq_true, if_false]
    rw [← coe_map_queuedEvent batch]
    exact pending_of_queues _ _ (elements_restoreFront ord batch.scope _ q.queues) rfl rfl

theorem pending_restoreCancelled (q : EventQueue) (batch : FlushBatch) :
    (q.restoreCancelled batch).pending = q.pending + ↑batch.cancelledEvents := by
  unfold restoreCancelled
  split
  · next hempty => simp [List.isEmpty_iff.1 hempty]
  · unfold pending
    dsimp only
    rw [Buckets.elements_insert, Buckets.elements_eq_bucket_add_erase q.cancelledBatches
      batch.scope, ← Multiset.coe_add]
    abel

theorem pending_requeuePreserveTimestamps (ord : Orders) (q : EventQueue)
    (batch : FlushBatch) :
    (q.requeuePreserveTimestamps ord batch).1.pending +
        batchEvents ↑(q.requeuePreserveTimestamps ord batch).2 =
      q.pending + ↑batch.items := by
  have hrestore : (q.requeuePreserveTimestamps ord batch).1.pending +
      batchEvents ↑(q.requeuePreserveTimestamps ord batch).2 =
        (q.restoreCancelled batch).pending +
          batchEvents ↑(batch.events.map batch.queuedEvent) :=
    pending_of_queues _ _ (elements_restoreFront ord batch.scope _ _) rfl rfl
  rw [coe_map_queuedEvent, pending_restoreCancelled] at hrestore
  rw [FlushBatch.items, ← Multiset.coe_add, add_comm (Multiset.ofList batch.events),
    ← add_assoc]
  exact hrestore

theorem pending_requeueAsCancelled (q : EventQueue) (batch : FlushBatch)
    (reason : CancelReason) :
    (q.requeueAsCancelled batch reason).pending = q.pending + ↑batch.items := by
  unfold requeueAsCancelled pending FlushBatch.items
  dsimp only
  rw [Buckets.elements_insert, Buckets.elements_eq_bucket_add_erase q.cancelledBatches
    batch.scope, ← Multiset.coe_add, ← Multiset.coe_add, ← Multiset.coe_add]
  abel

theorem pending_drainChannel (ord : Orders) (q : EventQueue) (channelId : Uuid) :
    (q.drainChannel ord channelId).1.pending + ↑(q.drainedEvents ord channelId) =
      q.pending := by
  have hnodup : (q.channelScopes ord channelId).Nodup := by
    have hkeys : ((ord.queues.run q.queues.entries).map Sigma.fst).Nodup :=
      ((ord.queues.perm q.queues.entries).map Sigma.fst).nodup_iff.2 q.queues.nodupKeys
    exact hkeys.sublist List.filter_sublist
  have hq := congrArg batchEvents (Buckets.elements_foldl_erase hnodup q.queues)
  have hw := Buckets.elements_eq_retain_add_retain
    (fun s : SessionScope => decide (s.channelId = channelId)) q.withheldNativeSteer
  have hc := Buckets.elements_eq_retain_add_retain
    (fun s : SessionScope => decide (s.channelId = channelId)) q.cancelledBatches
  rw [batchEvents_add] at hq
  have hflat : ∀ {α : Type} (l : List α) (f : α → List QueuedEvent),
      ((l.flatMap fun a => (f a).map QueuedEvent.toBatchEvent : List BatchEvent) :
        Multiset BatchEvent) = batchEvents ↑(l.flatMap f) := by
    intro α l f
    rw [batchEvents, Multiset.map_coe, List.map_flatMap]
  unfold pending drainedEvents drainChannel
  dsimp only
  rw [← Multiset.coe_add, ← Multiset.coe_add, Buckets.coe_flatMap_entries, hflat, hflat,
    Buckets.coe_flatMap_entries, ← hq, hw, hc, batchEvents_add]
  simp only [ne_eq, decide_not]
  abel

theorem coe_eraseP_add {p : QueuedEvent → Bool} {l : List QueuedEvent} {qe : QueuedEvent}
    (h : l.find? p = some qe) :
    ((l.eraseP p : List QueuedEvent) : Multiset QueuedEvent) + {qe} = ↑l := by
  obtain ⟨hp, as, bs, rfl, has⟩ := List.find?_eq_some_iff_append.1 h
  have hnone : ∀ a ∈ as, ¬ p a = true := fun a ha => by simpa using has a ha
  rw [List.eraseP_append_right _ hnone, List.eraseP_cons_of_pos hp, ← Multiset.coe_add,
    ← Multiset.coe_add, ← Multiset.cons_coe, ← Multiset.singleton_add]
  abel

theorem pending_markNativeSteerPending (q : EventQueue) (scope : SessionScope)
    (eventId : String) :
    (q.markNativeSteerPending scope eventId).1.pending = q.pending := by
  unfold markNativeSteerPending
  dsimp only
  cases hf : (q.queues.bucket scope).find? (hasId eventId) with
  | none => rfl
  | some qe =>
      have herase := coe_eraseP_add hf
      unfold pending
      dsimp only
      rw [Buckets.elements_setBucket, Buckets.elements_insert,
        Buckets.elements_eq_bucket_add_erase q.queues scope,
        Buckets.elements_eq_bucket_add_erase q.withheldNativeSteer scope, ← herase,
        ← Multiset.coe_add, Multiset.coe_singleton]
      simp only [batchEvents_add]
      abel

theorem pending_releaseNativeSteer (ord : Orders) (q : EventQueue) (scope : SessionScope)
    (eventId : String) :
    (q.releaseNativeSteer ord scope eventId).1.pending +
      batchEvents ↑(q.releaseNativeSteer ord scope eventId).2 = q.pending := by
  unfold releaseNativeSteer
  dsimp only
  cases hf : (q.withheldNativeSteer.bucket scope).find? (hasId eventId) with
  | none => simp [batchEvents]
  | some qe =>
      refine pending_restore ord scope ?_
      rw [Buckets.elements_setBucket, Multiset.coe_singleton, add_right_comm,
        coe_eraseP_add hf, ← Buckets.elements_eq_bucket_add_erase]

theorem elements_dropEvent (eventId : String) (scope : SessionScope)
    (table : Buckets SessionScope QueuedEvent) :
    (dropEvent eventId scope table).elements +
      ↑((table.bucket scope).filter (hasId eventId)) = table.elements := by
  unfold dropEvent
  cases hl : table.lookup scope with
  | none => simp [Buckets.bucket, hl]
  | some entries =>
      dsimp only
      rw [Buckets.elements_setBucket, Buckets.bucket_of_lookup hl, add_right_comm,
        Multiset.coe_add, Multiset.coe_eq_coe.2 (List.perm_append_comm.trans
          (List.filter_append_perm (hasId eventId) entries)),
        Buckets.elements_eq_bucket_add_erase table scope, Buckets.bucket_of_lookup hl]

theorem pending_removeEvent (q : EventQueue) (scope : SessionScope) (eventId : String) :
    (q.removeEvent scope eventId).pending + batchEvents ↑(q.removedEvents scope eventId) =
      q.pending := by
  have hq := congrArg batchEvents (elements_dropEvent eventId scope q.queues)
  have hw := congrArg batchEvents (elements_dropEvent eventId scope q.withheldNativeSteer)
  rw [batchEvents_add] at hq hw
  unfold removeEvent removedEvents pending
  dsimp only
  rw [← hq, ← hw, ← Multiset.coe_add, batchEvents_add]
  abel

end EventQueue

/-! ## Where every event is -/

/-- Where an accepted event is, or how it left. -/
inductive Place where
  | queued (scope : SessionScope)
  | withheld (scope : SessionScope)
  | cancelled (scope : SessionScope)
  | inBatch (batch : Nat) (status : BatchStatus)
  | departed (reason : Departure)
  deriving DecidableEq, Repr

namespace Harness

/-- The events of a numbered batch, unless it was handed back. -/
def batchPlaces (e : (FlushBatch × BatchStatus) × Nat) : List (Place × BatchEvent) :=
  if e.1.2 = .handedBack then []
  else e.1.1.items.map fun be => (.inBatch e.2 e.1.2, be)

def located (h : Harness) : List (Place × BatchEvent) :=
  (h.queue.queues.entries.flatMap fun e =>
      e.2.map fun qe => (.queued e.1, qe.toBatchEvent)) ++
    (h.queue.withheldNativeSteer.entries.flatMap fun e =>
      e.2.map fun qe => (.withheld e.1, qe.toBatchEvent)) ++
    (h.queue.cancelledBatches.entries.flatMap fun e => e.2.map fun be => (.cancelled e.1, be)) ++
    h.batches.zipIdx.flatMap batchPlaces ++
    h.departed.map fun d => (.departed d.1, d.2)

/-- Every accepted event has one place, and nothing else has a place. -/
def Conserved (h : Harness) : Prop := (h.located.map Prod.snd).Perm h.accepted

/-- The events of a returned batch that was not handed back. -/
def heldItems (e : FlushBatch × BatchStatus) : Multiset BatchEvent :=
  if e.2 = .handedBack then 0 else ↑e.1.items

/-- The events of all batches that were not handed back. -/
def held (batches : List (FlushBatch × BatchStatus)) : Multiset BatchEvent :=
  (batches.map heldItems).sum

theorem coe_flatMap_batchPlaces (batches : List (FlushBatch × BatchStatus)) (n : Nat) :
    ((((batches.zipIdx n).flatMap batchPlaces).map Prod.snd : List BatchEvent) :
      Multiset BatchEvent) = held batches := by
  induction batches generalizing n with
  | nil => rfl
  | cons e batches ih =>
      have hhead : (((batchPlaces (e, n)).map Prod.snd : List BatchEvent) :
          Multiset BatchEvent) = heldItems e := by
        unfold batchPlaces heldItems
        split
        · rfl
        · rw [List.map_map]
          congr 1
          exact List.map_id'' (fun _ => rfl) _
      rw [List.zipIdx_cons, List.flatMap_cons, List.map_append, ← Multiset.coe_add, ih,
        hhead]
      rfl

theorem coe_located (h : Harness) :
    ((h.located.map Prod.snd : List BatchEvent) : Multiset BatchEvent) =
      h.queue.pending + held h.batches + ↑(h.departed.map Prod.snd) := by
  have htable : ∀ (m : Buckets SessionScope QueuedEvent) (place : SessionScope → Place),
      (((m.entries.flatMap fun e => e.2.map fun qe => (place e.1, qe.toBatchEvent)).map
        Prod.snd : List BatchEvent) : Multiset BatchEvent) =
          EventQueue.batchEvents m.elements := by
    intro m place
    rw [← Buckets.coe_flatMap_entries, EventQueue.batchEvents, Multiset.map_coe,
      List.map_flatMap, List.map_flatMap]
    simp only [List.map_map, Function.comp_def]
  have hcancelled : (((h.queue.cancelledBatches.entries.flatMap fun e =>
      e.2.map fun be => (Place.cancelled e.1, be)).map Prod.snd : List BatchEvent) :
        Multiset BatchEvent) = h.queue.cancelledBatches.elements := by
    rw [← Buckets.coe_flatMap_entries, List.map_flatMap]
    simp only [List.map_map, Function.comp_def, List.map_id']
  unfold located EventQueue.pending
  simp only [List.map_append, ← Multiset.coe_add]
  rw [htable, htable, hcancelled, coe_flatMap_batchPlaces, List.map_map]
  rfl

theorem conserved_iff (h : Harness) :
    h.Conserved ↔ h.queue.pending + held h.batches + ↑(h.departed.map Prod.snd) =
      (h.accepted : Multiset BatchEvent) := by
  rw [← coe_located, Multiset.coe_eq_coe]
  rfl

/-! ## What a status change does to the held events -/

theorem held_settle (p : SessionScope → Bool) {status : BatchStatus}
    (hs : status ≠ .handedBack) (batches : List (FlushBatch × BatchStatus)) :
    held (settle p status batches) = held batches := by
  unfold held settle
  rw [List.map_map]
  congr 1
  refine List.map_congr_left ?_
  intro e _
  simp only [Function.comp]
  split
  · next hout => simp [heldItems, hs, hout.1]
  · rfl

theorem held_append (batches batches' : List (FlushBatch × BatchStatus)) :
    held (batches ++ batches') = held batches + held batches' := by
  simp [held]

theorem held_set {batches : List (FlushBatch × BatchStatus)} {i : Nat}
    {e : FlushBatch × BatchStatus} (he : batches[i]? = some e) (e' : FlushBatch × BatchStatus) :
    held (batches.set i e') + heldItems e = held batches + heldItems e' :=
  Slots.sum_map_set heldItems he e'

/-! ## One call -/

/-- The batch handed back was not handed back before. -/
def handsBackOnce (h : Harness) : Call → Bool
  | .requeue _ _ _ batch | .requeuePreserveTimestamps _ batch | .requeueAsCancelled batch _ =>
      (h.batches[batch]?).all fun e =>
        decide (e.2 ≠ .handedBack) && decide (e.2 ≠ .deadLettered)
  | _ => true

/-- A batch that `requeue` puts back, rather than dead-letters, carries no cancelled events. -/
def requeuesWhole (h : Harness) : Call → Bool
  | .requeue _ _ _ batch =>
      (h.batches[batch]?).all fun e =>
        e.1.cancelledEvents.isEmpty ||
          decide (maxRetries ≤ (h.queue.retryCounts.lookup e.1.scope).getD 0)
  | _ => true

theorem coe_departed_evict (evicted : List QueuedEvent) (h : Harness) :
    (((evict evicted h).departed.map Prod.snd : List BatchEvent) : Multiset BatchEvent) =
      ↑(h.departed.map Prod.snd) + EventQueue.batchEvents ↑evicted := by
  unfold evict EventQueue.batchEvents
  rw [List.map_append, ← Multiset.coe_add, List.map_map, Multiset.map_coe]
  rfl

theorem conserved_of_evict {h h' : Harness} {evicted : List QueuedEvent}
    (incoming : Multiset BatchEvent) (hc : h.Conserved)
    (hpending : h'.queue.pending + held h'.batches + EventQueue.batchEvents ↑evicted =
      h.queue.pending + held h.batches + incoming)
    (haccepted : (h'.accepted : Multiset BatchEvent) = ↑h.accepted + incoming)
    (hdeparted : h'.departed = h.departed) : (evict evicted h').Conserved := by
  rw [conserved_iff] at hc ⊢
  rw [coe_departed_evict, evict_queue, evict_batches, evict_accepted, haccepted, ← hc,
    hdeparted]
  calc _ = h'.queue.pending + held h'.batches + EventQueue.batchEvents ↑evicted +
        ↑(h.departed.map Prod.snd) := by abel
    _ = h.queue.pending + held h.batches + incoming + ↑(h.departed.map Prod.snd) := by
        rw [hpending]
    _ = _ := by abel

theorem held_handedBack {h : Harness} {i : Nat} {b : FlushBatch} {st : BatchStatus}
    (hb : h.batches[i]? = some (b, st)) (hst : st ≠ .handedBack) :
    held (h.batches.set i (b, .handedBack)) + ↑b.items = held h.batches := by
  have hset := held_set hb (b, .handedBack)
  simpa [heldItems, hst] using hset

/-- Every call keeps the account, if it hands a batch back at most once and does not drop
cancelled events. -/
theorem conserved_step {h : Harness} {c : Call} (hc : h.Conserved)
    (honce : h.handsBackOnce c = true) (hwhole : h.requeuesWhole c = true) :
    (h.step c).Conserved := by
  cases c with
  | push ord qe =>
      refine conserved_of_evict
        (if (h.queue.push ord qe).2.2 then {qe.toBatchEvent} else 0) hc ?_ ?_ rfl
      · rw [add_right_comm, EventQueue.pending_push, add_right_comm]
      · by_cases haccepted : (h.queue.push ord qe).2.2 = true
        · simp only [haccepted, if_true]
          rw [← Multiset.coe_add, Multiset.coe_singleton]
        · simp [haccepted]
  | flushNext ord now =>
      refine conserved_of_evict 0 hc ?_ (by simp) rfl
      have hflush := EventQueue.pending_flushNext ord now h.queue
      dsimp only
      rw [held_append, held_settle _ (by decide), ← hflush]
      have hnew : held ((h.queue.flushNext ord now).2.2.toList.map
          fun batch => (batch, BatchStatus.outstanding)) =
            EventQueue.returnedItems (h.queue.flushNext ord now).2.2 := by
        cases (h.queue.flushNext ord now).2.2 with
        | none => rfl
        | some batch => simp [held, heldItems, EventQueue.returnedItems]
      rw [hnew]
      abel
  | hasFlushableWork ord now =>
      refine conserved_of_evict 0 hc ?_ (by simp) rfl
      have hexpire := EventQueue.pending_expireInFlight ord now h.queue
      dsimp only [EventQueue.hasFlushableWork]
      rw [held_settle _ (by decide), ← hexpire]
      abel
  | markComplete now scope =>
      rw [conserved_iff] at hc ⊢
      simp only [step]
      rw [EventQueue.pending_markComplete, held_settle _ (by decide)]
      exact hc
  | requeue ord now jittered i =>
      simp only [step]
      cases hb : h.batches[i]? with
      | none => exact hc
      | some e =>
          obtain ⟨b, st⟩ := e
          simp only [handsBackOnce, requeuesWhole, hb, Option.all_some, Bool.and_eq_true,
            Bool.or_eq_true, decide_eq_true_eq, List.isEmpty_iff] at honce hwhole
          have hrequeue := EventQueue.pending_requeue ord now jittered h.queue b
          refine conserved_of_evict 0 hc ?_ (by simp) rfl
          dsimp only
          rw [add_right_comm, hrequeue]
          by_cases hdead : (h.queue.requeue ord now jittered b).2.2.isSome = true
          · -- dead-lettered: the batch keeps its events
            have hset := held_set hb (b, .deadLettered)
            simp only [heldItems, honce.1, if_false, reduceCtorEq, add_left_inj] at hset
            simp only [hdead, if_true]
            rw [hset, add_zero, add_zero]
          · have hcarry : b.cancelledEvents = [] := by
              refine hwhole.resolve_right ?_
              intro hmax
              refine hdead ?_
              simp [EventQueue.requeue, Nat.lt_succ_of_le hmax]
            have hset := held_handedBack hb honce.1
            simp only [hdead, if_false, Bool.false_eq_true]
            rw [← hset, FlushBatch.items, hcarry, List.append_nil]
            abel
  | requeuePreserveTimestamps ord i =>
      simp only [step]
      cases hb : h.batches[i]? with
      | none => exact hc
      | some e =>
          obtain ⟨b, st⟩ := e
          simp only [handsBackOnce, hb, Option.all_some, Bool.and_eq_true,
            decide_eq_true_eq] at honce
          refine conserved_of_evict 0 hc ?_ (by simp) rfl
          dsimp only
          rw [add_right_comm, EventQueue.pending_requeuePreserveTimestamps,
            ← held_handedBack hb honce.1]
          abel
  | requeueAsCancelled i reason =>
      simp only [step]
      cases hb : h.batches[i]? with
      | none => exact hc
      | some e =>
          obtain ⟨b, st⟩ := e
          simp only [handsBackOnce, hb, Option.all_some, Bool.and_eq_true,
            decide_eq_true_eq] at honce
          rw [conserved_iff] at hc ⊢
          dsimp only
          rw [EventQueue.pending_requeueAsCancelled, ← hc, ← held_handedBack hb honce.1]
          abel
  | drainChannel ord channelId =>
      rw [conserved_iff] at hc ⊢
      simp only [step, List.map_append, List.map_map, Function.comp_def, List.map_id',
        ← Multiset.coe_add]
      rw [← hc, ← EventQueue.pending_drainChannel ord h.queue channelId]
      abel
  | markNativeSteerPending scope eventId =>
      rw [conserved_iff] at hc ⊢
      simp only [step]
      rw [EventQueue.pending_markNativeSteerPending]
      exact hc
  | releaseNativeSteer ord scope eventId =>
      refine conserved_of_evict 0 hc ?_ (by simp) rfl
      dsimp only
      rw [add_right_comm, EventQueue.pending_releaseNativeSteer, add_zero]
  | removeEvent scope eventId =>
      rw [conserved_iff] at hc ⊢
      have hremove := EventQueue.pending_removeEvent h.queue scope eventId
      simp only [step, List.map_append, List.map_map, Function.comp_def, ← Multiset.coe_add]
      rw [← hc, ← hremove, EventQueue.batchEvents, Multiset.map_coe]
      abel
  | compactExpiredState now => exact hc
  | extendInFlightDeadline now scope maxTurnSecs =>
      rw [conserved_iff] at hc ⊢
      simp only [step]
      rw [EventQueue.pending_extendInFlightDeadline]
      exact hc

/-! ## Whole runs -/

/-- The events that a sequence of calls pushes. -/
def pushed (calls : List Call) : List BatchEvent :=
  calls.filterMap fun c =>
    match c with
    | .push _ qe => some qe.toBatchEvent
    | _ => none

theorem accepted_sublist (h : Harness) (calls : List Call) :
    (Run.run step h calls).accepted.Sublist (h.accepted ++ pushed calls) := by
  induction calls generalizing h with
  | nil => simp [Run.run, pushed]
  | cons c calls ih =>
      have hstep : (h.step c).accepted.Sublist (h.accepted ++ pushed [c]) := by
        cases c with
        | push ord qe =>
            by_cases haccepted : (h.queue.push ord qe).2.2 = true
            · simp [step, haccepted, pushed]
            · simp [step, haccepted, pushed]
        | requeue ord now jittered i =>
            simp only [step]
            split <;> simp [pushed]
        | requeuePreserveTimestamps ord i =>
            simp only [step]
            split <;> simp [pushed]
        | requeueAsCancelled i reason =>
            simp only [step]
            split <;> simp [pushed]
        | _ => simp [step, pushed]
      have hsplit : h.accepted ++ pushed (c :: calls) =
          (h.accepted ++ pushed [c]) ++ pushed calls := by
        rw [List.append_assoc]
        unfold pushed
        rw [← List.filterMap_append]
        rfl
      rw [hsplit]
      exact (ih (h.step c)).trans (hstep.append (List.Sublist.refl _))

theorem conserved_start (dedupMode : DedupMode) (maxTurnSecs : Option Nat) :
    (start dedupMode maxTurnSecs).Conserved := by
  cases maxTurnSecs <;> exact List.Perm.refl _

theorem existsUnique_place {h : Harness} (hc : h.Conserved)
    (hids : (h.accepted.map fun be => be.event.id).Nodup) {be : BatchEvent}
    (hbe : be ∈ h.accepted) : ∃! place, (place, be) ∈ h.located := by
  have hnodup : (h.located.map Prod.snd).Nodup :=
    hc.nodup_iff.2 (List.Nodup.of_map _ hids)
  obtain ⟨⟨place, be'⟩, hmem, rfl⟩ := List.mem_map.1 (hc.mem_iff.2 hbe)
  refine ⟨place, hmem, ?_⟩
  intro place' hmem'
  have := List.inj_on_of_nodup_map hnodup hmem' hmem rfl
  exact (Prod.mk.inj this).1

/-- A `requeue` that puts a batch back keeps the batch's events pending, except for those its
caps evict. -/
theorem requeue_keeps_events (ord : Orders) (now : Instant) (jittered : Nat → Nat) (q : EventQueue)
    {batch : FlushBatch} (hnone : (q.requeue ord now jittered batch).2.2 = none)
    {be : BatchEvent} (hbe : be ∈ batch.events) :
    be ∈ (q.requeue ord now jittered batch).1.pending ∨
      be ∈ EventQueue.batchEvents ↑(q.requeue ord now jittered batch).2.1 := by
  have hrequeue := EventQueue.pending_requeue ord now jittered q batch
  rw [hnone] at hrequeue
  rw [← Multiset.mem_add, hrequeue]
  simp [hbe]

/-- In every run that hands a batch back at most once, and only requeues batches without
cancelled events, the accepted events are the located ones, every accepted event has exactly one
place, and a requeue that returns `none` leaves every event of its batch pending, unless a cap
evicts it. -/
theorem run_conserved (dedupMode : DedupMode) (maxTurnSecs : Option Nat) (calls : List Call)
    (hids : ((pushed calls).map fun be => be.event.id).Nodup)
    (honce : Run.Along (fun h c => h.handsBackOnce c = true) step
      (start dedupMode maxTurnSecs) calls)
    (hwhole : Run.Along (fun h c => h.requeuesWhole c = true) step
      (start dedupMode maxTurnSecs) calls) :
    (run dedupMode maxTurnSecs calls).Conserved ∧
      (∀ be ∈ (run dedupMode maxTurnSecs calls).accepted,
        ∃! place, (place, be) ∈ (run dedupMode maxTurnSecs calls).located) ∧
      ∀ ord now jittered i b st,
        (run dedupMode maxTurnSecs calls).batches[i]? = some (b, st) →
        (run dedupMode maxTurnSecs calls).requeuesWhole (.requeue ord now jittered i) = true →
        ((run dedupMode maxTurnSecs calls).queue.requeue ord now jittered b).2.2 = none →
        ∀ be ∈ b.items,
          be ∈ ((run dedupMode maxTurnSecs calls).queue.requeue ord now jittered b).1.pending ∨
          be ∈ EventQueue.batchEvents
            ↑((run dedupMode maxTurnSecs calls).queue.requeue ord now jittered b).2.1 := by
  have hconserved : (run dedupMode maxTurnSecs calls).Conserved :=
    Run.invariant Conserved (fun _ _ hc hp => conserved_step hc hp.1 hp.2)
      (conserved_start dedupMode maxTurnSecs) (honce.and hwhole)
  have hsub : (run dedupMode maxTurnSecs calls).accepted.Sublist (pushed calls) :=
    accepted_sublist (start dedupMode maxTurnSecs) calls
  refine ⟨hconserved, fun be hbe => existsUnique_place hconserved (hids.sublist (hsub.map _)) hbe,
    ?_⟩
  intro ord now jittered i b st hb hreq hnone be hbe
  simp only [requeuesWhole, hb, Option.all_some, Bool.or_eq_true, List.isEmpty_iff,
    decide_eq_true_eq] at hreq
  have hcarry : b.cancelledEvents = [] := by
    refine hreq.resolve_right ?_
    intro hmax
    simp [EventQueue.requeue, Nat.lt_succ_of_le hmax] at hnone
  refine requeue_keeps_events ord now jittered _ hnone ?_
  simpa [FlushBatch.items, hcarry] using hbe

/-- A failed batch that is requeued whole. -/
def sampleRetry : List Call :=
  [.push Orders.stored (sampleEvent 1 100 1), .flushNext Orders.stored 2,
    .requeue Orders.stored 3 (· * 800000000) 0]

theorem run_conserved_sampleRetry :
    (run .queue none sampleRetry).Conserved :=
  (run_conserved .queue none sampleRetry (by decide) (by decide) (by decide)).1

/-- An interrupted turn whose merged re-prompt fails: event 1 is cancelled, merged with event 2
and requeued. -/
def interruptedTurn : List Call :=
  [.push Orders.stored (sampleEvent 1 100 1), .flushNext Orders.stored 2,
    .requeueAsCancelled 0 .interrupt, .markComplete 3 (.conversation 1),
    .push Orders.stored (sampleEvent 2 101 4), .flushNext Orders.stored 5,
    .requeue Orders.stored 6 (· * 800000000) 1]

/-- The requeue of the merged batch loses the cancelled event: it was accepted, it is nowhere,
and it left in none of the ways an event leaves. -/
theorem interruptedTurn_not_conserved :
    ((pushed interruptedTurn).map fun be => be.event.id).Nodup ∧
      Run.Along (fun h c => h.handsBackOnce c = true) step (start .queue none)
        interruptedTurn ∧
      ¬ (run .queue none interruptedTurn).Conserved := by
  refine ⟨by decide, by decide, ?_⟩
  intro hc
  have hlength := hc.length_eq
  revert hlength
  decide

end Harness

end Acp
end Maju
