import Maju.Acp.Queue.Bounds

/-!
# Fairness — when the head of a queue is its oldest event

`flushNext` compares queue heads, so it serves the oldest event exactly as far as each head is the
oldest event of its queue.  That is the case while every queue is in the order of `received_at`.
Appending events as they arrive, draining a batch, removing events and enforcing the caps keep a
queue in that order.  Putting events back to the front keeps it only if they are in that order
themselves and none is later than an event that waits: a batch was sorted by `created_at` when it
was drained, and a withheld event may be younger than the events it was taken from between.
-/

namespace Maju
namespace Acp

open Lib Core

/-- The events are in the order in which they were received. -/
def InReceiptOrder (l : List QueuedEvent) : Prop :=
  l.Pairwise fun a b => a.receivedAt ≤ b.receivedAt

instance (l : List QueuedEvent) : Decidable (InReceiptOrder l) :=
  inferInstanceAs (Decidable (l.Pairwise _))

/-- Every queue is in the order of receipt. -/
def Ordered (queues : ScopeQueues) : Prop := ∀ scope, InReceiptOrder (queues.bucket scope)

theorem headReceivedAt_le {l : List QueuedEvent} (h : InReceiptOrder l) {qe : QueuedEvent}
    (hqe : qe ∈ l) : headReceivedAt l ≤ qe.receivedAt := by
  cases l with
  | nil => cases hqe
  | cons a l =>
      rcases List.mem_cons.1 hqe with rfl | hqe
      · exact Nat.le_refl _
      · exact (List.pairwise_cons.1 h).1 qe hqe

/-! ## Caps drop events from the ends -/

theorem suffix_enforceChannelCapLoop (ord : Orders) (channelId : Uuid) (fuel : Nat)
    (queues : ScopeQueues) (scope : SessionScope) :
    (enforceChannelCapLoop ord channelId fuel queues).1.bucket scope <:+
      queues.bucket scope := by
  induction fuel generalizing queues with
  | zero => exact List.suffix_refl _
  | succ fuel ih =>
      unfold enforceChannelCapLoop
      split
      · exact List.suffix_refl _
      · cases capVictim ord channelId queues with
        | none => exact List.suffix_refl _
        | some victim =>
            refine (ih _).trans ?_
            rw [Buckets.bucket_setBucket]
            split
            · next heq =>
                rw [heq]
                exact List.tail_suffix _
            · exact List.suffix_refl _

theorem sublist_restoreFront (ord : Orders) (scope : SessionScope) (events : List QueuedEvent)
    (queues : ScopeQueues) (scope' : SessionScope) :
    ((restoreFront ord scope events queues).1.bucket scope').Sublist
      (if scope' = scope then events ++ queues.bucket scope else queues.bucket scope') := by
  refine (suffix_enforceChannelCapLoop ord scope.channelId _ _ scope').sublist.trans ?_
  rw [Buckets.bucket_insert]
  split
  · exact List.take_sublist _ _
  · exact List.Sublist.refl _

namespace Ordered

variable {queues : ScopeQueues}

theorem of_sublist {queues' : ScopeQueues} (h : Ordered queues)
    (hsub : ∀ scope, (queues'.bucket scope).Sublist (queues.bucket scope)) :
    Ordered queues' :=
  fun scope => (h scope).sublist (hsub scope)

theorem restoreFront (h : Ordered queues) (ord : Orders) (scope : SessionScope)
    {events : List QueuedEvent} (hevents : InReceiptOrder (events ++ queues.bucket scope)) :
    Ordered (restoreFront ord scope events queues).1 := by
  intro scope'
  refine List.Pairwise.sublist (sublist_restoreFront ord scope events queues scope') ?_
  split
  · exact hevents
  · exact h scope'

theorem setBucket (h : Ordered queues) {scope : SessionScope} {queue : List QueuedEvent}
    (hsub : queue.Sublist (queues.bucket scope)) : Ordered (queues.setBucket scope queue) := by
  refine h.of_sublist ?_
  intro scope'
  rw [Buckets.bucket_setBucket]
  split
  · next heq =>
      rw [heq]
      exact hsub
  · exact List.Sublist.refl _

theorem foldl_erase (h : Ordered queues) (scopes : List SessionScope) :
    Ordered (scopes.foldl (fun queues s => queues.erase s) queues) := by
  induction scopes generalizing queues with
  | nil => exact h
  | cons scope scopes ih =>
      refine ih (h.of_sublist ?_)
      intro scope'
      rw [Buckets.bucket_erase]
      split
      · exact List.nil_sublist _
      · exact List.Sublist.refl _

end Ordered

namespace EventQueue

variable {q : EventQueue}

theorem ordered_push (h : Ordered q.queues) (ord : Orders) {qe : QueuedEvent}
    (hqe : ∀ waiting ∈ q.queues.bucket qe.scope, waiting.receivedAt ≤ qe.receivedAt) :
    Ordered (q.push ord qe).1.queues := by
  unfold push
  split
  · exact h
  · intro scope
    refine List.Pairwise.sublist (suffix_enforceChannelCapLoop ord _ _ _ scope).sublist ?_
    rw [Buckets.bucket_insert]
    split
    · refine List.pairwise_append.2 ⟨?_, List.pairwise_singleton _ _, ?_⟩
      · exact (h qe.scope).sublist (List.drop_sublist _ _)
      · intro waiting hwaiting newest hnewest
        rw [List.mem_singleton.1 hnewest]
        exact hqe waiting ((List.drop_sublist _ _).subset hwaiting)
    · exact h scope

/-! ## Recovery of withheld events -/

/-- The withheld events of these scopes may go back to the front of their queues. -/
def Recoverable (q : EventQueue) (scopes : List SessionScope) : Prop :=
  ∀ scope ∈ scopes,
    InReceiptOrder (q.withheldNativeSteer.bucket scope ++ q.queues.bucket scope)

theorem ordered_recover (h : Ordered q.queues) (ord : Orders) {scope : SessionScope}
    (hrec : q.Recoverable [scope]) :
    Ordered (q.recoverWithheldForExpiredScope ord scope).1.queues := by
  unfold recoverWithheldForExpiredScope
  cases hl : q.withheldNativeSteer.lookup scope with
  | none => exact h
  | some entries =>
      refine h.restoreFront ord scope ?_
      have := hrec scope List.mem_cons_self
      rwa [Buckets.bucket_of_lookup hl] at this

/-- Recovering one scope leaves the others recoverable: their withheld events stay and their
queues can only lose events to the channel cap. -/
theorem recoverable_recover (ord : Orders) {scope : SessionScope} {scopes : List SessionScope}
    (hnot : scope ∉ scopes) (hrec : q.Recoverable scopes) :
    (q.recoverWithheldForExpiredScope ord scope).1.Recoverable scopes := by
  intro scope' hmem
  have hne : scope' ≠ scope := fun heq => hnot (heq ▸ hmem)
  have hold := hrec scope' hmem
  unfold recoverWithheldForExpiredScope
  cases hl : q.withheldNativeSteer.lookup scope with
  | none => exact hold
  | some entries =>
      dsimp only
      have hsub := sublist_restoreFront ord scope entries q.queues scope'
      rw [if_neg hne] at hsub
      rw [Buckets.bucket_erase, if_neg hne]
      exact List.Pairwise.sublist ((List.Sublist.refl _).append hsub) hold

theorem ordered_foldl_expireScope (ord : Orders) {scopes : List SessionScope}
    (hnodup : scopes.Nodup) {acc : EventQueue × List QueuedEvent} (h : Ordered acc.1.queues)
    (hrec : acc.1.Recoverable scopes) :
    Ordered (scopes.foldl (expireScope ord) acc).1.queues := by
  induction scopes generalizing acc with
  | nil => exact h
  | cons scope scopes ih =>
      obtain ⟨hnot, hnodup⟩ := List.nodup_cons.1 hnodup
      refine ih hnodup ?_ ?_
      · refine ordered_recover (q := acc.1.clearInFlight scope) h ord ?_
        intro scope' hmem
        rw [List.mem_singleton.1 hmem]
        exact hrec scope List.mem_cons_self
      · refine recoverable_recover (q := acc.1.clearInFlight scope) ord hnot ?_
        exact fun scope' hmem => hrec scope' (List.mem_cons_of_mem _ hmem)

/-- The scopes in flight whose deadline has passed may recover their withheld events. -/
def ExpiryInOrder (now : Instant) (q : EventQueue) : Prop :=
  ∀ e ∈ q.inFlightDeadlines.entries, e.2 ≤ now →
    InReceiptOrder (q.withheldNativeSteer.bucket e.1 ++ q.queues.bucket e.1)

instance (now : Instant) (q : EventQueue) : Decidable (q.ExpiryInOrder now) :=
  inferInstanceAs (Decidable (∀ e ∈ q.inFlightDeadlines.entries, e.2 ≤ now → _))

theorem ordered_expireInFlight (h : Ordered q.queues) (ord : Orders) {now : Instant}
    (hexpiry : q.ExpiryInOrder now) : Ordered (q.expireInFlight ord now).1.queues := by
  refine ordered_foldl_expireScope ord ?_ h ?_
  · have hkeys : ((ord.deadlines.run q.inFlightDeadlines.entries).map Sigma.fst).Nodup :=
      ((ord.deadlines.perm _).map Sigma.fst).nodup_iff.2 q.inFlightDeadlines.nodupKeys
    exact hkeys.sublist (List.filter_sublist.map Sigma.fst)
  · intro scope hmem
    obtain ⟨e, he, rfl⟩ := List.mem_map.1 hmem
    obtain ⟨hentry, hle⟩ := List.mem_filter.1 he
    exact hexpiry e (ord.deadlines.mem_run.1 hentry) (of_decide_eq_true hle)

/-! ## Dispatch -/

/-- The head of every queue is its oldest event. -/
def HeadsOldest (q : EventQueue) : Prop :=
  ∀ scope, ∀ qe ∈ q.queues.bucket scope,
    headReceivedAt (q.queues.bucket scope) ≤ qe.receivedAt

/-- A batch that `flushNext` takes from the queues contains the oldest event of all queues that
are neither in flight nor throttled. -/
def FlushesOldest (q : EventQueue) (ord : Orders) (now : Instant) : Prop :=
  ∀ scope, (q.expireInFlight ord now).1.pickScope ord now = some scope →
    ∃ batch, (q.flushNext ord now).2.2 = some batch ∧ batch.scope = scope ∧
      ∃ qe ∈ (q.expireInFlight ord now).1.queues.bucket scope,
        qe.toBatchEvent ∈ batch.events ∧
        ∀ scope', (q.expireInFlight ord now).1.ready now scope' = true →
          ∀ qe' ∈ (q.expireInFlight ord now).1.queues.bucket scope',
            qe.receivedAt ≤ qe'.receivedAt

theorem headReceivedAt_pickScope_le {ord : Orders} {now : Instant} {scope scope' : SessionScope}
    (hpick : q.pickScope ord now = some scope) (hready : q.ready now scope' = true)
    (hne : q.queues.bucket scope' ≠ []) :
    headReceivedAt (q.queues.bucket scope) ≤ headReceivedAt (q.queues.bucket scope') := by
  obtain ⟨e, he, rfl⟩ := Option.map_eq_some_iff.1 hpick
  have hmem := (List.mem_filter.1 (List.argmin_mem he)).1
  rw [Buckets.bucket_of_lookup (HashMap.lookup_of_mem_entries (ord.queues.mem_run.1 hmem))]
  obtain ⟨qe, hqe⟩ := List.exists_mem_of_ne_nil _ hne
  obtain ⟨queue, hentry, _⟩ := Buckets.mem_entries_of_mem_bucket hqe
  have hbucket := Buckets.bucket_of_lookup (HashMap.lookup_of_mem_entries hentry)
  rw [hbucket] at hne ⊢
  refine List.le_of_mem_argmin (f := fun e => headReceivedAt e.2)
    (a := (⟨scope', queue⟩ : Sigma fun _ : SessionScope => List QueuedEvent)) ?_ he
  refine List.mem_filter.2 ⟨ord.queues.mem_run.2 hentry, ?_⟩
  simpa [hready] using hne

theorem flushesOldest_of_ordered {ord : Orders} {now : Instant}
    (h : Ordered (q.expireInFlight ord now).1.queues) : q.FlushesOldest ord now := by
  intro scope hpick
  obtain ⟨hne, _⟩ := Sound.pickScope_spec hpick
  refine ⟨((q.expireInFlight ord now).1.flushScope now scope).2, ?_, rfl, ?_⟩
  · unfold flushNext
    simp only [hpick]
  · obtain ⟨head, rest, hhead⟩ := List.exists_cons_of_ne_nil hne
    refine ⟨head, hhead ▸ List.mem_cons_self, ?_, ?_⟩
    · have hperm := List.perm_insertionSort
        (fun a b : BatchEvent => a.event.createdAt ≤ b.event.createdAt)
        ((((q.expireInFlight ord now).1.queues.bucket scope).take maxBatchEvents).map
          QueuedEvent.toBatchEvent)
      refine hperm.mem_iff.2 ?_
      rw [hhead]
      exact List.mem_cons_self
    · intro scope' hready qe' hqe'
      have hpicked := headReceivedAt_pickScope_le hpick hready (List.ne_nil_of_mem hqe')
      rw [hhead] at hpicked
      exact hpicked.trans (headReceivedAt_le (h scope') hqe')

theorem ordered_flushNext (ord : Orders) (now : Instant)
    (h : Ordered (q.expireInFlight ord now).1.queues) :
    Ordered (q.flushNext ord now).1.queues := by
  unfold flushNext
  dsimp only
  cases (q.expireInFlight ord now).1.pickScope ord now with
  | some scope => exact h.setBucket (List.drop_sublist _ _)
  | none => cases (q.expireInFlight ord now).1.pickCancelled ord <;> exact h

theorem ordered_dropEvent {queues : ScopeQueues} (h : Ordered queues) (eventId : String)
    (scope : SessionScope) : Ordered (dropEvent eventId scope queues) := by
  unfold dropEvent
  cases hl : queues.lookup scope with
  | none => exact h
  | some entries =>
      refine h.setBucket ?_
      rw [Buckets.bucket_of_lookup hl]
      exact List.filter_sublist

end EventQueue

/-! ## Whole runs -/

namespace Harness

/-- The calls that keep queues in the order of receipt: an accepted event is not older than the
events it is appended to; a batch put back is in that order and not later than what waits; and so
are withheld events when they are released or recovered. -/
def InOrder (h : Harness) : Call → Prop
  | .push _ qe =>
      (h.queue.dedupMode = .drop ∧ qe.scope ∈ h.queue.inFlightScopes) ∨
        ∀ waiting ∈ h.queue.queues.bucket qe.scope, waiting.receivedAt ≤ qe.receivedAt
  | .flushNext _ now | .hasFlushableWork _ now => h.queue.ExpiryInOrder now
  | .requeue _ _ _ batch =>
      ∀ e ∈ h.batches[batch]?,
        maxRetries ≤ (h.queue.retryCounts.lookup e.1.scope).getD 0 ∨
          InReceiptOrder
            (e.1.events.map e.1.queuedEvent ++ h.queue.queues.bucket e.1.scope)
  | .requeuePreserveTimestamps _ batch =>
      ∀ e ∈ h.batches[batch]?,
        InReceiptOrder (e.1.events.map e.1.queuedEvent ++ h.queue.queues.bucket e.1.scope)
  | .releaseNativeSteer _ scope eventId =>
      ∀ qe ∈ (h.queue.withheldNativeSteer.bucket scope).find? (EventQueue.hasId eventId),
        ∀ waiting ∈ h.queue.queues.bucket scope, qe.receivedAt ≤ waiting.receivedAt
  | _ => True

instance (h : Harness) (c : Call) : Decidable (h.InOrder c) := by
  cases c <;> unfold InOrder <;> infer_instance

theorem ordered_step {h : Harness} {c : Call} (ho : Ordered h.queue.queues)
    (hc : h.InOrder c) : Ordered (h.step c).queue.queues := by
  cases c with
  | push ord qe =>
      rcases hc with hdropped | hwaiting
      · simp only [step, evict_queue, EventQueue.push, if_pos hdropped]
        exact ho
      · exact EventQueue.ordered_push ho ord hwaiting
  | flushNext ord now =>
      exact EventQueue.ordered_flushNext ord now (EventQueue.ordered_expireInFlight ho ord hc)
  | hasFlushableWork ord now => exact EventQueue.ordered_expireInFlight ho ord hc
  | markComplete now scope =>
      simp only [step, EventQueue.markComplete]
      cases (h.queue.clearInFlight scope).retryAfter.lookup scope with
      | none => exact ho
      | some deadline =>
          dsimp only
          split <;> exact ho
  | requeue ord now jittered i =>
      simp only [step]
      cases hb : h.batches[i]? with
      | none => exact ho
      | some e =>
          have hbatch := hc e hb
          simp only [evict_queue, EventQueue.requeue]
          split
          · exact ho
          · next hretry =>
              refine ho.restoreFront ord e.1.scope (hbatch.resolve_left ?_)
              omega
  | requeuePreserveTimestamps ord i =>
      simp only [step]
      cases hb : h.batches[i]? with
      | none => exact ho
      | some e =>
          have hqueues : (h.queue.restoreCancelled e.1).queues = h.queue.queues := by
            unfold EventQueue.restoreCancelled
            split <;> rfl
          have hbatch := hc e hb
          rw [← hqueues] at ho hbatch
          exact ho.restoreFront ord e.1.scope hbatch
  | requeueAsCancelled i reason =>
      simp only [step]
      cases h.batches[i]? with
      | none => exact ho
      | some e => exact ho
  | drainChannel ord channelId => exact ho.foldl_erase _
  | markNativeSteerPending scope eventId =>
      simp only [step, EventQueue.markNativeSteerPending]
      cases (h.queue.queues.bucket scope).find? (EventQueue.hasId eventId) with
      | none => exact ho
      | some qe => exact ho.setBucket List.eraseP_sublist
  | releaseNativeSteer ord scope eventId =>
      simp only [step, EventQueue.releaseNativeSteer]
      cases hf : (h.queue.withheldNativeSteer.bucket scope).find? (EventQueue.hasId eventId) with
      | none => exact ho
      | some qe =>
          refine ho.restoreFront ord scope ?_
          exact List.pairwise_cons.2 ⟨hc qe hf, ho scope⟩
  | removeEvent scope eventId => exact EventQueue.ordered_dropEvent ho eventId scope
  | compactExpiredState now => exact ho
  | extendInFlightDeadline now scope maxTurnSecs =>
      simp only [step, EventQueue.extendInFlightDeadline]
      cases h.queue.inFlightDeadlines.lookup scope with
      | none => exact ho
      | some current =>
          dsimp only
          split <;> exact ho

theorem ordered_start (dedupMode : DedupMode) (maxTurnSecs : Option Nat) :
    Ordered (start dedupMode maxTurnSecs).queue.queues := by
  intro scope
  cases maxTurnSecs <;> exact List.Pairwise.nil

/-- In every run whose calls keep the order of receipt, the head of every queue is its oldest
event, and the next `flushNext` that keeps it too dispatches the oldest event of all queues that
are neither in flight nor throttled. -/
theorem run_fair (dedupMode : DedupMode) (maxTurnSecs : Option Nat) (calls : List Call)
    (hcalls : Run.Along InOrder step (start dedupMode maxTurnSecs) calls) :
    (run dedupMode maxTurnSecs calls).queue.HeadsOldest ∧
      ∀ ord now, (run dedupMode maxTurnSecs calls).InOrder (.flushNext ord now) →
        (run dedupMode maxTurnSecs calls).queue.FlushesOldest ord now := by
  have hordered : Ordered (run dedupMode maxTurnSecs calls).queue.queues :=
    Run.invariant (fun h : Harness => Ordered h.queue.queues)
      (fun _ _ ho hc => ordered_step ho hc) (ordered_start dedupMode maxTurnSecs) hcalls
  refine ⟨fun scope qe hqe => headReceivedAt_le (hordered scope) hqe, ?_⟩
  intro ord now hexpiry
  exact EventQueue.flushesOldest_of_ordered
    (EventQueue.ordered_expireInFlight hordered ord hexpiry)

/-- A text message that opened a thread of channel 1. -/
def threadEvent (id : EventId) (createdAt : Timestamp) (receivedAt : Instant) : QueuedEvent where
  channelId := 1
  scope := .thread 1 "root"
  event := { id := id, pubkey := 7, createdAt := createdAt, kind := 9, tags := [] }
  receivedAt := receivedAt
  promptTag := "mention"
  scope_channelId := rfl

/-- Two events of one scope arrive, are flushed and handed back; one of another scope arrives
between them.  The first scope's events have these creation times. -/
def handedBack (created₁ created₂ : Timestamp) : List Call :=
  [.push Orders.stored (sampleEvent 1 created₁ 1),
    .push Orders.stored (threadEvent 2 500 2),
    .push Orders.stored (sampleEvent 3 created₂ 3),
    .flushNext Orders.stored 4, .requeuePreserveTimestamps Orders.stored 0,
    .markComplete 5 (.conversation 1)]

/-- With creation times in the order of receipt, the handed-back scope keeps its place. -/
theorem run_fair_handedBack : (run .queue none (handedBack 100 101)).queue.HeadsOldest :=
  (run_fair .queue none (handedBack 100 101) (by decide)).1

/-- Replayed newest first, the batch goes back in the order of creation: the head of the scope is
then not its oldest event, and `flushNext` passes over the oldest event of all queues. -/
theorem handedBack_not_fair :
    ¬ (run .queue none (handedBack 101 100)).queue.HeadsOldest ∧
      ¬ (run .queue none (handedBack 101 100)).queue.FlushesOldest Orders.stored 6 := by
  constructor
  · intro hheads
    have := hheads (.conversation 1) (sampleEvent 1 101 1) (by decide)
    revert this
    decide
  · intro hflush
    obtain ⟨batch, _, _, qe, hqe, _, holdest⟩ := hflush (.thread 1 "root") (by decide)
    have hle := holdest (.conversation 1) (by decide) (sampleEvent 1 101 1) (by decide)
    have hqe' : qe ∈ [threadEvent 2 500 2] := hqe
    rw [List.mem_singleton.1 hqe'] at hle
    revert hle
    decide

end Harness

end Acp
end Maju
