import Mathlib.Data.Set.Card
import Maju.Acp.Queue.Harness

/-!
# Bounds — caps and in-flight bookkeeping

`EventQueue.Sound` bundles what holds between any two calls: the channel cap, no empty queue or
side-table entry, and one key set for the three in-flight maps.  The cap of a single scope follows
from the cap of its channel.  Every call preserves `Sound`, given that the batches it hands back
carry at least one event, which all batches of `flushNext` do.
-/

namespace Maju
namespace Acp

open Lib Core

/-! ## The number of queued events of a channel -/

/-- What one queue contributes to its channel's total. -/
def channelWeight (channelId : Uuid) (scope : SessionScope) (queue : List QueuedEvent) : Nat :=
  if scope.channelId = channelId then queue.length else 0

theorem channelEventTotal_split (queues : ScopeQueues) (scope : SessionScope)
    (channelId : Uuid) :
    channelEventTotal queues channelId =
      channelWeight channelId scope (queues.bucket scope) +
        channelEventTotal (queues.erase scope) channelId := by
  unfold channelEventTotal
  rw [HashMap.total_eq_lookup_add_erase _ scope queues]
  unfold Buckets.bucket channelWeight
  cases queues.lookup scope with
  | none => simp
  | some queue => rfl

theorem channelEventTotal_insert (queues : ScopeQueues) (scope : SessionScope)
    (queue : List QueuedEvent) (channelId : Uuid) :
    channelEventTotal (queues.insert scope queue) channelId =
      channelWeight channelId scope queue +
        channelEventTotal (queues.erase scope) channelId :=
  HashMap.total_insert _ scope queue queues

theorem channelEventTotal_setBucket (queues : ScopeQueues) (scope : SessionScope)
    (queue : List QueuedEvent) (channelId : Uuid) :
    channelEventTotal (queues.setBucket scope queue) channelId =
      channelWeight channelId scope queue +
        channelEventTotal (queues.erase scope) channelId := by
  unfold Buckets.setBucket
  split
  · next hempty => simp [channelWeight, List.isEmpty_iff.1 hempty]
  · exact channelEventTotal_insert queues scope queue channelId

theorem length_bucket_le (queues : ScopeQueues) (scope : SessionScope) :
    (queues.bucket scope).length ≤ channelEventTotal queues scope.channelId := by
  rw [channelEventTotal_split queues scope, channelWeight, if_pos rfl]
  exact Nat.le_add_right _ _

theorem channelEventTotal_erase_le (queues : ScopeQueues) (scope : SessionScope)
    (channelId : Uuid) :
    channelEventTotal (queues.erase scope) channelId ≤ channelEventTotal queues channelId := by
  rw [channelEventTotal_split queues scope]
  exact Nat.le_add_left _ _

theorem channelEventTotal_setBucket_le {queues : ScopeQueues} {scope : SessionScope}
    {queue : List QueuedEvent} (hlen : queue.length ≤ (queues.bucket scope).length)
    (channelId : Uuid) :
    channelEventTotal (queues.setBucket scope queue) channelId ≤
      channelEventTotal queues channelId := by
  rw [channelEventTotal_setBucket, channelEventTotal_split queues scope]
  unfold channelWeight
  split <;> omega

/-! ## The channel cap -/

theorem capVictim_some {ord : Orders} {channelId : Uuid} {queues : ScopeQueues}
    {scope : SessionScope} (h : capVictim ord channelId queues = some scope) :
    scope.channelId = channelId ∧ queues.bucket scope ≠ [] := by
  obtain ⟨e, he, rfl⟩ := Option.map_eq_some_iff.1 h
  have hmem := List.argmin_mem he
  simp only [List.mem_filter, IterOrder.mem_run, Bool.and_eq_true, decide_eq_true_eq,
    Bool.not_eq_true', List.isEmpty_eq_false_iff] at hmem
  rw [Buckets.bucket_of_lookup (HashMap.lookup_of_mem_entries hmem.1)]
  exact hmem.2

theorem capVictim_none {ord : Orders} {channelId : Uuid} {queues : ScopeQueues}
    (h : capVictim ord channelId queues = none) : channelEventTotal queues channelId = 0 := by
  have hnil := List.argmin_eq_none.1 (Option.map_eq_none_iff.1 h)
  have hall := List.filter_eq_nil_iff.1 hnil
  refine List.sum_eq_zero ?_
  intro n hn
  obtain ⟨e, he, rfl⟩ := List.mem_map.1 hn
  have hnot := hall e (ord.queues.mem_run.2 he)
  simp only [Bool.and_eq_true, decide_eq_true_eq, Bool.not_eq_true', List.isEmpty_eq_false_iff,
    not_and, not_not] at hnot
  dsimp only
  split
  · next hchannel => rw [hnot hchannel, List.length_nil]
  · rfl

theorem channelEventTotal_victim {ord : Orders} {channelId : Uuid} {queues : ScopeQueues}
    {scope : SessionScope} (h : capVictim ord channelId queues = some scope) (c : Uuid) :
    channelEventTotal (queues.setBucket scope (queues.bucket scope).tail) c +
      (if c = channelId then 1 else 0) = channelEventTotal queues c := by
  obtain ⟨hchannel, hne⟩ := capVictim_some h
  have hpos : 0 < (queues.bucket scope).length := List.length_pos_of_ne_nil hne
  rw [channelEventTotal_setBucket, channelEventTotal_split queues scope, channelWeight,
    channelWeight, List.length_tail, hchannel]
  by_cases hc : channelId = c
  · rw [if_pos hc, if_pos hc, if_pos hc.symm]
    omega
  · rw [if_neg hc, if_neg hc, if_neg (Ne.symm hc)]
    omega

theorem enforceChannelCapLoop_le (ord : Orders) (channelId : Uuid) {fuel : Nat}
    {queues : ScopeQueues}
    (hfuel : channelEventTotal queues channelId ≤ fuel + maxPendingPerChannel) :
    channelEventTotal (enforceChannelCapLoop ord channelId fuel queues).1 channelId ≤
      maxPendingPerChannel := by
  induction fuel generalizing queues with
  | zero => simpa [enforceChannelCapLoop] using hfuel
  | succ fuel ih =>
      unfold enforceChannelCapLoop
      split
      · next hle => exact hle
      · cases hv : capVictim ord channelId queues with
        | none =>
            dsimp only
            rw [capVictim_none hv]
            exact Nat.zero_le _
        | some scope =>
            refine ih ?_
            have hround := channelEventTotal_victim hv channelId
            rw [if_pos rfl] at hround
            omega

theorem enforceChannelCapLoop_other (ord : Orders) {channelId c : Uuid} (hc : c ≠ channelId)
    (fuel : Nat) (queues : ScopeQueues) :
    channelEventTotal (enforceChannelCapLoop ord channelId fuel queues).1 c =
      channelEventTotal queues c := by
  induction fuel generalizing queues with
  | zero => rfl
  | succ fuel ih =>
      unfold enforceChannelCapLoop
      split
      · rfl
      · cases hv : capVictim ord channelId queues with
        | none => rfl
        | some scope =>
            have hround := channelEventTotal_victim hv c
            rw [if_neg hc] at hround
            dsimp only
            rw [ih]
            exact hround

theorem noEmptyBucket_enforceChannelCapLoop (ord : Orders) (channelId : Uuid) (fuel : Nat)
    {queues : ScopeQueues} (h : queues.NoEmptyBucket) :
    (enforceChannelCapLoop ord channelId fuel queues).1.NoEmptyBucket := by
  induction fuel generalizing queues with
  | zero => exact h
  | succ fuel ih =>
      unfold enforceChannelCapLoop
      split
      · exact h
      · cases capVictim ord channelId queues with
        | none => exact h
        | some scope => exact ih (h.setBucket scope _)

/-- Queues within the channel cap, none of them empty. -/
structure QueuesSound (queues : ScopeQueues) : Prop where
  channelCap : ∀ channelId, channelEventTotal queues channelId ≤ maxPendingPerChannel
  noEmpty : queues.NoEmptyBucket

namespace QueuesSound

variable {queues : ScopeQueues}

theorem insert_enforce (h : QueuesSound queues) (ord : Orders) (scope : SessionScope)
    {queue : List QueuedEvent} (hne : queue ≠ []) :
    QueuesSound (enforceChannelCap ord scope.channelId (queues.insert scope queue)).1 where
  channelCap := by
    intro c
    by_cases hc : c = scope.channelId
    · subst hc
      exact enforceChannelCapLoop_le ord _ (Nat.le_add_right _ _)
    · rw [enforceChannelCap, enforceChannelCapLoop_other ord hc, channelEventTotal_insert,
        channelWeight, if_neg (Ne.symm hc), Nat.zero_add]
      exact (channelEventTotal_erase_le queues scope c).trans (h.channelCap c)
  noEmpty :=
    noEmptyBucket_enforceChannelCapLoop ord _ _ (h.noEmpty.insert scope hne)

theorem restoreFront (h : QueuesSound queues) (ord : Orders) (scope : SessionScope)
    {events : List QueuedEvent} (hne : events ≠ []) :
    QueuesSound (restoreFront ord scope events queues).1 := by
  refine h.insert_enforce ord scope ?_
  cases events with
  | nil => exact absurd rfl hne
  | cons qe events => simp [maxPendingPerScope]

theorem setBucket (h : QueuesSound queues) {scope : SessionScope} {queue : List QueuedEvent}
    (hlen : queue.length ≤ (queues.bucket scope).length) :
    QueuesSound (queues.setBucket scope queue) where
  channelCap := fun c => (channelEventTotal_setBucket_le hlen c).trans (h.channelCap c)
  noEmpty := h.noEmpty.setBucket scope queue

theorem foldl_erase (h : QueuesSound queues) (scopes : List SessionScope) :
    QueuesSound (scopes.foldl (fun queues s => queues.erase s) queues) := by
  induction scopes generalizing queues with
  | nil => exact h
  | cons scope scopes ih =>
      refine ih ⟨?_, h.noEmpty.erase scope⟩
      exact fun c => (channelEventTotal_erase_le queues scope c).trans (h.channelCap c)

end QueuesSound

namespace EventQueue

/-- The three in-flight maps have one key set. -/
def InFlightAgree (q : EventQueue) : Prop :=
  ∀ scope, (scope ∈ q.inFlightDeadlines ↔ scope ∈ q.inFlightScopes) ∧
    (scope ∈ q.inFlightBatchSizes ↔ scope ∈ q.inFlightScopes)

/-- What holds between any two calls. -/
structure Sound (q : EventQueue) : Prop where
  queues : QueuesSound q.queues
  withheld : q.withheldNativeSteer.NoEmptyBucket
  cancelled : q.cancelledBatches.NoEmptyBucket
  inFlight : q.InFlightAgree

namespace Sound

variable {q : EventQueue}

theorem new (dedupMode : DedupMode) : (EventQueue.new dedupMode).Sound where
  queues := ⟨fun _ => Nat.zero_le _, Buckets.noEmptyBucket_empty⟩
  withheld := Buckets.noEmptyBucket_empty
  cancelled := Buckets.noEmptyBucket_empty
  inFlight := by
    intro scope
    simp [EventQueue.new, AList.notMem_empty]

theorem withInFlightDeadline (h : q.Sound) (maxTurnDurationSecs : Nat) :
    (q.withInFlightDeadline maxTurnDurationSecs).Sound :=
  ⟨h.queues, h.withheld, h.cancelled, h.inFlight⟩

theorem extendInFlightDeadline (h : q.Sound) (now : Instant) (scope : SessionScope)
    (maxTurnSecs : Nat) : (q.extendInFlightDeadline now scope maxTurnSecs).Sound := by
  unfold EventQueue.extendInFlightDeadline
  cases hl : q.inFlightDeadlines.lookup scope with
  | none => exact h
  | some current =>
      dsimp only
      split
      · refine ⟨h.queues, h.withheld, h.cancelled, ?_⟩
        intro scope'
        obtain ⟨hdeadlines, hsizes⟩ := h.inFlight scope'
        refine ⟨?_, hsizes⟩
        rw [AList.mem_insert, ← hdeadlines]
        -- The extended scope had a deadline already.
        refine ⟨?_, Or.inr⟩
        rintro (rfl | hmem)
        · rw [← AList.lookup_isSome, hl]
          rfl
        · exact hmem
      · exact h

theorem push (h : q.Sound) (ord : Orders) (qe : QueuedEvent) : (q.push ord qe).1.Sound := by
  unfold EventQueue.push
  split
  · exact h
  · refine ⟨?_, h.withheld, h.cancelled, h.inFlight⟩
    dsimp only
    rw [← qe.scope_channelId]
    exact h.queues.insert_enforce ord qe.scope (by simp)

theorem clearInFlight (h : q.Sound) (scope : SessionScope) : (q.clearInFlight scope).Sound := by
  refine ⟨h.queues, h.withheld, h.cancelled, ?_⟩
  intro scope'
  obtain ⟨hdeadlines, hsizes⟩ := h.inFlight scope'
  simp only [EventQueue.clearInFlight, AList.mem_erase, hdeadlines, hsizes, and_self]

theorem setInFlight (h : q.Sound) (now : Instant) (scope : SessionScope) (size : Nat) :
    (q.setInFlight now scope size).Sound := by
  refine ⟨h.queues, h.withheld, h.cancelled, ?_⟩
  intro scope'
  obtain ⟨hdeadlines, hsizes⟩ := h.inFlight scope'
  simp only [EventQueue.setInFlight, AList.mem_insert, hdeadlines, hsizes, and_self]

theorem recover (h : q.Sound) (ord : Orders) (scope : SessionScope) :
    (q.recoverWithheldForExpiredScope ord scope).1.Sound := by
  unfold recoverWithheldForExpiredScope
  cases hl : q.withheldNativeSteer.lookup scope with
  | none => exact h
  | some entries =>
      have hne : entries ≠ [] := fun hnil => h.withheld scope (hnil ▸ hl)
      exact ⟨h.queues.restoreFront ord scope hne, h.withheld.erase scope, h.cancelled,
        h.inFlight⟩

theorem expireInFlight (h : q.Sound) (ord : Orders) (now : Instant) :
    (q.expireInFlight ord now).1.Sound := by
  unfold EventQueue.expireInFlight
  have hloop : ∀ (scopes : List SessionScope) (acc : EventQueue × List QueuedEvent),
      acc.1.Sound → (scopes.foldl (expireScope ord) acc).1.Sound := by
    intro scopes
    induction scopes with
    | nil => exact fun _ h => h
    | cons scope scopes ih =>
        exact fun acc h => ih _ ((h.clearInFlight scope).recover ord scope)
  exact hloop _ _ h

theorem takeCancelled (h : q.Sound) (scope : SessionScope) :
    (q.takeCancelled scope).Sound :=
  ⟨h.queues, h.withheld, h.cancelled.erase scope, h.inFlight⟩

theorem pickScope_spec {ord : Orders} {now : Instant} {scope : SessionScope}
    (h : q.pickScope ord now = some scope) :
    q.queues.bucket scope ≠ [] ∧ q.ready now scope = true := by
  obtain ⟨e, he, rfl⟩ := Option.map_eq_some_iff.1 h
  have hmem := List.argmin_mem he
  simp only [List.mem_filter, IterOrder.mem_run, Bool.and_eq_true, Bool.not_eq_true',
    List.isEmpty_eq_false_iff] at hmem
  rw [Buckets.bucket_of_lookup (HashMap.lookup_of_mem_entries hmem.1)]
  exact hmem.2

theorem flushScope (h : q.Sound) (now : Instant) (scope : SessionScope) :
    (q.flushScope now scope).1.Sound := by
  have hdrained : Sound { q with
      queues := q.queues.setBucket scope ((q.queues.bucket scope).drop maxBatchEvents) } :=
    ⟨h.queues.setBucket (by simp), h.withheld, h.cancelled, h.inFlight⟩
  exact (hdrained.setInFlight now scope _).takeCancelled scope

theorem flushScope_events_ne_nil {now : Instant} {scope : SessionScope}
    (hne : q.queues.bucket scope ≠ []) : (q.flushScope now scope).2.events ≠ [] := by
  intro hnil
  have hperm := List.perm_insertionSort
    (fun a b : BatchEvent => a.event.createdAt ≤ b.event.createdAt)
    (((q.queues.bucket scope).take maxBatchEvents).map QueuedEvent.toBatchEvent)
  have hlength := hperm.length_eq
  have hzero : (List.insertionSort
      (fun a b : BatchEvent => a.event.createdAt ≤ b.event.createdAt)
      (((q.queues.bucket scope).take maxBatchEvents).map QueuedEvent.toBatchEvent)) = [] := hnil
  rw [hzero, List.length_nil, List.length_map, List.length_take] at hlength
  have hpos : 0 < (q.queues.bucket scope).length := List.length_pos_of_ne_nil hne
  unfold maxBatchEvents at hlength
  omega

theorem pickCancelled_ne_nil (h : q.Sound) {ord : Orders} {scope : SessionScope}
    (hpick : q.pickCancelled ord = some scope) : q.cancelledBatches.bucket scope ≠ [] := by
  have hmem := List.mem_of_find?_eq_some hpick
  obtain ⟨e, he, rfl⟩ := List.mem_map.1 hmem
  have hentry := HashMap.lookup_of_mem_entries (ord.cancelled.mem_run.1 he)
  rw [Buckets.bucket_of_lookup hentry]
  intro hnil
  exact h.cancelled e.1 (hnil ▸ hentry)

/-- `flushNext` keeps the invariant, and a batch it returns carries an event. -/
theorem flushNext (h : q.Sound) (ord : Orders) (now : Instant) :
    (q.flushNext ord now).1.Sound ∧
      ∀ batch, (q.flushNext ord now).2.2 = some batch → batch.events ≠ [] := by
  have hexpired := h.expireInFlight ord now
  unfold EventQueue.flushNext
  dsimp only
  cases hpick : (q.expireInFlight ord now).1.pickScope ord now with
  | some scope =>
      refine ⟨hexpired.flushScope now scope, ?_⟩
      rintro batch ⟨⟩
      exact flushScope_events_ne_nil (pickScope_spec hpick).1
  | none =>
      cases hcancelled : (q.expireInFlight ord now).1.pickCancelled ord with
      | some scope =>
          refine ⟨(hexpired.takeCancelled scope).setInFlight now scope _, ?_⟩
          rintro batch ⟨⟩
          exact hexpired.pickCancelled_ne_nil hcancelled
      | none =>
          refine ⟨hexpired, ?_⟩
          rintro batch ⟨⟩

theorem markComplete (h : q.Sound) (now : Instant) (scope : SessionScope) :
    (q.markComplete now scope).Sound := by
  obtain ⟨hqueues, hwithheld, hcancelled, hagree⟩ := h.clearInFlight scope
  unfold EventQueue.markComplete
  dsimp only
  cases (q.clearInFlight scope).retryAfter.lookup scope with
  | none => exact ⟨hqueues, hwithheld, hcancelled, hagree⟩
  | some deadline =>
      dsimp only
      split <;> exact ⟨hqueues, hwithheld, hcancelled, hagree⟩

theorem requeue (h : q.Sound) (ord : Orders) (now : Instant) (jittered : Nat → Nat)
    {batch : FlushBatch} (hne : batch.events ≠ []) :
    (q.requeue ord now jittered batch).1.Sound := by
  unfold EventQueue.requeue
  dsimp only
  split
  · exact ⟨h.queues, h.withheld, h.cancelled, h.inFlight⟩
  · refine ⟨?_, h.withheld, h.cancelled, h.inFlight⟩
    exact h.queues.restoreFront ord batch.scope (by simpa using hne)

theorem requeuePreserveTimestamps (h : q.Sound) (ord : Orders) {batch : FlushBatch}
    (hne : batch.events ≠ []) : (q.requeuePreserveTimestamps ord batch).1.Sound := by
  have hrestored : (q.restoreCancelled batch).Sound := by
    unfold restoreCancelled
    split
    · exact h
    · next hcarry =>
        refine ⟨h.queues, h.withheld, h.cancelled.insert batch.scope ?_, h.inFlight⟩
        intro hnil
        exact hcarry (List.isEmpty_iff.2 (List.append_eq_nil_iff.1 hnil).1)
  refine ⟨?_, hrestored.withheld, hrestored.cancelled, hrestored.inFlight⟩
  exact hrestored.queues.restoreFront ord batch.scope (by simpa using hne)

theorem requeueAsCancelled (h : q.Sound) {batch : FlushBatch} (hne : batch.events ≠ [])
    (reason : CancelReason) : (q.requeueAsCancelled batch reason).Sound :=
  ⟨h.queues, h.withheld, h.cancelled.insert batch.scope (by simp [hne]), h.inFlight⟩

theorem drainChannel (h : q.Sound) (ord : Orders) (channelId : Uuid) :
    (q.drainChannel ord channelId).1.Sound :=
  ⟨h.queues.foldl_erase _, h.withheld.retain _, h.cancelled.retain _, h.inFlight⟩

theorem markNativeSteerPending (h : q.Sound) (scope : SessionScope) (eventId : String) :
    (q.markNativeSteerPending scope eventId).1.Sound := by
  unfold EventQueue.markNativeSteerPending
  dsimp only
  cases (q.queues.bucket scope).find? (hasId eventId) with
  | none => exact h
  | some qe =>
      exact ⟨h.queues.setBucket (List.length_eraseP_le), h.withheld.insert scope (by simp),
        h.cancelled, h.inFlight⟩

theorem releaseNativeSteer (h : q.Sound) (ord : Orders) (scope : SessionScope)
    (eventId : String) : (q.releaseNativeSteer ord scope eventId).1.Sound := by
  unfold EventQueue.releaseNativeSteer
  dsimp only
  cases (q.withheldNativeSteer.bucket scope).find? (hasId eventId) with
  | none => exact h
  | some qe =>
      exact ⟨h.queues.restoreFront ord scope (by simp), h.withheld.setBucket scope _,
        h.cancelled, h.inFlight⟩

theorem removeEvent (h : q.Sound) (scope : SessionScope) (eventId : String) :
    (q.removeEvent scope eventId).Sound := by
  refine ⟨?_, ?_, h.cancelled, h.inFlight⟩
  · unfold EventQueue.removeEvent dropEvent
    dsimp only
    cases hl : q.queues.lookup scope with
    | none => exact h.queues
    | some queue =>
        refine h.queues.setBucket ?_
        rw [Buckets.bucket_of_lookup hl]
        exact List.length_filter_le _ _
  · unfold EventQueue.removeEvent dropEvent
    dsimp only
    cases q.withheldNativeSteer.lookup scope with
    | none => exact h.withheld
    | some entries => exact h.withheld.setBucket scope _

end Sound

end EventQueue

namespace Harness

/-- The queue is sound and every returned batch carries an event. -/
structure Sound (h : Harness) : Prop where
  queue : h.queue.Sound
  batches : ∀ e ∈ h.batches, e.1.events ≠ []

theorem mem_settle {p : SessionScope → Bool} {status : BatchStatus}
    {batches : List (FlushBatch × BatchStatus)} {e : FlushBatch × BatchStatus}
    (he : e ∈ settle p status batches) : ∃ e' ∈ batches, e'.1 = e.1 := by
  obtain ⟨e', he', rfl⟩ := List.mem_map.1 he
  refine ⟨e', he', ?_⟩
  split <;> rfl

namespace Sound

variable {h : Harness}

theorem settle (hs : h.Sound) (p : SessionScope → Bool) (status : BatchStatus) :
    ∀ e ∈ Harness.settle p status h.batches, e.1.events ≠ [] := by
  intro e he
  obtain ⟨e', he', heq⟩ := mem_settle he
  rw [← heq]
  exact hs.batches e' he'

theorem set (hs : h.Sound) {i : Nat} {b : FlushBatch} {st : BatchStatus}
    (hb : h.batches[i]? = some (b, st)) (st' : BatchStatus) :
    ∀ e ∈ h.batches.set i (b, st'), e.1.events ≠ [] := by
  intro e he
  rcases List.mem_or_eq_of_mem_set he with he | rfl
  · exact hs.batches e he
  · exact hs.batches (b, st) (List.mem_of_getElem? hb)

theorem step (hs : h.Sound) (c : Call) : (h.step c).Sound := by
  cases c with
  | push ord qe => exact ⟨hs.queue.push ord qe, hs.batches⟩
  | flushNext ord now =>
      obtain ⟨hqueue, hbatch⟩ := hs.queue.flushNext ord now
      refine ⟨hqueue, ?_⟩
      intro e he
      rcases List.mem_append.1 he with he | he
      · exact hs.settle _ _ e he
      · obtain ⟨batch, hmem, rfl⟩ := List.mem_map.1 he
        exact hbatch batch (Option.mem_toList.1 hmem)
  | hasFlushableWork ord now =>
      exact ⟨hs.queue.expireInFlight ord now,
        hs.settle (fun s => decide (s ∈ h.queue.expiredScopes ord now)) .expired⟩
  | markComplete now scope =>
      exact ⟨hs.queue.markComplete now scope,
        hs.settle (fun s => decide (s = scope)) .completed⟩
  | requeue ord now jittered i =>
      simp only [Harness.step]
      cases hb : h.batches[i]? with
      | none => exact hs
      | some e =>
          have hne := hs.batches e (List.mem_of_getElem? hb)
          exact ⟨hs.queue.requeue ord now jittered hne, hs.set hb _⟩
  | requeuePreserveTimestamps ord i =>
      simp only [Harness.step]
      cases hb : h.batches[i]? with
      | none => exact hs
      | some e =>
          have hne := hs.batches e (List.mem_of_getElem? hb)
          exact ⟨hs.queue.requeuePreserveTimestamps ord hne, hs.set hb _⟩
  | requeueAsCancelled i reason =>
      simp only [Harness.step]
      cases hb : h.batches[i]? with
      | none => exact hs
      | some e =>
          have hne := hs.batches e (List.mem_of_getElem? hb)
          exact ⟨hs.queue.requeueAsCancelled hne reason, hs.set hb _⟩
  | drainChannel ord channelId => exact ⟨hs.queue.drainChannel ord channelId, hs.batches⟩
  | markNativeSteerPending scope eventId =>
      exact ⟨hs.queue.markNativeSteerPending scope eventId, hs.batches⟩
  | releaseNativeSteer ord scope eventId =>
      exact ⟨hs.queue.releaseNativeSteer ord scope eventId, hs.batches⟩
  | removeEvent scope eventId => exact ⟨hs.queue.removeEvent scope eventId, hs.batches⟩
  | compactExpiredState now =>
      exact ⟨⟨hs.queue.queues, hs.queue.withheld, hs.queue.cancelled, hs.queue.inFlight⟩,
        hs.batches⟩
  | extendInFlightDeadline now scope maxTurnSecs =>
      exact ⟨hs.queue.extendInFlightDeadline now scope maxTurnSecs, hs.batches⟩

theorem start (dedupMode : DedupMode) (maxTurnSecs : Option Nat) :
    (Harness.start dedupMode maxTurnSecs).Sound := by
  refine ⟨?_, fun e he => absurd he List.not_mem_nil⟩
  have hnew := EventQueue.Sound.new dedupMode
  cases maxTurnSecs with
  | none => exact hnew
  | some secs => exact hnew.withInFlightDeadline secs

theorem run (dedupMode : DedupMode) (maxTurnSecs : Option Nat) (calls : List Call) :
    (Harness.run dedupMode maxTurnSecs calls).Sound :=
  Run.invariant_of_step Harness.Sound (fun _ c hs => hs.step c) (Sound.start dedupMode maxTurnSecs) calls

end Sound

theorem pendingChannels_eq_ncard {q : EventQueue} (h : q.Sound) :
    q.pendingChannels = {scope | q.queues.bucket scope ≠ []}.ncard := by
  have hset : {scope | q.queues.bucket scope ≠ []} =
      ((q.queues.entries.map Sigma.fst).toFinset : Set SessionScope) := by
    ext scope
    simp only [Set.mem_ofPred_eq, ← h.queues.noEmpty.mem_iff, List.coe_toFinset]
    rfl
  have hnodup : (q.queues.entries.map Sigma.fst).Nodup := q.queues.nodupKeys
  rw [hset, Set.ncard_coe_finset, List.toFinset_card_of_nodup hnodup, List.length_map]
  rfl

/-- After every sequence of calls, every queue and every channel is within its cap, no scope maps
to an empty queue, so that `pending_channels` counts the scopes with pending events, and the three
in-flight maps have one key set. -/
theorem run_bounded (dedupMode : DedupMode) (maxTurnSecs : Option Nat) (calls : List Call) :
    let q := (run dedupMode maxTurnSecs calls).queue
    (∀ scope, (q.queues.bucket scope).length ≤ 500) ∧
      (∀ channelId, channelEventTotal q.queues channelId ≤ 500) ∧
      (∀ scope, q.queues.lookup scope ≠ some []) ∧
      q.pendingChannels = {scope | q.queues.bucket scope ≠ []}.ncard ∧
      ∀ scope, (scope ∈ q.inFlightDeadlines ↔ scope ∈ q.inFlightScopes) ∧
        (scope ∈ q.inFlightBatchSizes ↔ scope ∈ q.inFlightScopes) := by
  intro q
  have hq : q.Sound := (Sound.run dedupMode maxTurnSecs calls).queue
  refine ⟨?_, hq.queues.channelCap, hq.queues.noEmpty, pendingChannels_eq_ncard hq,
    hq.inFlight⟩
  intro scope
  exact (length_bucket_le q.queues scope).trans (hq.queues.channelCap scope.channelId)

end Harness

end Acp
end Maju
