import Maju.Acp.Queue.Bounds

/-!
# Readiness — `has_flushable_work` and `flush_next` agree

Both functions start with their own copy of the expiry loop and then read the tables that the loop
has changed.  One asks whether some scope may be dispatched, the other picks one.

- `expiredScopes_expireInFlight` — the loop leaves no scope whose deadline has passed, so that a
  second loop at the same instant does nothing, in whatever order it visits the map;
- `isSome_pick` — a scope is picked exactly when one may be dispatched;
- `readiness_agreement` — the two calls agree in every reachable state.
-/

namespace Maju
namespace Acp

open Lib Core

namespace EventQueue

variable {q : EventQueue} {ord ord' : Orders} {now : Instant}

/-! ## The expiry loop -/

@[simp] theorem recoverWithheldForExpiredScope_inFlightDeadlines (ord : Orders) (q : EventQueue)
    (scope : SessionScope) :
    (recoverWithheldForExpiredScope ord q scope).1.inFlightDeadlines = q.inFlightDeadlines := by
  unfold recoverWithheldForExpiredScope
  cases q.withheldNativeSteer.lookup scope <;> rfl

theorem lookup_inFlightDeadlines_foldl (ord : Orders) (scopes : List SessionScope)
    (acc : EventQueue × List QueuedEvent) (scope : SessionScope) :
    (scopes.foldl (expireScope ord) acc).1.inFlightDeadlines.lookup scope =
      if scope ∈ scopes then none else acc.1.inFlightDeadlines.lookup scope := by
  induction scopes generalizing acc with
  | nil => simp
  | cons s scopes ih =>
      have hround : (expireScope ord acc s).1.inFlightDeadlines =
          acc.1.inFlightDeadlines.erase s := by
        simp only [expireScope, recoverWithheldForExpiredScope_inFlightDeadlines]
        rfl
      rw [List.foldl_cons, ih, hround, HashMap.lookup_erase_eq]
      by_cases hs : scope = s <;> by_cases hrest : scope ∈ scopes <;> simp [hs, hrest]

theorem mem_expiredScopes {scope : SessionScope} :
    scope ∈ q.expiredScopes ord now ↔
      ∃ deadline, q.inFlightDeadlines.lookup scope = some deadline ∧ deadline ≤ now := by
  simp only [expiredScopes, List.mem_map, List.mem_filter, IterOrder.mem_run, decide_eq_true_eq]
  constructor
  · rintro ⟨e, ⟨he, hle⟩, rfl⟩
    exact ⟨e.2, HashMap.lookup_of_mem_entries he, hle⟩
  · rintro ⟨deadline, hlookup, hle⟩
    exact ⟨⟨scope, deadline⟩, ⟨HashMap.mem_entries_iff.2 hlookup, hle⟩, rfl⟩

/-- No deadline is left to pass at the instant of the loop. -/
theorem expiredScopes_expireInFlight (q : EventQueue) (ord ord' : Orders) (now : Instant) :
    (q.expireInFlight ord now).1.expiredScopes ord' now = [] := by
  apply List.eq_nil_iff_forall_not_mem.2
  intro scope hscope
  obtain ⟨deadline, hlookup, hle⟩ := mem_expiredScopes.1 hscope
  rw [expireInFlight, lookup_inFlightDeadlines_foldl] at hlookup
  by_cases hexpired : scope ∈ q.expiredScopes ord now
  · simp [hexpired] at hlookup
  · rw [if_neg hexpired] at hlookup
    exact hexpired (mem_expiredScopes.2 ⟨deadline, hlookup, hle⟩)

theorem expireInFlight_expireInFlight (q : EventQueue) (ord ord' : Orders) (now : Instant) :
    (q.expireInFlight ord now).1.expireInFlight ord' now =
      ((q.expireInFlight ord now).1, []) := by
  unfold EventQueue.expireInFlight
  rw [show ((q.expiredScopes ord now).foldl (expireScope ord) (q, [])).1.expiredScopes ord' now =
    [] from expiredScopes_expireInFlight q ord ord' now]
  rfl

/-! ## Picking a scope -/

/-- Some queue may be dispatched: the first disjunct of the readiness test. -/
def hasReadyScope (now : Instant) (q : EventQueue) : Bool :=
  q.queues.entries.any fun e => !e.2.isEmpty && q.ready now e.1

/-- Some carryover may be dispatched: the second disjunct. -/
def hasFreeCancelled (q : EventQueue) : Bool :=
  q.cancelledBatches.entries.any fun e => !decide (e.1 ∈ q.inFlightScopes)

theorem isSome_pickScope (q : EventQueue) (ord : Orders) (now : Instant) :
    (q.pickScope ord now).isSome = q.hasReadyScope now := by
  rw [Bool.eq_iff_iff, pickScope, Option.isSome_map, hasReadyScope, List.any_eq_true,
    Option.isSome_iff_ne_none, Ne, List.argmin_eq_none, List.filter_eq_nil_iff]
  simp

theorem isSome_pickCancelled (q : EventQueue) (ord : Orders) :
    (q.pickCancelled ord).isSome = q.hasFreeCancelled := by
  rw [Bool.eq_iff_iff, pickCancelled, List.find?_isSome, hasFreeCancelled, List.any_eq_true]
  simp

/-- A dispatch happens exactly when one of the two tables has a scope for it. -/
theorem isSome_pick (q : EventQueue) (ord : Orders) (now : Instant) :
    ((q.pickScope ord now).isSome || (q.pickCancelled ord).isSome) =
      (q.hasReadyScope now || q.hasFreeCancelled) := by
  rw [isSome_pickScope, isSome_pickCancelled]

/-! ## What a call of `flush_next` is made of -/

/-- The dispatch that follows the expiry loop. -/
def dispatch (ord : Orders) (now : Instant) (q : EventQueue) : Option (EventQueue × FlushBatch) :=
  match q.pickScope ord now with
  | some scope => some (flushScope now scope q)
  | none => (q.pickCancelled ord).map fun scope => flushCancelled now scope q

theorem isSome_dispatch (q : EventQueue) (ord : Orders) (now : Instant) :
    (q.dispatch ord now).isSome = (q.hasReadyScope now || q.hasFreeCancelled) := by
  rw [← isSome_pick q ord now]
  unfold dispatch
  cases q.pickScope ord now with
  | some scope => rfl
  | none => simp

theorem flushNext_eq (q : EventQueue) (ord : Orders) (now : Instant) :
    q.flushNext ord now =
      match (q.expireInFlight ord now).1.dispatch ord now with
      | some flushed => (flushed.1, (q.expireInFlight ord now).2, some flushed.2)
      | none => ((q.expireInFlight ord now).1, (q.expireInFlight ord now).2, none) := by
  simp only [flushNext, dispatch]
  cases (q.expireInFlight ord now).1.pickScope ord now with
  | some scope => rfl
  | none => cases (q.expireInFlight ord now).1.pickCancelled ord <;> rfl

theorem hasFlushableWork_eq (q : EventQueue) (ord : Orders) (now : Instant) :
    q.hasFlushableWork ord now =
      ((q.expireInFlight ord now).1, (q.expireInFlight ord now).2,
        ((q.expireInFlight ord now).1.dispatch ord now).isSome) := by
  rw [isSome_dispatch]
  rfl

/-- A dispatch takes queued and cancelled events of one scope and sets its turn in flight. -/
structure DispatchOf (q q' : EventQueue) (batch : FlushBatch) (now : Instant) : Prop where
  free : batch.scope ∉ q.inFlightScopes
  flight : q'.inFlightScopes = q.inFlightScopes.insert batch.scope () ∧
    q'.inFlightDeadlines = q.inFlightDeadlines.insert batch.scope (now + q.inFlightDeadline) ∧
    q'.inFlightBatchSizes = q.inFlightBatchSizes.insert batch.scope batch.events.length
  withheld : q'.withheldNativeSteer = q.withheldNativeSteer
  throttle : q'.retryAfter = q.retryAfter ∧ q'.retryCounts = q.retryCounts
  others : ∀ scope, scope ≠ batch.scope →
    q'.queues.bucket scope = q.queues.bucket scope ∧
      q'.cancelledBatches.bucket scope = q.cancelledBatches.bucket scope

theorem dispatchOf_flushScope {scope : SessionScope} (hfree : scope ∉ q.inFlightScopes) :
    DispatchOf q (flushScope now scope q).1 (flushScope now scope q).2 now where
  free := hfree
  flight := ⟨rfl, rfl, rfl⟩
  withheld := rfl
  throttle := ⟨rfl, rfl⟩
  others := by
    intro other hother
    change other ≠ scope at hother
    constructor
    · change (q.queues.setBucket scope _).bucket other = _
      rw [Buckets.bucket_setBucket, if_neg hother]
    · change Buckets.bucket (q.cancelledBatches.erase scope) other = _
      rw [Buckets.bucket_erase, if_neg hother]

theorem dispatchOf_flushCancelled {scope : SessionScope} (hfree : scope ∉ q.inFlightScopes) :
    DispatchOf q (flushCancelled now scope q).1 (flushCancelled now scope q).2 now where
  free := hfree
  flight := ⟨rfl, rfl, rfl⟩
  withheld := rfl
  throttle := ⟨rfl, rfl⟩
  others := by
    intro other hother
    change other ≠ scope at hother
    refine ⟨rfl, ?_⟩
    change Buckets.bucket (q.cancelledBatches.erase scope) other = _
    rw [Buckets.bucket_erase, if_neg hother]

theorem dispatchOf_dispatch {q' : EventQueue} {batch : FlushBatch}
    (h : q.dispatch ord now = some (q', batch)) : DispatchOf q q' batch now := by
  unfold dispatch at h
  cases hpick : q.pickScope ord now with
  | some scope =>
      simp only [hpick, Option.some.injEq] at h
      obtain ⟨rfl, rfl⟩ := Prod.mk.inj h
      apply dispatchOf_flushScope
      have hready := (Sound.pickScope_spec hpick).2
      simp only [ready, Bool.and_eq_true, Bool.not_eq_true', decide_eq_false_iff_not] at hready
      exact hready.1
  | none =>
      simp only [hpick, Option.map_eq_some_iff] at h
      obtain ⟨scope, hcancelled, h⟩ := h
      obtain ⟨rfl, rfl⟩ := Prod.mk.inj h
      apply dispatchOf_flushCancelled
      simpa using List.find?_some hcancelled

/-! ## Agreement -/

/-- After every sequence of calls and at every instant, the readiness test is true exactly when
`flush_next` dispatches, at once or in the state that the test leaves (then in any iteration
order).  Both run the same expiry: they recover and drop the same events, without a dispatch they
leave one state, and with one `flush_next` leaves the state of the test up to the dispatch of one
scope.  A dispatched batch has an event. -/
theorem readiness_agreement (dedupMode : DedupMode) (maxTurnSecs : Option Nat)
    (calls : List Call) (ord ord' : Orders) (now : Instant) :
    let q := (Harness.run dedupMode maxTurnSecs calls).queue
    let work := q.hasFlushableWork ord now
    let flush := q.flushNext ord now
    (work.2.2 = true ↔ flush.2.2.isSome = true) ∧
      (work.2.2 = true ↔ (work.1.flushNext ord' now).2.2.isSome = true) ∧
      flush.2.1 = work.2.1 ∧
      flush.1.withheldNativeSteer = work.1.withheldNativeSteer ∧
      (flush.2.2 = none → flush.1 = work.1) ∧
      (∀ batch, flush.2.2 = some batch → DispatchOf work.1 flush.1 batch now) ∧
      (∀ batch, flush.2.2 = some batch → batch.events ≠ []) ∧
      ∀ batch, (work.1.flushNext ord' now).2.2 = some batch → batch.events ≠ [] := by
  intro q work flush
  have hq : q.Sound := (Harness.Sound.run dedupMode maxTurnSecs calls).queue
  have hwork : work = _ := hasFlushableWork_eq q ord now
  have hflush : flush = _ := flushNext_eq q ord now
  have hsound : work.1.Sound := by
    rw [hwork]
    exact hq.expireInFlight ord now
  -- The state the test leaves has nothing to expire, so `flush_next` dispatches from it directly.
  have hlater : (work.1.flushNext ord' now).2.2.isSome =
      ((q.expireInFlight ord now).1.dispatch ord' now).isSome := by
    rw [hwork, flushNext_eq, expireInFlight_expireInFlight]
    cases (q.expireInFlight ord now).1.dispatch ord' now <;> rfl
  refine ⟨?_, ?_, ?_, ?_, ?_, ?_, (hq.flushNext ord now).2, (hsound.flushNext ord' now).2⟩
  · rw [hwork, hflush]
    cases (q.expireInFlight ord now).1.dispatch ord now <;> simp
  · rw [hlater, isSome_dispatch, hwork, isSome_dispatch]
  · rw [hwork, hflush]
    cases (q.expireInFlight ord now).1.dispatch ord now <;> rfl
  · rw [hwork, hflush]
    cases hd : (q.expireInFlight ord now).1.dispatch ord now with
    | none => rfl
    | some flushed => exact (dispatchOf_dispatch hd).withheld
  · rw [hwork, hflush]
    cases (q.expireInFlight ord now).1.dispatch ord now with
    | none => exact fun _ => rfl
    | some flushed => exact fun h => nomatch h
  · intro batch hbatch
    rw [hflush] at hbatch
    rw [hwork, hflush]
    cases hd : (q.expireInFlight ord now).1.dispatch ord now with
    | none => simp [hd] at hbatch
    | some flushed =>
        simp only [hd, Option.some.injEq] at hbatch
        rw [← hbatch]
        exact dispatchOf_dispatch hd

end EventQueue

end Acp
end Maju
