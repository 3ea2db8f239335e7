import Maju.Acp.Queue.Bounds
import Maju.Acp.Queue.Conservation

/-!
# Drain — what `drain_channel` removes and what it reports

The agent was removed from a channel: every pending event of the channel is dropped, and the
caller takes back the reaction it put on each of them when it was queued.  Pending events stand in
three tables, the queues, the carryover of cancelled batches and the events withheld for a native
steer.

- `drained_cleared`, `drained_framed` — all tables lose exactly the entries of the channel, and
  what is in flight stays;
- `drain_channel_reports_iff` — the returned ids are those of the dropped events exactly when
  the channel has none in the other two tables: these are dropped without being reported.
-/

namespace Maju
namespace Acp

open Lib Core

namespace EventQueue

variable {q q' : EventQueue} {ord : Orders} {channelId : Uuid}

/-! ## What a drain should do -/

/-- A queue holds no entry of a channel other than in flight. -/
def ClearOf (q : EventQueue) (channelId : Uuid) : Prop :=
  ∀ scope : SessionScope, scope.channelId = channelId →
    q.queues.lookup scope = none ∧ q.cancelledBatches.lookup scope = none ∧
      q.withheldNativeSteer.lookup scope = none ∧ q.retryAfter.lookup scope = none ∧
      q.retryCounts.lookup scope = none ∧ q.cancelReasons.lookup scope = none

/-- The entries of the other channels, what is in flight and the configuration are the same. -/
structure SameBut (channelId : Uuid) (q q' : EventQueue) : Prop where
  others : ∀ scope : SessionScope, scope.channelId ≠ channelId →
    q'.queues.lookup scope = q.queues.lookup scope ∧
      q'.cancelledBatches.lookup scope = q.cancelledBatches.lookup scope ∧
      q'.withheldNativeSteer.lookup scope = q.withheldNativeSteer.lookup scope ∧
      q'.retryAfter.lookup scope = q.retryAfter.lookup scope ∧
      q'.retryCounts.lookup scope = q.retryCounts.lookup scope ∧
      q'.cancelReasons.lookup scope = q.cancelReasons.lookup scope
  inFlight : q'.inFlightScopes = q.inFlightScopes ∧
    q'.inFlightDeadlines = q.inFlightDeadlines ∧ q'.inFlightBatchSizes = q.inFlightBatchSizes
  config : q'.dedupMode = q.dedupMode ∧ q'.inFlightDeadline = q.inFlightDeadline

/-- The id that the reaction to an event is filed under. -/
def reactionId (be : BatchEvent) : String := toHex be.event.id

/-- The ids are those of the events that are pending in `q` and no longer in `q'`, each event
once. -/
def Reports (q q' : EventQueue) (ids : List String) : Prop :=
  (ids : Multiset String) = (q.pending - q'.pending).map reactionId

/-- The channel has no event in the carryover and none withheld. -/
def NothingAside (q : EventQueue) (channelId : Uuid) : Prop :=
  ∀ scope : SessionScope, scope.channelId = channelId →
    q.cancelledBatches.bucket scope = [] ∧ q.withheldNativeSteer.bucket scope = []

/-! ## The tables after a drain -/

theorem mem_channelScopes {scope : SessionScope} :
    scope ∈ q.channelScopes ord channelId ↔ scope ∈ q.queues ∧ scope.channelId = channelId := by
  simp only [channelScopes, List.mem_filter, List.mem_map, IterOrder.mem_run,
    decide_eq_true_eq, and_congr_left_iff]
  intro _
  rw [AList.mem_keys, AList.keys, List.keys, List.mem_map]

theorem lookup_foldl_erase {V : Type} (scopes : List SessionScope) (m : HashMap SessionScope V)
    (scope : SessionScope) :
    AList.lookup scope (scopes.foldl (fun m s => m.erase s) m) =
      if scope ∈ scopes then none else m.lookup scope := by
  induction scopes generalizing m with
  | nil => simp
  | cons s scopes ih =>
      rw [List.foldl_cons, ih, HashMap.lookup_erase_eq]
      by_cases hs : scope = s <;> by_cases hrest : scope ∈ scopes <;> simp [hs, hrest]

theorem lookup_drained_queues (scope : SessionScope) :
    (q.drainChannel ord channelId).1.queues.lookup scope =
      if scope.channelId = channelId then none else q.queues.lookup scope := by
  refine (lookup_foldl_erase (q.channelScopes ord channelId) q.queues scope).trans ?_
  by_cases hc : scope.channelId = channelId
  · rw [if_pos hc]
    by_cases hq : scope ∈ q.queues
    · rw [if_pos (mem_channelScopes.2 ⟨hq, hc⟩)]
    · rw [if_neg (fun h => hq (mem_channelScopes.1 h).1)]
      exact AList.lookup_eq_none.2 hq
  · rw [if_neg hc, if_neg (fun h => hc (mem_channelScopes.1 h).2)]

theorem lookup_retain_other {V : Type} (m : HashMap SessionScope V) (scope : SessionScope) :
    AList.lookup scope (HashMap.retain (fun s _ => decide (s.channelId ≠ channelId)) m) =
      if scope.channelId = channelId then none else m.lookup scope := by
  rw [HashMap.lookup_retain]
  by_cases hc : scope.channelId = channelId
  · cases m.lookup scope <;> simp [Option.filter, hc]
  · cases m.lookup scope <;> simp [Option.filter, hc]

theorem drained_cleared (q : EventQueue) (ord : Orders) (channelId : Uuid) :
    (q.drainChannel ord channelId).1.ClearOf channelId := by
  intro scope hc
  refine ⟨?_, ?_, ?_, ?_, ?_, ?_⟩
  · rw [lookup_drained_queues, if_pos hc]
  all_goals exact (lookup_retain_other _ scope).trans (if_pos hc)

theorem drained_framed (q : EventQueue) (ord : Orders) (channelId : Uuid) :
    SameBut channelId q (q.drainChannel ord channelId).1 where
  others := by
    intro scope hc
    refine ⟨?_, ?_, ?_, ?_, ?_, ?_⟩
    · rw [lookup_drained_queues, if_neg hc]
    all_goals exact (lookup_retain_other _ scope).trans (if_neg hc)
  inFlight := ⟨rfl, rfl, rfl⟩
  config := ⟨rfl, rfl⟩

/-! ## The reported ids -/

/-- The dropped events that stood in the queues, and those that stood aside. -/
def drainedQueued (ord : Orders) (q : EventQueue) (channelId : Uuid) : List BatchEvent :=
  (q.channelScopes ord channelId).flatMap fun s =>
    (q.queues.bucket s).map QueuedEvent.toBatchEvent

def drainedAside (q : EventQueue) (channelId : Uuid) : List BatchEvent :=
  ((HashMap.retain (fun s _ => decide (s.channelId = channelId))
      q.withheldNativeSteer).entries.flatMap fun e => e.2.map QueuedEvent.toBatchEvent) ++
    (HashMap.retain (fun s _ => decide (s.channelId = channelId))
      q.cancelledBatches).entries.flatMap fun e => e.2

theorem drainedEvents_eq :
    q.drainedEvents ord channelId =
      q.drainedQueued ord channelId ++ q.drainedAside channelId := by
  unfold drainedEvents drainedQueued drainedAside
  rw [List.append_assoc]

theorem drainChannel_ids :
    (q.drainChannel ord channelId).2 = (q.drainedQueued ord channelId).map reactionId := by
  simp only [drainChannel, drainedQueued, List.map_flatMap, List.map_map]
  rfl

theorem pending_sub_drained :
    q.pending - (q.drainChannel ord channelId).1.pending =
      ↑(q.drainedQueued ord channelId) + ↑(q.drainedAside channelId) := by
  rw [← pending_drainChannel ord q channelId, drainedEvents_eq, ← Multiset.coe_add,
    add_tsub_cancel_left]

theorem reports_iff :
    Reports q (q.drainChannel ord channelId).1 (q.drainChannel ord channelId).2 ↔
      q.drainedAside channelId = [] := by
  unfold Reports
  rw [pending_sub_drained, drainChannel_ids, Multiset.map_add, Multiset.map_coe,
    Multiset.map_coe, left_eq_add, Multiset.coe_eq_zero, List.map_eq_nil_iff]

theorem flatMap_retain_eq_nil {V W : Type} (channelId : Uuid) (f : V → W)
    (m : Buckets SessionScope V) :
    ((HashMap.retain (fun s _ => decide (s.channelId = channelId)) m).entries.flatMap
        fun e => e.2.map f) = [] ↔
      ∀ scope : SessionScope, scope.channelId = channelId → m.bucket scope = [] := by
  rw [List.flatMap_eq_nil_iff]
  simp only [HashMap.retain, List.mem_filter, decide_eq_true_eq, List.map_eq_nil_iff, and_imp]
  constructor
  · intro h scope hc
    apply List.eq_nil_iff_forall_not_mem.2
    intro v hv
    obtain ⟨l, hl, hvl⟩ := Buckets.mem_entries_of_mem_bucket hv
    have hnil : l = [] := h ⟨scope, l⟩ hl hc
    rw [hnil] at hvl
    exact List.not_mem_nil hvl
  · intro h e he hc
    rw [← Buckets.bucket_of_lookup (HashMap.lookup_of_mem_entries he)]
    exact h e.1 hc

theorem drainedAside_eq_nil : q.drainedAside channelId = [] ↔ q.NothingAside channelId := by
  have hcancelled := flatMap_retain_eq_nil channelId id q.cancelledBatches
  simp only [List.map_id_fun, id_eq] at hcancelled
  unfold drainedAside NothingAside
  rw [List.append_eq_nil_iff, flatMap_retain_eq_nil, hcancelled]
  constructor
  · rintro ⟨hw, hc⟩ scope hscope
    exact ⟨hc scope hscope, hw scope hscope⟩
  · intro h
    exact ⟨fun scope hscope => (h scope hscope).2, fun scope hscope => (h scope hscope).1⟩

/-- After every sequence of calls, a drain leaves no entry of the channel and everything of the
other channels and of the turns in flight.  It reports the id of every event it drops exactly when
the channel has no event among the cancelled and the withheld ones. -/
theorem drain_channel_reports_iff (dedupMode : DedupMode) (maxTurnSecs : Option Nat)
    (calls : List Call) (ord : Orders) (channelId : Uuid) :
    let q := (Harness.run dedupMode maxTurnSecs calls).queue
    let drained := q.drainChannel ord channelId
    (drained.1.ClearOf channelId ∧ SameBut channelId q drained.1) ∧
      (Reports q drained.1 drained.2 ↔ q.NothingAside channelId) := by
  intro q drained
  refine ⟨⟨drained_cleared q ord channelId, drained_framed q ord channelId⟩, ?_⟩
  rw [← drainedAside_eq_nil]
  exact reports_iff

/-- The agent is removed from the channel after its turn was interrupted: the event of the turn
waits in the carryover. -/
def interruptedThenRemoved : List Call :=
  [.push Orders.stored (Harness.sampleEvent 1 100 1), .flushNext Orders.stored 2,
    .requeueAsCancelled 0 .interrupt, .markComplete 3 (.conversation 1)]

/-- The drain drops the interrupted event and reports no id. -/
theorem interruptedThenRemoved_not_reported :
    let q := (Harness.run .queue none interruptedThenRemoved).queue
    let drained := q.drainChannel Orders.stored 1
    Multiset.card q.pending = 1 ∧ Multiset.card drained.1.pending = 0 ∧ drained.2 = [] ∧
      ¬ Reports q drained.1 drained.2 := by
  intro q drained
  have haside : q.drainedAside 1 ≠ [] := by decide
  exact ⟨by decide, by decide, by decide, fun h => haside (reports_iff.1 h)⟩

end EventQueue

end Acp
end Maju
