import Maju.Acp.Usage.Tracker

/-!
# Counts — the input and output counters, and what a log says about them

An accumulator of the agent that has not overflowed is determined by the counts that were folded
into it (`counterOf`), so folding a round and merging a turn into its session are both appending.
A log of the connection gives the counts that a session's responses have reported and the records
that were published of it.
-/

namespace Maju
namespace Acp

open Lib Agent

/-! ## The two counters -/

/-- The counters that every notification should carry. -/
inductive Side where
  | input
  | output
  deriving DecidableEq

namespace Side

def reported : Side → RoundUsage → Option Nat
  | .input, usage => usage.inputTokens
  | .output, usage => usage.outputTokens

def counter : Side → SessionUsage → TurnIOState
  | .input, usage => usage.inputTokens
  | .output, usage => usage.outputTokens

def accumulated : Side → UsageUpdatePayload → Option Nat
  | .input, payload => payload.accumulatedInputTokens
  | .output, payload => payload.accumulatedOutputTokens

def turn : Side → TurnUsage → Option Nat
  | .input, record => record.turnInputTokens
  | .output, record => record.turnOutputTokens

def cumulative : Side → TurnUsage → Option Nat
  | .input, record => record.cumulativeInputTokens
  | .output, record => record.cumulativeOutputTokens

def last : Side → SessionState → Option Nat
  | .input, state => state.lastInput
  | .output, state => state.lastOutput

def poisoned : Side → SessionState → Bool
  | .input, state => state.inputEverPoisoned
  | .output, state => state.outputEverPoisoned

def absence : Side → UsageTracker → Bool
  | .input, tracker => tracker.inputAbsenceObserved
  | .output, tracker => tracker.outputAbsenceObserved

end Side

/-- The accumulator that has folded these counts, none of which overflowed. -/
def counterOf : List Nat → TurnIOState
  | [] => .unseen
  | n :: counts => .exact (n + counts.sum)

theorem counterOf_of_ne_nil {counts : List Nat} (h : counts ≠ []) :
    counterOf counts = .exact counts.sum := by
  cases counts with
  | nil => exact absurd rfl h
  | cons n counts => rfl

theorem checkedExactSum_of_lt {a b : Nat} (h : a + b < 2 ^ 64) :
    TurnIOState.checkedExactSum a b = .exact (a + b) := by
  simp only [TurnIOState.checkedExactSum, checkedAdd, if_pos h]

theorem foldRound_counterOf {counts : List Nat} {n : Nat} (h : (counts ++ [n]).sum < 2 ^ 64) :
    (counterOf counts).foldRound n = counterOf (counts ++ [n]) := by
  cases counts with
  | nil => rfl
  | cons first counts =>
      have hsum : (first :: counts ++ [n]).sum = first + counts.sum + n := by simp [add_assoc]
      have hcounts : counterOf (first :: counts ++ [n]) = .exact (first + counts.sum + n) := by
        rw [← hsum]
        rfl
      rw [hcounts]
      exact checkedExactSum_of_lt (hsum ▸ h)

theorem mergeSession_counterOf {before during : List Nat} (h : (before ++ during).sum < 2 ^ 64) :
    (counterOf before).mergeSession (counterOf during) = counterOf (before ++ during) := by
  cases before with
  | nil =>
      cases during with
      | nil => rfl
      | cons n during => rfl
  | cons first before =>
      cases during with
      | nil =>
          rw [List.append_nil]
          rfl
      | cons n during =>
          rw [List.sum_append] at h
          rw [counterOf_of_ne_nil (List.append_ne_nil_of_left_ne_nil (List.cons_ne_nil _ _) _),
            List.sum_append]
          exact checkedExactSum_of_lt h

theorem exactValue_counterOf {counts : List Nat} (h : counts ≠ []) :
    (counterOf counts).exactValue = some counts.sum := by
  rw [counterOf_of_ne_nil h]
  rfl

theorem counterOf_eq_unseen {counts : List Nat} : counterOf counts = .unseen ↔ counts = [] := by
  cases counts with
  | nil => exact iff_of_true rfl rfl
  | cons n counts => exact iff_of_false nofun (List.cons_ne_nil _ _)

theorem counter_fold (endpoint : Endpoint) (turn : TurnCounters) {usage : RoundUsage}
    (h : usage.inputTokensOverflowed = false) (side : Side) :
    side.counter (turn.fold endpoint usage).usage =
      match side.reported usage with
      | some n => (side.counter turn.usage).foldRound n
      | none => side.counter turn.usage := by
  unfold TurnCounters.fold
  cases side with
  | input =>
      split <;> simp only [Side.counter, Side.reported, TurnCounters.foldInput, h,
        Bool.false_eq_true, if_false] <;> rfl
  | output => split <;> rfl

theorem counter_merge (side : Side) (session turn : SessionUsage) :
    side.counter (session.merge turn) =
      (side.counter session).mergeSession (side.counter turn) := by
  cases side <;> rfl

theorem accumulated_update (side : Side) (endpoint : Endpoint) (turn : TurnCounters) :
    side.accumulated (.ofUpdate (turn.update endpoint)) =
      (side.counter (turn.baseline.merge turn.usage)).exactValue := by
  cases side <;> rfl

/-! ## Logs -/

/-- The counts that the responses of a session reported. -/
def tokensOf (side : Side) (sessionId : Text) (log : List UsageEvent) : List Nat :=
  log.filterMap fun
    | .responded id usage => if id = sessionId then side.reported usage else none
    | _ => none

/-- The published records of a session. -/
def records (sessionId : Text) (log : List UsageEvent) : List TurnUsage :=
  log.filterMap fun
    | .published record => if record.sessionId = sessionId then some record else none
    | _ => none

/-- The sum of the deltas of some records, if all of them have one. -/
def totalOf (side : Side) (records : List TurnUsage) : Option Nat :=
  records.foldl (fun total record => total.bind fun n => (side.turn record).map (n + ·)) (some 0)

/-- The records of a session are numbered from one. -/
def Numbered : List UsageEvent → Prop :=
  AtEach fun before e => ∀ record, e = .published record →
    record.turnSeq = (records record.sessionId before).length + 1

/-- Every record of a session is reliable, and with it the records add up to what the responses of
the session have reported. -/
def Exact (sessionId : Text) : List UsageEvent → Prop :=
  AtEach fun before e => ∀ record, e = .published record → record.sessionId = sessionId →
    record.deltaReliable = true ∧ ∀ side,
      totalOf side (records sessionId (before ++ [e])) = some (tokensOf side sessionId before).sum

/-- The first response of a session that says something about its usage reports both counters. -/
def Whole (sessionId : Text) : List UsageEvent → Prop :=
  AtEach fun before e => ∀ usage, e = .responded sessionId usage → usage.isUsageBearing →
    (∀ earlier, .responded sessionId earlier ∈ before → earlier.isUsageBearing = false) →
    ∀ side : Side, (side.reported usage).isSome

/-- No sum of the run leaves the 64-bit range. -/
structure InRange (log : List UsageEvent) : Prop where
  input : ∀ id usage, .responded id usage ∈ log → usage.inputTokensOverflowed = false
  tokens : ∀ side id, (tokensOf side id log).sum < 2 ^ 64
  published : ∀ id, (records id log).length < 2 ^ 64

section Logs

variable {side : Side} {sessionId : Text} {log : List UsageEvent}

theorem tokensOf_append (more : List UsageEvent) :
    tokensOf side sessionId (log ++ more) =
      tokensOf side sessionId log ++ tokensOf side sessionId more :=
  List.filterMap_append

theorem records_append (more : List UsageEvent) :
    records sessionId (log ++ more) = records sessionId log ++ records sessionId more :=
  List.filterMap_append

theorem totalOf_concat (earlier : List TurnUsage) (record : TurnUsage) :
    totalOf side (earlier ++ [record]) =
      (totalOf side earlier).bind fun n => (side.turn record).map (n + ·) := by
  simp only [totalOf, List.foldl_append, List.foldl_cons, List.foldl_nil]

theorem tokensOf_responded (usage : RoundUsage) :
    tokensOf side sessionId [.responded sessionId usage] = (side.reported usage).toList := by
  cases h : side.reported usage <;> simp [tokensOf, h]

theorem exists_bearing (h : tokensOf side sessionId log ≠ []) :
    ∃ usage, UsageEvent.responded sessionId usage ∈ log ∧ usage.isUsageBearing = true := by
  rcases List.exists_mem_of_ne_nil _ h with ⟨n, hn⟩
  rcases List.mem_filterMap.1 hn with ⟨e, he, hvalue⟩
  cases e with
  | responded id usage =>
      by_cases hid : id = sessionId
      · subst hid
        refine ⟨usage, he, ?_⟩
        simp only [if_true] at hvalue
        cases side with
        | input => simp [RoundUsage.isUsageBearing, show usage.inputTokens = some n from hvalue]
        | output => simp [RoundUsage.isUsageBearing, show usage.outputTokens = some n from hvalue]
      · simp [if_neg hid] at hvalue
  | _ => cases hvalue

theorem Whole.reported (h : Whole sessionId log)
    (hbearing : ∃ usage, UsageEvent.responded sessionId usage ∈ log ∧
      usage.isUsageBearing = true) (side : Side) : tokensOf side sessionId log ≠ [] := by
  induction log using List.reverseRecOn with
  | nil =>
      rcases hbearing with ⟨usage, hmem, -⟩
      cases hmem
  | append_singleton log e ih =>
      rw [tokensOf_append]
      by_cases hearlier : ∃ usage, UsageEvent.responded sessionId usage ∈ log ∧
          usage.isUsageBearing = true
      · exact List.append_ne_nil_of_left_ne_nil (ih (h.of_append) hearlier) _
      · rcases hbearing with ⟨usage, hmem, husage⟩
        have hlast : UsageEvent.responded sessionId usage = e := by
          rcases List.mem_append.1 hmem with hmem | hmem
          · exact absurd ⟨usage, hmem, husage⟩ hearlier
          · exact List.mem_singleton.1 hmem
        subst hlast
        have hsome := h log _ [] rfl usage rfl husage
          (fun earlier hmem => Bool.eq_false_iff.2 fun hb => hearlier ⟨earlier, hmem, hb⟩) side
        rw [tokensOf_responded]
        refine List.append_ne_nil_of_right_ne_nil _ ?_
        rcases Option.isSome_iff_exists.1 hsome with ⟨n, hn⟩
        rw [hn]
        exact List.cons_ne_nil _ _

theorem InRange.of_append {more : List UsageEvent} (h : InRange (log ++ more)) : InRange log where
  input := fun id usage hmem => h.input id usage (List.mem_append_left _ hmem)
  tokens := by
    intro side id
    have hsum := h.tokens side id
    rw [tokensOf_append, List.sum_append] at hsum
    exact lt_of_le_of_lt (Nat.le_add_right _ _) hsum
  published := by
    intro id
    have hlength := h.published id
    rw [records_append, List.length_append] at hlength
    exact lt_of_le_of_lt (Nat.le_add_right _ _) hlength

theorem log_unrelated (log : List UsageEvent) (id : Text) (more : List UsageEvent)
    (h : ∀ e ∈ more, (∀ usage, e ≠ .responded id usage) ∧
      ∀ record, record.sessionId = id → e ≠ .published record) :
    (∀ side, tokensOf side id (log ++ more) = tokensOf side id log) ∧
      records id (log ++ more) = records id log := by
  constructor
  · intro side
    have hnone : tokensOf side id more = [] := by
      refine List.filterMap_eq_nil_iff.2 fun e he => ?_
      cases e with
      | responded id' usage =>
          exact if_neg fun hid => (h _ he).1 usage (by rw [hid])
      | _ => rfl
    rw [tokensOf_append, hnone, List.append_nil]
  · have hnone : records id more = [] := by
      refine List.filterMap_eq_nil_iff.2 fun e he => ?_
      cases e with
      | published record => exact if_neg fun hid => (h _ he).2 record hid rfl
      | _ => rfl
    rw [records_append, hnone, List.append_nil]

end Logs

end Acp
end Maju
