import Maju.Agent.Usage
import Maju.Lib.HashMap
import Maju.Lib.Run
import Maju.Lib.Trace

/-!
# Tracker — per-turn usage from cumulative counters

`UsageTracker` turns the session-cumulative counters of `usage_update` notifications into one record
per published turn: the difference to the counters of the last published turn.  The baseline of a
session advances only when a record is taken, so every notification of a turn is measured from the
same point and the last one wins.

A notification without an input or output counter poisons its session for good: `absence_sticks`
says that no record of the session is reliable after it, in any run.
-/

namespace Maju
namespace Acp

open Lib Agent

/-- The `usage_update` payload as it is decoded. -/
structure UsageUpdatePayload where
  accumulatedInputTokens : Option Nat
  accumulatedOutputTokens : Option Nat
  accumulatedCachedInputTokens : Option Nat
  accumulatedCacheWriteTokens : Option Nat
  accumulatedCost : Option Float
  accumulatedTotalTokens : Option Nat
  model : Option Text
  pricingIdentity : Option PricingIdentity

/-- An update of maju-agent, which reports no cost. -/
def UsageUpdatePayload.ofUpdate (update : UsageUpdate) : UsageUpdatePayload where
  accumulatedInputTokens := update.accumulatedInputTokens
  accumulatedOutputTokens := update.accumulatedOutputTokens
  accumulatedCachedInputTokens := update.accumulatedCachedInputTokens
  accumulatedCacheWriteTokens := update.accumulatedCacheWriteTokens
  accumulatedCost := none
  accumulatedTotalTokens := update.accumulatedTotalTokens
  model := some update.model
  pricingIdentity := update.pricingIdentity

/-- The last published counters of a session. -/
structure SessionState where
  publishedSeq : Nat
  lastInput : Option Nat
  lastOutput : Option Nat
  lastCost : Option Float
  lastTotal : Option Nat
  lastCachedInput : Option Nat
  lastCacheWrite : Option Nat
  inputEverPoisoned : Bool
  outputEverPoisoned : Bool

def SessionState.unknown : SessionState := ⟨0, none, none, none, none, none, none, false, false⟩

/-- The state that `seed_zero_baseline` inserts. -/
def SessionState.zero : SessionState :=
  ⟨0, some 0, some 0, some 0.0, some 0, some 0, some 0, false, false⟩

structure TurnUsage where
  sessionId : Text
  turnSeq : Nat
  deltaReliable : Bool
  turnInputTokens : Option Nat
  turnOutputTokens : Option Nat
  turnTotalTokens : Option Nat
  turnCostUsd : Option Float
  turnCacheReadTokens : Option Nat
  turnCacheWriteTokens : Option Nat
  cumulativeInputTokens : Option Nat
  cumulativeOutputTokens : Option Nat
  cumulativeTotalTokens : Option Nat
  cumulativeCostUsd : Option Float
  cumulativeCacheReadTokens : Option Nat
  cumulativeCacheWriteTokens : Option Nat
  model : Option Text
  pricingIdentity : Option PricingIdentity

structure UsageTracker where
  sessions : HashMap Text SessionState
  inFlightSession : Option Text
  pending : Option TurnUsage
  pendingIdentity : Option (Option PricingIdentity)
  inputAbsenceObserved : Bool
  outputAbsenceObserved : Bool

/-- The reliability and the deltas of a record. -/
structure Delta where
  reliable : Bool
  input : Option Nat
  output : Option Nat
  cost : Option Float

def Delta.unreliable : Delta := ⟨false, none, none, none⟩

/-- The delta of a field that taints only itself. -/
def fieldDelta (current previous : Option Nat) : Option Nat :=
  match current, previous with
  | some cur, some p => if p ≤ cur then some (cur - p) else none
  | _, _ => none

namespace UsageTracker

/-- `UsageTracker::default`. -/
def init : UsageTracker := ⟨∅, none, none, none, false, false⟩

def inputPoisoned (t : UsageTracker) (sessionId : Text) : Bool :=
  (t.sessions.lookup sessionId).any (·.inputEverPoisoned)

def outputPoisoned (t : UsageTracker) (sessionId : Text) : Bool :=
  (t.sessions.lookup sessionId).any (·.outputEverPoisoned)

/-- Latch observed absences into the entry of a session, which is created if there is none. -/
def latch (t : UsageTracker) (sessionId : Text) (input output : Bool) :
    HashMap Text SessionState :=
  let existing := (t.sessions.lookup sessionId).getD .unknown
  t.sessions.insert sessionId { existing with
    inputEverPoisoned := t.inputPoisoned sessionId || input
    outputEverPoisoned := t.outputPoisoned sessionId || output }

def beginTurn (t : UsageTracker) (sessionId : Text) : UsageTracker where
  sessions :=
    match t.inFlightSession with
    | some previous =>
        if t.inputAbsenceObserved || t.outputAbsenceObserved then
          t.latch previous t.inputAbsenceObserved t.outputAbsenceObserved
        else t.sessions
    | none => t.sessions
  inFlightSession := some sessionId
  pending := none
  pendingIdentity := none
  inputAbsenceObserved := false
  outputAbsenceObserved := false

/-- The cost part of a delta, and whether it keeps the record reliable. -/
def costDelta (current previous : Option Float) : Option Float × Bool :=
  match current, previous with
  | some c, some p => if c ≥ p then (some (c - p), true) else (none, false)
  | _, _ => (none, true)

/-- The delta of a notification to the baseline of its session. -/
def delta (t : UsageTracker) (prev : SessionState) (payload : UsageUpdatePayload) : Delta :=
  let inputPoisoned := prev.inputEverPoisoned || t.inputAbsenceObserved ||
    payload.accumulatedInputTokens.isNone
  let outputPoisoned := prev.outputEverPoisoned || t.outputAbsenceObserved ||
    payload.accumulatedOutputTokens.isNone
  if inputPoisoned || outputPoisoned then .unreliable
  else
    match payload.accumulatedInputTokens, payload.accumulatedOutputTokens, prev.lastInput,
      prev.lastOutput with
    | some ci, some co, some pi, some po =>
        if ci < pi ∨ co < po then .unreliable
        else
          let (cost, reliable) := costDelta payload.accumulatedCost prev.lastCost
          if reliable then ⟨true, some (ci - pi), some (co - po), cost⟩ else .unreliable
    | _, _, _, _ => .unreliable

/-- The record of an in-flight notification. -/
def turnUsage (t : UsageTracker) (sessionId : Text) (payload : UsageUpdatePayload) : TurnUsage :=
  let prev := t.sessions.lookup sessionId
  let delta := (prev.map fun prev => t.delta prev payload).getD .unreliable
  { sessionId := sessionId
    turnSeq := (prev.map fun prev => (prev.publishedSeq + 1) % 2 ^ 64).getD 1
    deltaReliable := delta.reliable
    turnInputTokens := delta.input
    turnOutputTokens := delta.output
    turnTotalTokens := fieldDelta payload.accumulatedTotalTokens (prev.bind (·.lastTotal))
    turnCostUsd := delta.cost
    turnCacheReadTokens :=
      fieldDelta payload.accumulatedCachedInputTokens (prev.bind (·.lastCachedInput))
    turnCacheWriteTokens :=
      fieldDelta payload.accumulatedCacheWriteTokens (prev.bind (·.lastCacheWrite))
    cumulativeInputTokens := payload.accumulatedInputTokens
    cumulativeOutputTokens := payload.accumulatedOutputTokens
    cumulativeTotalTokens := payload.accumulatedTotalTokens
    cumulativeCostUsd := payload.accumulatedCost
    cumulativeCacheReadTokens := payload.accumulatedCachedInputTokens
    cumulativeCacheWriteTokens := payload.accumulatedCacheWriteTokens
    model := payload.model
    pricingIdentity := none }

/-- The absences of an in-flight notification. -/
def observe (t : UsageTracker) (payload : UsageUpdatePayload) : UsageTracker :=
  { t with
    inputAbsenceObserved := t.inputAbsenceObserved || payload.accumulatedInputTokens.isNone
    outputAbsenceObserved := t.outputAbsenceObserved || payload.accumulatedOutputTokens.isNone }

/-- A notification outside any turn becomes the baseline. -/
def rebase (t : UsageTracker) (sessionId : Text) (payload : UsageUpdatePayload) :
    HashMap Text SessionState :=
  t.sessions.insert sessionId {
    publishedSeq := ((t.sessions.lookup sessionId).map (·.publishedSeq)).getD 0
    lastInput := payload.accumulatedInputTokens
    lastOutput := payload.accumulatedOutputTokens
    lastCost := payload.accumulatedCost
    lastTotal := payload.accumulatedTotalTokens
    lastCachedInput := payload.accumulatedCachedInputTokens
    lastCacheWrite := payload.accumulatedCacheWriteTokens
    inputEverPoisoned := t.inputPoisoned sessionId || payload.accumulatedInputTokens.isNone
    outputEverPoisoned := t.outputPoisoned sessionId || payload.accumulatedOutputTokens.isNone }

def record (t : UsageTracker) (sessionId : Text) (payload : UsageUpdatePayload) : UsageTracker :=
  match t.inFlightSession with
  | none => { t with sessions := t.rebase sessionId payload }
  | some inFlight =>
      if inFlight = sessionId then
        let t := t.observe payload
        { t with
          pending := some (t.turnUsage sessionId payload)
          pendingIdentity := foldPricingIdentity t.pendingIdentity payload.pricingIdentity }
      else
        -- another session is in flight: the counters are dropped, an absence is latched
        let input := payload.accumulatedInputTokens.isNone
        let output := payload.accumulatedOutputTokens.isNone
        if input || output then { t with sessions := t.latch sessionId input output } else t

def seedZeroBaseline (t : UsageTracker) (sessionId : Text) : UsageTracker :=
  match t.sessions.lookup sessionId with
  | some _ => t
  | none => { t with sessions := t.sessions.insert sessionId .zero }

/-- The published counters become the baseline. -/
def commit (t : UsageTracker) (record : TurnUsage) : HashMap Text SessionState :=
  t.sessions.insert record.sessionId {
    publishedSeq := record.turnSeq
    lastInput := record.cumulativeInputTokens
    lastOutput := record.cumulativeOutputTokens
    lastCost := record.cumulativeCostUsd
    lastTotal := record.cumulativeTotalTokens
    lastCachedInput := record.cumulativeCacheReadTokens
    lastCacheWrite := record.cumulativeCacheWriteTokens
    inputEverPoisoned := t.inputPoisoned record.sessionId || t.inputAbsenceObserved ||
      record.cumulativeInputTokens.isNone
    outputEverPoisoned := t.outputPoisoned record.sessionId || t.outputAbsenceObserved ||
      record.cumulativeOutputTokens.isNone }

def take (t : UsageTracker) : UsageTracker × Option TurnUsage :=
  let record := t.pending.map fun record =>
    { record with pricingIdentity := t.pendingIdentity.join }
  ({ sessions := (record.map t.commit).getD t.sessions
     inFlightSession := none
     pending := none
     pendingIdentity := none
     inputAbsenceObserved := false
     outputAbsenceObserved := false }, record)

end UsageTracker

/-! ## Operations and their log -/

inductive UsageOp where
  | seed (sessionId : Text)
  | beginTurn (sessionId : Text)
  | record (sessionId : Text) (payload : UsageUpdatePayload)
  | take

/-- What the accounting is about; a response to a request for a context summary stands apart. -/
inductive UsageEvent where
  | responded (sessionId : Text) (usage : RoundUsage)
  | summarized (sessionId : Text) (usage : RoundUsage)
  | began (sessionId : Text)
  | recorded (sessionId : Text) (payload : UsageUpdatePayload)
  | published (record : TurnUsage)
  | taken

/-- The payload lacks its input or its output counter. -/
def UsageUpdatePayload.Absent (payload : UsageUpdatePayload) : Prop :=
  payload.accumulatedInputTokens = none ∨ payload.accumulatedOutputTokens = none

/-- No record is reliable after an absent snapshot of its session. -/
def AbsenceSticks : List UsageEvent → Prop :=
  AtEach fun before e => ∀ record payload, e = .published record →
    .recorded record.sessionId payload ∈ before → payload.Absent → record.deltaReliable = false

namespace UsageTracker

/-- One operation with the events it logs. -/
def apply (t : UsageTracker) : UsageOp → UsageTracker × List UsageEvent
  | .seed sessionId => (t.seedZeroBaseline sessionId, [])
  | .beginTurn sessionId => (t.beginTurn sessionId, [.began sessionId])
  | .record sessionId payload => (t.record sessionId payload, [.recorded sessionId payload])
  | .take => (t.take.1, t.take.2.toList.map .published ++ [.taken])

/-- The tracker and its log after a list of operations. -/
def after (ops : List UsageOp) : UsageTracker × List UsageEvent :=
  Run.run (fun s op => ((s.1.apply op).1, s.2 ++ (s.1.apply op).2)) (init, []) ops

/-! ## Absence sticks -/

/-- The entry of a session carries a poison flag. -/
def Flagged (sessions : HashMap Text SessionState) (sessionId : Text) : Prop :=
  (sessions.lookup sessionId).any (·.inputEverPoisoned) ∨
    (sessions.lookup sessionId).any (·.outputEverPoisoned)

/-- An absence of this session has been observed, in this turn or before. -/
def Poisoned (t : UsageTracker) (sessionId : Text) : Prop :=
  Flagged t.sessions sessionId ∨
    t.inFlightSession = some sessionId ∧ (t.inputAbsenceObserved ∨ t.outputAbsenceObserved)

/-- A poisoned session has no reliable pending record, and observed absences are never lost. -/
structure Sticky (t : UsageTracker) (log : List UsageEvent) : Prop where
  pending : ∀ record, t.pending = some record → t.inFlightSession = some record.sessionId
  observed : t.inputAbsenceObserved ∨ t.outputAbsenceObserved → t.pending.isSome
  poisoned : ∀ sessionId payload, .recorded sessionId payload ∈ log → payload.Absent →
    t.Poisoned sessionId
  unreliable : ∀ record, t.pending = some record → t.Poisoned record.sessionId →
    record.deltaReliable = false
  published : AbsenceSticks log

theorem sticky_init : Sticky init [] := by
  refine ⟨?_, ?_, ?_, ?_, .nil⟩
  · simp [init]
  · simp [init]
  · simp
  · simp [init]

theorem turnUsage_unreliable {t : UsageTracker} {sessionId : Text} (h : t.Poisoned sessionId)
    (payload : UsageUpdatePayload) : (t.turnUsage sessionId payload).deltaReliable = false := by
  simp only [turnUsage]
  cases hprev : t.sessions.lookup sessionId with
  | none => rfl
  | some prev =>
      have hpoisoned : (prev.inputEverPoisoned || t.inputAbsenceObserved ||
          payload.accumulatedInputTokens.isNone || (prev.outputEverPoisoned ||
            t.outputAbsenceObserved || payload.accumulatedOutputTokens.isNone)) = true := by
        rcases h with (h | h) | ⟨_, h | h⟩
        · rw [hprev, Option.any_some] at h
          simp [h]
        · rw [hprev, Option.any_some] at h
          simp [h]
        · simp [h]
        · simp [h]
      simp only [Option.map_some, Option.getD_some, delta]
      rw [if_pos hpoisoned]
      rfl

theorem flagged_insert (sessions : HashMap Text SessionState) (key sessionId : Text)
    (state : SessionState) :
    Flagged (sessions.insert key state) sessionId ↔
      if sessionId = key then state.inputEverPoisoned ∨ state.outputEverPoisoned
      else Flagged sessions sessionId := by
  unfold Flagged
  rw [HashMap.lookup_insert_eq]
  split
  · rfl
  · rfl

theorem Flagged.insert {sessions : HashMap Text SessionState} {sessionId : Text}
    (h : Flagged sessions sessionId) {key : Text} {state : SessionState}
    (hkept : Flagged sessions key → state.inputEverPoisoned ∨ state.outputEverPoisoned) :
    Flagged (sessions.insert key state) sessionId := by
  rw [flagged_insert]
  split
  · next hkey =>
      subst hkey
      exact hkept h
  · exact h

theorem Flagged.latch {t : UsageTracker} {sessionId : Text} (h : Flagged t.sessions sessionId)
    (key : Text) (input output : Bool) : Flagged (t.latch key input output) sessionId := by
  refine h.insert ?_
  rintro (hkey | hkey)
  · exact .inl (by simp [inputPoisoned, hkey])
  · exact .inr (by simp [outputPoisoned, hkey])

theorem flagged_latch (t : UsageTracker) (key : Text) {input output : Bool}
    (h : input ∨ output) : Flagged (t.latch key input output) key := by
  rw [UsageTracker.latch, flagged_insert, if_pos rfl]
  rcases h with h | h
  · exact .inl (by simp [h])
  · exact .inr (by simp [h])

theorem sticky_seed {t : UsageTracker} {log : List UsageEvent} (h : Sticky t log)
    (sessionId : Text) : Sticky (t.seedZeroBaseline sessionId) log := by
  unfold seedZeroBaseline
  split
  · exact h
  · next hnone =>
      have hflagged : ∀ s, Flagged (t.sessions.insert sessionId .zero) s ↔
          Flagged t.sessions s := by
        intro s
        rw [flagged_insert]
        split
        · next hs =>
            subst hs
            simp [Flagged, hnone, SessionState.zero]
        · rfl
      refine ⟨h.pending, h.observed, ?_, ?_, h.published⟩
      · intro s payload hmem habsent
        rcases h.poisoned s payload hmem habsent with hs | hs
        · exact .inl ((hflagged s).2 hs)
        · exact .inr hs
      · intro record hrecord hpoisoned
        refine h.unreliable record hrecord ?_
        rcases hpoisoned with hs | hs
        · exact .inl ((hflagged _).1 hs)
        · exact .inr hs

theorem Sticky.append {t : UsageTracker} {log events : List UsageEvent} (h : Sticky t log)
    (hevents : ∀ e ∈ events, (∀ s payload, e ≠ .recorded s payload) ∧ ∀ r, e ≠ .published r) :
    Sticky t (log ++ events) := by
  refine ⟨h.pending, h.observed, ?_, h.unreliable, h.published.append_of_forall ?_⟩
  · intro s payload hmem
    rcases List.mem_append.1 hmem with hmem | hmem
    · exact h.poisoned s payload hmem
    · exact absurd rfl ((hevents _ hmem).1 s payload)
  · rintro e hmem before record payload rfl
    exact absurd rfl ((hevents _ hmem).2 record)

theorem sticky_beginTurn {t : UsageTracker} {log : List UsageEvent} (h : Sticky t log)
    (sessionId : Text) : Sticky (t.beginTurn sessionId) (log ++ [.began sessionId]) := by
  refine Sticky.append ⟨?_, ?_, ?_, ?_, h.published⟩ (by simp)
  · simp [beginTurn]
  · simp [beginTurn]
  · -- what the previous turn observed is latched into its session
    intro s payload hmem habsent
    left
    simp only [beginTurn]
    rcases h.poisoned s payload hmem habsent with hs | ⟨hflight, hobserved⟩
    · split
      · split
        · exact hs.latch _ _ _
        · exact hs
      · exact hs
    · rw [hflight]
      have hany : (t.inputAbsenceObserved || t.outputAbsenceObserved) = true := by
        simpa using hobserved
      simp only [hany, if_true]
      exact flagged_latch t s hobserved
  · simp [beginTurn]

theorem Sticky.snapshot {t t' : UsageTracker} {log : List UsageEvent} (h : Sticky t log)
    {sessionId : Text} {payload : UsageUpdatePayload}
    (hpending : ∀ record, t'.pending = some record → t'.inFlightSession = some record.sessionId)
    (hobserved : t'.inputAbsenceObserved ∨ t'.outputAbsenceObserved → t'.pending.isSome)
    (hkept : ∀ s, t.Poisoned s → t'.Poisoned s)
    (habsent : payload.Absent → t'.Poisoned sessionId)
    (hunreliable : ∀ record, t'.pending = some record → t'.Poisoned record.sessionId →
      record.deltaReliable = false) :
    Sticky t' (log ++ [.recorded sessionId payload]) := by
  refine ⟨hpending, hobserved, ?_, hunreliable, h.published.append_of_forall (by simp)⟩
  intro s snapshot hmem hnone
  rcases List.mem_append.1 hmem with hmem | hmem
  · exact hkept s (h.poisoned s snapshot hmem hnone)
  · cases List.mem_singleton.1 hmem
    exact habsent hnone

theorem isNone_of_absent {payload : UsageUpdatePayload} (h : payload.Absent) :
    payload.accumulatedInputTokens.isNone ∨ payload.accumulatedOutputTokens.isNone := by
  rcases h with h | h
  · exact .inl (by rw [h]; rfl)
  · exact .inr (by rw [h]; rfl)

/-! ### The three routes of a notification -/

theorem record_outside {t : UsageTracker} (h : t.inFlightSession = none) (sessionId : Text)
    (payload : UsageUpdatePayload) :
    t.record sessionId payload = { t with sessions := t.rebase sessionId payload } := by
  simp only [record, h]

theorem record_inFlight {t : UsageTracker} {sessionId : Text}
    (h : t.inFlightSession = some sessionId) (payload : UsageUpdatePayload) :
    t.record sessionId payload = { t.observe payload with
      pending := some ((t.observe payload).turnUsage sessionId payload)
      pendingIdentity := foldPricingIdentity t.pendingIdentity payload.pricingIdentity } := by
  simp only [record, h, if_true]
  rfl

theorem record_other {t : UsageTracker} {inFlight sessionId : Text}
    (h : t.inFlightSession = some inFlight) (hne : inFlight ≠ sessionId)
    (payload : UsageUpdatePayload) :
    t.record sessionId payload =
      if payload.accumulatedInputTokens.isNone || payload.accumulatedOutputTokens.isNone then
        { t with
          sessions := t.latch sessionId payload.accumulatedInputTokens.isNone
            payload.accumulatedOutputTokens.isNone }
      else t := by
  simp only [record, h, if_neg hne]

theorem sticky_record_outside {t : UsageTracker} {log : List UsageEvent} (h : Sticky t log)
    (hflight : t.inFlightSession = none) (sessionId : Text) (payload : UsageUpdatePayload) :
    Sticky { t with sessions := t.rebase sessionId payload }
      (log ++ [.recorded sessionId payload]) := by
  have hnone : t.pending = none := by
    cases hrecord : t.pending with
    | none => rfl
    | some r =>
        rw [h.pending r hrecord] at hflight
        cases hflight
  refine h.snapshot (by simp [hnone]) h.observed ?_ ?_ (by simp [hnone])
  · rintro s (hs | ⟨hs, _⟩)
    · refine .inl (hs.insert ?_)
      rintro (hkey | hkey)
      · exact .inl (by simp [inputPoisoned, hkey])
      · exact .inr (by simp [outputPoisoned, hkey])
    · rw [hflight] at hs
      cases hs
  · intro habsent
    left
    show Flagged (t.sessions.insert sessionId _) sessionId
    rw [flagged_insert, if_pos rfl]
    rcases isNone_of_absent habsent with hfield | hfield
    · exact .inl (by simp [hfield])
    · exact .inr (by simp [hfield])

theorem sticky_record_inFlight {t : UsageTracker} {log : List UsageEvent} (h : Sticky t log)
    {sessionId : Text} (hflight : t.inFlightSession = some sessionId)
    (payload : UsageUpdatePayload) (identity : Option (Option PricingIdentity)) :
    Sticky { t.observe payload with
        pending := some ((t.observe payload).turnUsage sessionId payload)
        pendingIdentity := identity } (log ++ [.recorded sessionId payload]) := by
  refine h.snapshot ?_ (by simp) ?_ ?_ ?_
  · intro record hrecord
    cases hrecord
    exact hflight
  · rintro s (hs | ⟨hs, hobserved⟩)
    · exact .inl hs
    · refine .inr ⟨hs, ?_⟩
      rcases hobserved with hobserved | hobserved
      · exact .inl (by simp [observe, hobserved])
      · exact .inr (by simp [observe, hobserved])
  · intro habsent
    refine .inr ⟨hflight, ?_⟩
    rcases isNone_of_absent habsent with hfield | hfield
    · exact .inl (by simp [observe, hfield])
    · exact .inr (by simp [observe, hfield])
  · intro record hrecord hpoisoned
    cases hrecord
    exact turnUsage_unreliable hpoisoned payload

/-- The pending record belongs to the session in flight, whose flags another session's absence
leaves alone. -/
theorem sticky_record_other {t : UsageTracker} {log : List UsageEvent} (h : Sticky t log)
    {inFlight sessionId : Text} (hflight : t.inFlightSession = some inFlight)
    (hne : inFlight ≠ sessionId) (payload : UsageUpdatePayload) :
    Sticky { t with
        sessions := t.latch sessionId payload.accumulatedInputTokens.isNone
          payload.accumulatedOutputTokens.isNone } (log ++ [.recorded sessionId payload]) := by
  refine h.snapshot h.pending h.observed ?_ ?_ ?_
  · rintro s (hs | hs)
    · exact .inl (hs.latch _ _ _)
    · exact .inr hs
  · intro habsent
    exact .inl (flagged_latch t sessionId (isNone_of_absent habsent))
  · intro record hrecord hpoisoned
    have hsession : record.sessionId ≠ sessionId := by
      rintro rfl
      have hsame := (h.pending record hrecord).symm.trans hflight
      exact hne (Option.some.inj hsame).symm
    refine h.unreliable record hrecord ?_
    rcases hpoisoned with hs | hs
    · left
      have hs' : Flagged (t.sessions.insert sessionId _) record.sessionId := hs
      rwa [flagged_insert, if_neg hsession] at hs'
    · exact .inr hs

theorem sticky_record {t : UsageTracker} {log : List UsageEvent} (h : Sticky t log)
    (sessionId : Text) (payload : UsageUpdatePayload) :
    Sticky (t.record sessionId payload) (log ++ [.recorded sessionId payload]) := by
  cases hflight : t.inFlightSession with
  | none =>
      rw [record_outside hflight]
      exact sticky_record_outside h hflight sessionId payload
  | some inFlight =>
      by_cases heq : inFlight = sessionId
      · subst heq
        rw [record_inFlight hflight]
        exact sticky_record_inFlight h hflight payload _
      · rw [record_other hflight heq]
        split
        · exact sticky_record_other h hflight heq payload
        · next hfields =>
            refine h.snapshot h.pending h.observed (fun s hs => hs) ?_ h.unreliable
            intro habsent
            refine absurd ?_ hfields
            simpa using isNone_of_absent habsent

theorem Poisoned.commit {t : UsageTracker} {log : List UsageEvent} (h : Sticky t log)
    {sessionId : Text} (hs : t.Poisoned sessionId) {record : TurnUsage}
    (hrecord : t.pending = some record) {identity : Option PricingIdentity} :
    Flagged (t.commit { record with pricingIdentity := identity }) sessionId := by
  show Flagged (t.sessions.insert record.sessionId _) sessionId
  rw [flagged_insert]
  split
  · next heq =>
      subst heq
      rcases hs with (hs | hs) | ⟨_, hs | hs⟩
      · exact .inl (by simp [inputPoisoned, hs])
      · exact .inr (by simp [outputPoisoned, hs])
      · exact .inl (by simp [hs])
      · exact .inr (by simp [hs])
  · next hne =>
      rcases hs with hs | ⟨hs, _⟩
      · exact hs
      · exact absurd (Option.some.inj (hs.symm.trans (h.pending record hrecord))) hne

theorem sticky_take {t : UsageTracker} {log : List UsageEvent} (h : Sticky t log) :
    Sticky t.take.1 (log ++ (t.take.2.toList.map UsageEvent.published ++ [.taken])) := by
  rw [← List.append_assoc]
  cases hrecord : t.pending with
  | none =>
      have hobserved : ¬(t.inputAbsenceObserved ∨ t.outputAbsenceObserved) := by
        intro hobserved
        have hsome := h.observed hobserved
        rw [hrecord] at hsome
        cases hsome
      refine Sticky.append ⟨by simp [take], by simp [take], ?_, by simp [take], ?_⟩ (by simp)
      · intro s payload hmem habsent
        simp only [take, hrecord, Option.map_none, Option.toList_none, List.map_nil,
          List.append_nil] at hmem
        rcases h.poisoned s payload hmem habsent with hs | ⟨_, hs⟩
        · left
          simpa [take, hrecord] using hs
        · exact absurd hs hobserved
      · simpa [take, hrecord] using h.published
  | some record =>
      have htaken : t.take.2 = some { record with pricingIdentity := t.pendingIdentity.join } := by
        simp [take, hrecord]
      rw [htaken]
      refine Sticky.append ⟨by simp [take], by simp [take], ?_, by simp [take], ?_⟩ (by simp)
      · intro s payload hmem habsent
        have hlog : UsageEvent.recorded s payload ∈ log := by simpa using hmem
        left
        simpa [take, hrecord] using (h.poisoned s payload hlog habsent).commit h hrecord
      · refine h.published.concat ?_
        rintro published payload hevent hmem habsent
        cases hevent
        exact h.unreliable record hrecord (h.poisoned record.sessionId payload hmem habsent)

theorem sticky_apply {t : UsageTracker} {log : List UsageEvent} (h : Sticky t log)
    (op : UsageOp) : Sticky (t.apply op).1 (log ++ (t.apply op).2) := by
  cases op with
  | seed sessionId =>
      rw [apply, List.append_nil]
      exact sticky_seed h sessionId
  | beginTurn sessionId => exact sticky_beginTurn h sessionId
  | record sessionId payload => exact sticky_record h sessionId payload
  | take => exact sticky_take h

/-- Whatever is recorded in whatever order, no record of a session is reliable after an absent
snapshot of it. -/
theorem absence_sticks (ops : List UsageOp) : AbsenceSticks (after ops).2 :=
  (Run.invariant_of_step (fun s : UsageTracker × List UsageEvent => Sticky s.1 s.2)
    (fun _ op h => sticky_apply h op) sticky_init ops).published

end UsageTracker

end Acp
end Maju
