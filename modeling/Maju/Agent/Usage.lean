import Maju.Lib.Text

/-!
# Usage — the token counters of the agent

Each provider response is folded into accumulators of the turn; at the end of the turn they are
merged into accumulators of the session.  After every usage-bearing response and at the end of the
turn the agent sends a `usage_update` with the session-cumulative counts, the session at the start
of the turn merged with the turn so far.

A counter that is not exactly known is left out of the update.  For input and output that is one
that no response has reported yet, or one whose sum has left the 64-bit range.
-/

namespace Maju
namespace Agent

open Lib

/-- `u64::checked_add`. -/
def checkedAdd (a b : Nat) : Option Nat := if a + b < 2 ^ 64 then some (a + b) else none

/-! ## Accumulators -/

/-- The states of `CacheTotalState` and `TurnTotalState`. -/
inductive TotalState where
  | unseen
  | exact (n : Nat)
  | unknown
  deriving DecidableEq

namespace TotalState

def checkedExactSum (acc n : Nat) : TotalState :=
  match checkedAdd acc n with
  | some sum => .exact sum
  | none => .unknown

/-- A usage-bearing response that lacks the category poisons it. -/
def fold : TotalState → Option Nat → TotalState
  | .unknown, _ => .unknown
  | _, none => .unknown
  | .unseen, some n => .exact n
  | .exact acc, some n => checkedExactSum acc n

def mergeSession : TotalState → TotalState → TotalState
  | .unknown, _ => .unknown
  | _, .unknown => .unknown
  | acc, .unseen => acc
  | .unseen, .exact n => .exact n
  | .exact acc, .exact n => checkedExactSum acc n

def exactValue : TotalState → Option Nat
  | .exact n => some n
  | _ => none

end TotalState

/-- The accumulator of input or output tokens; only overflow poisons it. -/
inductive TurnIOState where
  | unseen
  | exact (n : Nat)
  | poisoned
  deriving DecidableEq

namespace TurnIOState

def checkedExactSum (acc n : Nat) : TurnIOState :=
  match checkedAdd acc n with
  | some sum => .exact sum
  | none => .poisoned

def foldRound : TurnIOState → Nat → TurnIOState
  | .poisoned, _ => .poisoned
  | .unseen, n => .exact n
  | .exact acc, n => checkedExactSum acc n

def mergeSession : TurnIOState → TurnIOState → TurnIOState
  | .poisoned, _ => .poisoned
  | _, .poisoned => .poisoned
  | acc, .unseen => acc
  | .unseen, .exact n => .exact n
  | .exact acc, .exact n => checkedExactSum acc n

def exactValue : TurnIOState → Option Nat
  | .exact n => some n
  | _ => none

end TurnIOState

/-! ## Billing identity -/

structure PricingIdentity where
  authority : Text
  model : Text
  cacheClass : Option Text
  deriving DecidableEq

/-- `fold_pricing_identity`: one identity in all rounds, or none for the turn. -/
def foldPricingIdentity (acc : Option (Option PricingIdentity)) (round : Option PricingIdentity) :
    Option (Option PricingIdentity) :=
  match acc with
  | none => some round
  | some (some existing) => if some existing = round then some round else some none
  | some none => some none

/-! ## Turns and sessions -/

/-- The usage fields of `LlmResponse`. -/
structure RoundUsage where
  inputTokens : Option Nat
  inputTokensOverflowed : Bool
  outputTokens : Option Nat
  totalTokens : Option Nat
  cachedInputTokens : Option Nat
  cacheWriteTokens : Option Nat
  requestModel : Option Text

/-- The response says something about its usage. -/
def RoundUsage.isUsageBearing (usage : RoundUsage) : Bool :=
  usage.inputTokens.isSome || usage.inputTokensOverflowed || usage.outputTokens.isSome

/-- `SessionUsageBaseline`: the session-cumulative counters. -/
structure SessionUsage where
  inputTokens : TurnIOState
  outputTokens : TurnIOState
  cachedInputTokens : TotalState
  cacheWriteTokens : TotalState
  totalState : TotalState

def SessionUsage.fresh : SessionUsage := ⟨.unseen, .unseen, .unseen, .unseen, .unseen⟩

/-- The counters of one turn, with the session's at its start. -/
structure TurnCounters where
  baseline : SessionUsage
  usage : SessionUsage
  pricingIdentity : Option (Option PricingIdentity)

def TurnCounters.start (baseline : SessionUsage) : TurnCounters := ⟨baseline, .fresh, none⟩

def SessionUsage.merge (session turn : SessionUsage) : SessionUsage where
  inputTokens := session.inputTokens.mergeSession turn.inputTokens
  outputTokens := session.outputTokens.mergeSession turn.outputTokens
  cachedInputTokens := session.cachedInputTokens.mergeSession turn.cachedInputTokens
  cacheWriteTokens := session.cacheWriteTokens.mergeSession turn.cacheWriteTokens
  totalState := session.totalState.mergeSession turn.totalState

/-- What a `usage_update` carries; a field that is `none` is left out. -/
structure UsageUpdate where
  accumulatedInputTokens : Option Nat
  accumulatedOutputTokens : Option Nat
  accumulatedCachedInputTokens : Option Nat
  accumulatedCacheWriteTokens : Option Nat
  accumulatedTotalTokens : Option Nat
  model : Text
  pricingIdentity : Option PricingIdentity

def usageUpdatePayload (usage : SessionUsage) (model : Text)
    (identity : Option (Option PricingIdentity)) : UsageUpdate where
  accumulatedInputTokens := usage.inputTokens.exactValue
  accumulatedOutputTokens := usage.outputTokens.exactValue
  accumulatedCachedInputTokens := usage.cachedInputTokens.exactValue
  accumulatedCacheWriteTokens := usage.cacheWriteTokens.exactValue
  accumulatedTotalTokens := usage.totalState.exactValue
  model := model
  pricingIdentity := identity.join

/-- The provider endpoint: its billing authority, if it is an official one, and the model. -/
structure Endpoint where
  authority : Option Text
  model : Text

namespace TurnCounters

/-- The input counter after a response. -/
def foldInput (state : TurnIOState) (usage : RoundUsage) : TurnIOState :=
  if usage.inputTokensOverflowed then .poisoned
  else
    match usage.inputTokens with
    | some tokens => state.foldRound tokens
    | none => state

def foldOutput (state : TurnIOState) (usage : RoundUsage) : TurnIOState :=
  match usage.outputTokens with
  | some out => state.foldRound out
  | none => state

def roundIdentity (endpoint : Endpoint) (usage : RoundUsage) : Option PricingIdentity :=
  usage.requestModel.bind fun model =>
    endpoint.authority.map fun authority => ⟨authority, model, none⟩

def fold (endpoint : Endpoint) (turn : TurnCounters) (usage : RoundUsage) : TurnCounters :=
  let input := foldInput turn.usage.inputTokens usage
  let output := foldOutput turn.usage.outputTokens usage
  if usage.isUsageBearing then
    { turn with
      usage := {
        inputTokens := input
        outputTokens := output
        cachedInputTokens := turn.usage.cachedInputTokens.fold usage.cachedInputTokens
        cacheWriteTokens := turn.usage.cacheWriteTokens.fold usage.cacheWriteTokens
        totalState := turn.usage.totalState.fold usage.totalTokens }
      pricingIdentity := foldPricingIdentity turn.pricingIdentity (roundIdentity endpoint usage) }
  else { turn with usage := { turn.usage with inputTokens := input, outputTokens := output } }

/-- `emit_usage_update`. -/
def update (endpoint : Endpoint) (turn : TurnCounters) : UsageUpdate :=
  usageUpdatePayload (turn.baseline.merge turn.usage) endpoint.model turn.pricingIdentity

/-- A response of the turn: the counters, and the update that a usage-bearing response sends. -/
def respond (endpoint : Endpoint) (turn : TurnCounters) (usage : RoundUsage) :
    TurnCounters × Option UsageUpdate :=
  let turn := turn.fold endpoint usage
  (turn, if usage.isUsageBearing then some (turn.update endpoint) else none)

end TurnCounters

/-- The end of `run_prompt`: merge the turn into the session and send the final update, if a
response has reported input or output. -/
def SessionUsage.endTurn (endpoint : Endpoint) (session : SessionUsage) (turn : TurnCounters) :
    SessionUsage × Option UsageUpdate :=
  if turn.usage.inputTokens = .unseen ∧ turn.usage.outputTokens = .unseen then (session, none)
  else
    let session := session.merge turn.usage
    (session, some (usageUpdatePayload session endpoint.model turn.pricingIdentity))

end Agent
end Maju
