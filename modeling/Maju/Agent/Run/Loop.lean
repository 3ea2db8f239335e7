import Maju.Agent.Run.History
import Maju.Lib.Run

/-!
# Loop — a session, its prompts and the run loop

`RunCtx.poll` is one stretch of `RunCtx::run` between two awaits, driven by what the await returned:
a provider answer, a summary, hook outputs, the completion of a tool task.  `Session.step` adds the
requests that a client makes at any time: `session/prompt`, the steer request and `session/cancel`.

A run is cancelled by a flag.  Each `select!` that races the flag is biased towards it, so a
stretch that begins with the flag set takes the cancel branch.  The events record what a client or a
provider sees, and which texts were folded into the history; no step reads them.
-/

namespace Maju
namespace Agent

open Lib

/-! ## Configuration, provider answers and results -/

/-- What the run loop reads of `Config`. -/
structure Config where
  maxRounds : Nat
  maxHandoffs : Nat
  maxHistoryBytes : Nat
  maxContextTokens : Nat
  maxTokenRecoveries : Nat
  stopMaxRejections : Nat
  requireReply : Bool

/-- The lookups of `McpRegistry` by qualified tool name. -/
structure McpRegistry where
  has : Text → Bool
  isHook : Text → Bool

inductive ProviderStop where
  | endTurn
  | toolUse
  | maxTokens
  | refusal
  | other
  deriving DecidableEq

inductive StopReason where
  | endTurn
  | cancelled
  | maxTokens
  | maxTurnRequests
  | refusal
  deriving DecidableEq

inductive AgentError where
  | invalidParams (msg : Text)
  | llm (msg : Text)
  | llmAuth (msg : Text)
  | llmModelNotFound (msg : Text)
  | llmContextExceeded (msg : Text)
  | unsupportedImageInput (msg : Text)
  | mcp (msg : Text)
  | cancelled
  deriving DecidableEq

structure LlmResponse where
  text : Text
  toolCalls : List ToolCall
  stop : ProviderStop
  inputTokens : Option Nat
  inputTokensOverflowed : Bool
  reasoningDetails : Option Json

def mapStop : ProviderStop → StopReason
  | .endTurn | .toolUse | .other => .endTurn
  | .maxTokens => .maxTokens
  | .refusal => .refusal

/-! ## Limits and texts -/

def maxToolCallsPerTurn : Nat := 64

def maxContextRecoveriesPerRun : Nat := 3

def handoffMinPromptBudgetBytes : Nat := 4 * 1024

def maxReplyNags : Nat := 2

def replyGuardServer : Text := "maju-agent".toList

def replyGuardNag : Text :=
  ("You are about to end this turn without calling `maju messages send`. " ++
    "Your assistant text and reasoning are never shown to anyone — if you did work, found an " ++
    "answer, or hit a blocker that someone is waiting on, it exists only if you publish it. " ++
    "If you already posted, or if silence is genuinely correct for this turn, ignore this and " ++
    "end your turn.").toList

def maxTokensRecoveryMessage : Text :=
  ("Your previous response reached the model's output token limit and was truncated. Any " ++
    "incomplete tool calls were discarded and were not run. Stop prolonged internal reasoning " ++
    "now. Use the available tools immediately: write a script or artifact to a file and run it " ++
    "in small, verifiable steps instead of emitting the entire solution inline. Continue the " ++
    "task concisely from the preserved text.").toList

def unsupportedBlockMessage : Text :=
  ("prompt: unsupported content block (only text and resource_link are advertised)").toList

def promptTooLongMessage : Text :=
  "prompt: exceeds ".toList ++ decimal maxPromptBytes ++ " bytes".toList

def zeroToolCallsMessage : Text := "provider: stop=tool_use but zero tool_calls".toList

def cancelledMessage : Text := "cancelled".toList

def saturatingU32 (n : Nat) : Nat := min n (2 ^ 32 - 1)

def saturatingU64 (n : Nat) : Nat := min n (2 ^ 64 - 1)

/-! ## Events and phases -/

/-- What a run shows: a prompt accepted, a steer request answered with ok, a request answered with
an error, an input turned into a user item, a history passed to `complete`, and the end, where the
history is stored back. -/
inductive Event where
  | accepted (prompt : List ContentBlock)
  | steered (prompt : List ContentBlock)
  | rejected (message : Text)
  | folded (text : Text)
  | requested (history : History)
  | ended (result : Except AgentError StopReason) (history : History)

/-- What a forced handoff serves: the size of the rejected history and the provider's error. -/
structure Overflow where
  rejectedBytes : Nat
  error : Text

/-- Where a run stands: the await it is in, or the loop head.  Tasks of `pending` have not been
joined. -/
inductive RunPhase where
  | starting (prompt : List ContentBlock)
  | top
  | summarizing (forced : Option Overflow)
  | postCompact (summary : Text) (current : Option Text) (forced : Option Overflow)
  | completing
  | stopping
  | preflight (calls : List ToolCall) (idx : Nat) (results : List (Option ToolResult))
      (runnable : List Nat)
  | executing (calls : List ToolCall) (results : List (Option ToolResult)) (runnable : List Nat)
      (pending : List Nat)
  | returned (result : Except AgentError StopReason)

inductive InvokeOutcome where
  | done (result : ToolResult)
  | failed (msg : Text)

def outcomeToResult (call : ToolCall) : InvokeOutcome → ToolResult
  | .done r => r
  | .failed m => syntheticToolResult call m

/-- How a tool task ends: refused, denied, cancelled or failed with a message, or answered by the
server. -/
inductive TaskEnd where
  | failed (msg : Text)
  | answered (content : List ToolResultContent) (isError : Bool)

/-- The outcome of a task; `mcp.call` labels its result with the id of the call. -/
def TaskEnd.outcome (call : ToolCall) : TaskEnd → InvokeOutcome
  | .failed msg => .failed msg
  | .answered content isError => .done ⟨call.providerId, content, isError⟩

/-- What an await returns.  A summary of `none` is an error of the summarizer; hook outputs come by
server, and the pairs they become are numbered by the process-wide counter. -/
inductive Answer where
  | tick
  | summary (text : Option Text)
  | hooks (outputs : List (Text × Text)) (ordinal : Nat → Nat)
  | completion (result : Except AgentError LlmResponse)
  | skill (content : List ToolResultContent) (isError : Bool)
  | joined (i : Nat) (finish : TaskEnd)
  | joinFailed (i : Nat)

/-! ## The run -/

/-- `RunCtx`, with the steer channel. -/
structure RunCtx where
  cancel : Bool
  steer : List (List ContentBlock)
  history : History
  lastRequestInputTokens : Option Nat
  lastRequestHistoryBytes : Option Nat
  handoffAttempts : Nat
  round : Nat
  stopRejections : Nat
  majuReplyCallSeen : Bool
  replyNags : Nat
  contextRecoveries : Nat
  maxTokensRecoveries : Nat

namespace RunCtx

abbrev Outcome := (RunCtx × RunPhase) × List Event

def push (ctx : RunCtx) (items : History) : RunCtx := { ctx with history := ctx.history ++ items }

def return_ (ctx : RunCtx) (result : Except AgentError StopReason) : Outcome :=
  ((ctx, .returned result), [])

def drainSteers (ctx : RunCtx) : RunCtx :=
  { ctx.push ((ctx.steer.filterMap steerText).map .user) with steer := [] }

/-! ### The handoff gate -/

def conservativeBytesPerToken : Nat := 1

def estimateTokensFromBytes (bytes : Nat) : Nat :=
  (bytes + conservativeBytesPerToken - 1) / conservativeBytesPerToken

def tokenThreshold (maxContextTokens : Nat) : Nat := maxContextTokens / 10 * 9

def byteFallbackThreshold (maxContextTokens maxHistoryBytes : Nat) : Nat :=
  min (saturatingU64 (tokenThreshold maxContextTokens * conservativeBytesPerToken))
    (maxHistoryBytes / 10 * 9)

def projectedHandoffInputTokens (ctx : RunCtx) : Nat :=
  let currentBytes := ctx.history.contextPressureBytes
  match ctx.lastRequestInputTokens with
  | some measuredTokens =>
      let grown := currentBytes - ctx.lastRequestHistoryBytes.getD 0
      saturatingU64 (measuredTokens + estimateTokensFromBytes grown)
  | none => estimateTokensFromBytes currentBytes

def shouldHandoff (cfg : Config) (ctx : RunCtx) : Bool :=
  match ctx.lastRequestInputTokens with
  | some _ => tokenThreshold cfg.maxContextTokens ≤ ctx.projectedHandoffInputTokens
  | none =>
      byteFallbackThreshold cfg.maxContextTokens cfg.maxHistoryBytes <
        ctx.history.contextPressureBytes

/-! ### Stretches -/

/-- The call of `complete`. -/
def request (ctx : RunCtx) : Outcome :=
  (({ ctx with round := saturatingU32 (ctx.round + 1) }, .completing), [.requested ctx.history])

/-- Truncation in place of a handoff, then the call. -/
def truncateAndRequest (cfg : Config) (ctx : RunCtx) : Outcome :=
  request { ctx with history := truncateHistory ctx.history cfg.maxHistoryBytes }

/-- The context was reset: the last reading describes a history that is gone. -/
def clearReading (ctx : RunCtx) : RunCtx :=
  { ctx with lastRequestInputTokens := none, lastRequestHistoryBytes := none }

/-- The beginning of `run`. -/
def start (ctx : RunCtx) (prompt : List ContentBlock) : Outcome :=
  match promptToText prompt with
  | none => ctx.return_ (.error (.invalidParams unsupportedBlockMessage))
  | some text =>
      if maxPromptBytes < byteLen text then
        ctx.return_ (.error (.invalidParams promptTooLongMessage))
      else ((ctx.push [.user text], .top), [.accepted prompt, .folded text])

/-- The round boundary: fold in the queued steers, hand off or truncate, call the provider. -/
def boundary (cfg : Config) (ctx : RunCtx) : Outcome :=
  if 0 < cfg.maxRounds ∧ cfg.maxRounds ≤ ctx.round then ctx.return_ (.ok .maxTurnRequests)
  else if ctx.cancel then ctx.return_ (.ok .cancelled)
  else
    let folded := (ctx.steer.filterMap steerText).map Event.folded
    let ctx := ctx.drainSteers
    if ctx.shouldHandoff cfg ∧ ctx.handoffAttempts < cfg.maxHandoffs then
      (({ ctx with handoffAttempts := ctx.handoffAttempts + 1 }, .summarizing none), folded)
    else
      let next := ctx.truncateAndRequest cfg
      (next.1, folded ++ next.2)

/-- The next rung of `recover_from_context_overflow`. -/
def recoverFromContextOverflow (ctx : RunCtx) (overflow : Overflow) : Outcome :=
  if maxContextRecoveriesPerRun ≤ ctx.contextRecoveries then
    ctx.return_ (.error (.llmContextExceeded overflow.error))
  else
    let budget := overflow.rejectedBytes >>> min (ctx.contextRecoveries + 1) 63
    let ctx := { ctx with contextRecoveries := ctx.contextRecoveries + 1 }
    if budget < handoffMinPromptBudgetBytes then
      ctx.return_ (.error (.llmContextExceeded overflow.error))
    else ((ctx, .summarizing (some overflow)), [])

/-- `handoff` after the summarizer has answered.  Without a summary the proactive path truncates and
the recovery ladder takes its next rung. -/
def summarized (cfg : Config) (ctx : RunCtx) (forced : Option Overflow) (text : Option Text) :
    Outcome :=
  if ctx.cancel then ctx.return_ (.ok .cancelled)
  else
    match text.filter (!isBlank ·) with
    | some summary =>
        (({ ctx with history := [] }, .postCompact summary (currentPrompt ctx.history) forced), [])
    | none =>
        match forced with
        | none => ctx.truncateAndRequest cfg
        | some overflow => ctx.recoverFromContextOverflow overflow

/-- `handoff` after the `_PostCompact` hooks. -/
def compacted (ctx : RunCtx) (summary : Text) (current : Option Text) (forced : Option Overflow)
    (outputs : List (Text × Text)) : Outcome :=
  let ctx := { ctx.clearReading with history := handoffHistory summary outputs current }
  match forced with
  | none => ctx.request
  -- the round of the rejected request is refunded
  | some _ => (({ ctx with round := ctx.round - 1 }, .top), [])

/-- The reading of the context gate after a response. -/
def recordReading (ctx : RunCtx) (response : LlmResponse) : RunCtx :=
  if response.inputTokensOverflowed then ctx
  else
    match response.inputTokens with
    | some tokens =>
        { ctx with
          lastRequestInputTokens := some tokens
          lastRequestHistoryBytes := some ctx.history.contextPressureBytes }
    | none => ctx

def isReplyShaped (name : Text) (arguments : Json) : Bool :=
  "__shell".toList.isSuffixOf name &&
    ((arguments.get "command").bind Json.asStr).any fun cmd =>
      containsText cmd "messages send".toList || containsText cmd "reactions add".toList

def isMajuReplyCall (mcp : McpRegistry) (call : ToolCall) : Bool :=
  mcp.has call.name && !mcp.isHook call.name && isReplyShaped call.name call.arguments

def responded (cfg : Config) (mcp : McpRegistry) (ctx : RunCtx) (response : LlmResponse) :
    Outcome :=
  let ctx := ctx.recordReading response
  if response.stop = .maxTokens then
    let ctx := ctx.push [.assistant response.text [] response.reasoningDetails]
    if cfg.maxTokenRecoveries ≤ ctx.maxTokensRecoveries then ctx.return_ (.ok .maxTokens)
    else
      (({ ctx.push [.user maxTokensRecoveryMessage] with
          maxTokensRecoveries := saturatingU32 (ctx.maxTokensRecoveries + 1) }, .top), [])
  else if response.toolCalls.isEmpty then
    if response.stop = .toolUse then ctx.return_ (.error (.llm zeroToolCallsMessage))
    else
      let ctx := ctx.push [.assistant response.text [] response.reasoningDetails]
      let stop := mapStop response.stop
      if stop = .endTurn ∧ ctx.stopRejections < cfg.stopMaxRejections then ((ctx, .stopping), [])
      else ctx.return_ (.ok stop)
  else
    let calls := response.toolCalls.take maxToolCallsPerTurn
    let ctx := { ctx.push [.assistant response.text calls response.reasoningDetails] with
      majuReplyCallSeen := ctx.majuReplyCallSeen || calls.any (isMajuReplyCall mcp) }
    ((ctx, .preflight calls 0 (List.replicate calls.length none) []), [])

/-- The loop body after `complete`. -/
def completed (cfg : Config) (mcp : McpRegistry) (ctx : RunCtx)
    (result : Except AgentError LlmResponse) : Outcome :=
  if ctx.cancel then ctx.return_ (.ok .cancelled)
  else
    match result with
    | .ok response => ctx.responded cfg mcp response
    | .error (.unsupportedImageInput detail) =>
        let (history, removed) := replaceUnsupportedImages ctx.history
        let ctx := { ctx with history := history }
        if removed = 0 then ctx.return_ (.error (.unsupportedImageInput detail))
        else ((ctx, .top), [])
    | .error (.llmContextExceeded e) =>
        ctx.recoverFromContextOverflow ⟨ctx.history.contextPressureBytes, e⟩
    | .error e => ctx.return_ (.error e)

/-- The end of the turn after the `_Stop` hooks: any objection sends the loop round again. -/
def objected (cfg : Config) (ctx : RunCtx) (outputs : List (Text × Text)) (ordinal : Nat → Nat) :
    Outcome :=
  let nag := cfg.requireReply && !ctx.majuReplyCallSeen && decide (ctx.replyNags < maxReplyNags)
  let objections := outputs ++ if nag then [(replyGuardServer, replyGuardNag)] else []
  let ctx := if nag then { ctx with replyNags := ctx.replyNags + 1 } else ctx
  if objections.isEmpty then ctx.return_ (.ok .endTurn)
  else
    let numbered := objections.zipIdx.map fun p => (p.1.1, p.1.2, ordinal p.2)
    (({ ctx with
        stopRejections := saturatingU32 (ctx.stopRejections + 1)
        history := pushHookOutputsAsToolResults ctx.history "_Stop".toList numbered }, .top), [])

/-! ### Tool calls -/

def loadSkillTool : Text := "load_skill".toList

def unknownToolMessage (name : Text) : Text := "unknown tool: ".toList ++ name

/-- Fill the empty slots of these calls as cancelled. -/
def fillCancelled (calls : List ToolCall) (slots : List Nat) (results : List (Option ToolResult)) :
    List (Option ToolResult) :=
  results.zipIdx.map fun p =>
    match p.1, calls[p.2]? with
    | none, some call =>
        if p.2 ∈ slots then some (syntheticToolResult call cancelledMessage) else none
    | result, _ => result

/-- One call of the preflight loop of `execute_calls`. -/
def preflightCall (mcp : McpRegistry) (ctx : RunCtx) (calls : List ToolCall) (idx : Nat)
    (results : List (Option ToolResult)) (runnable : List Nat) (answer : Answer) : Outcome :=
  match calls[idx]? with
  | none => ((ctx, .executing calls results runnable runnable), [])
  | some call =>
      if ctx.cancel then
        let results := fillCancelled calls (List.range calls.length) results
        { ctx with history := appendResults ctx.history calls results }.return_ (.ok .cancelled)
      else if call.name = loadSkillTool then
        match answer with
        | .skill content isError =>
            let result : ToolResult := ⟨call.providerId, content, isError⟩
            ((ctx, .preflight calls (idx + 1) (results.set idx (some result)) runnable), [])
        | _ => ((ctx, .preflight calls idx results runnable), [])
      else if !mcp.has call.name || mcp.isHook call.name then
        let result := syntheticToolResult call (unknownToolMessage call.name)
        ((ctx, .preflight calls (idx + 1) (results.set idx (some result)) runnable), [])
      else ((ctx, .preflight calls (idx + 1) results (runnable ++ [idx])), [])

/-- A joined task fills its slot; once cancelled, only an empty slot. -/
def joinTask (ctx : RunCtx) (calls : List ToolCall) (results : List (Option ToolResult)) (i : Nat)
    (finish : TaskEnd) : List (Option ToolResult) :=
  match calls[i]? with
  | none => results
  | some call =>
      if ctx.cancel && (results.getD i none).isSome then results
      else results.set i (some (outcomeToResult call (finish.outcome call)))

/-- One turn of the loops of `execute_parallel`, and what follows them. -/
def executeParallel (ctx : RunCtx) (calls : List ToolCall) (results : List (Option ToolResult))
    (runnable pending : List Nat) (answer : Answer) : Outcome :=
  match answer with
  | .joined i finish =>
      if i ∈ pending then
        ((ctx, .executing calls (ctx.joinTask calls results i finish) runnable (pending.erase i)),
          [])
      else ((ctx, .executing calls results runnable pending), [])
  | .joinFailed i => ((ctx, .executing calls results runnable (pending.erase i)), [])
  | .tick =>
      -- all tasks are joined, or the drain after a cancel has timed out
      if pending.isEmpty || ctx.cancel then
        let results := fillCancelled calls runnable results
        let ctx := { ctx with history := appendResults ctx.history calls results }
        if ctx.cancel then ctx.return_ (.ok .cancelled) else ((ctx, .top), [])
      else ((ctx, .executing calls results runnable pending), [])
  | _ => ((ctx, .executing calls results runnable pending), [])

/-- One stretch of the run; an answer to another await changes nothing. -/
def poll (cfg : Config) (mcp : McpRegistry) (ctx : RunCtx) (phase : RunPhase) (answer : Answer) :
    Outcome :=
  match phase, answer with
  | .starting prompt, .tick => ctx.start prompt
  | .top, .tick => ctx.boundary cfg
  | .summarizing forced, .summary text => ctx.summarized cfg forced text
  | .postCompact summary current forced, .hooks outputs _ =>
      ctx.compacted summary current forced outputs
  | .completing, .completion result => ctx.completed cfg mcp result
  | .stopping, .hooks outputs ordinal => ctx.objected cfg outputs ordinal
  | .preflight calls idx results runnable, answer =>
      ctx.preflightCall mcp calls idx results runnable answer
  | .executing calls results runnable pending, answer =>
      ctx.executeParallel calls results runnable pending answer
  | phase, _ => ((ctx, phase), [])

end RunCtx

/-! ## The session -/

/-- What a run reads and writes of a session, and the run in flight. -/
structure Session where
  history : History
  lastRequestInputTokens : Option Nat
  lastRequestHistoryBytes : Option Nat
  active : Option (Text × RunCtx × RunPhase)

inductive SessionInput where
  | prompt (runId : Text) (prompt : List ContentBlock)
  | steer (expectedRunId : Text) (prompt : List ContentBlock)
  | cancel
  | poll (answer : Answer)

namespace Session

/-- A session as `session/new` creates it. -/
def fresh : Session := ⟨[], none, none, none⟩

/-- `acquire_session`; the history moves into the run. -/
def acquireSession (s : Session) (runId : Text) (prompt : List ContentBlock) :
    Session × List Event :=
  match s.active with
  | some _ => (s, [.rejected "session/prompt: prompt already in flight".toList])
  | none =>
      let ctx : RunCtx := {
        cancel := false
        steer := []
        history := s.history
        lastRequestInputTokens := s.lastRequestInputTokens
        lastRequestHistoryBytes := s.lastRequestHistoryBytes
        handoffAttempts := 0
        round := 0
        stopRejections := 0
        majuReplyCallSeen := false
        replyNags := 0
        contextRecoveries := 0
        maxTokensRecoveries := 0 }
      ({ s with history := [], active := some (runId, ctx, .starting prompt) }, [])

def steerSession (s : Session) (expectedRunId : Text) (prompt : List ContentBlock) :
    Session × List Event :=
  if prompt.isEmpty then (s, [.rejected "steer: prompt must not be empty".toList])
  else if expectedRunId.isEmpty then
    (s, [.rejected "steer: expectedRunId must not be empty".toList])
  else
    match s.active with
    | none => (s, [.rejected "steer: no active run to steer".toList])
    | some (runId, ctx, phase) =>
        if runId ≠ expectedRunId then
          (s, [.rejected ("steer: expected active run id `".toList ++ expectedRunId ++
            "` but found `".toList ++ runId ++ "`".toList)])
        else
          ({ s with active := some (runId, { ctx with steer := ctx.steer ++ [prompt] }, phase) },
            [.steered prompt])

def cancelSession (s : Session) : Session :=
  match s.active with
  | none => s
  | some (runId, ctx, phase) =>
      { s with active := some (runId, { ctx with cancel := true }, phase) }

/-- The end of `run_prompt`: the history goes back, and the steer channel is dropped. -/
def settle (s : Session) (ctx : RunCtx) (result : Except AgentError StopReason) :
    Session × List Event :=
  ({ s with
      history := ctx.history
      lastRequestInputTokens := ctx.lastRequestInputTokens
      lastRequestHistoryBytes := ctx.lastRequestHistoryBytes
      active := none }, [.ended result ctx.history])

/-- One request of the client or one stretch of the run. -/
def step (cfg : Config) (mcp : McpRegistry) (s : Session) : SessionInput → Session × List Event
  | .prompt runId prompt => s.acquireSession runId prompt
  | .steer expectedRunId prompt => s.steerSession expectedRunId prompt
  | .cancel => (s.cancelSession, [])
  | .poll answer =>
      match s.active with
      | none => (s, [])
      | some (_, ctx, .returned result) => s.settle ctx result
      | some (runId, ctx, phase) =>
          let next := ctx.poll cfg mcp phase answer
          ({ s with active := some (runId, next.1) }, next.2)

end Session

/-- A session with the events so far. -/
structure World where
  session : Session
  log : List Event

namespace World

def init : World := ⟨.fresh, []⟩

def step (cfg : Config) (mcp : McpRegistry) (w : World) (i : SessionInput) : World :=
  let next := w.session.step cfg mcp i
  ⟨next.1, w.log ++ next.2⟩

/-- The world after the inputs, from a new session. -/
def after (cfg : Config) (mcp : McpRegistry) (inputs : List SessionInput) : World :=
  Run.run (step cfg mcp) init inputs

end World

end Agent
end Maju
