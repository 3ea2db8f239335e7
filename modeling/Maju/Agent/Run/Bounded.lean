import Maju.Agent.Run.Loop

/-!
# Bounded — what one run may spend

A run is gone through await by await, with everything that a provider, a summarizer, a hook or a
tool may return and with what the client sends in between.

* `Meter` — a run with the calls of `complete`, the calls of `summarize` and the rejections so far;
* `Move` — what one stretch can do to the counters of a run;
* `Spent` — the budget of each counter, kept by every move;
* `effort` — what falls with every move but the tool calls of a response;
* `run_is_bounded` — the budgets of a whole run, and that no endless run goes without tool calls.
-/

namespace Maju
namespace Agent

open Lib

/-! ## Runs -/

/-- What the client sends to a run. -/
inductive ClientInput where
  | steer (prompt : List ContentBlock)
  | cancel

/-- What arrives while an await is pending, and what the await returns. -/
structure Turn where
  inputs : List ClientInput
  answer : Answer

/-- The numbers of `Config` are `u32`. -/
def Config.Typed (cfg : Config) : Prop :=
  cfg.maxRounds < 2 ^ 32 ∧ cfg.maxTokenRecoveries < 2 ^ 32 ∧ cfg.stopMaxRejections < 2 ^ 32

def Event.isRequest : Event → Bool
  | .requested _ => true
  | _ => false

namespace RunPhase

def isSummarizing : RunPhase → Bool
  | .summarizing _ => true
  | _ => false

def isStopping : RunPhase → Bool
  | .stopping => true
  | _ => false

def isTop : RunPhase → Bool
  | .top => true
  | _ => false

end RunPhase

namespace RunCtx

/-- A new run on the history and the readings of its session. -/
def fresh (history : History) (inputTokens historyBytes : Option Nat) : RunCtx where
  cancel := false
  steer := []
  history := history
  lastRequestInputTokens := inputTokens
  lastRequestHistoryBytes := historyBytes
  handoffAttempts := 0
  round := 0
  stopRejections := 0
  majuReplyCallSeen := false
  replyNags := 0
  contextRecoveries := 0
  maxTokensRecoveries := 0

def receive (ctx : RunCtx) : ClientInput → RunCtx
  | .steer prompt => { ctx with steer := ctx.steer ++ [prompt] }
  | .cancel => { ctx with cancel := true }

/-- The preflight waits for the built-in tool. -/
def awaitsSkill (ctx : RunCtx) (calls : List ToolCall) (idx : Nat) : Bool :=
  match calls[idx]? with
  | some call => !ctx.cancel && decide (call.name = loadSkillTool)
  | none => false

/-- The answer is one that the await can return. -/
def accepts (ctx : RunCtx) : RunPhase → Answer → Bool
  | .starting _, .tick => true
  | .top, .tick => true
  | .summarizing _, .summary _ => true
  | .postCompact _ _ _, .hooks _ _ => true
  | .completing, .completion _ => true
  | .stopping, .hooks _ _ => true
  | .preflight _ _ _ _, .skill _ _ => true
  | .preflight calls idx _ _, _ => !ctx.awaitsSkill calls idx
  | .executing _ _ _ pending, .joined i _ => decide (i ∈ pending)
  | .executing _ _ _ pending, .joinFailed i => decide (i ∈ pending)
  | .executing _ _ _ pending, .tick => pending.isEmpty || ctx.cancel
  | _, _ => false

end RunCtx

/-- A run, and what it has spent. -/
structure Meter where
  ctx : RunCtx
  phase : RunPhase
  requests : Nat
  summaries : Nat
  rejections : Nat

namespace Meter

def start (ctx : RunCtx) (prompt : List ContentBlock) : Meter := ⟨ctx, .starting prompt, 0, 0, 0⟩

def received (m : Meter) (t : Turn) : RunCtx := t.inputs.foldl RunCtx.receive m.ctx

/-- The await returns what it was waiting for. -/
def Accepts (m : Meter) (t : Turn) : Prop := (m.received t).accepts m.phase t.answer = true

/-- A stretch is counted: its requests, the call of the summarizer that it ends in, and the
rejection if it sends a stopping run back to the loop head. -/
def count (m : Meter) (out : RunCtx.Outcome) : Meter where
  ctx := out.1.1
  phase := out.1.2
  requests := m.requests + out.2.countP Event.isRequest
  summaries := m.summaries + if out.1.2.isSummarizing then 1 else 0
  rejections := m.rejections + if m.phase.isStopping && out.1.2.isTop then 1 else 0

def step (cfg : Config) (mcp : McpRegistry) (m : Meter) (t : Turn) : Meter :=
  if (m.received t).accepts m.phase t.answer then
    m.count ((m.received t).poll cfg mcp m.phase t.answer)
  else { m with ctx := m.received t }

/-- The provider has answered with tool calls. -/
def ToolResponse (m : Meter) (t : Turn) : Prop :=
  m.phase = .completing ∧
    ∃ response, t.answer = .completion (.ok response) ∧ response.stop ≠ .maxTokens ∧
      response.toolCalls ≠ []

end Meter

/-! ## What a stretch can do -/

def images (history : History) : Nat := (history.map HistoryItem.images).sum

/-- What a run counts. -/
structure Gauge where
  round : Nat
  attempts : Nat
  recoveries : Nat
  tokenRecoveries : Nat
  stops : Nat
  images : Nat

def RunCtx.gauge (ctx : RunCtx) : Gauge where
  round := ctx.round
  attempts := ctx.handoffAttempts
  recoveries := ctx.contextRecoveries
  tokenRecoveries := ctx.maxTokensRecoveries
  stops := ctx.stopRejections
  images := images ctx.history

namespace RunPhase

def isReturned : RunPhase → Bool
  | .returned _ => true
  | _ => false

def asks : RunPhase → Bool
  | .top => true
  | .summarizing none => true
  | .postCompact _ _ none => true
  | _ => false

/-- A rung of the recovery ladder may follow. -/
def overflowed : RunPhase → Bool
  | .completing => true
  | .summarizing (some _) => true
  | _ => false

end RunPhase

/-- What one stretch can do: the counters and the phase before, the answer, the counters and the
phase after, and the number of requests.  `refund` gives back the round of a rejected request. -/
inductive Move (cfg : Config) : Gauge → RunPhase → Answer → Gauge → RunPhase → Nat → Prop where
  | finish {g : Gauge} {phase : RunPhase} {answer : Answer} {recoveries n : Nat}
      (result : Except AgentError StopReason) :
      phase.isReturned = false → g.recoveries ≤ recoveries →
      recoveries ≤ max g.recoveries maxContextRecoveriesPerRun →
      Move cfg g phase answer { g with recoveries := recoveries, images := n } (.returned result) 0
  | begin {g : Gauge} {prompt : List ContentBlock} {answer : Answer} :
      Move cfg g (.starting prompt) answer g .top 0
  | handOff {g : Gauge} {answer : Answer} {n : Nat} :
      (0 < cfg.maxRounds → g.round < cfg.maxRounds) → g.attempts < cfg.maxHandoffs →
      n ≤ g.images →
      Move cfg g .top answer { g with attempts := g.attempts + 1, images := n }
        (.summarizing none) 0
  | request {g : Gauge} {phase : RunPhase} {answer : Answer} {n : Nat} :
      phase.asks = true →
      (phase.isTop = true → 0 < cfg.maxRounds → g.round < cfg.maxRounds) → n ≤ g.images →
      Move cfg g phase answer { g with round := saturatingU32 (g.round + 1), images := n }
        .completing 1
  | compact {g : Gauge} {forced : Option Overflow} {answer : Answer} {n : Nat} (summary : Text)
      (current : Option Text) :
      n ≤ g.images →
      Move cfg g (.summarizing forced) answer { g with images := n }
        (.postCompact summary current forced) 0
  | rung {g : Gauge} {phase : RunPhase} {answer : Answer} (overflow : Overflow) :
      phase.overflowed = true → g.recoveries < maxContextRecoveriesPerRun →
      Move cfg g phase answer { g with recoveries := g.recoveries + 1 }
        (.summarizing (some overflow)) 0
  | refund {g : Gauge} {summary : Text} {current : Option Text} {overflow : Overflow}
      {answer : Answer} :
      Move cfg g (.postCompact summary current (some overflow)) answer
        { g with round := g.round - 1, images := 0 } .top 0
  | dropImages {g : Gauge} {answer : Answer} {n : Nat} :
      n < g.images → Move cfg g .completing answer { g with images := n } .top 0
  | cutShort {g : Gauge} {answer : Answer} :
      g.tokenRecoveries < cfg.maxTokenRecoveries →
      Move cfg g .completing answer
        { g with tokenRecoveries := saturatingU32 (g.tokenRecoveries + 1) } .top 0
  | gate {g : Gauge} {answer : Answer} :
      g.stops < cfg.stopMaxRejections → Move cfg g .completing answer g .stopping 0
  | object {g : Gauge} {answer : Answer} :
      Move cfg g .stopping answer { g with stops := saturatingU32 (g.stops + 1) } .top 0
  | call {g : Gauge} {response : LlmResponse} (calls : List ToolCall)
      (results : List (Option ToolResult)) :
      response.stop ≠ .maxTokens → response.toolCalls ≠ [] →
      Move cfg g .completing (.completion (.ok response)) g (.preflight calls 0 results []) 0
  | check {g : Gauge} {calls : List ToolCall} {idx : Nat}
      {results results' : List (Option ToolResult)} {runnable runnable' : List Nat}
      {answer : Answer} :
      idx < calls.length → runnable'.length ≤ runnable.length + 1 →
      Move cfg g (.preflight calls idx results runnable) answer g
        (.preflight calls (idx + 1) results' runnable') 0
  | launch {g : Gauge} {calls : List ToolCall} {idx : Nat} {results : List (Option ToolResult)}
      {runnable : List Nat} {answer : Answer} :
      Move cfg g (.preflight calls idx results runnable) answer g
        (.executing calls results runnable runnable) 0
  | join {g : Gauge} {calls : List ToolCall} {results results' : List (Option ToolResult)}
      {runnable pending pending' : List Nat} {answer : Answer} :
      pending'.length < pending.length →
      Move cfg g (.executing calls results runnable pending) answer g
        (.executing calls results' runnable pending') 0
  | collect {g : Gauge} {calls : List ToolCall} {results : List (Option ToolResult)}
      {runnable pending : List Nat} {answer : Answer} {n : Nat} :
      Move cfg g (.executing calls results runnable pending) answer { g with images := n } .top 0

/-! ## Images -/

@[simp] theorem images_append (a b : History) : images (a ++ b) = images a + images b := by
  simp [images]

theorem images_of_forall {items : History} (h : ∀ item ∈ items, item.images = 0) :
    images items = 0 := by
  induction items with
  | nil => rfl
  | cons item items ih =>
      have hrest := ih fun i hi => h i (List.mem_cons_of_mem item hi)
      have hfirst := h item List.mem_cons_self
      simp only [images, List.map_cons, List.sum_cons] at hrest ⊢
      omega

theorem images_suffix {a b : History} (h : a <:+ b) : images a ≤ images b := by
  obtain ⟨front, rfl⟩ := h
  rw [images_append]
  exact Nat.le_add_left (images a) (images front)

theorem images_replaceImages (item : HistoryItem) : item.replaceImages.images = 0 := by
  cases item with
  | user text => rfl
  | assistant text toolCalls reasoningDetails => rfl
  | toolResult r =>
      simp only [HistoryItem.replaceImages]
      split
      · simp [HistoryItem.images, ToolResultContent.isImage, List.countP_eq_zero]
      · next hnone => simpa [HistoryItem.images, List.countP_eq_zero] using hnone

theorem images_hookPair (hook server text : Text) (ordinal : Nat) :
    ∀ item ∈ hookPair hook server text ordinal, item.images = 0 := by
  intro item hitem
  simp only [hookPair, List.mem_cons, List.not_mem_nil, or_false] at hitem
  rcases hitem with rfl | rfl
  · rfl
  · rfl

theorem images_pushHookOutputs (history : History) (hook : Text)
    (outputs : List (Text × Text × Nat)) :
    images (pushHookOutputsAsToolResults history hook outputs) = images history := by
  have hnone : images (outputs.flatMap fun o => hookPair hook o.1 o.2.1 o.2.2) = 0 := by
    apply images_of_forall
    intro item hitem
    obtain ⟨o, -, ho⟩ := List.mem_flatMap.1 hitem
    exact images_hookPair hook o.1 o.2.1 o.2.2 item ho
  rw [pushHookOutputsAsToolResults, images_append, hnone, Nat.add_zero]

theorem images_handoffHistory (summary : Text) (postCompact : List (Text × Text))
    (current : Option Text) : images (handoffHistory summary postCompact current) = 0 := by
  cases current with
  | none => rfl
  | some text => rfl

theorem images_users (texts : List Text) : images (texts.map .user) = 0 := by
  apply images_of_forall
  intro item hitem
  obtain ⟨text, -, rfl⟩ := List.mem_map.1 hitem
  rfl

/-! ## Each stretch is a move -/

def IsMove (cfg : Config) (ctx : RunCtx) (phase : RunPhase) (answer : Answer)
    (out : RunCtx.Outcome) : Prop :=
  Move cfg ctx.gauge phase answer out.1.1.gauge out.1.2 (out.2.countP Event.isRequest)

section Stretches

variable {cfg : Config} {mcp : McpRegistry} {ctx : RunCtx} {answer : Answer}

/-- The counters are those of `g`, but for the images. -/
def Same (g g' : Gauge) : Prop := g' = { g with images := g'.images }

theorem isMove_return {phase : RunPhase} {ctx' : RunCtx} (hphase : phase.isReturned = false)
    (hsame : Same ctx.gauge ctx'.gauge) (result : Except AgentError StopReason) :
    IsMove cfg ctx phase answer (ctx'.return_ result) := by
  unfold IsMove
  rw [RunCtx.return_, hsame]
  exact Move.finish result hphase (Nat.le_refl _) (Nat.le_max_left _ _)

theorem isMove_request {phase : RunPhase} {ctx' : RunCtx} (hphase : phase.asks = true)
    (hround : phase.isTop = true → 0 < cfg.maxRounds → ctx.round < cfg.maxRounds)
    (hsame : Same ctx.gauge ctx'.gauge) (himages : images ctx'.history ≤ images ctx.history) :
    IsMove cfg ctx phase answer ctx'.request := by
  have hgauge : ctx'.request.1.1.gauge = { ctx.gauge with
      round := saturatingU32 (ctx.gauge.round + 1), images := images ctx'.history } := by
    have hrounds := congrArg (fun g : Gauge => { g with round := saturatingU32 (g.round + 1) })
      hsame
    exact hrounds
  unfold IsMove
  rw [hgauge]
  exact Move.request hphase hround himages

theorem isMove_start (prompt : List ContentBlock) :
    IsMove cfg ctx (.starting prompt) answer (ctx.start prompt) := by
  unfold RunCtx.start
  split
  · exact isMove_return rfl rfl _
  · split_ifs
    · exact isMove_return rfl rfl _
    · next text _ _ =>
        have hgauge : (ctx.push [.user text]).gauge = ctx.gauge := by
          simp [RunCtx.gauge, RunCtx.push, images, HistoryItem.images]
        unfold IsMove
        rw [hgauge]
        exact Move.begin

theorem images_drainSteers : images ctx.drainSteers.history = images ctx.history := by
  have husers := images_users (ctx.steer.filterMap steerText)
  simp only [RunCtx.drainSteers, RunCtx.push, images_append, husers, Nat.add_zero]

theorem isMove_truncateAndRequest {phase : RunPhase} {ctx' : RunCtx} (hphase : phase.asks = true)
    (hround : phase.isTop = true → 0 < cfg.maxRounds → ctx.round < cfg.maxRounds)
    (hsame : Same ctx.gauge ctx'.gauge) (himages : images ctx'.history ≤ images ctx.history) :
    IsMove cfg ctx phase answer (ctx'.truncateAndRequest cfg) := by
  have hless : images (truncateHistory ctx'.history cfg.maxHistoryBytes) ≤ images ctx'.history := by
    rcases truncateHistory_suffix ctx'.history cfg.maxHistoryBytes with
      hkept | ⟨dropped, text, rest, hwhole, hkept⟩
    · rw [hkept]
    · rw [hkept, hwhole]
      exact images_suffix (List.suffix_append _ _)
  refine isMove_request hphase hround ?_ (Nat.le_trans hless himages)
  have hkept := congrArg (fun g : Gauge =>
    { g with images := images (truncateHistory ctx'.history cfg.maxHistoryBytes) }) hsame
  exact hkept

theorem countP_folded (texts : List Text) :
    (texts.map Event.folded).countP Event.isRequest = 0 := by
  simp [List.countP_eq_zero, Event.isRequest]

theorem isMove_boundary : IsMove cfg ctx .top answer (ctx.boundary cfg) := by
  unfold RunCtx.boundary
  split_ifs with hover hcancel
  · exact isMove_return rfl rfl _
  · exact isMove_return rfl rfl _
  · have hround : 0 < cfg.maxRounds → ctx.round < cfg.maxRounds := fun hpos =>
      Nat.lt_of_not_le fun hle => hover ⟨hpos, hle⟩
    dsimp only
    split_ifs with hhand
    · have hmove : Move cfg ctx.gauge .top answer
          { ctx.gauge with
            attempts := ctx.gauge.attempts + 1, images := images ctx.drainSteers.history }
          (.summarizing none) 0 :=
        Move.handOff hround hhand.2 (Nat.le_of_eq images_drainSteers)
      unfold IsMove
      rw [countP_folded]
      exact hmove
    · have hmove : IsMove cfg ctx .top answer (ctx.drainSteers.truncateAndRequest cfg) :=
        isMove_truncateAndRequest rfl (fun _ => hround) rfl (Nat.le_of_eq images_drainSteers)
      unfold IsMove at hmove ⊢
      rw [List.countP_append, countP_folded, Nat.zero_add]
      exact hmove

theorem isMove_recover {phase : RunPhase} (hphase : phase.overflowed = true)
    (hreturned : phase.isReturned = false) (overflow : Overflow) :
    IsMove cfg ctx phase answer (ctx.recoverFromContextOverflow overflow) := by
  unfold RunCtx.recoverFromContextOverflow
  split_ifs with hspent
  · exact isMove_return hreturned rfl _
  · have hleft : ctx.gauge.recoveries < maxContextRecoveriesPerRun := Nat.lt_of_not_le hspent
    dsimp only
    split_ifs
    · -- the rung is counted although its budget is below the floor
      exact Move.finish _ hreturned (Nat.le_succ _)
        (Nat.le_trans (Nat.succ_le_of_lt hleft) (Nat.le_max_right _ _))
    · exact Move.rung overflow hphase hleft

theorem isMove_summarized (forced : Option Overflow) (text : Option Text) :
    IsMove cfg ctx (.summarizing forced) answer (ctx.summarized cfg forced text) := by
  unfold RunCtx.summarized
  split_ifs
  · exact isMove_return rfl rfl _
  · split
    · next summary _ => exact Move.compact summary _ (Nat.zero_le _)
    · cases forced with
      | none => exact isMove_truncateAndRequest rfl (fun h => nomatch h) rfl (Nat.le_refl _)
      | some overflow => exact isMove_recover rfl rfl overflow

theorem isMove_compacted (summary : Text) (current : Option Text) (forced : Option Overflow)
    (outputs : List (Text × Text)) :
    IsMove cfg ctx (.postCompact summary current forced) answer
      (ctx.compacted summary current forced outputs) := by
  have hzero := images_handoffHistory summary outputs current
  cases forced with
  | none =>
      refine isMove_request rfl (fun h => nomatch h) rfl ?_
      exact Nat.le_trans (Nat.le_of_eq hzero) (Nat.zero_le _)
  | some overflow =>
      have hgauge : (ctx.compacted summary current (some overflow) outputs).1.1.gauge =
          { ctx.gauge with round := ctx.gauge.round - 1, images := 0 } := by
        rw [← hzero]
        rfl
      unfold IsMove
      rw [hgauge]
      exact Move.refund

theorem gauge_recordReading (response : LlmResponse) :
    (ctx.recordReading response).gauge = ctx.gauge := by
  unfold RunCtx.recordReading
  split_ifs
  · rfl
  · split <;> rfl

theorem gauge_push_assistant (text : Text) (calls : List ToolCall) (details : Option Json) :
    (ctx.push [.assistant text calls details]).gauge = ctx.gauge := by
  simp [RunCtx.gauge, RunCtx.push, images, HistoryItem.images]

theorem isMove_responded (response : LlmResponse) :
    IsMove cfg ctx .completing (.completion (.ok response)) (ctx.responded cfg mcp response) := by
  have hread := @gauge_recordReading ctx response
  unfold RunCtx.responded
  generalize ctx.recordReading response = ctx' at hread ⊢
  have hplain := @gauge_push_assistant ctx' response.text [] response.reasoningDetails
  dsimp only
  split_ifs with hcut hspent hnone htool hstop
  · exact isMove_return rfl (by rw [Same, hplain, hread]) _
  · have hleft : ctx.gauge.tokenRecoveries < cfg.maxTokenRecoveries := by
      rw [← hread]
      exact Nat.lt_of_not_le hspent
    have hgauge : ((ctx'.push [.assistant response.text [] response.reasoningDetails]).push
        [.user maxTokensRecoveryMessage]).gauge = ctx.gauge := by
      rw [← hread, ← hplain]
      simp [RunCtx.gauge, RunCtx.push, images, HistoryItem.images]
    have hmove := @Move.cutShort cfg ctx.gauge (.completion (.ok response)) hleft
    rw [← hgauge] at hmove
    unfold IsMove
    rw [← hgauge]
    exact hmove
  · exact isMove_return rfl (by rw [Same, hread]) _
  · have hleft : ctx.gauge.stops < cfg.stopMaxRejections := by
      rw [← hread]
      exact hstop.2
    unfold IsMove
    rw [hplain, hread]
    exact Move.gate hleft
  · exact isMove_return rfl (by rw [Same, hplain, hread]) _
  · have hcalls := @gauge_push_assistant ctx' response.text
      (response.toolCalls.take maxToolCallsPerTurn) response.reasoningDetails
    have hmove := @Move.call cfg ctx.gauge response
      (response.toolCalls.take maxToolCallsPerTurn)
      (List.replicate (response.toolCalls.take maxToolCallsPerTurn).length none) hcut
      (by simpa using hnone)
    rw [← hread, ← hcalls] at hmove
    unfold IsMove
    rw [← hread, ← hcalls]
    exact hmove

theorem isMove_completed (result : Except AgentError LlmResponse) :
    IsMove cfg ctx .completing (.completion result) (ctx.completed cfg mcp result) := by
  unfold RunCtx.completed
  split_ifs
  · exact isMove_return rfl rfl _
  · split
    · next response => exact isMove_responded response
    · next detail =>
        dsimp only [replaceUnsupportedImages]
        split_ifs with hnone
        · refine isMove_return ?_ ?_ _
          · rfl
          · rfl
        · have hzero : images (ctx.history.map HistoryItem.replaceImages) = 0 := by
            apply images_of_forall
            intro item hitem
            obtain ⟨before, -, rfl⟩ := List.mem_map.1 hitem
            exact images_replaceImages before
          exact Move.dropImages (hzero ▸ Nat.pos_of_ne_zero hnone)
    · exact @isMove_recover cfg ctx _ .completing rfl rfl _
    · exact isMove_return rfl rfl _

theorem isMove_objected (outputs : List (Text × Text)) (ordinal : Nat → Nat) :
    IsMove cfg ctx .stopping answer (ctx.objected cfg outputs ordinal) := by
  unfold RunCtx.objected
  extract_lets nag objections ctx' numbered
  have hnag : ctx'.gauge = ctx.gauge := by
    simp only [ctx']
    split <;> rfl
  split_ifs
  · exact isMove_return rfl (by rw [Same, hnag]) _
  · have himages := images_pushHookOutputs ctx'.history "_Stop".toList numbered
    have hmove := @Move.object cfg ctx'.gauge answer
    unfold IsMove
    rw [← hnag]
    simp only [RunCtx.gauge, himages] at hmove ⊢
    exact hmove

theorem isMove_preflightCall {calls : List ToolCall} {idx : Nat}
    {results : List (Option ToolResult)} {runnable : List Nat}
    (haccepts : ctx.accepts (.preflight calls idx results runnable) answer = true) :
    IsMove cfg ctx (.preflight calls idx results runnable) answer
      (ctx.preflightCall mcp calls idx results runnable answer) := by
  unfold RunCtx.preflightCall
  split
  · exact Move.launch
  · next call hcall =>
      have hidx : idx < calls.length := (List.getElem?_eq_some_iff.1 hcall).1
      split_ifs with hcancel hskill hunknown
      · refine isMove_return ?_ ?_ _
        · rfl
        · rfl
      · split
        · exact Move.check hidx (Nat.le_succ _)
        · next hother =>
            -- nothing else is awaited here
            exfalso
            cases answer with
            | skill content isError => exact hother content isError rfl
            | _ => simp [RunCtx.accepts, RunCtx.awaitsSkill, hcall, hcancel, hskill] at haccepts
      · exact Move.check hidx (Nat.le_succ _)
      · exact Move.check hidx (by simp)

theorem isMove_executeParallel {calls : List ToolCall} {results : List (Option ToolResult)}
    {runnable pending : List Nat}
    (haccepts : ctx.accepts (.executing calls results runnable pending) answer = true) :
    IsMove cfg ctx (.executing calls results runnable pending) answer
      (ctx.executeParallel calls results runnable pending answer) := by
  have hfewer : ∀ i ∈ pending, (pending.erase i).length < pending.length := by
    intro i hi
    rw [List.length_erase_of_mem hi]
    exact Nat.sub_lt (List.length_pos_of_mem hi) Nat.one_pos
  unfold RunCtx.executeParallel
  cases answer with
  | joined i finish =>
      have hi : i ∈ pending := of_decide_eq_true haccepts
      simp only [if_pos hi]
      exact Move.join (hfewer i hi)
  | joinFailed i => exact Move.join (hfewer i (of_decide_eq_true haccepts))
  | tick =>
      have hdone : (pending.isEmpty || ctx.cancel) = true := haccepts
      simp only [hdone, if_true]
      split_ifs
      · refine isMove_return ?_ ?_ _
        · rfl
        · rfl
      · exact Move.collect
  | _ => cases haccepts

theorem isMove_poll {phase : RunPhase} (haccepts : ctx.accepts phase answer = true) :
    IsMove cfg ctx phase answer (ctx.poll cfg mcp phase answer) := by
  cases phase with
  | starting prompt =>
      cases answer with
      | tick => exact isMove_start prompt
      | _ => cases haccepts
  | top =>
      cases answer with
      | tick => exact isMove_boundary
      | _ => cases haccepts
  | summarizing forced =>
      cases answer with
      | summary text => exact isMove_summarized forced text
      | _ => cases haccepts
  | postCompact summary current forced =>
      cases answer with
      | hooks outputs ordinal => exact isMove_compacted summary current forced outputs
      | _ => cases haccepts
  | completing =>
      cases answer with
      | completion result => exact isMove_completed result
      | _ => cases haccepts
  | stopping =>
      cases answer with
      | hooks outputs ordinal => exact isMove_objected outputs ordinal
      | _ => cases haccepts
  | preflight calls idx results runnable => exact isMove_preflightCall haccepts
  | executing calls results runnable pending => exact isMove_executeParallel haccepts
  | returned result => cases haccepts

end Stretches

/-! ## The budgets -/

namespace RunPhase

/-- A recovery is under way whose request has not been refunded. -/
def unrefunded : RunPhase → Nat
  | .summarizing (some _) => 1
  | .postCompact _ _ (some _) => 1
  | _ => 0

/-- A request follows, unless the run ends. -/
def owed : RunPhase → Nat
  | .summarizing none => 1
  | .postCompact _ _ none => 1
  | _ => 0

end RunPhase

/-- What has been spent, by the counters of the run. -/
structure Spent (cfg : Config) (requests summaries rejections : Nat) (g : Gauge)
    (phase : RunPhase) : Prop where
  requests : 0 < cfg.maxRounds → requests + phase.unrefunded ≤ g.round + g.recoveries
  rounds : 0 < cfg.maxRounds → g.round + phase.owed ≤ cfg.maxRounds
  recoveries : g.recoveries ≤ maxContextRecoveriesPerRun
  summaries : summaries ≤ g.attempts + g.recoveries
  attempts : g.attempts ≤ cfg.maxHandoffs
  rejections : rejections ≤ g.stops
  stops : g.stops + (if phase.isStopping then 1 else 0) ≤ cfg.stopMaxRejections

theorem saturatingU32_succ {n max : Nat} (h : n < max) (hmax : max < 2 ^ 32) :
    saturatingU32 (n + 1) = n + 1 := by
  unfold saturatingU32
  omega

theorem round_request {cfg : Config} (hcfg : cfg.Typed) {requests summaries rejections : Nat}
    {g : Gauge} {phase : RunPhase} (h : Spent cfg requests summaries rejections g phase)
    (hasks : phase.asks = true)
    (htop : phase.isTop = true → 0 < cfg.maxRounds → g.round < cfg.maxRounds)
    (hpos : 0 < cfg.maxRounds) :
    saturatingU32 (g.round + 1) = g.round + 1 ∧ g.round + 1 ≤ cfg.maxRounds := by
  have hleft : g.round < cfg.maxRounds := by
    have howed := h.rounds hpos
    cases phase with
    | top => exact htop rfl hpos
    | summarizing forced =>
        cases forced with
        | none => exact howed
        | some overflow => cases hasks
    | postCompact summary current forced =>
        cases forced with
        | none => exact howed
        | some overflow => cases hasks
    | _ => cases hasks
  exact ⟨saturatingU32_succ hleft hcfg.1, hleft⟩

theorem Spent.move {cfg : Config} (hcfg : cfg.Typed) {requests summaries rejections k : Nat}
    {g g' : Gauge} {phase phase' : RunPhase} {answer : Answer}
    (h : Spent cfg requests summaries rejections g phase)
    (hmove : Move cfg g phase answer g' phase' k) :
    Spent cfg (requests + k) (summaries + if phase'.isSummarizing then 1 else 0)
      (rejections + if phase.isStopping && phase'.isTop then 1 else 0) g' phase' := by
  have hround := @round_request cfg hcfg requests summaries rejections g phase h
  obtain ⟨hrequests, hrounds, hrecoveries, hsummaries, hattempts, hrejections, hstops⟩ := h
  cases hmove with
  | request hasks htop hless =>
      have hnot : ∀ flag : Bool, rejections + (if flag && false then 1 else 0) = rejections := by
        simp
      exact
        { requests := fun hpos => by
            obtain ⟨hsat, -⟩ := hround hasks htop hpos
            have hbefore := hrequests hpos
            simp only [RunPhase.unrefunded, hsat]
            omega
          rounds := fun hpos => by
            obtain ⟨hsat, hle⟩ := hround hasks htop hpos
            simpa only [RunPhase.owed, hsat] using hle
          recoveries := hrecoveries
          summaries := hsummaries
          attempts := hattempts
          rejections := (hnot phase.isStopping).trans_le hrejections
          stops := Nat.le_trans (Nat.le_add_right _ _) hstops }
  | compact summary current hless =>
      -- what is owed stays owed while the hooks run
      have hsame : ∀ forced, (RunPhase.postCompact summary current forced).unrefunded =
          (RunPhase.summarizing forced).unrefunded ∧
          (RunPhase.postCompact summary current forced).owed =
            (RunPhase.summarizing forced).owed := by
        intro forced
        cases forced <;> exact ⟨rfl, rfl⟩
      constructor <;> simp only [(hsame _).1, (hsame _).2, RunPhase.isSummarizing, RunPhase.isTop,
        RunPhase.isStopping, Bool.and_false, Bool.false_eq_true, if_false] at * <;> omega
  | object =>
      -- the hooks were asked because the budget was not used up
      have hleft : g.stops < cfg.stopMaxRejections := hstops
      have hone := saturatingU32_succ hleft hcfg.2.2
      constructor <;> simp only [RunPhase.unrefunded, RunPhase.owed, RunPhase.isSummarizing,
        RunPhase.isTop, RunPhase.isStopping, Bool.and_true, Bool.false_eq_true, if_true,
        if_false] at * <;> omega
  | _ =>
      constructor <;> simp only [RunPhase.unrefunded, RunPhase.owed, RunPhase.isSummarizing,
        RunPhase.isTop, RunPhase.isStopping, Bool.and_true, Bool.and_false, Bool.false_eq_true,
        if_true, if_false] at * <;> omega

theorem gauge_received (m : Meter) (t : Turn) : (m.received t).gauge = m.ctx.gauge := by
  unfold Meter.received
  generalize m.ctx = ctx
  induction t.inputs generalizing ctx with
  | nil => rfl
  | cons i inputs ih =>
      rw [List.foldl_cons, ih]
      cases i <;> rfl

def Meter.Within (cfg : Config) (m : Meter) : Prop :=
  Spent cfg m.requests m.summaries m.rejections m.ctx.gauge m.phase

theorem within_start {cfg : Config} (history : History) (inputTokens historyBytes : Option Nat)
    (prompt : List ContentBlock) :
    (Meter.start (.fresh history inputTokens historyBytes) prompt).Within cfg := by
  constructor <;> simp [Meter.start, RunCtx.gauge, RunCtx.fresh, RunPhase.unrefunded,
    RunPhase.owed, RunPhase.isStopping]

theorem within_step {cfg : Config} (hcfg : cfg.Typed) (mcp : McpRegistry) {m : Meter} (t : Turn)
    (h : m.Within cfg) : (m.step cfg mcp t).Within cfg := by
  have hsame := gauge_received m t
  unfold Meter.step
  split_ifs with haccepts
  · have hmove := @isMove_poll cfg mcp (m.received t) t.answer m.phase haccepts
    unfold IsMove at hmove
    rw [hsame] at hmove
    exact Spent.move hcfg h hmove
  · unfold Meter.Within at h ⊢
    rw [hsame]
    exact h

/-! ## What falls -/

/-- What is left of the budgets, and the images. -/
def Gauge.slack (cfg : Config) (g : Gauge) : Nat :=
  (maxContextRecoveriesPerRun - g.recoveries) + (cfg.maxTokenRecoveries - g.tokenRecoveries) +
    (cfg.stopMaxRejections - g.stops) + g.images

/-- How far a phase is from the point where a budget is used. -/
def RunPhase.rank : RunPhase → Nat
  | .starting _ => 9
  | .summarizing (some _) => 8
  | .postCompact _ _ (some _) => 7
  | .top => 6
  | .summarizing none => 5
  | .postCompact _ _ none => 4
  | .completing => 3
  | .stopping => 2
  | _ => 1

/-- First the tool calls of a response, which may add images; then the budgets and the phase. -/
def effort (cfg : Config) (g : Gauge) : RunPhase → Nat × Nat
  | .preflight calls idx _ runnable => (1, 2 * (calls.length - idx) + runnable.length + 2)
  | .executing _ _ _ pending => (1, pending.length + 1)
  | .returned _ => (0, 0)
  | phase => (0, 10 * g.slack cfg + phase.rank)

theorem effort_pos {cfg : Config} (g : Gauge) {phase : RunPhase}
    (h : phase.isReturned = false) : Prod.Lex (· < ·) (· < ·) (0, 0) (effort cfg g phase) := by
  cases phase with
  | preflight calls idx results runnable => exact .left _ _ Nat.one_pos
  | executing calls results runnable pending => exact .left _ _ Nat.one_pos
  | returned result => cases h
  | summarizing forced => cases forced <;> exact .right _ (Nat.succ_pos _)
  | postCompact summary current forced => cases forced <;> exact .right _ (Nat.succ_pos _)
  | _ => exact .right _ (Nat.succ_pos _)

theorem effort_falls {cfg : Config} (hcfg : cfg.Typed) {requests summaries rejections k : Nat}
    {g g' : Gauge} {phase phase' : RunPhase} {answer : Answer}
    (h : Spent cfg requests summaries rejections g phase)
    (hmove : Move cfg g phase answer g' phase' k)
    (hnone : ∀ response, phase = .completing → answer = .completion (.ok response) →
      response.stop ≠ .maxTokens → response.toolCalls = []) :
    Prod.Lex (· < ·) (· < ·) (effort cfg g' phase') (effort cfg g phase) := by
  cases hmove with
  | finish result hphase hmore hmost => exact effort_pos g hphase
  | begin =>
      refine .right _ ?_
      simp only [RunPhase.rank]
      omega
  | handOff hleft hattempt hless =>
      refine .right _ ?_
      simp only [Gauge.slack, RunPhase.rank]
      omega
  | request hasks htop hless =>
      rename_i n
      have hafter : 10 * Gauge.slack cfg { g with
          round := saturatingU32 (g.round + 1), images := n } + 3 ≤ 10 * g.slack cfg + 3 := by
        simp only [Gauge.slack]
        omega
      cases phase with
      | top => exact .right _ (Nat.lt_of_le_of_lt hafter (Nat.add_lt_add_left (by decide) _))
      | summarizing forced =>
          cases forced with
          | none => exact .right _ (Nat.lt_of_le_of_lt hafter (Nat.add_lt_add_left (by decide) _))
          | some overflow => cases hasks
      | postCompact summary current forced =>
          cases forced with
          | none => exact .right _ (Nat.lt_of_le_of_lt hafter (Nat.lt_succ_self _))
          | some overflow => cases hasks
      | _ => cases hasks
  | compact summary current hless =>
      rename_i forced n
      cases forced with
      | none =>
          refine .right _ ?_
          simp only [Gauge.slack, RunPhase.rank]
          omega
      | some overflow =>
          refine .right _ ?_
          simp only [Gauge.slack, RunPhase.rank]
          omega
  | rung overflow hphase hleft =>
      -- a rung is worth more than the way back from the summary
      have hafter :
          Gauge.slack cfg { g with recoveries := g.recoveries + 1 } + 1 = g.slack cfg := by
        simp only [Gauge.slack]
        omega
      cases phase with
      | completing =>
          refine .right _ ?_
          simp only [RunPhase.rank]
          omega
      | summarizing forced =>
          cases forced with
          | none => cases hphase
          | some overflow' =>
              refine .right _ ?_
              simp only [RunPhase.rank]
              omega
      | _ => cases hphase
  | refund =>
      refine .right _ ?_
      simp only [Gauge.slack, RunPhase.rank]
      omega
  | dropImages hless =>
      refine .right _ ?_
      simp only [Gauge.slack, RunPhase.rank]
      omega
  | cutShort hleft =>
      refine .right _ ?_
      simp only [Gauge.slack, RunPhase.rank, saturatingU32_succ hleft hcfg.2.1]
      omega
  | gate hleft => exact .right _ (Nat.add_lt_add_left (by decide) _)
  | object =>
      have hleft : g.stops < cfg.stopMaxRejections := h.stops
      refine .right _ ?_
      simp only [Gauge.slack, RunPhase.rank, saturatingU32_succ hleft hcfg.2.2]
      omega
  | call calls results hcut hcalls => exact absurd (hnone _ rfl rfl hcut) hcalls
  | check hidx hlen =>
      refine .right _ ?_
      omega
  | launch =>
      refine .right _ ?_
      omega
  | join hless =>
      refine .right _ ?_
      omega
  | collect => exact .left _ _ Nat.one_pos

/-! ## Whole runs -/

/-- The run with what it has spent, after the first turns. -/
def Meter.at (cfg : Config) (mcp : McpRegistry) (m : Meter) (turns : Nat → Turn) (n : Nat) :
    Meter :=
  Run.after (Meter.step cfg mcp) m turns n

theorem within_at {cfg : Config} (hcfg : cfg.Typed) (mcp : McpRegistry) {m : Meter}
    (h : m.Within cfg) (turns : Nat → Turn) (n : Nat) : (m.at cfg mcp turns n).Within cfg :=
  Run.invariant_after (Meter.Within cfg) (fun _ t => within_step hcfg mcp t) h turns n

theorem tool_responses_recur {cfg : Config} (hcfg : cfg.Typed) (mcp : McpRegistry) {m : Meter}
    (h : m.Within cfg) {turns : Nat → Turn}
    (haccepts : ∀ n, (m.at cfg mcp turns n).Accepts (turns n)) (n : Nat) :
    ∃ k, n ≤ k ∧ (m.at cfg mcp turns k).ToolResponse (turns k) := by
  have hwf : WellFounded (Prod.Lex (· < ·) (· < ·) : Nat × Nat → Nat × Nat → Prop) :=
    Nat.lt_wfRel.wf.prod_lex Nat.lt_wfRel.wf
  refine Run.recurs hwf (fun k => effort cfg (m.at cfg mcp turns k).ctx.gauge
    (m.at cfg mcp turns k).phase) (fun k hnone => ?_) n
  have hspent := within_at hcfg mcp h turns k
  have hturn : ((m.at cfg mcp turns k).received (turns k)).accepts
      (m.at cfg mcp turns k).phase (turns k).answer = true := haccepts k
  have hnext : m.at cfg mcp turns (k + 1) = (m.at cfg mcp turns k).step cfg mcp (turns k) := rfl
  rw [hnext]
  generalize m.at cfg mcp turns k = now at hspent hturn hnone ⊢
  have hmove := @isMove_poll cfg mcp (now.received (turns k)) (turns k).answer now.phase hturn
  unfold IsMove at hmove
  rw [gauge_received] at hmove
  rw [Meter.step, if_pos hturn]
  refine effort_falls hcfg hspent hmove fun response hphase hanswer hcut => ?_
  by_contra hcalls
  exact hnone ⟨hphase, response, hanswer, hcut, hcalls⟩

/-- In every run of a prompt on any session, with any answers of the provider, the summarizer, the
hooks and the tools: the requests, the summaries and the rejections stay within their budgets, and a
run that never ends has no end of responses with tool calls. -/
theorem run_is_bounded (cfg : Config) (hcfg : cfg.Typed) (mcp : McpRegistry) (history : History)
    (inputTokens historyBytes : Option Nat) (prompt : List ContentBlock) (turns : Nat → Turn) :
    let run := (Meter.start (.fresh history inputTokens historyBytes) prompt).at cfg mcp turns
    (∀ n, (0 < cfg.maxRounds →
          (run n).requests ≤ cfg.maxRounds + maxContextRecoveriesPerRun) ∧
        (run n).summaries ≤ cfg.maxHandoffs + maxContextRecoveriesPerRun ∧
        (run n).rejections ≤ cfg.stopMaxRejections) ∧
      ((∀ n, (run n).Accepts (turns n)) →
        ∀ n, ∃ k, n ≤ k ∧ (run k).ToolResponse (turns k)) := by
  intro run
  have hstart := @within_start cfg history inputTokens historyBytes prompt
  refine ⟨fun n => ?_, fun haccepts => tool_responses_recur hcfg mcp hstart haccepts⟩
  have hspent : (run n).Within cfg := within_at hcfg mcp hstart turns n
  refine ⟨fun hpos => ?_, ?_, ?_⟩
  · have hrequests := hspent.requests hpos
    have hrounds := hspent.rounds hpos
    have hrecoveries := hspent.recoveries
    omega
  · have hsummaries := hspent.summaries
    have hattempts := hspent.attempts
    have hrecoveries := hspent.recoveries
    omega
  · have hrejections := hspent.rejections
    have hstops := hspent.stops
    omega

/-! ## A run without an end -/

/-- A configuration without a limit of rounds. -/
def endlessCfg : Config := ⟨0, 0, 16 * 1024 * 1024, 200000, 3, 3, false⟩

def emptyRegistry : McpRegistry := ⟨fun _ => false, fun _ => false⟩

/-- A response that calls a tool that does not exist. -/
def unknownCall : LlmResponse where
  text := []
  toolCalls := [⟨"c".toList, "x".toList, .obj [], []⟩]
  stop := .toolUse
  inputTokens := none
  inputTokensOverflowed := false
  reasoningDetails := none

/-- What the awaits of a round return: the request, its answer, the check of the call, the launch of
no task and the end of the round. -/
def roundAnswer : Nat → Answer
  | 1 => .completion (.ok unknownCall)
  | _ => .tick

def endlessTurns : Nat → Turn
  | 0 => ⟨[], .tick⟩
  | n + 1 => ⟨[], roundAnswer (n % 5)⟩

/-- The five awaits of a round, from the head of the loop. -/
def Stage (m : Meter) : Nat → Prop
  | 0 => m.ctx.cancel = false ∧ m.phase = .top
  | 1 => m.ctx.cancel = false ∧ m.phase = .completing
  | 2 => m.ctx.cancel = false ∧ ∃ results, m.phase = .preflight unknownCall.toolCalls 0 results []
  | 3 => m.ctx.cancel = false ∧ ∃ results, m.phase = .preflight unknownCall.toolCalls 1 results []
  | _ => m.ctx.cancel = false ∧ ∃ results, m.phase = .executing unknownCall.toolCalls results [] []

theorem name_unknownCall {call : ToolCall} (h : unknownCall.toolCalls[0]? = some call) :
    call.name ≠ RunCtx.loadSkillTool := by
  have hname : "x".toList ≠ RunCtx.loadSkillTool := by decide
  obtain rfl := Option.some.inj h
  exact hname

theorem stage_poll {m : Meter} {s : Nat} (hs : s < 5) (h : Stage m s) :
    m.ctx.accepts m.phase (roundAnswer s) = true ∧
      Stage (m.count (m.ctx.poll endlessCfg emptyRegistry m.phase (roundAnswer s)))
        ((s + 1) % 5) := by
  obtain ⟨ctx, phase, requests, summaries, rejections⟩ := m
  match s, hs with
  | 0, _ =>
      obtain ⟨hcancel, rfl⟩ := h
      have hflag : ctx.cancel = false := hcancel
      refine ⟨rfl, ?_⟩
      simp [Stage, Meter.count, roundAnswer, RunCtx.poll, RunCtx.boundary, endlessCfg, hflag,
        RunCtx.truncateAndRequest, RunCtx.request, RunCtx.drainSteers, RunCtx.push]
  | 1, _ =>
      obtain ⟨hcancel, rfl⟩ := h
      have hflag : ctx.cancel = false := hcancel
      refine ⟨rfl, ?_⟩
      simp [Stage, Meter.count, roundAnswer, RunCtx.poll, RunCtx.completed, hflag,
        RunCtx.responded, RunCtx.recordReading, unknownCall, RunCtx.push, maxToolCallsPerTurn]
  | 2, _ =>
      obtain ⟨hcancel, results, rfl⟩ := h
      have hflag : ctx.cancel = false := hcancel
      obtain ⟨call, hcall⟩ : ∃ call, unknownCall.toolCalls[0]? = some call := ⟨_, rfl⟩
      have hname := name_unknownCall hcall
      constructor
      · simp [roundAnswer, RunCtx.accepts, RunCtx.awaitsSkill, hcall, hname]
      · simp [Stage, Meter.count, RunCtx.poll, RunCtx.preflightCall, hcall, hflag, hname,
          emptyRegistry]
  | 3, _ =>
      obtain ⟨hcancel, results, rfl⟩ := h
      exact ⟨rfl, hcancel, results, rfl⟩
  | 4, _ =>
      obtain ⟨hcancel, results, rfl⟩ := h
      have hflag : ctx.cancel = false := hcancel
      refine ⟨rfl, ?_⟩
      simp [Stage, Meter.count, roundAnswer, RunCtx.poll, RunCtx.executeParallel, hflag]

/-- The run of a prompt that never ends. -/
def endlessRun : Nat → Meter :=
  (Meter.start (.fresh [] none none) [.text "hi".toList]).at endlessCfg emptyRegistry endlessTurns

theorem stage_endlessRun (n : Nat) : Stage (endlessRun (n + 1)) (n % 5) := by
  induction n with
  | zero => exact ⟨rfl, rfl⟩
  | succ n ih =>
      obtain ⟨haccepts, hnext⟩ := stage_poll (Nat.mod_lt n (by decide)) ih
      have hstep : endlessRun (n + 2) = (endlessRun (n + 1)).count
          ((endlessRun (n + 1)).ctx.poll endlessCfg emptyRegistry (endlessRun (n + 1)).phase
            (roundAnswer (n % 5))) := if_pos haccepts
      rw [hstep, ← Nat.mod_add_mod]
      exact hnext

theorem accepts_endlessRun (n : Nat) : (endlessRun n).Accepts (endlessTurns n) := by
  cases n with
  | zero => rfl
  | succ n => exact (stage_poll (Nat.mod_lt n (by decide)) (stage_endlessRun n)).1

/-- The bounds hold of a run that never ends, and it is answered with tool calls for ever. -/
theorem run_is_bounded_endless :
    (endlessRun 12).summaries ≤ 3 ∧
      ∀ n, ∃ k, n ≤ k ∧ (endlessRun k).ToolResponse (endlessTurns k) := by
  obtain ⟨hbounds, hrecur⟩ := run_is_bounded endlessCfg (by unfold Config.Typed; decide)
    emptyRegistry [] none none [.text "hi".toList] endlessTurns
  exact ⟨(hbounds 12).2.1, hrecur accepts_endlessRun⟩

end Agent
end Maju
