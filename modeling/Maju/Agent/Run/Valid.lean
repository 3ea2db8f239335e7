import Maju.Agent.Run.Loop
import Maju.Lib.Trace

/-!
# Valid — every request and every stored history is provider-valid

`RunValid` says for each phase of a run what its history looks like: provider-valid at every await
of the loop, with the results of the last assistant item outstanding while its calls execute.  Each
stretch of the run keeps it, so it holds in every state of every run of a session.
-/

namespace Maju
namespace Agent

open Lib

/-- What `complete` may be given. -/
structure ProviderValid (history : History) : Prop where
  startsWithUser : StartsWithUser history
  paired : Paired history

/-- A stored history is provider-valid; before the first accepted prompt it is empty. -/
def Stored (log : List Event) (history : History) : Prop :=
  ProviderValid history ∨ history = [] ∧ ∀ prompt, Event.accepted prompt ∉ log

/-- Each filled slot is labelled with the id of its call. -/
def Labelled (calls : List ToolCall) (results : List (Option ToolResult)) : Prop :=
  ∀ (i : Nat) (call : ToolCall) (r : ToolResult), calls[i]? = some call →
    results.getD i none = some r → r.providerId = call.providerId

/-- The last item is an assistant item whose calls are outstanding. -/
def Outstanding (history : History) (calls : List ToolCall) : Prop :=
  ∃ before text reasoningDetails, ProviderValid before ∧
    history = before ++ [.assistant text calls reasoningDetails]

/-- The history of a run, by phase. -/
def RunValid (log : List Event) (ctx : RunCtx) : RunPhase → Prop
  | .starting _ | .returned _ => Stored log ctx.history
  | .top | .summarizing _ | .completing | .stopping => ProviderValid ctx.history
  -- the history has been cleared and is rebuilt from the summary
  | .postCompact _ _ _ => True
  | .preflight calls _ results _ | .executing calls results _ _ =>
      Outstanding ctx.history calls ∧ Labelled calls results

/-- A stretch leaves a valid run behind and makes valid requests only. -/
structure Sound (log : List Event) (out : RunCtx.Outcome) : Prop where
  run : RunValid (log ++ out.2) out.1.1 out.1.2
  requested : ∀ history, Event.requested history ∈ out.2 → ProviderValid history
  ended : ∀ result history, Event.ended result history ∉ out.2

/-! ## Histories -/

namespace ProviderValid

theorem append {history items : History} (h : ProviderValid history) (hitems : Paired items) :
    ProviderValid (history ++ items) :=
  ⟨h.startsWithUser.append items, h.paired.append hitems⟩

theorem truncateHistory {history : History} (h : ProviderValid history) (maxBytes : Nat) :
    ProviderValid (truncateHistory history maxBytes) :=
  ⟨h.startsWithUser.truncateHistory maxBytes, h.paired.truncateHistory maxBytes⟩

theorem replaceUnsupportedImages {history : History} (h : ProviderValid history) :
    ProviderValid (replaceUnsupportedImages history).1 := by
  refine ⟨?_, h.paired.map_replaceImages⟩
  rcases h.startsWithUser with ⟨text, rest, rfl⟩
  exact ⟨text, rest.map HistoryItem.replaceImages, rfl⟩

theorem handoffHistory (summary : Text) (postCompact : List (Text × Text))
    (current : Option Text) : ProviderValid (handoffHistory summary postCompact current) :=
  ⟨⟨_, _, rfl⟩, .handoffHistory summary postCompact current⟩

end ProviderValid

theorem Stored.push_user {log : List Event} {history : History} (h : Stored log history)
    (text : Text) : ProviderValid (history ++ [.user text]) := by
  rcases h with hvalid | ⟨rfl, _⟩
  · exact hvalid.append (.user text .nil)
  · exact ⟨⟨text, [], rfl⟩, .user text .nil⟩

theorem Stored.append_log {log : List Event} {history : History} (h : Stored log history)
    {events : List Event} (hevents : ∀ prompt, Event.accepted prompt ∉ events) :
    Stored (log ++ events) history := by
  rcases h with hvalid | ⟨hempty, hlog⟩
  · exact .inl hvalid
  · refine .inr ⟨hempty, fun prompt hmem => ?_⟩
    rcases List.mem_append.1 hmem with h | h
    · exact hlog prompt h
    · exact hevents prompt h

theorem Labelled.set {calls : List ToolCall} {results : List (Option ToolResult)}
    (h : Labelled calls results) {i : Nat} {call : ToolCall} (hcall : calls[i]? = some call)
    {result : ToolResult} (hid : result.providerId = call.providerId) :
    Labelled calls (results.set i (some result)) := by
  intro j call' r hcall' hr
  rw [List.getD_eq_getElem?_getD, List.getElem?_set] at hr
  by_cases hij : i = j
  · subst hij
    rw [hcall] at hcall'
    cases hcall'
    split at hr
    · split at hr
      · cases hr
        exact hid
      · cases hr
    · exact absurd rfl ‹_›
  · rw [if_neg hij, ← List.getD_eq_getElem?_getD] at hr
    exact h j call' r hcall' hr

theorem Labelled.fillCancelled {calls : List ToolCall} {results : List (Option ToolResult)}
    (h : Labelled calls results) (slots : List Nat) :
    Labelled calls (RunCtx.fillCancelled calls slots results) := by
  intro i call r hcall hr
  rw [RunCtx.fillCancelled, List.getD_eq_getElem?_getD, List.getElem?_map, List.getElem?_zipIdx,
    Nat.zero_add] at hr
  cases hresult : results[i]? with
  | none => simp [hresult] at hr
  | some result =>
      cases result with
      | some r' =>
          have hsame : r' = r := by simpa [hresult] using hr
          exact h i call r hcall (by rw [List.getD_eq_getElem?_getD, hresult, hsame]; rfl)
      | none =>
          simp only [hresult, hcall, Option.map_some, Option.getD_some] at hr
          split at hr
          · cases hr
            rfl
          · cases hr

theorem RunValid.append_log {log : List Event} {ctx : RunCtx} {phase : RunPhase}
    (h : RunValid log ctx phase) {events : List Event}
    (hevents : ∀ prompt, Event.accepted prompt ∉ events) : RunValid (log ++ events) ctx phase := by
  cases phase with
  | starting prompt => exact Stored.append_log h hevents
  | returned result => exact Stored.append_log h hevents
  | _ => exact h

theorem RunValid.congr {log : List Event} {ctx ctx' : RunCtx} {phase : RunPhase}
    (h : RunValid log ctx phase) (hhistory : ctx'.history = ctx.history) :
    RunValid log ctx' phase := by
  unfold RunValid at h ⊢
  rwa [hhistory]

/-! ## Stretches of the run -/

namespace RunCtx

variable {log : List Event} {ctx : RunCtx} {cfg : Config} {mcp : McpRegistry}

theorem sound_silent {phase : RunPhase} (h : RunValid log ctx phase) :
    Sound log ((ctx, phase), []) := by
  refine ⟨?_, ?_, ?_⟩
  · simpa using h
  · simp
  · simp

theorem sound_return (h : ProviderValid ctx.history) (result : Except AgentError StopReason) :
    Sound log (ctx.return_ result) :=
  sound_silent (.inl h)

theorem sound_request (h : ProviderValid ctx.history) : Sound log ctx.request := by
  refine ⟨h, fun history hmem => ?_, ?_⟩
  · rcases List.mem_singleton.1 hmem with ⟨⟩
    exact h
  · simp [request]

theorem sound_truncateAndRequest (h : ProviderValid ctx.history) :
    Sound log (ctx.truncateAndRequest cfg) :=
  sound_request (h.truncateHistory cfg.maxHistoryBytes)

theorem sound_start (h : Stored log ctx.history) (prompt : List ContentBlock) :
    Sound log (ctx.start prompt) := by
  unfold start
  split
  · exact sound_silent h
  · split
    · exact sound_silent h
    · refine ⟨h.push_user _, ?_, ?_⟩
      · simp
      · simp

theorem sound_boundary (h : ProviderValid ctx.history) : Sound log (ctx.boundary cfg) := by
  have hdrained : ProviderValid ctx.drainSteers.history := h.append (.users _)
  simp only [boundary]
  split
  · exact sound_return h _
  · split
    · exact sound_return h _
    · split
      · refine ⟨hdrained, ?_, ?_⟩
        · simp
        · simp
      · have hnext : Sound log (ctx.drainSteers.truncateAndRequest cfg) :=
          sound_truncateAndRequest hdrained
        refine ⟨hnext.run, fun history hmem => ?_, fun result history hmem => ?_⟩
        · refine hnext.requested history ?_
          simpa using hmem
        · refine hnext.ended result history ?_
          simpa using hmem

theorem sound_recover (h : ProviderValid ctx.history) (overflow : Overflow) :
    Sound log (ctx.recoverFromContextOverflow overflow) := by
  simp only [recoverFromContextOverflow]
  split
  · exact sound_return h _
  · split
    · exact sound_silent (.inl h)
    · exact sound_silent h

theorem sound_summarized (h : ProviderValid ctx.history) (forced : Option Overflow)
    (text : Option Text) : Sound log (ctx.summarized cfg forced text) := by
  simp only [summarized]
  split
  · exact sound_return h _
  · split
    · exact sound_silent trivial
    · split
      · exact sound_truncateAndRequest h
      · exact sound_recover h _

theorem sound_compacted (summary : Text) (current : Option Text) (forced : Option Overflow)
    (outputs : List (Text × Text)) : Sound log (ctx.compacted summary current forced outputs) := by
  have hfresh := ProviderValid.handoffHistory summary outputs current
  simp only [compacted]
  split
  · exact sound_request hfresh
  · exact sound_silent hfresh

theorem recordReading_history (response : LlmResponse) :
    (ctx.recordReading response).history = ctx.history := by
  unfold recordReading
  split
  · rfl
  · split <;> rfl

theorem sound_responded (h : ProviderValid ctx.history) (response : LlmResponse) :
    Sound log (ctx.responded cfg mcp response) := by
  have hctx : ProviderValid (ctx.recordReading response).history := by
    rwa [recordReading_history]
  have hplain := hctx.append (.plain response.text response.reasoningDetails)
  simp only [responded]
  split
  · split
    · exact sound_return hplain _
    · exact sound_silent (hplain.append (.user _ .nil))
  · split
    · split
      · exact sound_return hctx _
      · split
        · exact sound_silent hplain
        · exact sound_return hplain _
    · refine sound_silent ⟨⟨_, _, _, hctx, rfl⟩, fun i call r _ hr => ?_⟩
      -- no slot is filled yet
      rw [List.getD_eq_getElem?_getD, List.getElem?_replicate] at hr
      split at hr <;> cases hr

theorem sound_completed (h : ProviderValid ctx.history) (result : Except AgentError LlmResponse) :
    Sound log (ctx.completed cfg mcp result) := by
  simp only [completed]
  split
  · exact sound_return h _
  · split
    · exact sound_responded h _
    · split
      · exact sound_return h.replaceUnsupportedImages _
      · exact sound_silent h.replaceUnsupportedImages
    · exact sound_recover h _
    · exact sound_return h _

theorem sound_objected (h : ProviderValid ctx.history) (outputs : List (Text × Text))
    (ordinal : Nat → Nat) : Sound log (ctx.objected cfg outputs ordinal) := by
  simp only [objected]
  generalize (cfg.requireReply && !ctx.majuReplyCallSeen &&
    decide (ctx.replyNags < maxReplyNags)) = nag
  have hkeep : ProviderValid (if nag then { ctx with replyNags := ctx.replyNags + 1 } else
      ctx).history := by
    cases nag
    · exact h
    · exact h
  generalize
    (if nag = true then { ctx with replyNags := ctx.replyNags + 1 } else ctx) = asked at hkeep ⊢
  generalize outputs ++ (if nag = true then [(replyGuardServer, replyGuardNag)] else []) =
    objections
  split
  · exact sound_return hkeep _
  · have hpushed : ProviderValid (pushHookOutputsAsToolResults asked.history "_Stop".toList
        (objections.zipIdx.map fun p => (p.1.1, p.1.2, ordinal p.2))) :=
      ⟨hkeep.startsWithUser.append _, hkeep.paired.pushHookOutputs _ _⟩
    exact sound_silent hpushed

theorem valid_appendResults {calls : List ToolCall} {results : List (Option ToolResult)}
    (h : Outstanding ctx.history calls) (hlabelled : Labelled calls results) :
    ProviderValid (appendResults ctx.history calls results) := by
  rcases h with ⟨before, text, reasoningDetails, hbefore, hhistory⟩
  rw [hhistory]
  refine ⟨?_, hbefore.paired.appendResults text reasoningDetails hlabelled⟩
  exact (hbefore.startsWithUser.append _).append _

theorem sound_preflightCall {calls : List ToolCall} {results : List (Option ToolResult)}
    (h : Outstanding ctx.history calls) (hlabelled : Labelled calls results) (idx : Nat)
    (runnable : List Nat) (answer : Answer) :
    Sound log (ctx.preflightCall mcp calls idx results runnable answer) := by
  cases hcall : calls[idx]? with
  | none =>
      simp only [preflightCall, hcall]
      exact sound_silent ⟨h, hlabelled⟩
  | some call =>
      simp only [preflightCall, hcall]
      split
      · exact sound_return (valid_appendResults h (hlabelled.fillCancelled _)) _
      · split
        · split
          · exact sound_silent ⟨h, hlabelled.set hcall rfl⟩
          · exact sound_silent ⟨h, hlabelled⟩
        · split
          · exact sound_silent ⟨h, hlabelled.set hcall rfl⟩
          · exact sound_silent ⟨h, hlabelled⟩

theorem labelled_joinTask {calls : List ToolCall} {results : List (Option ToolResult)}
    (h : Labelled calls results) (i : Nat) (finish : TaskEnd) :
    Labelled calls (ctx.joinTask calls results i finish) := by
  unfold joinTask
  split
  · exact h
  · next call hcall =>
      split
      · exact h
      · refine h.set hcall ?_
        cases finish with
        | failed msg => rfl
        | answered content isError => rfl

theorem sound_executeParallel {calls : List ToolCall} {results : List (Option ToolResult)}
    (h : Outstanding ctx.history calls) (hlabelled : Labelled calls results)
    (runnable pending : List Nat) (answer : Answer) :
    Sound log (ctx.executeParallel calls results runnable pending answer) := by
  have hdone := valid_appendResults h (hlabelled.fillCancelled runnable)
  simp only [executeParallel]
  split
  · split
    · exact sound_silent ⟨h, labelled_joinTask hlabelled _ _⟩
    · exact sound_silent ⟨h, hlabelled⟩
  · exact sound_silent ⟨h, hlabelled⟩
  · split
    · split
      · exact sound_return hdone _
      · exact sound_silent hdone
    · exact sound_silent ⟨h, hlabelled⟩
  · exact sound_silent ⟨h, hlabelled⟩

theorem sound_poll {phase : RunPhase} (h : RunValid log ctx phase) (answer : Answer) :
    Sound log (ctx.poll cfg mcp phase answer) := by
  unfold poll
  split
  · exact sound_start h _
  · exact sound_boundary h
  · exact sound_summarized h _ _
  · exact sound_compacted _ _ _ _
  · exact sound_completed h _
  · exact sound_objected h _ _
  · exact sound_preflightCall h.1 h.2 _ _ _
  · exact sound_executeParallel h.1 h.2 _ _ _
  · exact sound_silent h

end RunCtx

/-! ## Runs of a session -/

namespace World

/-- The history of a session, at rest or in flight. -/
def CurrentValid (log : List Event) (s : Session) : Prop :=
  match s.active with
  | none => Stored log s.history
  | some (_, ctx, phase) => RunValid log ctx phase

def EndedStored : List Event → Prop :=
  AtEach fun before e => ∀ result history, e = .ended result history → Stored before history

structure Valid (w : World) : Prop where
  current : CurrentValid w.log w.session
  requested : ∀ history, Event.requested history ∈ w.log → ProviderValid history
  ended : EndedStored w.log

theorem valid_init : Valid init := by
  refine ⟨.inr ⟨rfl, ?_⟩, ?_, .nil⟩
  · simp [init]
  · simp [init]

theorem Valid.quiet {w : World} (h : Valid w) {session : Session} {events : List Event}
    (hcurrent : CurrentValid (w.log ++ events) session)
    (hrequested : ∀ history, Event.requested history ∈ events → ProviderValid history)
    (hended : ∀ result history, Event.ended result history ∉ events) :
    Valid ⟨session, w.log ++ events⟩ := by
  refine ⟨hcurrent, fun history hmem => ?_, h.ended.append_of_forall ?_⟩
  · rcases List.mem_append.1 hmem with hmem | hmem
    · exact h.requested history hmem
    · exact hrequested history hmem
  · rintro e hmem before result history rfl
    exact absurd hmem (hended result history)

theorem CurrentValid.append_log {log events : List Event} {s : Session} (h : CurrentValid log s)
    (hevents : ∀ prompt, Event.accepted prompt ∉ events) : CurrentValid (log ++ events) s := by
  unfold CurrentValid at h ⊢
  split at h
  · exact h.append_log hevents
  · exact h.append_log hevents

theorem valid_acquireSession {w : World} (h : Valid w) (runId : Text)
    (prompt : List ContentBlock) :
    Valid ⟨(w.session.acquireSession runId prompt).1,
      w.log ++ (w.session.acquireSession runId prompt).2⟩ := by
  unfold Session.acquireSession
  cases hactive : w.session.active with
  | some run => exact h.quiet (h.current.append_log (by simp)) (by simp) (by simp)
  | none =>
      have hstored := h.current
      simp only [CurrentValid, hactive] at hstored
      refine h.quiet ?_ (by simp) (by simp)
      rw [List.append_nil]
      exact hstored

theorem valid_steerSession {w : World} (h : Valid w) (expectedRunId : Text)
    (prompt : List ContentBlock) :
    Valid ⟨(w.session.steerSession expectedRunId prompt).1,
      w.log ++ (w.session.steerSession expectedRunId prompt).2⟩ := by
  have hrefused : ∀ message, Valid ⟨w.session, w.log ++ [.rejected message]⟩ :=
    fun message => h.quiet (h.current.append_log (by simp)) (by simp) (by simp)
  simp only [Session.steerSession]
  split
  · exact hrefused _
  · split
    · exact hrefused _
    · cases hactive : w.session.active with
      | none => exact hrefused _
      | some run =>
          rcases run with ⟨runId, ctx, phase⟩
          have hrun := h.current
          simp only [CurrentValid, hactive] at hrun
          dsimp only
          split
          · exact hrefused _
          · refine h.quiet ?_ (by simp) (by simp)
            exact (hrun.append_log (by simp)).congr rfl

theorem valid_cancelSession {w : World} (h : Valid w) :
    Valid ⟨w.session.cancelSession, w.log ++ []⟩ := by
  unfold Session.cancelSession
  cases hactive : w.session.active with
  | none => exact h.quiet (h.current.append_log (by simp)) (by simp) (by simp)
  | some run =>
      rcases run with ⟨runId, ctx, phase⟩
      have hrun := h.current
      simp only [CurrentValid, hactive] at hrun
      exact h.quiet ((hrun.append_log (by simp)).congr rfl) (by simp) (by simp)

theorem valid_settle {w : World} (h : Valid w) {ctx : RunCtx} (hstored : Stored w.log ctx.history)
    (result : Except AgentError StopReason) :
    Valid ⟨(w.session.settle ctx result).1, w.log ++ (w.session.settle ctx result).2⟩ := by
  refine ⟨hstored.append_log (by simp [Session.settle]), fun history hmem => ?_,
    h.ended.concat ?_⟩
  · have hlog : Event.requested history ∈ w.log := by simpa [Session.settle] using hmem
    exact h.requested history hlog
  · rintro result' history hevent
    cases hevent
    exact hstored

theorem valid_step {w : World} (h : Valid w) (cfg : Config) (mcp : McpRegistry) (i : SessionInput) :
    Valid (w.step cfg mcp i) := by
  cases i with
  | prompt runId prompt => exact valid_acquireSession h runId prompt
  | steer expectedRunId prompt => exact valid_steerSession h expectedRunId prompt
  | cancel => exact valid_cancelSession h
  | poll answer =>
      have hcurrent := h.current
      unfold World.step Session.step
      dsimp only
      split
      · next hactive => exact h.quiet (h.current.append_log (by simp)) (by simp) (by simp)
      · next runId ctx result hactive =>
          simp only [CurrentValid, hactive] at hcurrent
          exact valid_settle h hcurrent result
      · next runId ctx phase _ hactive =>
          simp only [CurrentValid, hactive] at hcurrent
          have hsound : Sound w.log (ctx.poll cfg mcp phase answer) :=
            RunCtx.sound_poll hcurrent answer
          exact h.quiet hsound.run hsound.requested hsound.ended

theorem valid_after (cfg : Config) (mcp : McpRegistry) (inputs : List SessionInput) :
    Valid (after cfg mcp inputs) :=
  Run.invariant_of_step Valid (fun _ i h => valid_step h cfg mcp i) valid_init inputs

/-- In every run of a session each history passed to `complete` starts with a user item and is
paired.  So is each history stored back at the end of a run, unless no prompt of the session has
been accepted so far; then it is empty. -/
theorem history_stays_provider_valid (cfg : Config) (mcp : McpRegistry) (inputs : List SessionInput) :
    (∀ history, Event.requested history ∈ (after cfg mcp inputs).log →
      StartsWithUser history ∧ Paired history) ∧
    ∀ before result history rest,
      (after cfg mcp inputs).log = before ++ .ended result history :: rest →
      StartsWithUser history ∧ Paired history ∨
        history = [] ∧ ∀ prompt, Event.accepted prompt ∉ before := by
  have hvalid := valid_after cfg mcp inputs
  constructor
  · intro history hmem
    rcases hvalid.requested history hmem with ⟨hstarts, hpaired⟩
    exact ⟨hstarts, hpaired⟩
  · intro before result history rest hlog
    rcases hvalid.ended before _ rest hlog result history rfl with ⟨hstarts, hpaired⟩ | hempty
    · exact .inl ⟨hstarts, hpaired⟩
    · exact .inr hempty

namespace Sample

def cfg : Config := ⟨0, 10, 16 * 1024 * 1024, 200000, 3, 3, false⟩

def noTools : McpRegistry := ⟨fun _ => false, fun _ => false⟩

def runId : Text := "run_1".toList

/-- The first prompt of a session holds a block that the agent does not support. -/
def refusedPrompt : List SessionInput := [.prompt runId [.unsupported], .poll .tick, .poll .tick]

end Sample

/-- A refused first prompt stores an empty history back. -/
theorem refused_prompt_stores_nothing :
    ∃ result history, Event.ended result history ∈
      (after Sample.cfg Sample.noTools Sample.refusedPrompt).log ∧ ¬StartsWithUser history := by
  refine ⟨.error (.invalidParams unsupportedBlockMessage), [], ?_, ?_⟩
  · have hlog : (after Sample.cfg Sample.noTools Sample.refusedPrompt).log =
        [.ended (.error (.invalidParams unsupportedBlockMessage)) []] := rfl
    rw [hlog]
    exact List.mem_singleton_self _
  · rintro ⟨text, rest, h⟩
    cases h

end World

end Agent
end Maju
