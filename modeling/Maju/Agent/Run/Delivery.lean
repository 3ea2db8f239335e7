import Maju.Agent.Run.Loop

/-!
# Delivery — which inputs of a turn reach the provider

A turn is given inputs in two ways: the prompt that `run` accepts and the steers that are answered
with ok.  `Delivered` says that in every turn that ends without error and without cancellation each
of them is a user item of a request made after it was given, or of the history stored back.

`KeepsInputs` is the condition on single steps under which this holds.  It excludes the four ways an
input is lost: the turn ends with steers on the channel; a steer that does not render, or renders to
blank text, is dropped at the round boundary; a handoff keeps only the last of several inputs that no
request has shown; truncation drops the first of several such inputs.
-/

namespace Maju
namespace Agent

open Lib

/-- The input that an event acknowledges. -/
def Event.input? : Event → Option (List ContentBlock)
  | .accepted prompt | .steered prompt => some prompt
  | _ => none

/-- An input appears verbatim as a user item. -/
def Shown (prompt : List ContentBlock) (history : History) : Prop :=
  ∃ text, promptToText prompt = some text ∧ HistoryItem.user text ∈ history

/-- In each turn that ends without error or cancellation every acknowledged input is shown by a
later request of the turn or by the history stored back. -/
def Delivered (log : List Event) : Prop :=
  ∀ before e prompt middle stop history after,
    log = before ++ e :: middle ++ .ended (.ok stop) history :: after →
    e.input? = some prompt → (∀ r h, Event.ended r h ∉ middle) → stop ≠ .cancelled →
    (∃ h, Event.requested h ∈ middle ∧ Shown prompt h) ∨ Shown prompt history

/-! ## The condition on steps -/

/-- One event, seen by the texts that no request has shown yet. -/
def unsentStep (texts : List Text) : Event → List Text
  | .folded text => texts ++ [text]
  | .requested _ | .ended _ _ => []
  | _ => texts

/-- The texts folded into the history of the current turn since its last request. -/
def unsent (log : List Event) : List Text := log.foldl unsentStep []

/-- Truncation keeps these texts at the end of a history. -/
def Fits (cfg : Config) (texts : List Text) : Prop :=
  texts.length ≤ 1 ∨ (texts.map byteLen).sum ≤ cfg.maxHistoryBytes

/-- The round boundary goes on to the next request. -/
def RunCtx.proceeds (cfg : Config) (ctx : RunCtx) : Prop :=
  ¬(0 < cfg.maxRounds ∧ cfg.maxRounds ≤ ctx.round) ∧ ctx.cancel = false

/-- The round boundary tries a handoff. -/
def RunCtx.handsOff (cfg : Config) (ctx : RunCtx) : Prop :=
  ctx.drainSteers.shouldHandoff cfg ∧ ctx.handoffAttempts < cfg.maxHandoffs

/-- The step loses no input. -/
def KeepsInputs (cfg : Config) (w : World) (i : SessionInput) : Prop :=
  match i, w.session.active with
  | .poll .tick, some (_, ctx, .top) =>
      ctx.proceeds cfg → (∀ prompt ∈ ctx.steer, (steerText prompt).isSome) ∧
        (¬ctx.handsOff cfg → Fits cfg (unsent w.log ++ ctx.steer.filterMap steerText))
  | .poll (.summary text), some (_, ctx, .summarizing none) =>
      ctx.cancel = false →
        if (text.filter (!isBlank ·)).isSome then (unsent w.log).length ≤ 1
        else Fits cfg (unsent w.log)
  | .poll _, some (_, ctx, .returned (.ok stop)) => stop ≠ .cancelled → ctx.steer = []
  | _, _ => True

instance Fits.decidable (cfg : Config) (texts : List Text) : Decidable (Fits cfg texts) :=
  inferInstanceAs (Decidable (_ ∨ _))

instance RunCtx.proceeds.decidable (cfg : Config) (ctx : RunCtx) : Decidable (ctx.proceeds cfg) :=
  inferInstanceAs (Decidable (_ ∧ _))

instance RunCtx.handsOff.decidable (cfg : Config) (ctx : RunCtx) : Decidable (ctx.handsOff cfg) :=
  inferInstanceAs (Decidable (_ ∧ _))

instance KeepsInputs.decidable (cfg : Config) (w : World) (i : SessionInput) :
    Decidable (KeepsInputs cfg w i) := by
  unfold KeepsInputs
  split <;> infer_instance

/-! ## Logs -/

theorem unsent_append (log events : List Event) :
    unsent (log ++ events) = events.foldl unsentStep (unsent log) :=
  List.foldl_append

theorem foldl_unsentStep_folded (texts more : List Text) :
    (more.map Event.folded).foldl unsentStep texts = texts ++ more := by
  induction more generalizing texts with
  | nil => simp
  | cons text more ih => simp [unsentStep, ih]

theorem folded_quiet (texts : List Text) : ∀ e ∈ texts.map Event.folded,
    e.input? = none ∧ ∀ history, e ≠ .requested history := by
  intro e hmem
  rcases List.mem_map.1 hmem with ⟨text, _, rfl⟩
  exact ⟨rfl, fun history h => nomatch h⟩

theorem promptToText_of_steerText {prompt : List ContentBlock} {text : Text}
    (h : steerText prompt = some text) : promptToText prompt = some text := by
  unfold steerText at h
  cases hprompt : promptToText prompt with
  | none => simp [hprompt] at h
  | some t =>
      simp only [hprompt] at h
      split at h
      · cases h
      · exact h

/-- Every input of the current turn is shown by a later request, waits on the channel or is among
the texts folded since the last request. -/
def Tracked (log : List Event) (queue : List (List ContentBlock)) : Prop :=
  ∀ before e prompt after, log = before ++ e :: after → e.input? = some prompt →
    (∀ r h, Event.ended r h ∉ after) →
    (∃ h, Event.requested h ∈ after ∧ Shown prompt h) ∨ prompt ∈ queue ∨
      ∃ text, promptToText prompt = some text ∧ text ∈ unsent log

/-- What became of the inputs in a step: the waiting ones, the folded ones and the new ones. -/
structure Moves (log : List Event) (queue queue' : List (List ContentBlock))
    (events : List Event) : Prop where
  waiting : ∀ prompt ∈ queue, prompt ∈ queue' ∨ ∃ text, promptToText prompt = some text ∧
    (text ∈ unsent (log ++ events) ∨
      ∃ h, Event.requested h ∈ events ∧ HistoryItem.user text ∈ h)
  folded : ∀ text ∈ unsent log, text ∈ unsent (log ++ events) ∨
    ∃ h, Event.requested h ∈ events ∧ HistoryItem.user text ∈ h
  given : ∀ e ∈ events, ∀ prompt, e.input? = some prompt → prompt ∈ queue' ∨
    ∃ text, promptToText prompt = some text ∧ text ∈ unsent (log ++ events)
  ended : ∀ r h, Event.ended r h ∉ events

theorem Moves.quiet {log events : List Event} {queue queue' : List (List ContentBlock)}
    (hunsent : unsent (log ++ events) = unsent log) (hqueue : ∀ prompt ∈ queue, prompt ∈ queue')
    (hgiven : ∀ e ∈ events, ∀ prompt, e.input? = some prompt → prompt ∈ queue')
    (hended : ∀ r h, Event.ended r h ∉ events) : Moves log queue queue' events := by
  refine ⟨fun prompt hmem => .inl (hqueue prompt hmem), fun text hmem => .inl ?_,
    fun e hmem prompt hinput => .inl (hgiven e hmem prompt hinput), hended⟩
  rwa [hunsent]

theorem Moves.trans {log first second : List Event}
    {queue middle queue' : List (List ContentBlock)} (h : Moves log queue middle first)
    (hquiet : ∀ e ∈ first, e.input? = none ∧ ∀ history, e ≠ .requested history)
    (h' : Moves (log ++ first) middle queue' second) :
    Moves log queue queue' (first ++ second) := by
  have hlog : log ++ (first ++ second) = log ++ first ++ second := (List.append_assoc _ _ _).symm
  have hrequest : ∀ history, Event.requested history ∉ first :=
    fun history hmem => (hquiet _ hmem).2 history rfl
  have hfolded : ∀ text ∈ unsent (log ++ first), text ∈ unsent (log ++ (first ++ second)) ∨
      ∃ history, Event.requested history ∈ first ++ second ∧
        HistoryItem.user text ∈ history := by
    intro text hmem
    rw [hlog]
    rcases h'.folded text hmem with hstill | ⟨history, hmem, huser⟩
    · exact .inl hstill
    · exact .inr ⟨history, List.mem_append_right _ hmem, huser⟩
  refine ⟨?_, ?_, ?_, ?_⟩
  · intro prompt hmem
    rcases h.waiting prompt hmem with hmiddle | ⟨text, htext, hunsent | ⟨history, hmem, _⟩⟩
    · rcases h'.waiting prompt hmiddle with hstill | ⟨text, htext, hunsent | ⟨history, hmem, huser⟩⟩
      · exact .inl hstill
      · exact .inr ⟨text, htext, .inl (hlog ▸ hunsent)⟩
      · exact .inr ⟨text, htext, .inr ⟨history, List.mem_append_right _ hmem, huser⟩⟩
    · exact .inr ⟨text, htext, hfolded text hunsent⟩
    · exact absurd hmem (hrequest history)
  · intro text hmem
    rcases h.folded text hmem with hstill | ⟨history, hmem, _⟩
    · exact hfolded text hstill
    · exact absurd hmem (hrequest history)
  · intro e hmem prompt hinput
    rcases List.mem_append.1 hmem with hmem | hmem
    · rw [(hquiet e hmem).1] at hinput
      cases hinput
    · rw [hlog]
      exact h'.given e hmem prompt hinput
  · intro r history hmem
    rcases List.mem_append.1 hmem with hmem | hmem
    · exact h.ended r history hmem
    · exact h'.ended r history hmem

theorem Tracked.append {log events : List Event} {queue queue' : List (List ContentBlock)}
    (h : Tracked log queue) (hmoves : Moves log queue queue' events) :
    Tracked (log ++ events) queue' := by
  intro before e prompt after hsplit hinput hended
  -- the input was given before this step or in it
  rcases List.append_eq_append_iff.1 hsplit with ⟨middle, _, hevents⟩ | ⟨middle, hlog, hafter⟩
  · have hmem : e ∈ events := by simp [hevents]
    exact .inr (hmoves.given e hmem prompt hinput)
  · cases middle with
    | nil =>
        have hmem : e ∈ events := by
          rw [List.nil_append] at hafter
          simp [← hafter]
        exact .inr (hmoves.given e hmem prompt hinput)
    | cons e' middle =>
        rcases List.cons.inj hafter with ⟨rfl, rfl⟩
        have hmiddle : ∀ r h, Event.ended r h ∉ middle :=
          fun r h hmem => hended r h (List.mem_append_left _ hmem)
        have hshow : ∀ text history, promptToText prompt = some text →
            Event.requested history ∈ events → HistoryItem.user text ∈ history →
            ∃ h, Event.requested h ∈ middle ++ events ∧ Shown prompt h :=
          fun text history htext hmem huser =>
            ⟨history, List.mem_append_right _ hmem, text, htext, huser⟩
        rcases h before e prompt middle hlog hinput hmiddle with
          ⟨history, hmem, hshown⟩ | hqueue | ⟨text, htext, hunsent⟩
        · exact .inl ⟨history, List.mem_append_left _ hmem, hshown⟩
        · rcases hmoves.waiting prompt hqueue with hstill | ⟨text, htext, hunsent | ⟨history, hmem, huser⟩⟩
          · exact .inr (.inl hstill)
          · exact .inr (.inr ⟨text, htext, hunsent⟩)
          · exact .inl (hshow text history htext hmem huser)
        · rcases hmoves.folded text hunsent with hstill | ⟨history, hmem, huser⟩
          · exact .inr (.inr ⟨text, htext, hstill⟩)
          · exact .inl (hshow text history htext hmem huser)

theorem Delivered.append {log events : List Event} (h : Delivered log)
    (hevents : ∀ r h, Event.ended r h ∉ events) : Delivered (log ++ events) := by
  intro before e prompt middle stop history after hsplit hinput hmiddle hstop
  rcases List.append_eq_append_iff.1 hsplit with ⟨rest, _, hrest⟩ | ⟨rest, hlog, hrest⟩
  · exact absurd (by simp [hrest]) (hevents (.ok stop) history)
  · cases rest with
    | nil =>
        rw [List.nil_append] at hrest
        exact absurd (by simp [← hrest]) (hevents (.ok stop) history)
    | cons last rest =>
        rcases List.cons.inj hrest with ⟨rfl, _⟩
        exact h before e prompt middle stop history rest hlog hinput hmiddle hstop

/-! ## Truncation and handoff -/

theorem estimatedBytes_users (texts : List Text) :
    History.estimatedBytes (texts.map HistoryItem.user) = (texts.map byteLen).sum := by
  simp [History.estimatedBytes, HistoryItem.estimatedBytes, HistoryItem.sizeWith,
    Function.comp_def]

theorem History.estimatedBytes_append (a b : History) :
    History.estimatedBytes (a ++ b) = History.estimatedBytes a + History.estimatedBytes b := by
  simp [History.estimatedBytes]

theorem dropWhile_append_users (history : History) {texts : List Text} (h : texts ≠ []) :
    ∃ base, (history ++ texts.map HistoryItem.user).dropWhile (fun i => !i.isUser) =
      base ++ texts.map HistoryItem.user := by
  induction history with
  | nil =>
      cases texts with
      | nil => exact absurd rfl h
      | cons text texts => exact ⟨[], rfl⟩
  | cons item history ih =>
      cases item with
      | user text => exact ⟨.user text :: history, rfl⟩
      | assistant text calls reasoningDetails => exact ih
      | toolResult r => exact ih

theorem dropped_before_users {cfg : Config} {texts : List Text} (hfits : Fits cfg texts)
    {base : History} {item : HistoryItem} {rest : History}
    (hhistory : base ++ texts.map HistoryItem.user = item :: rest)
    (hlarge : ¬History.estimatedBytes (item :: rest) ≤ cfg.maxHistoryBytes)
    (hkept : rest.dropWhile (fun i => !i.isUser) ≠ []) :
    ∃ kept, rest.dropWhile (fun i => !i.isUser) = kept ++ texts.map HistoryItem.user := by
  cases texts with
  | nil => exact ⟨_, (List.append_nil _).symm⟩
  | cons text texts =>
      cases base with
      | nil =>
          rcases List.cons.inj hhistory with ⟨_, hrest⟩
          rcases hfits with hsingle | hsmall
          · -- a single text is never dropped: there is no user item behind it
            have hnil : texts = [] := by simpa using hsingle
            rw [← hrest, hnil] at hkept
            exact absurd rfl hkept
          · rw [← hhistory, List.nil_append, estimatedBytes_users] at hlarge
            exact absurd hsmall hlarge
      | cons first base =>
          rcases List.cons.inj hhistory with ⟨_, hrest⟩
          rw [← hrest]
          exact dropWhile_append_users base (List.cons_ne_nil text texts)

theorem truncateLoop_users {cfg : Config} {texts : List Text} (hfits : Fits cfg texts)
    (fuel : Nat) (base : History) :
    ∃ base', truncateLoop cfg.maxHistoryBytes fuel
      (History.estimatedBytes (base ++ texts.map HistoryItem.user))
      (base ++ texts.map HistoryItem.user) = base' ++ texts.map HistoryItem.user := by
  -- the texts are at the end; the loop stops before the first of them, or they are a single one
  induction fuel generalizing base with
  | zero => exact ⟨base, rfl⟩
  | succ fuel ih =>
      cases hhistory : base ++ texts.map HistoryItem.user with
      | nil =>
          exact ⟨[], by rw [List.append_eq_nil_iff.1 hhistory |>.2]; rfl⟩
      | cons item rest =>
          simp only [truncateLoop]
          split
          · exact ⟨base, hhistory.symm⟩
          · next hlarge =>
              split
              · exact ⟨base, hhistory.symm⟩
              · next hkept =>
                  rcases dropped_before_users hfits hhistory hlarge hkept with ⟨kept, hdrop⟩
                  have htotal : History.estimatedBytes (item :: rest) -
                      History.estimatedBytes (item :: rest.takeWhile fun i => !i.isUser) =
                      History.estimatedBytes (kept ++ texts.map HistoryItem.user) := by
                    have hparts : item :: rest = (item :: rest.takeWhile fun i => !i.isUser) ++
                        rest.dropWhile fun i => !i.isUser := by
                      rw [List.cons_append, List.takeWhile_append_dropWhile]
                    rw [← hdrop]
                    nth_rewrite 1 [hparts]
                    rw [History.estimatedBytes_append, Nat.add_sub_cancel_left]
                  rw [htotal, hdrop]
                  exact ih kept

theorem truncateHistory_users {cfg : Config} {texts : List Text} (hfits : Fits cfg texts)
    (base : History) :
    ∃ base', truncateHistory (base ++ texts.map HistoryItem.user) cfg.maxHistoryBytes =
      base' ++ texts.map HistoryItem.user :=
  truncateLoop_users hfits _ base

theorem currentPrompt_user (base : History) (text : Text) :
    currentPrompt (base ++ [.user text]) = some text := by
  rw [currentPrompt, List.reverse_append]
  rfl

/-! ## Stretches of the run -/

/-- Where the texts that no request has shown are, by phase. -/
def FoldedIn (texts : List Text) (ctx : RunCtx) : RunPhase → Prop
  | .top | .summarizing none | .returned _ =>
      ∃ base, ctx.history = base ++ texts.map HistoryItem.user
  -- the history is cleared; the last user item is carried over
  | .postCompact _ current none => texts = [] ∨ ∃ text, texts = [text] ∧ current = some text
  | _ => texts = []

/-- A stretch loses no input. -/
structure Keeping (log : List Event) (ctx : RunCtx) (out : RunCtx.Outcome) : Prop where
  folded : FoldedIn (unsent (log ++ out.2)) out.1.1 out.1.2
  moves : Moves log ctx.steer out.1.1.steer out.2

theorem FoldedIn.of_nil {ctx : RunCtx} (phase : RunPhase) : FoldedIn [] ctx phase := by
  cases phase with
  | top => exact ⟨ctx.history, (List.append_nil _).symm⟩
  | returned result => exact ⟨ctx.history, (List.append_nil _).symm⟩
  | summarizing forced =>
      cases forced with
      | none => exact ⟨ctx.history, (List.append_nil _).symm⟩
      | some overflow => rfl
  | postCompact summary current forced =>
      cases forced with
      | none => exact .inl rfl
      | some overflow => rfl
  | _ => rfl

theorem FoldedIn.congr {texts : List Text} {ctx ctx' : RunCtx} {phase : RunPhase}
    (h : FoldedIn texts ctx phase) (hhistory : ctx'.history = ctx.history) :
    FoldedIn texts ctx' phase := by
  unfold FoldedIn at h ⊢
  rwa [hhistory]

namespace RunCtx

variable {log : List Event} {ctx ctx' : RunCtx} {cfg : Config} {mcp : McpRegistry}

theorem keeping_silent {phase : RunPhase} (hfolded : FoldedIn (unsent log) ctx' phase)
    (hsteer : ctx'.steer = ctx.steer) : Keeping log ctx ((ctx', phase), []) := by
  refine ⟨by simpa using hfolded, .quiet ?_ ?_ ?_ ?_⟩
  · rw [List.append_nil]
  · simp [hsteer]
  · simp
  · simp

theorem keeping_request (hshown : ∀ text ∈ unsent log, HistoryItem.user text ∈ ctx'.history)
    (hsteer : ctx'.steer = ctx.steer) : Keeping log ctx ctx'.request := by
  have hunsent : unsent (log ++ ctx'.request.2) = [] := by
    rw [unsent_append]
    rfl
  refine ⟨hunsent, fun prompt hmem => .inl ?_, fun text hmem => .inr ?_, ?_, ?_⟩
  · simpa [request, hsteer] using hmem
  · exact ⟨ctx'.history, List.mem_singleton_self _, hshown text hmem⟩
  · simp [request, Event.input?]
  · simp [request]

theorem keeping_truncateAndRequest (hfits : Fits cfg (unsent log))
    (hhistory : ∃ base, ctx'.history = base ++ (unsent log).map HistoryItem.user)
    (hsteer : ctx'.steer = ctx.steer) : Keeping log ctx (ctx'.truncateAndRequest cfg) := by
  rcases hhistory with ⟨base, hhistory⟩
  rcases truncateHistory_users hfits base with ⟨base', hkept⟩
  refine keeping_request ?_ hsteer
  intro text hmem
  show HistoryItem.user text ∈ truncateHistory ctx'.history cfg.maxHistoryBytes
  rw [hhistory, hkept]
  exact List.mem_append_right _ (List.mem_map_of_mem hmem)

/-! ### Stretches that neither fold nor request -/

/-- No event, and the channel as it was. -/
def Silent (ctx : RunCtx) (out : Outcome) : Prop := out.2 = [] ∧ out.1.1.steer = ctx.steer

theorem Silent.keeping {out : Outcome} (h : ctx.Silent out) (hnil : unsent log = []) :
    Keeping log ctx out := by
  rcases out with ⟨⟨ctx', phase⟩, events⟩
  rcases h with ⟨rfl, hsteer⟩
  exact keeping_silent (by rw [hnil]; exact .of_nil phase) hsteer

theorem recordReading_steer (response : LlmResponse) :
    (ctx.recordReading response).steer = ctx.steer := by
  unfold recordReading
  split
  · rfl
  · split <;> rfl

theorem silent_responded (response : LlmResponse) :
    ctx.Silent (ctx.responded cfg mcp response) := by
  have hsteer : (ctx.recordReading response).steer = ctx.steer := recordReading_steer response
  simp only [responded]
  split
  · split
    · exact ⟨rfl, hsteer⟩
    · exact ⟨rfl, hsteer⟩
  · split
    · split
      · exact ⟨rfl, hsteer⟩
      · split
        · exact ⟨rfl, hsteer⟩
        · exact ⟨rfl, hsteer⟩
    · exact ⟨rfl, hsteer⟩

theorem silent_recover (overflow : Overflow) :
    ctx.Silent (ctx.recoverFromContextOverflow overflow) := by
  simp only [recoverFromContextOverflow]
  split
  · exact ⟨rfl, rfl⟩
  · split
    · exact ⟨rfl, rfl⟩
    · exact ⟨rfl, rfl⟩

theorem silent_completed (result : Except AgentError LlmResponse) :
    ctx.Silent (ctx.completed cfg mcp result) := by
  simp only [completed]
  split
  · exact ⟨rfl, rfl⟩
  · split
    · exact silent_responded _
    · split
      · exact ⟨rfl, rfl⟩
      · exact ⟨rfl, rfl⟩
    · exact silent_recover _
    · exact ⟨rfl, rfl⟩

theorem silent_objected (outputs : List (Text × Text)) (ordinal : Nat → Nat) :
    ctx.Silent (ctx.objected cfg outputs ordinal) := by
  simp only [objected]
  generalize (cfg.requireReply && !ctx.majuReplyCallSeen &&
    decide (ctx.replyNags < maxReplyNags)) = nag
  have hsteer : (if nag then { ctx with replyNags := ctx.replyNags + 1 } else ctx).steer =
      ctx.steer := by
    cases nag
    · rfl
    · rfl
  generalize outputs ++ (if nag = true then [(replyGuardServer, replyGuardNag)] else []) =
    objections
  generalize
    (if nag = true then { ctx with replyNags := ctx.replyNags + 1 } else ctx) = asked at hsteer ⊢
  split
  · exact ⟨rfl, hsteer⟩
  · exact ⟨rfl, hsteer⟩

theorem silent_preflightCall (calls : List ToolCall) (idx : Nat)
    (results : List (Option ToolResult)) (runnable : List Nat) (answer : Answer) :
    ctx.Silent (ctx.preflightCall mcp calls idx results runnable answer) := by
  simp only [preflightCall]
  split
  · exact ⟨rfl, rfl⟩
  · split
    · exact ⟨rfl, rfl⟩
    · split
      · split
        · exact ⟨rfl, rfl⟩
        · exact ⟨rfl, rfl⟩
      · split
        · exact ⟨rfl, rfl⟩
        · exact ⟨rfl, rfl⟩

theorem silent_executeParallel (calls : List ToolCall) (results : List (Option ToolResult))
    (runnable pending : List Nat) (answer : Answer) :
    ctx.Silent (ctx.executeParallel calls results runnable pending answer) := by
  simp only [executeParallel]
  split
  · split
    · exact ⟨rfl, rfl⟩
    · exact ⟨rfl, rfl⟩
  · exact ⟨rfl, rfl⟩
  · split
    · split
      · exact ⟨rfl, rfl⟩
      · exact ⟨rfl, rfl⟩
    · exact ⟨rfl, rfl⟩
  · exact ⟨rfl, rfl⟩

/-! ### Stretches that fold inputs or show them -/

theorem keeping_start {prompt : List ContentBlock} (h : unsent log = []) :
    Keeping log ctx (ctx.start prompt) := by
  unfold start
  split
  · exact keeping_silent (by rw [h]; exact .of_nil _) rfl
  · next text htext =>
      split
      · exact keeping_silent (by rw [h]; exact .of_nil _) rfl
      · have hunsent : unsent (log ++ [.accepted prompt, .folded text]) = [text] := by
          rw [unsent_append, h]
          rfl
        refine ⟨⟨ctx.history, by rw [hunsent]; rfl⟩, ?_, ?_, ?_, ?_⟩
        · exact fun prompt hmem => .inl hmem
        · rw [h]
          simp
        · intro e hmem input hinput
          rcases List.mem_pair.1 hmem with rfl | rfl
          · cases hinput
            exact .inr ⟨text, htext, by rw [hunsent]; exact List.mem_singleton_self text⟩
          · cases hinput
        · simp

theorem moves_drainSteers (h : ∀ prompt ∈ ctx.steer, (steerText prompt).isSome) :
    Moves log ctx.steer [] ((ctx.steer.filterMap steerText).map Event.folded) := by
  have hunsent : unsent (log ++ (ctx.steer.filterMap steerText).map Event.folded) =
      unsent log ++ ctx.steer.filterMap steerText := by
    rw [unsent_append, foldl_unsentStep_folded]
  refine ⟨?_, ?_, ?_, ?_⟩
  · intro prompt hmem
    rcases Option.isSome_iff_exists.1 (h prompt hmem) with ⟨text, htext⟩
    refine .inr ⟨text, promptToText_of_steerText htext, .inl ?_⟩
    rw [hunsent]
    exact List.mem_append_right _ (List.mem_filterMap.2 ⟨prompt, hmem, htext⟩)
  · intro text hmem
    rw [hunsent]
    exact .inl (List.mem_append_left _ hmem)
  · intro e hmem prompt hinput
    rw [(folded_quiet _ e hmem).1] at hinput
    cases hinput
  · simp

theorem keeping_boundary
    (hhistory : ∃ base, ctx.history = base ++ (unsent log).map HistoryItem.user)
    (hkeeps : ctx.proceeds cfg → (∀ prompt ∈ ctx.steer, (steerText prompt).isSome) ∧
      (¬ctx.handsOff cfg → Fits cfg (unsent log ++ ctx.steer.filterMap steerText))) :
    Keeping log ctx (ctx.boundary cfg) := by
  simp only [boundary]
  split
  · exact keeping_silent hhistory rfl
  · next hrounds =>
      split
      · exact keeping_silent hhistory rfl
      · next hcancel =>
          rcases hkeeps ⟨hrounds, by simpa using hcancel⟩ with ⟨hrender, hfits⟩
          have hunsent : unsent (log ++ (ctx.steer.filterMap steerText).map Event.folded) =
              unsent log ++ ctx.steer.filterMap steerText := by
            rw [unsent_append, foldl_unsentStep_folded]
          have hmoves : Moves log ctx.steer [] _ := moves_drainSteers hrender
          have hdrained : ∃ base, ctx.drainSteers.history = base ++
              (unsent (log ++ (ctx.steer.filterMap steerText).map Event.folded)).map
                HistoryItem.user := by
            rcases hhistory with ⟨base, hbase⟩
            refine ⟨base, ?_⟩
            rw [hunsent, List.map_append, ← List.append_assoc, ← hbase]
            rfl
          split
          · exact ⟨hdrained, hmoves⟩
          · next hgate =>
              have hnext : Keeping (log ++ (ctx.steer.filterMap steerText).map Event.folded)
                  ctx.drainSteers (ctx.drainSteers.truncateAndRequest cfg) :=
                keeping_truncateAndRequest (by rw [hunsent]; exact hfits hgate) hdrained rfl
              refine ⟨?_, hmoves.trans (folded_quiet _) hnext.moves⟩
              rw [← List.append_assoc]
              exact hnext.folded

theorem keeping_summarized {forced : Option Overflow} {text : Option Text}
    (hfolded : FoldedIn (unsent log) ctx (.summarizing forced))
    (hkeeps : forced = none → ctx.cancel = false →
      if (text.filter (!isBlank ·)).isSome then (unsent log).length ≤ 1
      else Fits cfg (unsent log)) :
    Keeping log ctx (ctx.summarized cfg forced text) := by
  have hreturned : FoldedIn (unsent log) ctx (.returned (.ok .cancelled)) := by
    cases forced with
    | none => exact hfolded
    | some overflow =>
        rw [show unsent log = [] from hfolded]
        exact .of_nil _
  simp only [summarized]
  split
  · exact keeping_silent hreturned rfl
  · next hcancel =>
      cases forced with
      | some overflow =>
          have hnil : unsent log = [] := hfolded
          split
          · exact keeping_silent (by rw [hnil]; exact .of_nil _) rfl
          · exact (silent_recover overflow).keeping hnil
      | none =>
          have hstep := hkeeps rfl (by simpa using hcancel)
          rcases hfolded with ⟨base, hhistory⟩
          split
          · next summary hsummary =>
              rw [hsummary, Option.isSome_some, if_pos rfl] at hstep
              refine keeping_silent ?_ rfl
              cases hunsent : unsent log with
              | nil => exact .inl rfl
              | cons first more =>
                  have hmore : more = [] := by
                    rw [hunsent] at hstep
                    simpa using hstep
                  rw [hhistory, hunsent, hmore]
                  exact .inr ⟨first, rfl, currentPrompt_user base first⟩
          · next hsummary =>
              rw [hsummary] at hstep
              exact keeping_truncateAndRequest hstep ⟨base, hhistory⟩ rfl

theorem keeping_compacted {summary : Text} {current : Option Text} {forced : Option Overflow}
    (hfolded : FoldedIn (unsent log) ctx (.postCompact summary current forced))
    (outputs : List (Text × Text)) :
    Keeping log ctx (ctx.compacted summary current forced outputs) := by
  cases forced with
  | some overflow =>
      have hnil : unsent log = [] := hfolded
      exact keeping_silent (by rw [hnil]; exact .of_nil _) rfl
  | none =>
      refine keeping_request ?_ rfl
      intro text hmem
      rcases hfolded with hnil | ⟨last, hlast, rfl⟩
      · rw [hnil] at hmem
        cases hmem
      · rw [hlast, List.mem_singleton] at hmem
        rw [hmem]
        show HistoryItem.user last ∈ handoffHistory summary outputs (some last)
        simp [handoffHistory]

end RunCtx

/-! ## Runs of a session -/

namespace World

/-- The steers that wait on the channel. -/
def queue (s : Session) : List (List ContentBlock) :=
  match s.active with
  | none => []
  | some (_, ctx, _) => ctx.steer

def SessionFolded (log : List Event) (s : Session) : Prop :=
  match s.active with
  | none => unsent log = []
  | some (_, ctx, phase) => FoldedIn (unsent log) ctx phase

structure Kept (w : World) : Prop where
  folded : SessionFolded w.log w.session
  tracked : Tracked w.log (queue w.session)
  delivered : Delivered w.log

theorem kept_init : Kept init := by
  refine ⟨rfl, ?_, ?_⟩
  · intro before e prompt after h
    simp [init] at h
  · intro before e prompt middle stop history after h
    simp [init] at h

theorem Kept.extend {w : World} (h : Kept w) {session : Session} {events : List Event}
    (hfolded : SessionFolded (w.log ++ events) session)
    (hmoves : Moves w.log (queue w.session) (queue session) events) :
    Kept ⟨session, w.log ++ events⟩ :=
  ⟨hfolded, h.tracked.append hmoves, h.delivered.append hmoves.ended⟩

theorem keeping_poll {cfg : Config} {mcp : McpRegistry} {w : World} {runId : Text} {ctx : RunCtx}
    {phase : RunPhase} {answer : Answer} (hactive : w.session.active = some (runId, ctx, phase))
    (hphase : ∀ result, phase ≠ .returned result) (hfolded : FoldedIn (unsent w.log) ctx phase)
    (hkeeps : KeepsInputs cfg w (.poll answer)) :
    Keeping w.log ctx (ctx.poll cfg mcp phase answer) := by
  simp only [KeepsInputs, hactive] at hkeeps
  cases phase with
  | starting prompt =>
      cases answer with
      | tick => exact RunCtx.keeping_start hfolded
      | _ => exact RunCtx.keeping_silent hfolded rfl
  | top =>
      cases answer with
      | tick => exact RunCtx.keeping_boundary hfolded hkeeps
      | _ => exact RunCtx.keeping_silent hfolded rfl
  | summarizing forced =>
      cases answer with
      | summary text =>
          refine RunCtx.keeping_summarized hfolded ?_
          rintro rfl hcancel
          exact hkeeps hcancel
      | _ => exact RunCtx.keeping_silent hfolded rfl
  | postCompact summary current forced =>
      cases answer with
      | hooks outputs ordinal => exact RunCtx.keeping_compacted hfolded outputs
      | _ => exact RunCtx.keeping_silent hfolded rfl
  | completing =>
      cases answer with
      | completion result => exact (RunCtx.silent_completed result).keeping hfolded
      | _ => exact RunCtx.keeping_silent hfolded rfl
  | stopping =>
      cases answer with
      | hooks outputs ordinal => exact (RunCtx.silent_objected outputs ordinal).keeping hfolded
      | _ => exact RunCtx.keeping_silent hfolded rfl
  | preflight calls idx results runnable =>
      exact (RunCtx.silent_preflightCall calls idx results runnable answer).keeping hfolded
  | executing calls results runnable pending =>
      exact (RunCtx.silent_executeParallel calls results runnable pending answer).keeping hfolded
  | returned result => exact absurd rfl (hphase result)

theorem Kept.rejected {w : World} (h : Kept w) (message : Text) :
    Kept ⟨w.session, w.log ++ [.rejected message]⟩ := by
  have hunsent : unsent (w.log ++ [.rejected message]) = unsent w.log := unsent_append _ _
  refine h.extend ?_ (.quiet hunsent (fun _ hmem => hmem) ?_ ?_)
  · have hfolded := h.folded
    unfold SessionFolded at hfolded ⊢
    rwa [hunsent]
  · simp [Event.input?]
  · simp

theorem kept_acquireSession {w : World} (h : Kept w) (runId : Text) (prompt : List ContentBlock) :
    Kept ⟨(w.session.acquireSession runId prompt).1,
      w.log ++ (w.session.acquireSession runId prompt).2⟩ := by
  unfold Session.acquireSession
  cases hactive : w.session.active with
  | some run => exact h.rejected _
  | none =>
      have hnil := h.folded
      simp only [SessionFolded, hactive] at hnil
      refine h.extend ?_ (.quiet ?_ ?_ ?_ ?_)
      · rw [List.append_nil]
        exact hnil
      · rw [List.append_nil]
      · simp [queue, hactive]
      · simp
      · simp

theorem kept_steerSession {w : World} (h : Kept w) (expectedRunId : Text)
    (prompt : List ContentBlock) :
    Kept ⟨(w.session.steerSession expectedRunId prompt).1,
      w.log ++ (w.session.steerSession expectedRunId prompt).2⟩ := by
  simp only [Session.steerSession]
  split
  · exact h.rejected _
  · split
    · exact h.rejected _
    · cases hactive : w.session.active with
      | none => exact h.rejected _
      | some run =>
          rcases run with ⟨runId, ctx, phase⟩
          have hfolded := h.folded
          simp only [SessionFolded, hactive] at hfolded
          dsimp only
          split
          · exact h.rejected _
          · have hunsent : unsent (w.log ++ [.steered prompt]) = unsent w.log :=
              unsent_append _ _
            refine h.extend ?_ (.quiet hunsent ?_ ?_ ?_)
            · simp only [SessionFolded, hunsent]
              exact hfolded.congr rfl
            · simp only [queue, hactive]
              exact fun p hmem => List.mem_append_left _ hmem
            · simp [Event.input?, queue]
            · simp

theorem kept_cancelSession {w : World} (h : Kept w) :
    Kept ⟨w.session.cancelSession, w.log ++ []⟩ := by
  have hfolded := h.folded
  unfold Session.cancelSession
  cases hactive : w.session.active with
  | none =>
      simp only [SessionFolded, hactive] at hfolded
      refine h.extend ?_ (.quiet ?_ (fun _ hmem => hmem) ?_ ?_)
      · simpa [SessionFolded, hactive] using hfolded
      · rw [List.append_nil]
      · simp
      · simp
  | some run =>
      rcases run with ⟨runId, ctx, phase⟩
      simp only [SessionFolded, hactive] at hfolded
      refine h.extend ?_ (.quiet ?_ ?_ ?_ ?_)
      · rw [List.append_nil]
        exact hfolded.congr rfl
      · rw [List.append_nil]
      · simp [queue, hactive]
      · simp
      · simp

theorem concat_inj {log before rest : List Event} {e last : Event}
    (h : log ++ [e] = before ++ (rest ++ [last])) : log = before ++ rest ∧ last = e := by
  rw [← List.append_assoc] at h
  rcases List.append_inj' h rfl with ⟨hlog, hlast⟩
  exact ⟨hlog, (List.cons.inj hlast).1.symm⟩

theorem kept_settle {w : World} (h : Kept w) {runId : Text} {ctx : RunCtx}
    {result : Except AgentError StopReason}
    (hactive : w.session.active = some (runId, ctx, .returned result))
    (hempty : ∀ stop, result = .ok stop → stop ≠ .cancelled → ctx.steer = []) :
    Kept ⟨(w.session.settle ctx result).1, w.log ++ (w.session.settle ctx result).2⟩ := by
  have hfolded := h.folded
  have htracked := h.tracked
  simp only [SessionFolded, hactive] at hfolded
  simp only [queue, hactive] at htracked
  refine ⟨?_, ?_, ?_⟩
  · show unsent (w.log ++ [.ended result ctx.history]) = []
    rw [unsent_append]
    rfl
  · -- the log ends with the end of the turn: there is no input of a current turn
    intro before e prompt after hsplit hinput hended
    rcases List.eq_nil_or_concat' after with rfl | ⟨init, last, rfl⟩
    · rcases List.append_inj' hsplit rfl with ⟨_, hlast⟩
      cases hlast
      cases hinput
    · have hwhole : w.log ++ [.ended result ctx.history] = before ++ (e :: init ++ [last]) := hsplit
      rcases concat_inj hwhole with ⟨_, rfl⟩
      exact absurd (by simp) (hended result ctx.history)
  · intro before e prompt middle stop history after hsplit hinput hmiddle hstop
    rcases List.eq_nil_or_concat' after with rfl | ⟨init, last, rfl⟩
    · rcases List.append_inj' hsplit rfl with ⟨hlog, hlast⟩
      cases hlast
      rcases htracked before e prompt middle hlog hinput hmiddle with
        hshown | hqueue | ⟨text, htext, hmem⟩
      · exact .inl hshown
      · rw [hempty stop rfl hstop] at hqueue
        cases hqueue
      · rcases hfolded with ⟨base, hhistory⟩
        refine .inr ⟨text, htext, ?_⟩
        rw [hhistory]
        exact List.mem_append_right _ (List.mem_map_of_mem hmem)
    · have hwhole : w.log ++ [.ended result ctx.history] =
          before ++ e :: middle ++ (.ended (.ok stop) history :: init ++ [last]) := hsplit
      rcases concat_inj hwhole with ⟨hlog, _⟩
      exact h.delivered before e prompt middle stop history init hlog hinput hmiddle hstop

theorem kept_step {cfg : Config} {mcp : McpRegistry} {w : World} {i : SessionInput} (h : Kept w)
    (hkeeps : KeepsInputs cfg w i) : Kept (w.step cfg mcp i) := by
  cases i with
  | prompt runId prompt => exact kept_acquireSession h runId prompt
  | steer expectedRunId prompt => exact kept_steerSession h expectedRunId prompt
  | cancel => exact kept_cancelSession h
  | poll answer =>
      have hfolded := h.folded
      unfold World.step Session.step
      dsimp only
      split
      · next hactive =>
          refine h.extend ?_ (.quiet ?_ (fun _ hmem => hmem) ?_ ?_)
          · simpa using h.folded
          · rw [List.append_nil]
          · simp
          · simp
      · next runId ctx result hactive =>
          refine kept_settle h hactive ?_
          rintro stop rfl hstop
          simp only [KeepsInputs, hactive] at hkeeps
          exact hkeeps hstop
      · next runId ctx phase hphase hactive =>
          simp only [SessionFolded, hactive] at hfolded
          have hkeeping : Keeping w.log ctx (ctx.poll cfg mcp phase answer) :=
            keeping_poll hactive (fun result heq => hphase result heq) hfolded hkeeps
          refine h.extend hkeeping.folded ?_
          have hqueue : queue w.session = ctx.steer := by simp only [queue, hactive]
          rw [hqueue]
          exact hkeeping.moves

/-- In every run whose steps all keep their inputs, every input that was acknowledged in a turn that
ends without error or cancellation was shown to the provider or is stored. -/
theorem inputs_delivered (cfg : Config) (mcp : McpRegistry) (inputs : List SessionInput)
    (h : Run.Along (KeepsInputs cfg) (step cfg mcp) init inputs) :
    Delivered (after cfg mcp inputs).log :=
  (Run.invariant Kept (fun _ _ => kept_step) kept_init h).delivered

namespace Turn

def cfg : Config := ⟨0, 10, 16 * 1024 * 1024, 200000, 3, 3, false⟩

/-- A context window in which the first prompt is already too large. -/
def smallWindow : Config := ⟨0, 10, 16 * 1024 * 1024, 10, 3, 3, false⟩

def noTools : McpRegistry := ⟨fun _ => false, fun _ => false⟩

def runId : Text := "run_1".toList

def hello : Text := "hello, agent".toList

def wait : Text := "wait".toList

def ask : SessionInput := .prompt runId [.text hello]

def steer : SessionInput := .steer runId [.text wait]

def tick : SessionInput := .poll .tick

def answer (stop : ProviderStop) : SessionInput :=
  .poll (.completion (.ok ⟨"done".toList, [], stop, none, false, none⟩))

def soFar : Text := "so far".toList

/-- The first message after the handoff. -/
def restart : Text := handoffText soFar []

def noHooks : SessionInput := .poll (.hooks [] id)

/-- The steer arrives during the first of two calls of the provider. -/
def steeredBetween : List SessionInput :=
  [ask, tick, tick, steer, answer .maxTokens, tick, answer .endTurn, noHooks, tick]

/-- The world after the first five inputs of `steeredBetween`: the truncated answer and the message
pushed after it stand in the history, and the steer still waits in the channel. -/
def truncated (message : Text) : World :=
  ⟨⟨[], none, none, some (runId,
      ⟨false, [[.text wait]],
        [.user hello, .assistant "done".toList [] none, .user message],
        none, none, 0, 1, 0, false, 0, 0, 1⟩, .top)⟩,
    [.accepted [.text hello], .folded hello, .requested [.user hello], .steered [.text wait]]⟩

/-- The steer arrives during the last call of the provider. -/
def steeredLate : List SessionInput := [ask, tick, tick, steer, answer .endTurn, noHooks, tick]

/-- The steer is folded in together with the prompt, and a handoff follows. -/
def handedOff : List SessionInput :=
  [ask, tick, steer, tick, .poll (.summary (some soFar)), noHooks, answer .endTurn,
    noHooks, tick]

theorem wait_ne_hello : wait ≠ hello := by decide

theorem hello_ne_restart : hello ≠ restart := by decide

end Turn

theorem promptToText_text (text : Text) : promptToText [.text text] = some text := by
  simp [promptToText, ContentBlock.render]

theorem run_truncated :
    Run.run (step Turn.cfg Turn.noTools) init (Turn.steeredBetween.take 5) =
      Turn.truncated maxTokensRecoveryMessage := rfl

/-- The message is spelled out as characters before the run is evaluated: decoding its literal is
what would take the time. -/
theorem keepsInputs_truncated :
    Run.Along (KeepsInputs Turn.cfg) (step Turn.cfg Turn.noTools)
      (Turn.truncated maxTokensRecoveryMessage) (Turn.steeredBetween.drop 5) := by
  unfold maxTokensRecoveryMessage
  simp only [String.toList_append]
  iterate 5 rw [String.toList_ofList]
  decide +kernel

theorem inputs_delivered_steeredBetween :
    Run.Along (KeepsInputs Turn.cfg) (step Turn.cfg Turn.noTools) init Turn.steeredBetween ∧
      Delivered (after Turn.cfg Turn.noTools Turn.steeredBetween).log := by
  have hkeeps : Run.Along (KeepsInputs Turn.cfg) (step Turn.cfg Turn.noTools) init
      Turn.steeredBetween := by
    have hfront : Run.Along (KeepsInputs Turn.cfg) (step Turn.cfg Turn.noTools) init
        (Turn.steeredBetween.take 5) := by
      decide
    have hback := keepsInputs_truncated
    rw [← run_truncated] at hback
    rw [← List.take_append_drop 5 Turn.steeredBetween]
    exact hfront.append hback
  exact ⟨hkeeps, inputs_delivered Turn.cfg Turn.noTools Turn.steeredBetween hkeeps⟩

/-- A steer acknowledged during the last provider call is dropped with its channel, and a handoff at
the round boundary drops the prompt that was folded in before a steer. -/
theorem acknowledged_input_lost :
    ¬Delivered (after Turn.cfg Turn.noTools Turn.steeredLate).log ∧
      ¬Delivered (after Turn.smallWindow Turn.noTools Turn.handedOff).log := by
  constructor
  · intro h
    have hlog : (after Turn.cfg Turn.noTools Turn.steeredLate).log =
        [.accepted [.text Turn.hello], .folded Turn.hello, .requested [.user Turn.hello]] ++
          .steered [.text Turn.wait] :: [] ++
          .ended (.ok .endTurn) [.user Turn.hello, .assistant "done".toList [] none] :: [] := rfl
    rcases h [.accepted [.text Turn.hello], .folded Turn.hello, .requested [.user Turn.hello]]
      (.steered [.text Turn.wait]) [.text Turn.wait] [] .endTurn
      [.user Turn.hello, .assistant "done".toList [] none] [] hlog rfl (by simp) (by decide) with
      ⟨_, hmem, _⟩ | ⟨text, htext, hmem⟩
    · cases hmem
    · rw [promptToText_text, Option.some.injEq] at htext
      simp [← htext, Turn.wait_ne_hello] at hmem
  · intro h
    have hlog : (after Turn.smallWindow Turn.noTools Turn.handedOff).log =
        [] ++ .accepted [.text Turn.hello] ::
          [.folded Turn.hello, .steered [.text Turn.wait], .folded Turn.wait,
            .requested [.user Turn.restart, .user Turn.wait]] ++
          .ended (.ok .endTurn) [.user Turn.restart, .user Turn.wait,
            .assistant "done".toList [] none] :: [] := rfl
    rcases h _ _ _ _ _ _ _ hlog rfl (by simp) (by decide) with
      ⟨history, hmem, text, htext, huser⟩ | ⟨text, htext, hmem⟩
    · rw [promptToText_text, Option.some.injEq] at htext
      have hhistory : history = [.user Turn.restart, .user Turn.wait] := by simpa using hmem
      simp [hhistory, ← htext, Turn.wait_ne_hello.symm, Turn.hello_ne_restart] at huser
    · rw [promptToText_text, Option.some.injEq] at htext
      simp [← htext, Turn.wait_ne_hello.symm, Turn.hello_ne_restart] at hmem

end World

end Agent
end Maju
