import Maju.Core.Nostr
import Maju.Lib.Text
import Maju.Workflow.Schedule

/-!
# Definition — what is accepted as a workflow

`validate` checks the name, the steps and the trigger of a definition in this order.  The `cron`
crate is a parameter: its parser, and the text of its errors.
-/

namespace Maju
namespace Workflow

open Lib Core

/-- `TriggerDef`, without its filters. -/
inductive TriggerDef where
  | messagePosted
  | reactionAdded
  | diffPosted
  | schedule (cron interval : Option Text)
  | webhook
  deriving DecidableEq, Repr

/-- `ActionDef`, as far as `validate` tells the actions apart. -/
inductive ActionDef where
  | sendMessage (replyInThread : Bool)
  | other
  deriving DecidableEq, Repr

structure Step where
  id : Text
  action : ActionDef
  deriving DecidableEq, Repr

structure WorkflowDef where
  name : Text
  trigger : TriggerDef
  steps : List Step
  deriving DecidableEq, Repr

/-- `WorkflowError::InvalidDefinition`. -/
structure InvalidDefinition where
  reason : Text
  deriving DecidableEq, Repr

/-! ## Steps -/

def validStepId (id : Text) : Bool :=
  !id.isEmpty && decide (byteLen id ≤ 64) && id.all fun c => c.isAlphanum || c = '_'

/-- The loop over the steps, with the ids seen so far. -/
def validateIds : List Text → List Step → Except InvalidDefinition Unit
  | _, [] => .ok ()
  | seenIds, step :: steps =>
      if (trim step.id).isEmpty then .error ⟨"step id must not be empty".toList⟩
      else if !validStepId step.id then
        .error ⟨"step id '".toList ++ step.id ++
          "' is invalid: must contain only alphanumeric characters and underscores".toList⟩
      else if step.id ∈ seenIds then .error ⟨"duplicate step id: ".toList ++ step.id⟩
      else validateIds (step.id :: seenIds) steps

/-- `trigger_has_message`. -/
def TriggerDef.hasMessage : TriggerDef → Bool
  | .messagePosted => true
  | .reactionAdded => true
  | .diffPosted => true
  | .schedule _ _ => false
  | .webhook => false

/-- The loop over the steps of a definition whose trigger has no message. -/
def validateReplies : List Step → Except InvalidDefinition Unit
  | [] => .ok ()
  | step :: steps =>
      if step.action = .sendMessage true then
        .error ⟨"step '".toList ++ step.id ++
          "': reply_in_thread requires a message-based trigger ".toList ++
          "(message_posted, reaction_added, or diff_posted); ".toList ++
          "schedule and webhook triggers have no message to reply to".toList⟩
      else validateReplies steps

/-! ## Triggers -/

section

variable (parse : CronParser) (cronError : Text → Text)

def validateCron (expr : Text) : Except InvalidDefinition Unit :=
  match parse (normalizeCron expr) with
  | some _ => .ok ()
  | none => .error ⟨"invalid cron expression '".toList ++ expr ++ "': ".toList ++
      cronError (normalizeCron expr)⟩

def validateInterval (dur : Text) : Except InvalidDefinition Unit :=
  match parseDurationSecs dur with
  | none => .error ⟨"invalid interval '".toList ++ dur ++
      "': expected a duration like '30m', '1h', or '60s'".toList⟩
  | some secs =>
      if secs < 60 then
        .error ⟨"interval must be at least 60s (cron loop ticks every 60 seconds)".toList⟩
      else .ok ()

def validateTrigger : TriggerDef → Except InvalidDefinition Unit
  | .schedule none none =>
      .error ⟨"schedule trigger requires either 'cron' or 'interval'".toList⟩
  | .schedule (some _) (some _) =>
      .error ⟨"schedule trigger cannot specify both 'cron' and 'interval'; ".toList ++
        "use one or the other".toList⟩
  | .schedule (some expr) none => validateCron parse cronError expr
  | .schedule none (some dur) => validateInterval dur
  | _ => .ok ()

def WorkflowDef.validate (definition : WorkflowDef) : Except InvalidDefinition Unit :=
  if (trim definition.name).isEmpty then
    .error ⟨"name is required and must not be empty".toList⟩
  else if definition.steps.isEmpty then .error ⟨"at least one step is required".toList⟩
  else
    match validateIds [] definition.steps with
    | .error e => .error e
    | .ok () =>
        match
          (if definition.trigger.hasMessage then .ok () else validateReplies definition.steps)
        with
        | .error e => .error e
        | .ok () => validateTrigger parse cronError definition.trigger

end

end Workflow
end Maju
