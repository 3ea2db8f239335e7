import Maju.Lib.Decimal
import Maju.Lib.Json
import Maju.Lib.Text

/-!
# History — the conversation a session sends to its provider

The items of a history and the functions that rewrite it: the results of tool calls, the pairs that
carry hook output, the removal of images, truncation and the reset of a handoff.

`Paired` is the form every provider wire format requires: an assistant item with tool calls is
followed at once by one result for each call, in order, and there is no other result.  Each
function keeps it.
-/

namespace Maju
namespace Agent

open Lib

/-! ## Items and sizes -/

inductive ToolResultContent where
  | text (s : Text)
  | image (data mimeType : Text)

structure ToolCall where
  providerId : Text
  name : Text
  arguments : Json
  providerExtra : List (Text × Json)

structure ToolResult where
  providerId : Text
  content : List ToolResultContent
  isError : Bool

inductive HistoryItem where
  | user (text : Text)
  | assistant (text : Text) (toolCalls : List ToolCall) (reasoningDetails : Option Json)
  | toolResult (result : ToolResult)

def imageContextTokenEquiv : Nat := 16 * 1024

def ToolResultContent.estimatedBytes : ToolResultContent → Nat
  | .text s => byteLen s
  | .image data mimeType => byteLen data + byteLen mimeType

def ToolResultContent.contextPressureBytes : ToolResultContent → Nat
  | .text s => byteLen s
  | .image _ mimeType => imageContextTokenEquiv + byteLen mimeType

/-- `serde_json::to_vec`, by its length. -/
def jsonLen (v : Json) : Nat := byteLen v.print

def ToolCall.size (c : ToolCall) : Nat :=
  byteLen c.providerId + byteLen c.name + jsonLen c.arguments + jsonLen (.obj c.providerExtra)

namespace HistoryItem

def sizeWith (contentSize : ToolResultContent → Nat) : HistoryItem → Nat
  | .user s => byteLen s
  | .assistant text toolCalls reasoningDetails =>
      byteLen text + (toolCalls.map ToolCall.size).sum + (reasoningDetails.map jsonLen).getD 0
  | .toolResult r => byteLen r.providerId + (r.content.map contentSize).sum

def estimatedBytes : HistoryItem → Nat := sizeWith ToolResultContent.estimatedBytes

def contextPressureBytes : HistoryItem → Nat := sizeWith ToolResultContent.contextPressureBytes

def isUser : HistoryItem → Bool
  | .user _ => true
  | _ => false

def userText? : HistoryItem → Option Text
  | .user text => some text
  | _ => none

end HistoryItem

abbrev History := List HistoryItem

namespace History

def estimatedBytes (history : History) : Nat := (history.map HistoryItem.estimatedBytes).sum

def contextPressureBytes (history : History) : Nat :=
  (history.map HistoryItem.contextPressureBytes).sum

end History

/-! ## Prompts -/

inductive ContentBlock where
  | text (text : Text)
  | resourceLink (uri : Text)
  | unsupported
  deriving DecidableEq

def maxPromptBytes : Nat := 1024 * 1024

def ContentBlock.render : ContentBlock → Option Text
  | .text s => some s
  | .resourceLink uri => some ("[resource: ".toList ++ uri ++ "]".toList)
  | .unsupported => none

/-- `prompt_to_text`; `none` is the error for an unsupported block. -/
def promptToText (prompt : List ContentBlock) : Option Text :=
  (prompt.mapM ContentBlock.render).map ("\n".toList).intercalate

/-- `trim().is_empty()`. -/
def isBlank (text : Text) : Bool := (trim text).isEmpty

/-- The text that a queued steer becomes, unless it is dropped. -/
def steerText (prompt : List ContentBlock) : Option Text :=
  match promptToText prompt with
  | some text => if isBlank text then none else some text
  | none => none

/-! ## Tool results -/

def errorReflectionSuffix : Text :=
  "\n\n[Reflect] Before retrying, identify the cause and change your approach.".toList

def missingResultMessage : Text := "internal error: missing result".toList

def syntheticToolResult (call : ToolCall) (msg : Text) : ToolResult :=
  ⟨call.providerId, [.text msg], true⟩

/-- The result that is stored for a call: a missing one is an internal error, and an error asks the
model to reflect. -/
def storedResult (call : ToolCall) (result : Option ToolResult) : ToolResult :=
  let result := result.getD (syntheticToolResult call missingResultMessage)
  if result.isError then { result with content := result.content ++ [.text errorReflectionSuffix] }
  else result

theorem storedResult_providerId {call : ToolCall} {result : Option ToolResult}
    (h : ∀ r, result = some r → r.providerId = call.providerId) :
    (storedResult call result).providerId = call.providerId := by
  have hraw : (result.getD (syntheticToolResult call missingResultMessage)).providerId =
      call.providerId := by
    cases result with
    | none => rfl
    | some r => exact h r rfl
  simp only [storedResult]
  split <;> exact hraw

def appendResults (history : History) (calls : List ToolCall) (results : List (Option ToolResult)) :
    History :=
  history ++ calls.zipIdx.map fun p => .toolResult (storedResult p.1 (results.getD p.2 none))

/-! ## Hook output -/

def formatHookOutputBody (hook server text : Text) : Text :=
  (Json.obj [("hook".toList, .str hook), ("server".toList, .str server),
    ("text".toList, .str text)]).print

def syntheticHookId (hook server : Text) (ordinal : Nat) : Text :=
  "maju_hook_".toList ++ hook ++ "_".toList ++ server ++ "_".toList ++ decimal ordinal

/-- The assistant item and the result that carry one hook output. -/
def hookPair (hook server text : Text) (ordinal : Nat) : History :=
  let providerId := syntheticHookId hook server ordinal
  [.assistant [] [⟨providerId, server ++ "__".toList ++ hook, .obj [], []⟩] none,
    .toolResult ⟨providerId, [.text (formatHookOutputBody hook server text)], false⟩]

/-- `push_hook_outputs_as_tool_results`; each output comes with its number of the process-wide
counter. -/
def pushHookOutputsAsToolResults (history : History) (hook : Text)
    (outputs : List (Text × Text × Nat)) : History :=
  history ++ outputs.flatMap fun o => hookPair hook o.1 o.2.1 o.2.2

/-! ## Images -/

def unsupportedImageToolMessage : Text :=
  ("The current model does not support image input. The image was removed from conversation " ++
    "history so this turn can continue. Use a text-based inspection tool or ask the user for a " ++
    "textual description instead.").toList

def ToolResultContent.isImage : ToolResultContent → Bool
  | .image _ _ => true
  | .text _ => false

def HistoryItem.images : HistoryItem → Nat
  | .toolResult r => r.content.countP ToolResultContent.isImage
  | _ => 0

def HistoryItem.replaceImages : HistoryItem → HistoryItem
  | .toolResult r =>
      if r.content.any ToolResultContent.isImage then
        .toolResult { r with
          content := r.content.filter (fun c => !c.isImage) ++ [.text unsupportedImageToolMessage]
          isError := true }
      else .toolResult r
  | item => item

/-- `replace_unsupported_images`, with the number of images removed. -/
def replaceUnsupportedImages (history : History) : History × Nat :=
  (history.map HistoryItem.replaceImages, (history.map HistoryItem.images).sum)

/-! ## Truncation -/

/-- The loop of `truncate_history`: drop the items before the next user item while the history is
too large and there is one. -/
def truncateLoop (maxBytes : Nat) : Nat → Nat → History → History
  | 0, _, history => history
  | _ + 1, _, [] => []
  | fuel + 1, total, item :: rest =>
      if total ≤ maxBytes then item :: rest
      else
        match rest.dropWhile fun i => !i.isUser with
        | [] => item :: rest
        | kept =>
            let dropped := History.estimatedBytes (item :: rest.takeWhile fun i => !i.isUser)
            truncateLoop maxBytes fuel (total - dropped) kept

def truncateHistory (history : History) (maxBytes : Nat) : History :=
  truncateLoop maxBytes history.length history.estimatedBytes history

/-! ## Handoff -/

def currentPrompt (history : History) : Option Text :=
  history.reverse.findSome? HistoryItem.userText?

def hookOutputsText (outputs : List (Text × Text)) : Text :=
  ("\n\n".toList).intercalate
    (outputs.map fun o => "[".toList ++ o.1 ++ "]\n".toList ++ o.2)

/-- The summary as the first message of the fresh context. -/
def handoffText (summary : Text) (postCompact : List (Text × Text)) : Text :=
  "[Context Handoff]\n".toList ++ summary ++
    if postCompact.isEmpty then []
    else "\n\n[Post-compact hook output — untrusted]\n".toList ++ hookOutputsText postCompact

def handoffHistory (summary : Text) (postCompact : List (Text × Text)) (current : Option Text) :
    History :=
  .user (handoffText summary postCompact) :: (current.map HistoryItem.user).toList

/-! ## Provider-valid histories -/

/-- Every assistant item is followed at once by one result for each of its calls, in order, and
there is no other result. -/
inductive Paired : History → Prop
  | nil : Paired []
  | user (text : Text) {rest : History} : Paired rest → Paired (.user text :: rest)
  | assistant (text : Text) (calls : List ToolCall) (reasoningDetails : Option Json)
      (results : List ToolResult) {rest : History} :
      results.map ToolResult.providerId = calls.map ToolCall.providerId → Paired rest →
      Paired (.assistant text calls reasoningDetails ::
        (results.map HistoryItem.toolResult ++ rest))

def StartsWithUser (history : History) : Prop := ∃ text rest, history = .user text :: rest

namespace Paired

theorem append {a b : History} (ha : Paired a) (hb : Paired b) : Paired (a ++ b) := by
  induction ha with
  | nil => exact hb
  | user text _ ih => exact .user text ih
  | assistant text calls reasoningDetails results hids _ ih =>
      rw [List.cons_append, List.append_assoc]
      exact .assistant text calls reasoningDetails results hids ih

theorem from_user {history : History} (h : Paired history) {before : History} {text : Text}
    {rest : History} (hsplit : history = before ++ .user text :: rest) :
    Paired (.user text :: rest) := by
  induction h generalizing before with
  | nil => simp at hsplit
  | user t h ih =>
      cases before with
      | nil =>
          rw [List.nil_append] at hsplit
          rw [← hsplit]
          exact .user t h
      | cons item before => exact ih (List.cons.inj hsplit).2
  | assistant t calls reasoningDetails results hids h ih =>
      cases before with
      | nil => cases hsplit
      | cons item before =>
          rcases List.append_eq_append_iff.1 (List.cons.inj hsplit).2 with
            ⟨middle, _, hrest⟩ | ⟨middle, hresults, hrest⟩
          · exact ih hrest
          · cases middle with
            | nil =>
                have hwhole := hrest.symm
                rw [List.nil_append, ← List.nil_append (HistoryItem.user text :: rest)] at hwhole
                exact ih hwhole
            | cons item' middle =>
                -- the cut would lie among the results, which hold no user item
                have hmem : HistoryItem.user text ∈ results.map HistoryItem.toolResult := by
                  rw [hresults, List.cons.inj hrest |>.1]
                  simp
                simp at hmem

theorem users (texts : List Text) : Paired (texts.map HistoryItem.user) := by
  induction texts with
  | nil => exact .nil
  | cons text texts ih => exact .user text ih

theorem plain (text : Text) (reasoningDetails : Option Json) :
    Paired [.assistant text [] reasoningDetails] :=
  .assistant text [] reasoningDetails [] rfl .nil

theorem map_replaceImages {history : History} (h : Paired history) :
    Paired (history.map HistoryItem.replaceImages) := by
  -- an item keeps its kind, and a result keeps its provider id
  have hresult : ∀ r : ToolResult, ∃ r', (HistoryItem.toolResult r).replaceImages = .toolResult r' ∧
      r'.providerId = r.providerId := by
    intro r
    simp only [HistoryItem.replaceImages]
    split
    · exact ⟨_, rfl, rfl⟩
    · exact ⟨r, rfl, rfl⟩
  choose stripped hstripped hid using hresult
  induction h with
  | nil => exact .nil
  | user text _ ih => exact .user text ih
  | assistant text calls reasoningDetails results hids _ ih =>
      have hmap : (results.map HistoryItem.toolResult).map HistoryItem.replaceImages =
          (results.map stripped).map HistoryItem.toolResult := by
        simp [hstripped]
      rw [List.map_cons, List.map_append, hmap]
      refine .assistant text calls reasoningDetails (results.map stripped) ?_ ih
      rw [← hids, List.map_map]
      exact List.map_congr_left fun r _ => hid r

theorem appendResults {history : History} (h : Paired history) (text : Text)
    (reasoningDetails : Option Json) {calls : List ToolCall} {results : List (Option ToolResult)}
    (hids : ∀ (i : Nat) (call : ToolCall) (r : ToolResult), calls[i]? = some call →
      results.getD i none = some r → r.providerId = call.providerId) :
    Paired (Agent.appendResults (history ++ [.assistant text calls reasoningDetails]) calls
      results) := by
  have hstored : (calls.zipIdx.map fun p => storedResult p.1 (results.getD p.2 none)).map
      ToolResult.providerId = calls.map ToolCall.providerId := by
    rw [List.map_map]
    apply List.ext_getElem?
    intro i
    rw [List.getElem?_map, List.getElem?_map, List.getElem?_zipIdx, Nat.zero_add]
    cases hcall : calls[i]? with
    | none => rfl
    | some call =>
        exact congrArg some (storedResult_providerId fun r hr => hids i call r hcall hr)
  have hgroup := Paired.assistant text calls reasoningDetails _ hstored .nil
  have happend := h.append hgroup
  rwa [List.append_nil, List.map_map, ← List.singleton_append, ← List.append_assoc] at happend

theorem pushHookOutputs {history : History} (h : Paired history) (hook : Text)
    (outputs : List (Text × Text × Nat)) :
    Paired (pushHookOutputsAsToolResults history hook outputs) := by
  refine h.append ?_
  induction outputs with
  | nil => exact .nil
  | cons o outputs ih => exact .assistant _ _ _ [_] rfl ih

theorem handoffHistory (summary : Text) (postCompact : List (Text × Text))
    (current : Option Text) : Paired (Agent.handoffHistory summary postCompact current) := by
  cases current with
  | none => exact .user _ .nil
  | some text => exact .user _ (.user text .nil)

end Paired

/-! ## Truncation keeps a suffix -/

theorem dropWhile_isUser (history : History) :
    history.dropWhile (fun i => !i.isUser) = [] ∨
      ∃ before text rest, history = before ++ .user text :: rest ∧
        history.dropWhile (fun i => !i.isUser) = .user text :: rest := by
  induction history with
  | nil => exact .inl rfl
  | cons item tail ih =>
      cases item with
      | user text => exact .inr ⟨[], text, tail, rfl, rfl⟩
      | assistant text calls reasoningDetails =>
          rcases ih with hnone | ⟨before, t, rest, htail, hlist⟩
          · exact .inl hnone
          · exact .inr ⟨_ :: before, t, rest, by rw [htail]; rfl, hlist⟩
      | toolResult r =>
          rcases ih with hnone | ⟨before, t, rest, htail, hlist⟩
          · exact .inl hnone
          · exact .inr ⟨_ :: before, t, rest, by rw [htail]; rfl, hlist⟩

theorem truncateLoop_suffix (maxBytes fuel total : Nat) (history : History) :
    truncateLoop maxBytes fuel total history = history ∨
      ∃ dropped text rest, history = dropped ++ .user text :: rest ∧
        truncateLoop maxBytes fuel total history = .user text :: rest := by
  induction fuel generalizing total history with
  | zero => exact .inl rfl
  | succ fuel ih =>
      cases history with
      | nil => exact .inl rfl
      | cons item tail =>
          simp only [truncateLoop]
          split
          · exact .inl rfl
          · split
            · exact .inl rfl
            · next hnone =>
                right
                rcases dropWhile_isUser tail with hlist | ⟨before, text, rest, htail, hlist⟩
                · exact absurd hlist hnone
                · rcases ih _ (.user text :: rest) with hsame | ⟨dropped, t, rest', hsplit, hkept⟩
                  · exact ⟨item :: before, text, rest, by rw [htail]; rfl, by rw [hlist, hsame]⟩
                  · refine ⟨item :: before ++ dropped, t, rest', ?_, by rw [hlist, hkept]⟩
                    rw [htail, hsplit]
                    simp

theorem truncateHistory_suffix (history : History) (maxBytes : Nat) :
    truncateHistory history maxBytes = history ∨
      ∃ dropped text rest, history = dropped ++ .user text :: rest ∧
        truncateHistory history maxBytes = .user text :: rest :=
  truncateLoop_suffix maxBytes _ _ history

theorem Paired.truncateHistory {history : History} (h : Paired history) (maxBytes : Nat) :
    Paired (truncateHistory history maxBytes) := by
  rcases truncateHistory_suffix history maxBytes with hsame | ⟨dropped, text, rest, hsplit, hkept⟩
  · rwa [hsame]
  · rw [hkept]
    exact h.from_user hsplit

theorem StartsWithUser.truncateHistory {history : History} (h : StartsWithUser history)
    (maxBytes : Nat) : StartsWithUser (truncateHistory history maxBytes) := by
  rcases truncateHistory_suffix history maxBytes with hsame | ⟨dropped, text, rest, _, hkept⟩
  · rwa [hsame]
  · exact ⟨text, rest, hkept⟩

theorem StartsWithUser.append {a : History} (h : StartsWithUser a) (b : History) :
    StartsWithUser (a ++ b) := by
  rcases h with ⟨text, rest, rfl⟩
  exact ⟨text, rest ++ b, rfl⟩

end Agent
end Maju
