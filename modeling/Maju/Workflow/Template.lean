import Maju.Core.Nostr
import Maju.Lib.Brackets
import Maju.Lib.Json
import Maju.Lib.Text

/-!
# Template — substitution of variables in a step

A template has placeholders in doubled braces.  Each names a trigger field or the output of an
earlier step, and may pass the value through a filter.  The loop cuts the text that remains at the
next doubled braces and writes to a result that it never reads.

* `resolveTemplate` — the loop, with its lookups and filters;
* `Cuts` — the pieces of a template: its texts and placeholders from left to right;
* `resolveTemplate_eq` — the loop writes one text for each piece of the template;
* `substitution_iff` — this is the substitution that keeps unknown placeholders as written exactly
  when none of them has white space just inside its braces.
-/

namespace Maju
namespace Workflow

open Lib Core

/-! ## Variables -/

structure TriggerContext where
  text : Text
  author : Text
  channelId : Text
  timestamp : Text
  emoji : Text
  messageId : Text
  isReply : Bool
  webhookFields : HashMap Text Text

def TriggerContext.getField (ctx : TriggerContext) (name : Text) : Option Text :=
  if name = "text".toList then some ctx.text
  else if name = "author".toList then some ctx.author
  else if name = "channel_id".toList then some ctx.channelId
  else if name = "timestamp".toList then some ctx.timestamp
  else if name = "emoji".toList then some ctx.emoji
  else if name = "message_id".toList then some ctx.messageId
  else ctx.webhookFields.lookup name

/-- `splitn(2, sep)`: what stands before the first separator, and what stands behind it. -/
def splitn2 (sep : Char) (s : Text) : Text × Option Text :=
  (s.takeWhile (· ≠ sep),
    match s.dropWhile (· ≠ sep) with
    | [] => none
    | _ :: rest => some rest)

/-- `str::strip_prefix`. -/
def withoutPrefix (p s : Text) : Option Text :=
  if p.isPrefixOf s then some (s.drop p.length) else none

def jsonToString : Json → Text
  | .str s => s
  | .bool true => "true".toList
  | .bool false => "false".toList
  | .num token => token
  | .null => []
  | other => other.print

def jsonGetStr (value : Json) (key : Text) : Option Text :=
  match value with
  | .obj members => (members.find? fun e => e.1 = key).map fun e => jsonToString e.2
  | _ => none

/-- The three parts of `steps.ID.output.FIELD` behind its prefix. -/
def stepParts (rest : Text) : Option (Text × Text × Text) :=
  match splitn2 '.' rest with
  | (_, none) => none
  | (stepId, some more) =>
      match splitn2 '.' more with
      | (_, none) => none
      | (middle, some field) => some (stepId, middle, field)

def resolveVariable (ctx : TriggerContext) (stepOutputs : HashMap Text Json) (path : Text) :
    Option Text :=
  match withoutPrefix "trigger.".toList path with
  | some field => ctx.getField field
  | none =>
      match withoutPrefix "steps.".toList path with
      | none => none
      | some rest =>
          match stepParts rest with
          | none => none
          | some (stepId, middle, field) =>
              if middle ≠ "output".toList then none
              else (stepOutputs.lookup stepId).bind fun output => jsonGetStr output field

/-! ## Filters -/

/-- What is used of `nostr`: keys read from hexadecimal text and written in bech32. -/
structure KeyText where
  fromHex : Text → Option PublicKey
  toBech32 : PublicKey → Option Text

/-- `WorkflowError::TemplateError`. -/
structure TemplateError where
  reason : Text
  deriving DecidableEq, Repr

/-- `str::strip_suffix(')')`. -/
def withoutParenthesis (s : Text) : Option Text :=
  if s.getLast? = some ')' then some s.dropLast else none

section

variable (keys : KeyText)

def applyFilter (value filter : Text) : Except TemplateError Text :=
  let filter := trim filter
  match (withoutPrefix "truncate(".toList filter).bind withoutParenthesis with
  | some inner =>
      -- `usize` has 64 bits
      match parseU64 (trim inner) with
      | none => .error ⟨"truncate() requires a number, got: ".toList ++ inner⟩
      | some n => .ok (value.take n)
  | none =>
      if filter = "npub".toList ∨ filter = "truncate_pubkey".toList then
        match keys.fromHex value with
        | some pk => .ok ((keys.toBech32 pk).getD value)
        | none => .ok value
      else .error ⟨"unknown filter: ".toList ++ filter⟩

/-! ## The loop -/

variable (ctx : TriggerContext) (stepOutputs : HashMap Text Json)

/-- The variable of the text between two braces. -/
def variableOf (raw : Text) : Option Text :=
  resolveVariable ctx stepOutputs (trim (splitn2 '|' (trim raw)).1)

def filterOf (raw : Text) : Option Text := (splitn2 '|' (trim raw)).2.map trim

/-- What one round of the loop writes for the text between two braces. -/
def placeholderText (raw : Text) : Except TemplateError Text :=
  match variableOf ctx stepOutputs raw, filterOf raw with
  | some v, some f => applyFilter keys v f
  | some v, none => .ok v
  | none, _ => .ok ('{' :: '{' :: (trim raw ++ ['}', '}']))

/-- The loop of `resolve_template` over what remains, with the result so far. -/
def resolveLoop (remaining result : Text) : Except TemplateError Text :=
  match _hopen : splitPair '{' remaining with
  | none => .ok (result ++ remaining)
  | some (before, rest) =>
      match _hclose : splitPair '}' rest with
      | none => .ok (result ++ before ++ '{' :: '{' :: rest)
      | some (raw, after) =>
          match placeholderText keys ctx stepOutputs raw with
          | .error e => .error e
          | .ok text => resolveLoop after (result ++ before ++ text)
termination_by remaining.length
decreasing_by
  have hrest := length_of_splitPair _hopen
  have hafter := length_of_splitPair _hclose
  omega

def resolveTemplate (template : Text) : Except TemplateError Text :=
  if !containsText template ['{', '{'] then .ok template
  else resolveLoop keys ctx stepOutputs template []

end

/-! ## Pieces -/

/-- A piece of a template: text, what stands between two pairs of braces, or what stands behind the
last pair if it is not closed. -/
inductive Piece where
  | literal (text : Text)
  | placeholder (raw : Text)
  | unclosed (rest : Text)
  deriving DecidableEq, Repr

/-- The pieces of a template from left to right: each pair of opening braces is the first in what is
left, and goes with the first pair of closing braces behind it. -/
inductive Cuts : Text → List Piece → Prop where
  | plain {template : Text} : ¬ ['{', '{'] <:+: template → Cuts template [.literal template]
  | unclosed {before rest : Text} : ¬ ['{', '{'] <:+: before ++ ['{'] → ¬ ['}', '}'] <:+: rest →
      Cuts (before ++ '{' :: '{' :: rest) [.literal before, .unclosed rest]
  | placeholder {before raw after : Text} {pieces : List Piece} :
      ¬ ['{', '{'] <:+: before ++ ['{'] → ¬ ['}', '}'] <:+: raw ++ ['}'] → Cuts after pieces →
      Cuts (before ++ '{' :: '{' :: (raw ++ '}' :: '}' :: after))
        (.literal before :: .placeholder raw :: pieces)

theorem exists_cuts (template : Text) : ∃ pieces, Cuts template pieces := by
  induction hn : template.length using Nat.strong_induction_on generalizing template with
  | _ n ih =>
      cases hopen : splitPair '{' template with
      | none => exact ⟨_, .plain (splitPair_eq_none_iff.1 hopen)⟩
      | some e =>
          obtain ⟨before, rest⟩ := e
          obtain ⟨rfl, hbefore⟩ := splitPair_eq_some_iff.1 hopen
          cases hclose : splitPair '}' rest with
          | none => exact ⟨_, .unclosed hbefore (splitPair_eq_none_iff.1 hclose)⟩
          | some e =>
              obtain ⟨raw, after⟩ := e
              obtain ⟨rfl, hraw⟩ := splitPair_eq_some_iff.1 hclose
              have hshorter : after.length < n := by
                rw [← hn]
                simp
                omega
              obtain ⟨pieces, hpieces⟩ := ih after.length hshorter after rfl
              exact ⟨_, .placeholder hbefore hraw hpieces⟩

theorem Cuts.cases_first {template : Text} {pieces : List Piece} (h : Cuts template pieces) :
    (splitPair '{' template = none ∧ pieces = [.literal template]) ∨
    (∃ before rest, splitPair '{' template = some (before, rest) ∧ splitPair '}' rest = none ∧
      pieces = [.literal before, .unclosed rest]) ∨
    (∃ before rest raw after others, splitPair '{' template = some (before, rest) ∧
      splitPair '}' rest = some (raw, after) ∧ Cuts after others ∧
        pieces = .literal before :: .placeholder raw :: others) := by
  cases h with
  | plain hplain => exact Or.inl ⟨splitPair_eq_none_iff.2 hplain, rfl⟩
  | unclosed hbefore hrest =>
      exact Or.inr (Or.inl ⟨_, _, splitPair_append hbefore _,
        splitPair_eq_none_iff.2 hrest, rfl⟩)
  | placeholder hbefore hraw hafter =>
      exact Or.inr (Or.inr ⟨_, _, _, _, _, splitPair_append hbefore _,
        splitPair_append hraw _, hafter, rfl⟩)

theorem Cuts.unique {template : Text} {pieces others : List Piece} (h : Cuts template pieces)
    (h' : Cuts template others) : others = pieces := by
  induction h generalizing others with
  | plain hplain =>
      have hopen := splitPair_eq_none_iff.2 hplain
      rcases h'.cases_first with ⟨-, rfl⟩ | ⟨_, _, hsome, -⟩ | ⟨_, _, _, _, _, hsome, -⟩
      · rfl
      · cases hopen.symm.trans hsome
      · cases hopen.symm.trans hsome
  | @unclosed before rest hbefore hrest =>
      have hopen := splitPair_append hbefore rest
      have hclose := splitPair_eq_none_iff.2 hrest
      rcases h'.cases_first with ⟨hnone, -⟩ | ⟨_, _, hsome, -, rfl⟩ |
        ⟨_, _, _, _, _, hsome, hclosed, -⟩
      · cases hopen.symm.trans hnone
      · cases hopen.symm.trans hsome
        rfl
      · cases hopen.symm.trans hsome
        cases hclose.symm.trans hclosed
  | @placeholder before raw after pieces hbefore hraw _ ih =>
      have hopen := splitPair_append hbefore (raw ++ '}' :: '}' :: after)
      have hclose := splitPair_append hraw after
      rcases h'.cases_first with ⟨hnone, -⟩ | ⟨_, _, hsome, hopened, -⟩ |
        ⟨_, _, _, _, _, hsome, hclosed, hafter, rfl⟩
      · cases hopen.symm.trans hnone
      · cases hopen.symm.trans hsome
        cases hclose.symm.trans hopened
      · cases hopen.symm.trans hsome
        cases hclose.symm.trans hclosed
        rw [ih hafter]

/-! ## The loop over the pieces -/

section

variable (keys : KeyText) (ctx : TriggerContext) (stepOutputs : HashMap Text Json)

def Piece.written : Piece → Except TemplateError Text
  | .literal text => .ok text
  | .placeholder raw => placeholderText keys ctx stepOutputs raw
  | .unclosed rest => .ok ('{' :: '{' :: rest)

/-- One text for each piece, one after the other, or the first error. -/
def writeAll (write : Piece → Except TemplateError Text) : List Piece → Except TemplateError Text
  | [] => .ok []
  | piece :: pieces =>
      match write piece with
      | .error e => .error e
      | .ok text => (writeAll write pieces).map (text ++ ·)

variable {keys ctx stepOutputs}

theorem resolveLoop_eq {remaining : Text} {pieces : List Piece} (h : Cuts remaining pieces)
    (result : Text) :
    resolveLoop keys ctx stepOutputs remaining result =
      (writeAll (Piece.written keys ctx stepOutputs) pieces).map (result ++ ·) := by
  induction h generalizing result with
  | plain hplain =>
      rw [resolveLoop]
      split
      · simp [writeAll, Piece.written, Except.map]
      · next hsome => cases (splitPair_eq_none_iff.2 hplain).symm.trans hsome
  | unclosed hbefore hrest =>
      rw [resolveLoop]
      split
      · next hnone => cases (splitPair_append hbefore _).symm.trans hnone
      · next hsome =>
          cases (splitPair_append hbefore _).symm.trans hsome
          split
          · simp [writeAll, Piece.written, Except.map]
          · next hclosed => cases (splitPair_eq_none_iff.2 hrest).symm.trans hclosed
  | @placeholder before raw after pieces hbefore hraw _ ih =>
      rw [resolveLoop]
      split
      · next hnone => cases (splitPair_append hbefore _).symm.trans hnone
      · next hsome =>
          cases (splitPair_append hbefore _).symm.trans hsome
          split
          · next hopened => cases (splitPair_append hraw _).symm.trans hopened
          · next hclosed =>
              cases (splitPair_append hraw _).symm.trans hclosed
              rw [writeAll, writeAll]
              simp only [Piece.written]
              cases placeholderText keys ctx stepOutputs raw with
              | error e => rfl
              | ok text =>
                  dsimp only
                  rw [ih]
                  cases writeAll (Piece.written keys ctx stepOutputs) pieces with
                  | error e => rfl
                  | ok texts => simp [Except.map]

/-- The loop writes one text for each piece of the template; what is written is not read again. -/
theorem resolveTemplate_eq {template : Text} {pieces : List Piece} (h : Cuts template pieces) :
    resolveTemplate keys ctx stepOutputs template =
      writeAll (Piece.written keys ctx stepOutputs) pieces := by
  unfold resolveTemplate
  split
  · next hnot =>
      have hplain : ¬ ['{', '{'] <:+: template := by
        rw [← containsText_iff]
        simpa using hnot
      rw [(Cuts.plain hplain).unique h]
      simp [writeAll, Piece.written, Except.map]
  · rw [resolveLoop_eq h]
    cases writeAll (Piece.written keys ctx stepOutputs) pieces with
    | error e => rfl
    | ok text => simp [Except.map]

end

/-! ## Substitution -/

section

variable (keys : KeyText) (ctx : TriggerContext) (stepOutputs : HashMap Text Json)

/-- What a piece stands for: the filtered value of its variable, or itself as it was written. -/
def Piece.expanded : Piece → Except TemplateError Text
  | .literal text => .ok text
  | .placeholder raw =>
      if variableOf ctx stepOutputs raw = none then .ok ('{' :: '{' :: (raw ++ ['}', '}']))
      else placeholderText keys ctx stepOutputs raw
  | .unclosed rest => .ok ('{' :: '{' :: rest)

/-- No placeholder of an unknown variable has white space just inside its braces. -/
def TrimmedUnknown (pieces : List Piece) : Prop :=
  ∀ raw, Piece.placeholder raw ∈ pieces → variableOf ctx stepOutputs raw = none → trim raw = raw

variable {keys ctx stepOutputs}

theorem trim_sublist (s : Text) : (trim s).Sublist s := by
  have hright : (trim s).Sublist (s.dropWhile isWhitespace) := by
    have hdrop := List.dropWhile_sublist (p := isWhitespace)
      (l := (s.dropWhile isWhitespace).reverse)
    simpa [trim] using hdrop.reverse
  exact hright.trans (List.dropWhile_sublist _)

theorem trimmedUnknown_cons {piece : Piece} {pieces : List Piece} :
    TrimmedUnknown ctx stepOutputs (piece :: pieces) ↔
      TrimmedUnknown ctx stepOutputs [piece] ∧ TrimmedUnknown ctx stepOutputs pieces := by
  simp only [TrimmedUnknown, List.mem_cons, List.not_mem_nil, or_false]
  constructor
  · exact fun h => ⟨fun raw hraw => h raw (Or.inl hraw), fun raw hraw => h raw (Or.inr hraw)⟩
  · rintro ⟨hhead, hrest⟩ raw (hraw | hraw)
    · exact hhead raw hraw
    · exact hrest raw hraw

theorem written_eq_expanded {piece : Piece} (h : TrimmedUnknown ctx stepOutputs [piece]) :
    piece.written keys ctx stepOutputs = piece.expanded keys ctx stepOutputs := by
  cases piece with
  | literal text => rfl
  | unclosed rest => rfl
  | placeholder raw =>
      simp only [Piece.written, Piece.expanded]
      split
      · next hnone =>
          rw [placeholderText, hnone, h raw List.mem_cons_self hnone]
      · rfl

theorem length_written {piece : Piece} {written expanded : Text}
    (hwritten : piece.written keys ctx stepOutputs = .ok written)
    (hexpanded : piece.expanded keys ctx stepOutputs = .ok expanded) :
    written.length ≤ expanded.length ∧ (written.length = expanded.length →
      TrimmedUnknown ctx stepOutputs [piece]) := by
  by_cases htrimmed : TrimmedUnknown ctx stepOutputs [piece]
  · rw [written_eq_expanded htrimmed, hexpanded] at hwritten
    exact ⟨(Except.ok.inj hwritten ▸ Nat.le_refl _), fun _ => htrimmed⟩
  · cases piece with
    | literal text => exact absurd (fun raw hraw => by simp at hraw) htrimmed
    | unclosed rest => exact absurd (fun raw hraw => by simp at hraw) htrimmed
    | placeholder raw =>
        simp only [TrimmedUnknown, List.mem_singleton, Piece.placeholder.injEq, forall_eq,
          Classical.not_imp] at htrimmed
        obtain ⟨hnone, hspace⟩ := htrimmed
        simp only [Piece.written, Piece.expanded, placeholderText, hnone, if_true] at *
        obtain rfl := Except.ok.inj hwritten
        obtain rfl := Except.ok.inj hexpanded
        have hsublist := trim_sublist raw
        have hlt : (trim raw).length < raw.length :=
          lt_of_le_of_ne hsublist.length_le fun heq => hspace (hsublist.eq_of_length heq)
        simp
        omega

theorem writeAll_cons_eq_ok_iff {write : Piece → Except TemplateError Text} {piece : Piece}
    {pieces : List Piece} {text : Text} :
    writeAll write (piece :: pieces) = .ok text ↔
      ∃ head rest, write piece = .ok head ∧ writeAll write pieces = .ok rest ∧
        text = head ++ rest := by
  rw [writeAll]
  cases write piece with
  | error e => simp
  | ok head =>
      cases writeAll write pieces with
      | error e => simp [Except.map]
      | ok rest => simp [Except.map, eq_comm]

theorem length_writeAll {pieces : List Piece} {written expanded : Text}
    (hwritten : writeAll (Piece.written keys ctx stepOutputs) pieces = .ok written)
    (hexpanded : writeAll (Piece.expanded keys ctx stepOutputs) pieces = .ok expanded) :
    written.length ≤ expanded.length ∧ (written.length = expanded.length →
      TrimmedUnknown ctx stepOutputs pieces) := by
  induction pieces generalizing written expanded with
  | nil =>
      obtain rfl := Except.ok.inj hwritten
      obtain rfl := Except.ok.inj hexpanded
      exact ⟨Nat.le_refl _, fun _ raw hraw => by cases hraw⟩
  | cons piece pieces ih =>
      obtain ⟨w, ws, hw, hws, rfl⟩ := writeAll_cons_eq_ok_iff.1 hwritten
      obtain ⟨e, es, he, hes, rfl⟩ := writeAll_cons_eq_ok_iff.1 hexpanded
      obtain ⟨hhead, hhead'⟩ := length_written hw he
      obtain ⟨hrest, hrest'⟩ := ih hws hes
      rw [List.length_append, List.length_append, trimmedUnknown_cons]
      exact ⟨by omega, fun heq => ⟨hhead' (by omega), hrest' (by omega)⟩⟩

theorem writeAll_congr {pieces : List Piece} (h : TrimmedUnknown ctx stepOutputs pieces) :
    writeAll (Piece.written keys ctx stepOutputs) pieces =
      writeAll (Piece.expanded keys ctx stepOutputs) pieces := by
  induction pieces with
  | nil => rfl
  | cons piece pieces ih =>
      obtain ⟨hhead, hrest⟩ := trimmedUnknown_cons.1 h
      rw [writeAll, writeAll, written_eq_expanded hhead, ih hrest]

end

/-- A template is cut in pieces in one way.  When `resolve_template` succeeds, its result is what the
pieces stand for, with unknown placeholders and an unclosed tail as they were written, exactly when
no unknown placeholder has white space just inside its braces. -/
theorem substitution_iff (keys : KeyText) (ctx : TriggerContext)
    (stepOutputs : HashMap Text Json) (template : Text) :
    ∃ pieces, Cuts template pieces ∧ (∀ others, Cuts template others → others = pieces) ∧
      ∀ result, resolveTemplate keys ctx stepOutputs template = .ok result →
        (writeAll (Piece.expanded keys ctx stepOutputs) pieces = .ok result ↔
          TrimmedUnknown ctx stepOutputs pieces) := by
  obtain ⟨pieces, hcuts⟩ := exists_cuts template
  refine ⟨pieces, hcuts, fun others => hcuts.unique, fun result hresult => ?_⟩
  rw [resolveTemplate_eq hcuts] at hresult
  constructor
  · intro hexpanded
    exact (length_writeAll hresult hexpanded).2 rfl
  · intro htrimmed
    rw [← writeAll_congr htrimmed, hresult]

def noKeys : KeyText where
  fromHex := fun _ => none
  toBech32 := fun _ => none

/-- A message with a text, and nothing else. -/
def messageContext (text : Text) : TriggerContext where
  text := text
  author := []
  channelId := []
  timestamp := []
  emoji := []
  messageId := []
  isReply := false
  webhookFields := ∅

theorem cuts_one (raw : Text) (h : ¬ ['}', '}'] <:+: raw ++ ['}']) :
    Cuts ('{' :: '{' :: (raw ++ ['}', '}'])) [.literal [], .placeholder raw, .literal []] :=
  @Cuts.placeholder [] raw [] _ (by decide) h (.plain (by decide))

/-- Braces in the text of a message are not read again. -/
theorem substitution_iff_braces :
    resolveTemplate noKeys (messageContext "\x7b\x7bx\x7d\x7d".toList) ∅
        "\x7b\x7btrigger.text\x7d\x7d".toList = .ok "\x7b\x7bx\x7d\x7d".toList ∧
      writeAll (Piece.expanded noKeys (messageContext "\x7b\x7bx\x7d\x7d".toList) ∅)
        [.literal [], .placeholder "trigger.text".toList, .literal []] =
          .ok "\x7b\x7bx\x7d\x7d".toList := by
  have hcuts := cuts_one "trigger.text".toList (by decide)
  have hresolved : resolveTemplate noKeys (messageContext "\x7b\x7bx\x7d\x7d".toList) ∅
      "\x7b\x7btrigger.text\x7d\x7d".toList = .ok "\x7b\x7bx\x7d\x7d".toList :=
    (resolveTemplate_eq hcuts).trans (by decide)
  obtain ⟨pieces, -, hunique, hiff⟩ := substitution_iff noKeys
    (messageContext "\x7b\x7bx\x7d\x7d".toList) ∅ "\x7b\x7btrigger.text\x7d\x7d".toList
  obtain rfl := hunique _ hcuts
  refine ⟨hresolved, (hiff _ hresolved).2 fun raw hraw hnone => ?_⟩
  have heq : raw = "trigger.text".toList := by simpa using hraw
  rw [heq] at hnone ⊢
  revert hnone
  decide

/-- The spaces around an unknown variable are lost. -/
theorem spaces_lost :
    ¬ ∀ pieces result, Cuts "\x7b\x7b x \x7d\x7d".toList pieces →
      resolveTemplate noKeys (messageContext []) ∅ "\x7b\x7b x \x7d\x7d".toList = .ok result →
        writeAll (Piece.expanded noKeys (messageContext []) ∅) pieces = .ok result := by
  intro h
  have hcuts := cuts_one " x ".toList (by decide)
  have hresolved : resolveTemplate noKeys (messageContext []) ∅
      "\x7b\x7b x \x7d\x7d".toList = .ok "\x7b\x7bx\x7d\x7d".toList :=
    (resolveTemplate_eq hcuts).trans (by decide)
  have hexpanded := h _ _ hcuts hresolved
  revert hexpanded
  decide

end Workflow
end Maju
