import Mathlib.Tactic.IntervalCases
import Maju.Lib.TypedStore
import Maju.Workflow.Definition
import Maju.Workflow.Template

/-!
# Condition — the variables that a step's condition can read

Before a condition is evaluated, the trigger and the outputs of earlier steps are stored as
variables of `evalexpr`.  Their names are put together from what users choose: the keys of a webhook
body, the ids of steps and the fields of their outputs.

* `buildEvalContext` — the three groups of assignments;
* `Unspoofable` — standard fields and outputs are found under their own names;
* `outputName_eq_iff` — which names of outputs run into each other;
* `unspoofable_iff` — no webhook key is `is_reply` and no two outputs share a name.
-/

namespace Maju
namespace Workflow

open Lib Core

/-! ## Values -/

section Values

variable {F : Type}

/-- `evalexpr::Value`, without tuples; `F` are its floats. -/
inductive EvalValue (F : Type) where
  | string (s : Text)
  | float (x : F)
  | int (i : Int)
  | boolean (b : Bool)
  | empty

/-- `evalexpr::ValueType`. -/
inductive ValueType where
  | string
  | float
  | int
  | boolean
  | empty
  deriving DecidableEq, Repr

def EvalValue.type : EvalValue F → ValueType
  | .string _ => .string
  | .float _ => .float
  | .int _ => .int
  | .boolean _ => .boolean
  | .empty => .empty

/-- `serde_json::Number::as_i64`. -/
def asI64 (token : Text) : Option Int :=
  match token with
  | '-' :: digits => (parseDigits digits).bind fun n => if n ≤ 2 ^ 63 then some (-n) else none
  | digits => (parseDigits digits).bind fun n => if n < 2 ^ 63 then some n else none

/-- `json_value_to_eval`, with `serde_json::Number::as_f64`. -/
def jsonValueToEval (asF64 : Text → Option F) : Json → EvalValue F
  | .str s => .string s
  | .bool b => .boolean b
  | .num token =>
      match asI64 token with
      | some i => .int i
      | none =>
          match asF64 token with
          | some x => .float x
          | none => .string token
  | .null => .empty
  | other => .string other.print

/-- The outputs of the steps by their ids.  An object has one member for a name. -/
structure StepOutputs where
  table : HashMap Text Json
  distinct : ∀ id members, table.lookup id = some (.obj members) → (members.map Prod.fst).Nodup

def StepOutputs.Has (outputs : StepOutputs) (id field : Text) (value : Json) : Prop :=
  ∃ members, outputs.table.lookup id = some (.obj members) ∧ (field, value) ∈ members

/-! ## The context -/

/-- A map of variables; an assignment is refused with the old value and the new one. -/
abbrev EvalContext (F : Type) := HashMap Text (EvalValue F)

/-- `steps_{step_id}_output_{field}`. -/
def outputName (stepId field : Text) : Text :=
  "steps_".toList ++ stepId ++ "_output_".toList ++ field

/-- The assignments of the loop over the webhook fields. -/
def webhookVariables (fields : List (Sigma fun _ : Text => Text)) : List (Text × EvalValue F) :=
  fields.filterMap fun e =>
    if "trigger_".toList.isPrefixOf e.1 || "steps_".toList.isPrefixOf e.1 then none
    else some ("trigger_".toList ++ e.1, .string e.2)

def triggerFields (ctx : TriggerContext) : List (Text × EvalValue F) :=
  [("trigger_text".toList, .string ctx.text),
    ("trigger_author".toList, .string ctx.author),
    ("trigger_channel_id".toList, .string ctx.channelId),
    ("trigger_timestamp".toList, .string ctx.timestamp),
    ("trigger_emoji".toList, .string ctx.emoji),
    ("trigger_message_id".toList, .string ctx.messageId)]

def isReplyField (ctx : TriggerContext) : Text × EvalValue F :=
  ("trigger_is_reply".toList, .boolean ctx.isReply)

/-- The assignments of the loop over the outputs. -/
def outputVariables (asF64 : Text → Option F) (outputs : List (Sigma fun _ : Text => Json)) :
    List (Text × EvalValue F) :=
  outputs.flatMap fun e =>
    match e.2 with
    | .obj members => members.map fun m => (outputName e.1 m.1, jsonValueToEval asF64 m.2)
    | _ => []

section Build

variable (asF64 : Text → Option F) (fieldOrder : IterOrder (Sigma fun _ : Text => Text))
  (outputOrder : IterOrder (Sigma fun _ : Text => Json)) (ctx : TriggerContext)
  (outputs : StepOutputs)

/-- `build_eval_context`; what becomes the text of `ConditionError` are the two values that differ
in type.  The functions of the context have names of their own. -/
def buildEvalContext : Except (EvalValue F × EvalValue F) (EvalContext F) := do
  let withWebhook ← assignAll EvalValue.type ∅
    (webhookVariables (fieldOrder.run ctx.webhookFields.entries))
  let withFields ← assignAll EvalValue.type withWebhook (triggerFields ctx)
  let withReply ← assignAll EvalValue.type withFields [isReplyField ctx]
  assignAll EvalValue.type withReply
    (outputVariables asF64 (outputOrder.run outputs.table.entries))

/-- There is a context, its standard variables are the standard fields, the variable of each output
field holds it, and no two of these have one variable. -/
structure Unspoofable (context : EvalContext F) : Prop where
  built : buildEvalContext asF64 fieldOrder outputOrder ctx outputs = .ok context
  standard : ∀ e ∈ triggerFields ctx ++ [isReplyField ctx], context.lookup e.1 = some e.2
  output : ∀ id field value, outputs.Has id field value →
    context.lookup (outputName id field) = some (jsonValueToEval asF64 value)
  separate : ∀ s f v t g w, outputs.Has s f v → outputs.Has t g w →
    outputName s f = outputName t g → s = t ∧ f = g

end Build

/-! ## Names -/

/-- The second id goes on with what stands behind the first one in the name. -/
def RunsInto (s f t g : Text) : Prop :=
  (t = s ++ "_output".toList ∧ f = "output_".toList ++ g) ∨
    ∃ y, t = s ++ "_output_".toList ++ y ∧ f = y ++ "_output_".toList ++ g

theorem output_overlap {w z f g : Text}
    (hsplit : ['_', 'o', 'u', 't', 'p', 'u', 't', '_'] = w ++ z)
    (hrest : ['_', 'o', 'u', 't', 'p', 'u', 't', '_'] ++ g = z ++ f) :
    (w = [] ∧ f = g) ∨ (w = ['_', 'o', 'u', 't', 'p', 'u', 't'] ∧
      f = ['o', 'u', 't', 'p', 'u', 't', '_'] ++ g) ∨
      (w = ['_', 'o', 'u', 't', 'p', 'u', 't', '_'] ∧
        f = ['_', 'o', 'u', 't', 'p', 'u', 't', '_'] ++ g) := by
  have hw : w = ['_', 'o', 'u', 't', 'p', 'u', 't', '_'].take w.length := by simp [hsplit]
  have hz : z = ['_', 'o', 'u', 't', 'p', 'u', 't', '_'].drop w.length := by simp [hsplit]
  have hlen : w.length ≤ 8 := by
    have := congrArg List.length hsplit
    simp at this
    omega
  rw [hw]
  rw [hz] at hrest
  generalize w.length = n at hlen hrest ⊢
  interval_cases n <;> simp at hrest ⊢ <;> exact hrest.symm

theorem output_append_eq_iff {w f g : Text} :
    "_output_".toList ++ f = w ++ ("_output_".toList ++ g) ↔
      (w = [] ∧ f = g) ∨ (w = "_output".toList ∧ f = "output_".toList ++ g) ∨
        ∃ y, w = "_output_".toList ++ y ∧ f = y ++ ("_output_".toList ++ g) := by
  have hmarker : "_output_".toList = ['_', 'o', 'u', 't', 'p', 'u', 't', '_'] := by simp
  have hinit : "_output".toList = ['_', 'o', 'u', 't', 'p', 'u', 't'] := by simp
  have htail : "output_".toList = ['o', 'u', 't', 'p', 'u', 't', '_'] := by simp
  rw [hmarker, hinit, htail]
  constructor
  · intro h
    rcases List.append_eq_append_iff.1 h with ⟨y, hw, hf⟩ | ⟨z, hw, hf⟩
    · exact Or.inr (Or.inr ⟨y, hw, hf⟩)
    · rcases output_overlap hw hf with hnil | hinit | ⟨hall, hf⟩
      · exact Or.inl hnil
      · exact Or.inr (Or.inl hinit)
      · exact Or.inr (Or.inr ⟨[], by rw [hall, List.append_nil], hf⟩)
  · rintro (⟨rfl, rfl⟩ | ⟨rfl, rfl⟩ | ⟨y, rfl, rfl⟩)
    · rfl
    · rfl
    · exact (List.append_assoc _ _ _).symm

theorem runsInto_iff {s f t g : Text} :
    RunsInto s f t g ↔ ∃ w, w ≠ [] ∧ t = s ++ w ∧
      "_output_".toList ++ f = w ++ ("_output_".toList ++ g) := by
  constructor
  · rintro (⟨ht, hf⟩ | ⟨y, ht, hf⟩)
    · exact ⟨"_output".toList, by simp, ht, output_append_eq_iff.2 (Or.inr (Or.inl ⟨rfl, hf⟩))⟩
    · rw [List.append_assoc] at ht hf
      exact ⟨"_output_".toList ++ y, by simp, ht,
        output_append_eq_iff.2 (Or.inr (Or.inr ⟨y, rfl, hf⟩))⟩
  · rintro ⟨w, hw, ht, hname⟩
    rcases output_append_eq_iff.1 hname with ⟨hnil, _⟩ | ⟨hinit, hf⟩ | ⟨y, hall, hf⟩
    · exact absurd hnil hw
    · exact Or.inl ⟨by rw [ht, hinit], hf⟩
    · exact Or.inr ⟨y, by rw [ht, hall, List.append_assoc], by rw [hf, List.append_assoc]⟩

/-- Which names of outputs run into each other. -/
theorem outputName_eq_iff {s f t g : Text} :
    outputName s f = outputName t g ↔ (s = t ∧ f = g) ∨ RunsInto s f t g ∨ RunsInto t g s f := by
  -- the texts stay variables here: a literal is not taken apart
  have hcancel : ∀ a s b f t g : Text,
      a ++ s ++ b ++ f = a ++ t ++ b ++ g ↔ s ++ (b ++ f) = t ++ (b ++ g) := by simp
  refine (hcancel "steps_".toList s "_output_".toList f t g).trans ?_
  rw [List.append_eq_append_iff, runsInto_iff, runsInto_iff]
  constructor
  · rintro (⟨w, ht, hname⟩ | ⟨w, hs, hname⟩)
    · by_cases hw : w = []
      · rw [hw, List.append_nil] at ht
        rw [hw, List.nil_append] at hname
        exact Or.inl ⟨ht.symm, List.append_cancel_left hname⟩
      · exact Or.inr (Or.inl ⟨w, hw, ht, hname⟩)
    · by_cases hw : w = []
      · rw [hw, List.append_nil] at hs
        rw [hw, List.nil_append] at hname
        exact Or.inl ⟨hs, (List.append_cancel_left hname).symm⟩
      · exact Or.inr (Or.inr ⟨w, hw, hs, hname⟩)
  · rintro (⟨hid, hfield⟩ | ⟨w, _, ht, hname⟩ | ⟨w, _, hs, hname⟩)
    · exact Or.inl ⟨[], by rw [hid, List.append_nil], by rw [hfield, List.nil_append]⟩
    · exact Or.inl ⟨w, ht, hname⟩
    · exact Or.inr ⟨w, hs, hname⟩

example : outputName "a".toList "output_x".toList = outputName "a_output".toList "x".toList := by
  decide

theorem trigger_ne_output (key id field : Text) :
    "trigger_".toList ++ key ≠ outputName id field := by
  have hheads : ∀ p q s b f : Text, p.head? = some 't' → q.head? = some 's' →
      p ++ key ≠ q ++ s ++ b ++ f := by
    intro p q s b f hp hq heq
    cases p with
    | nil => cases hp
    | cons c p =>
        cases q with
        | nil => cases hq
        | cons d q =>
            have hcd : c = d := (List.cons.inj heq).1
            cases hp
            cases hq
            exact absurd hcd (by decide)
  exact hheads "trigger_".toList "steps_".toList id "_output_".toList field (by simp) (by simp)

theorem outputName_injective (id : Text) : Function.Injective (outputName id) := by
  intro f g h
  exact List.append_cancel_left h

/-! ## The assignments -/

theorem mem_webhookVariables {fields : List (Sigma fun _ : Text => Text)} {e : Text × EvalValue F}
    (h : e ∈ webhookVariables fields) :
    ∃ key value, (⟨key, value⟩ : Sigma fun _ : Text => Text) ∈ fields ∧
      e = ("trigger_".toList ++ key, .string value) := by
  obtain ⟨⟨key, value⟩, hmem, hsome⟩ := List.mem_filterMap.1 h
  split at hsome
  · cases hsome
  · exact ⟨key, value, hmem, (Option.some.inj hsome).symm⟩

section Assignments

variable {asF64 : Text → Option F} {fieldOrder : IterOrder (Sigma fun _ : Text => Text)}
  {outputOrder : IterOrder (Sigma fun _ : Text => Json)} {ctx : TriggerContext}
  {outputs : StepOutputs}

theorem mem_outputVariables {e : Text × EvalValue F} :
    e ∈ outputVariables asF64 (outputOrder.run outputs.table.entries) ↔
      ∃ id field value, outputs.Has id field value ∧
        e = (outputName id field, jsonValueToEval asF64 value) := by
  rw [outputVariables, List.mem_flatMap]
  constructor
  · rintro ⟨⟨id, output⟩, hmem, he⟩
    have hlookup := HashMap.lookup_of_mem_entries (outputOrder.mem_run.1 hmem)
    cases output with
    | obj members =>
        obtain ⟨⟨field, value⟩, hfield, heq⟩ := List.mem_map.1 he
        exact ⟨id, field, value, ⟨members, hlookup, hfield⟩, heq.symm⟩
    | _ => exact absurd he List.not_mem_nil
  · rintro ⟨id, field, value, ⟨members, hlookup, hfield⟩, heq⟩
    refine ⟨⟨id, .obj members⟩, outputOrder.mem_run.2 (HashMap.mem_entries_iff.2 hlookup), ?_⟩
    exact List.mem_map.2 ⟨(field, value), hfield, heq.symm⟩

theorem pairwise_ids :
    (outputOrder.run outputs.table.entries).Pairwise fun a b => a.1 ≠ b.1 := by
  have hkeys : (outputs.table.entries.map Sigma.fst).Nodup := outputs.table.nodupKeys
  have hperm := (outputOrder.perm outputs.table.entries).map Sigma.fst
  exact List.pairwise_map.1 (hperm.nodup_iff.2 hkeys)

theorem nodup_outputVariables (asF64 : Text → Option F)
    (outputOrder : IterOrder (Sigma fun _ : Text => Json))
    (hseparate : ∀ s f v t g w, outputs.Has s f v → outputs.Has t g w →
      outputName s f = outputName t g → s = t ∧ f = g) :
    (outputVariables asF64 (outputOrder.run outputs.table.entries)).Pairwise
      fun a b => a.1 ≠ b.1 := by
  have hlookup : ∀ e ∈ outputOrder.run outputs.table.entries,
      outputs.table.lookup e.1 = some e.2 :=
    fun e he => HashMap.lookup_of_mem_entries (outputOrder.mem_run.1 he)
  rw [outputVariables, List.pairwise_flatMap]
  constructor
  · rintro ⟨id, output⟩ he
    cases output with
    | obj members =>
        have hnames := outputs.distinct id members (hlookup _ he)
        refine List.pairwise_map.2 ((List.pairwise_map.1 hnames).imp ?_)
        exact fun hne heq => hne (outputName_injective id heq)
    | _ => exact List.Pairwise.nil
  · refine pairwise_ids.imp_of_mem ?_
    rintro ⟨s, first⟩ ⟨t, second⟩ hfirst hsecond hne x hx y hy heq
    have hf := hlookup _ hfirst
    have hg := hlookup _ hsecond
    cases first with
    | obj members =>
        cases second with
        | obj others =>
            obtain ⟨⟨f, v⟩, hv, rfl⟩ := List.mem_map.1 hx
            obtain ⟨⟨g, w⟩, hw, rfl⟩ := List.mem_map.1 hy
            exact hne (hseparate s f v t g w ⟨members, hf, hv⟩ ⟨others, hg, hw⟩ heq).1
        | _ => exact absurd hy List.not_mem_nil
    | _ => exact absurd hx List.not_mem_nil

/-! ## Standard fields -/

def standardNames : List Text :=
  ["trigger_text".toList, "trigger_author".toList, "trigger_channel_id".toList,
    "trigger_timestamp".toList, "trigger_emoji".toList, "trigger_message_id".toList,
    "trigger_is_reply".toList]

theorem map_standard (F : Type) (ctx : TriggerContext) :
    (triggerFields ctx ++ [isReplyField ctx] : List (Text × EvalValue F)).map Prod.fst =
      standardNames := rfl

theorem pairwise_standard (F : Type) (ctx : TriggerContext) :
    (triggerFields ctx ++ [isReplyField ctx] : List (Text × EvalValue F)).Pairwise
      fun a b => a.1 ≠ b.1 := by
  have hnodup : standardNames.Nodup := by decide
  rw [← map_standard F ctx] at hnodup
  exact List.pairwise_map.1 hnodup

theorem standard_ne_output {e : Text × EvalValue F}
    (he : e ∈ triggerFields ctx ++ [isReplyField ctx]) (id field : Text) :
    e.1 ≠ outputName id field := by
  have hprefixed : ∀ name ∈ standardNames, "trigger_".toList <+: name := by decide
  have hmem : e.1 ∈ standardNames := by
    rw [← map_standard F ctx]
    exact List.mem_map_of_mem he
  obtain ⟨key, hkey⟩ := hprefixed e.1 hmem
  rw [← hkey]
  exact trigger_ne_output key id field

theorem type_triggerFields {e : Text × EvalValue F} (he : e ∈ triggerFields ctx) :
    e.2.type = .string := by
  have htypes : (triggerFields ctx : List (Text × EvalValue F)).all
      fun e => e.2.type = .string := rfl
  exact of_decide_eq_true (List.all_eq_true.1 htypes e he)

theorem trigger_is_reply_iff {key : Text} :
    "trigger_".toList ++ key = "trigger_is_reply".toList ↔ key = "is_reply".toList := by
  have hsplit : "trigger_is_reply".toList = "trigger_".toList ++ "is_reply".toList := by
    decide
  rw [hsplit]
  exact List.append_right_inj _

/-! ## The context of a condition -/

/-- The three groups of assignments in their order. -/
def allVariables (asF64 : Text → Option F) (fieldOrder : IterOrder (Sigma fun _ : Text => Text))
    (outputOrder : IterOrder (Sigma fun _ : Text => Json)) (ctx : TriggerContext)
    (outputs : StepOutputs) : List (Text × EvalValue F) :=
  webhookVariables (fieldOrder.run ctx.webhookFields.entries) ++
    ((triggerFields ctx ++ [isReplyField ctx]) ++
      outputVariables asF64 (outputOrder.run outputs.table.entries))

theorem buildEvalContext_eq :
    buildEvalContext asF64 fieldOrder outputOrder ctx outputs =
      assignAll EvalValue.type ∅ (allVariables asF64 fieldOrder outputOrder ctx outputs) := by
  have hbind : ∀ (x : Except (EvalValue F × EvalValue F) (EvalContext F))
      (f g : EvalContext F → Except (EvalValue F × EvalValue F) (EvalContext F)),
      (x.bind f).bind g = x.bind fun c => (f c).bind g := by
    intro x f g
    cases x with
    | error e => rfl
    | ok c => rfl
  rw [allVariables, assignAll_append]
  simp only [assignAll_append, hbind]
  rfl

/-- Where no webhook key is `is_reply` and the names of outputs are apart, values of one name have
one type. -/
theorem exists_context (asF64 : Text → Option F)
    (fieldOrder : IterOrder (Sigma fun _ : Text => Text))
    (outputOrder : IterOrder (Sigma fun _ : Text => Json))
    (hreply : "is_reply".toList ∉ ctx.webhookFields)
    (hseparate : ∀ s f v t g w, outputs.Has s f v → outputs.Has t g w →
      outputName s f = outputName t g → s = t ∧ f = g) :
    ∃ context, buildEvalContext asF64 fieldOrder outputOrder ctx outputs = .ok context := by
  rw [buildEvalContext_eq]
  refine assignAll_ok_iff.2 ⟨fun e _ old hold => ?_, ?_⟩
  · rw [AList.lookup_empty] at hold
    cases hold
  refine List.pairwise_append.2 ⟨?_, List.pairwise_append.2 ⟨?_, ?_, ?_⟩, ?_⟩
  · refine List.pairwise_of_forall_mem_list fun a ha b hb _ => ?_
    obtain ⟨_, _, _, rfl⟩ := mem_webhookVariables ha
    obtain ⟨_, _, _, rfl⟩ := mem_webhookVariables hb
    rfl
  · exact (pairwise_standard F ctx).imp fun hne heq => absurd heq hne
  · exact (nodup_outputVariables asF64 outputOrder hseparate).imp fun hne heq => absurd heq hne
  · intro a ha b hb heq
    obtain ⟨id, field, _, _, rfl⟩ := mem_outputVariables.1 hb
    exact absurd heq (standard_ne_output ha id field)
  · intro a ha b hb heq
    obtain ⟨key, value, hmem, rfl⟩ := mem_webhookVariables ha
    rcases List.mem_append.1 hb with hstandard | houtput
    · rcases List.mem_append.1 hstandard with hfield | hlast
      · exact (type_triggerFields hfield).symm
      · -- the one field that is no text
        cases List.mem_singleton.1 hlast
        have hkey : key = "is_reply".toList := trigger_is_reply_iff.1 heq
        have hentry := HashMap.lookup_of_mem_entries (fieldOrder.mem_run.1 hmem)
        rw [hkey] at hentry
        exact absurd (AList.lookup_isSome.1 (Option.isSome_of_eq_some hentry)) hreply
    · obtain ⟨id, field, _, _, rfl⟩ := mem_outputVariables.1 houtput
      exact absurd heq (trigger_ne_output key id field)

theorem not_mem_of_built {context : EvalContext F}
    (hbuilt : buildEvalContext asF64 fieldOrder outputOrder ctx outputs = .ok context) :
    "is_reply".toList ∉ ctx.webhookFields := by
  intro hmem
  obtain ⟨value, hlookup⟩ := Option.isSome_iff_exists.1 (AList.lookup_isSome.2 hmem)
  have hvariable : ("trigger_".toList ++ "is_reply".toList, EvalValue.string value) ∈
      (webhookVariables (fieldOrder.run ctx.webhookFields.entries) :
        List (Text × EvalValue F)) := by
    refine List.mem_filterMap.2 ⟨⟨"is_reply".toList, value⟩,
      fieldOrder.mem_run.2 (HashMap.mem_entries_iff.2 hlookup), ?_⟩
    have hkept : ("trigger_".toList.isPrefixOf "is_reply".toList ||
        "steps_".toList.isPrefixOf "is_reply".toList) = false := by decide
    dsimp only
    rw [hkept]
    rfl
  have hfield : isReplyField ctx ∈ (triggerFields ctx ++ [isReplyField ctx]) ++
      outputVariables asF64 (outputOrder.run outputs.table.entries) :=
    List.mem_append_left _ (List.mem_append_right _ List.mem_cons_self)
  rw [buildEvalContext_eq] at hbuilt
  have hpairs := (List.pairwise_append.1 (assignAll_ok_iff.1 ⟨context, hbuilt⟩).2).2.2
  cases hpairs _ hvariable _ hfield (trigger_is_reply_iff.2 rfl)

theorem lookup_standard {context : EvalContext F}
    (hbuilt : buildEvalContext asF64 fieldOrder outputOrder ctx outputs = .ok context)
    {e : Text × EvalValue F} (he : e ∈ triggerFields ctx ++ [isReplyField ctx]) :
    context.lookup e.1 = some e.2 := by
  obtain ⟨before, after, hsplit⟩ := List.append_of_mem he
  have hnames := pairwise_standard F ctx
  rw [hsplit, List.pairwise_append, List.pairwise_cons] at hnames
  rw [buildEvalContext_eq, allVariables, hsplit, List.append_assoc, ← List.append_assoc] at hbuilt
  refine lookup_assignAll hbuilt fun a ha => ?_
  rcases List.mem_append.1 ha with hafter | houtput
  · exact (hnames.2.1.1 a hafter).symm
  · obtain ⟨id, field, _, _, rfl⟩ := mem_outputVariables.1 houtput
    exact (standard_ne_output he id field).symm

theorem lookup_output {context : EvalContext F}
    (hbuilt : buildEvalContext asF64 fieldOrder outputOrder ctx outputs = .ok context)
    (hseparate : ∀ s f v t g w, outputs.Has s f v → outputs.Has t g w →
      outputName s f = outputName t g → s = t ∧ f = g)
    {id field : Text} {value : Json} (hhas : outputs.Has id field value) :
    context.lookup (outputName id field) = some (jsonValueToEval asF64 value) := by
  have hmem : (outputName id field, jsonValueToEval asF64 value) ∈
      outputVariables asF64 (outputOrder.run outputs.table.entries) :=
    mem_outputVariables.2 ⟨id, field, value, hhas, rfl⟩
  obtain ⟨before, after, hsplit⟩ := List.append_of_mem hmem
  have hnames := nodup_outputVariables asF64 outputOrder hseparate
  rw [hsplit, List.pairwise_append, List.pairwise_cons] at hnames
  rw [buildEvalContext_eq, allVariables, hsplit, ← List.append_assoc, ← List.append_assoc]
    at hbuilt
  exact lookup_assignAll hbuilt fun a ha => (hnames.2.1.1 a ha).symm

end Assignments

/-- Whatever the trigger and the outputs are, the context of a condition can be trusted exactly when
no webhook key is `is_reply` and no id goes on with what stands behind another one in a name. -/
theorem unspoofable_iff (asF64 : Text → Option F)
    (fieldOrder : IterOrder (Sigma fun _ : Text => Text))
    (outputOrder : IterOrder (Sigma fun _ : Text => Json)) (ctx : TriggerContext)
    (outputs : StepOutputs) :
    (∃ context, Unspoofable asF64 fieldOrder outputOrder ctx outputs context) ↔
      "is_reply".toList ∉ ctx.webhookFields ∧
        ∀ s f v t g w, outputs.Has s f v → outputs.Has t g w → ¬ RunsInto s f t g := by
  constructor
  · rintro ⟨context, hsound⟩
    refine ⟨not_mem_of_built hsound.built, fun s f v t g w hs ht hinto => ?_⟩
    have hname : outputName s f = outputName t g := outputName_eq_iff.2 (Or.inr (Or.inl hinto))
    obtain ⟨hid, _⟩ := hsound.separate s f v t g w hs ht hname
    -- an id does not go on with itself
    obtain ⟨rest, hrest, ht', _⟩ := runsInto_iff.1 hinto
    exact hrest (List.append_cancel_left ((List.append_nil s).trans (hid.trans ht'))).symm
  · rintro ⟨hreply, hapart⟩
    have hseparate : ∀ s f v t g w, outputs.Has s f v → outputs.Has t g w →
        outputName s f = outputName t g → s = t ∧ f = g := by
      intro s f v t g w hs ht hname
      rcases outputName_eq_iff.1 hname with hsame | hinto | hinto
      · exact hsame
      · exact absurd hinto (hapart s f v t g w hs ht)
      · exact absurd hinto (hapart t g w s f v ht hs)
    obtain ⟨context, hbuilt⟩ :=
      exists_context asF64 fieldOrder outputOrder hreply hseparate
    exact ⟨context, hbuilt, fun e he => lookup_standard hbuilt he,
      fun id field value hhas => lookup_output hbuilt hseparate hhas, hseparate⟩

/-! ## A webhook that answers -/

def webhookDefinition : WorkflowDef where
  name := "hook".toList
  trigger := .webhook
  steps := [⟨"notify".toList, .sendMessage false⟩]

/-- The trigger of a webhook with one field. -/
def webhookTrigger (key value : Text) : TriggerContext where
  text := []
  author := []
  channelId := []
  timestamp := []
  emoji := []
  messageId := []
  isReply := false
  webhookFields := AList.singleton key value

def noOutputs : StepOutputs where
  table := ∅
  distinct := fun id members h => by cases (AList.lookup_empty id).symm.trans h

/-- The context cannot be trusted for every accepted definition: a webhook that sends `is_reply`
leaves it without any. -/
theorem webhook_spoofs_is_reply :
    ¬ ∀ (parse : CronParser) (cronError : Text → Text) (definition : WorkflowDef),
      definition.validate parse cronError = .ok () →
      ∀ (asF64 : Text → Option Unit) (fieldOrder : IterOrder (Sigma fun _ : Text => Text))
        (outputOrder : IterOrder (Sigma fun _ : Text => Json)) (ctx : TriggerContext)
        (outputs : StepOutputs),
        (∀ id ∈ outputs.table, ∃ step ∈ definition.steps, step.id = id) →
        ∃ context, Unspoofable asF64 fieldOrder outputOrder ctx outputs context := by
  intro hall
  have hvalid : webhookDefinition.validate (fun _ => none) id = .ok () := by decide
  have hempty : ∀ id ∈ noOutputs.table, ∃ step ∈ webhookDefinition.steps, step.id = id :=
    fun id hid => absurd hid (AList.notMem_empty id)
  obtain ⟨context, hsound⟩ := hall (fun _ => none) id webhookDefinition hvalid (fun _ => none)
    (IterOrder.stored _) (IterOrder.stored _)
    (webhookTrigger "is_reply".toList "yes".toList) noOutputs hempty
  refine not_mem_of_built hsound.built ?_
  exact List.mem_cons_self

end Values

end Workflow
end Maju
