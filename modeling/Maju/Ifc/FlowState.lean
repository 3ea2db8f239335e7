import Maju.Ifc.Label
import Maju.Lib.Run

/-!
# FlowState — egress checks over a whole computation

A `FlowState` sees the labels of a computation's inputs one by one and keeps a single accumulated
label and a flag.  The flag is raised by input of unknown provenance, and by a label from another
universe than the first one.  The result is that nothing is lost by keeping so little: a check
answers as if all labels had been kept.
-/

namespace Maju
namespace Ifc

open Lib

universe u v

/-- Monotonic confidentiality state for one computation boundary. -/
structure FlowState (U : Type u) (P : Type v) where
  accumulated : Option (ConfidentialityLabel U P)
  unresolvedInput : Bool

inductive EgressError where
  | unresolvedInput
  | destinationUniverseMismatch
  | destinationWidensReaders
  deriving DecidableEq, Repr

/-- The two ways in which a computation takes input. -/
inductive FlowInput (U : Type u) (P : Type v) where
  | observe (label : ConfidentialityLabel U P)
  | markUnknown

namespace FlowState

variable {U : Type u} {P : Type v}

/-- `FlowState::default`. -/
def initial : FlowState U P := ⟨none, false⟩

/-- Some input is unknown, or two labels are of different universes. -/
def Unresolved (inputs : List (FlowInput U P)) : Prop :=
  .markUnknown ∈ inputs ∨
    ∃ l l', .observe l ∈ inputs ∧ .observe l' ∈ inputs ∧ l.universeId ≠ l'.universeId

theorem mem_concat {inputs : List (FlowInput U P)}
    {input input' : FlowInput U P} :
    input' ∈ inputs ++ [input] ↔ input' ∈ inputs ∨ input' = input := by
  simp

theorem unresolved_markUnknown (inputs : List (FlowInput U P)) :
    Unresolved (inputs ++ [.markUnknown]) := by
  exact Or.inl (by simp)

theorem unresolved_concat {inputs : List (FlowInput U P)} {a : ConfidentialityLabel U P}
    (ha : ∃ l, FlowInput.observe l ∈ inputs ∧ l.universeId = a.universeId)
    (label : ConfidentialityLabel U P) :
    Unresolved (inputs ++ [.observe label]) ↔
      Unresolved inputs ∨ label.universeId ≠ a.universeId := by
  rcases ha with ⟨l₀, hl₀, hu₀⟩
  unfold Unresolved
  simp only [mem_concat]
  constructor
  · rintro ((hmem | heq) | ⟨l, l', hl, hl', hne⟩)
    · exact Or.inl (Or.inl hmem)
    · cases heq
    · -- two labels that differ: either both are old, or the new one differs from an old one
      by_cases hu : label.universeId = a.universeId
      · refine Or.inl (Or.inr ?_)
        rcases hl with hl | heq
        · rcases hl' with hl' | heq'
          · exact ⟨l, l', hl, hl', hne⟩
          · cases heq'
            exact ⟨l, l₀, hl, hl₀, by rw [hu₀, ← hu]; exact hne⟩
        · cases heq
          rcases hl' with hl' | heq'
          · exact ⟨l₀, l', hl₀, hl', by rw [hu₀, ← hu]; exact hne⟩
          · cases heq'
            exact absurd rfl hne
      · exact Or.inr hu
  · rintro ((hmem | ⟨l, l', hl, hl', hne⟩) | hu)
    · exact Or.inl (Or.inl hmem)
    · exact Or.inr ⟨l, l', Or.inl hl, Or.inl hl', hne⟩
    · exact Or.inr ⟨label, l₀, Or.inr rfl, Or.inl hl₀, by rw [hu₀]; exact hu⟩

variable [DecidableEq U] [DecidableEq P]

/-- `FlowState::observe`. -/
def observe (s : FlowState U P) (label : ConfidentialityLabel U P) : FlowState U P :=
  match s.accumulated with
  | none => { s with accumulated := some label }
  | some existing =>
      match existing.join label with
      | .ok combined => { s with accumulated := some combined }
      -- a label of another universe leaves the accumulated one alone
      | .error _ => ⟨some existing, true⟩

/-- `FlowState::mark_unknown`. -/
def markUnknown (s : FlowState U P) : FlowState U P := { s with unresolvedInput := true }

/-- `FlowState::check_egress`. -/
def checkEgress (s : FlowState U P) (destination : ConfidentialityLabel U P) :
    Except EgressError Unit :=
  if s.unresolvedInput then .error .unresolvedInput
  else
    match s.accumulated with
    | none => .ok ()
    | some accumulated =>
        if accumulated.universeId ≠ destination.universeId then
          .error .destinationUniverseMismatch
        else if !accumulated.readers.canFlowTo destination.readers then
          .error .destinationWidensReaders
        else .ok ()

def step (s : FlowState U P) : FlowInput U P → FlowState U P
  | .observe label => s.observe label
  | .markUnknown => s.markUnknown

/-- The state after a sequence of inputs. -/
def run (inputs : List (FlowInput U P)) : FlowState U P := Run.run step initial inputs

theorem run_concat (inputs : List (FlowInput U P)) (input : FlowInput U P) :
    run (inputs ++ [input]) = (run inputs).step input := by
  simp [run, Run.run, List.foldl_append]

/-! ## What the state remembers -/

/-- The state summarizes the inputs: the flag says whether they are unresolved, and the accumulated
label lies in the universe of one of them and lets out what all labels of that universe let out. -/
structure Summarizes (s : FlowState U P) (inputs : List (FlowInput U P)) : Prop where
  flag : s.unresolvedInput = true ↔ Unresolved inputs
  empty : s.accumulated = none → ∀ l, .observe l ∉ inputs
  member : ∀ a, s.accumulated = some a → ∃ l, .observe l ∈ inputs ∧ l.universeId = a.universeId
  readers : ∀ a, s.accumulated = some a → ∀ d, a.readers.canFlowTo d = true ↔
    ∀ l, .observe l ∈ inputs → l.universeId = a.universeId → l.readers.canFlowTo d = true

section Steps

variable {s : FlowState U P} {inputs : List (FlowInput U P)}

omit [DecidableEq U] in
theorem summarizes_initial : Summarizes (initial : FlowState U P) [] := by
  refine ⟨?_, ?_, ?_, ?_⟩
  · simp [initial, Unresolved]
  · simp
  · intro a h
    cases h
  · intro a h
    cases h

omit [DecidableEq U] in
theorem summarizes_markUnknown (h : Summarizes s inputs) :
    Summarizes s.markUnknown (inputs ++ [.markUnknown]) := by
  -- no label is added, so only the flag changes
  have hlabels : ∀ l : ConfidentialityLabel U P,
      FlowInput.observe l ∈ inputs ++ [.markUnknown] ↔ FlowInput.observe l ∈ inputs := by
    intro l
    simp
  refine ⟨?_, ?_, ?_, ?_⟩
  · exact iff_of_true rfl (unresolved_markUnknown inputs)
  · intro hnone l
    rw [hlabels]
    exact h.empty hnone l
  · intro a ha
    rcases h.member a ha with ⟨l, hl, hu⟩
    exact ⟨l, (hlabels l).2 hl, hu⟩
  · intro a ha d
    simp only [hlabels]
    exact h.readers a ha d

theorem summarizes_observe (h : Summarizes s inputs) (label : ConfidentialityLabel U P) :
    Summarizes (s.observe label) (inputs ++ [.observe label]) := by
  unfold observe
  cases ha : s.accumulated with
  | none =>
      -- the first label is accumulated as it is
      have hfirst := h.empty ha
      refine ⟨?_, ?_, ?_, ?_⟩
      · rw [show ({ s with accumulated := some label } : FlowState U P).unresolvedInput =
          s.unresolvedInput from rfl, h.flag]
        unfold Unresolved
        simp only [mem_concat, FlowInput.observe.injEq, hfirst, false_or, reduceCtorEq, or_false]
        constructor
        · rintro (hmem | ⟨l, l', hl, _⟩)
          · exact Or.inl hmem
          · exact absurd hl (by simp)
        · rintro (hmem | ⟨l, l', rfl, rfl, hne⟩)
          · exact Or.inl hmem
          · exact absurd rfl hne
      · intro hnone
        cases hnone
      · intro a hsome
        cases hsome
        exact ⟨label, by simp, rfl⟩
      · intro a hsome d
        cases hsome
        simp [hfirst]
  | some existing =>
      have hmember := h.member existing ha
      by_cases hu : existing.universeId = label.universeId
      · -- the label is joined to the accumulated one
        have hjoin : existing.join label =
            .ok ⟨existing.universeId, existing.readers.join label.readers⟩ := by
          rw [ConfidentialityLabel.join, if_neg (by simpa using hu)]
        simp only [hjoin]
        refine ⟨?_, ?_, ?_, ?_⟩
        · have hiff := unresolved_concat hmember label
          rw [hiff]
          simp [h.flag, hu]
        · intro hnone
          cases hnone
        · intro a hsome
          cases hsome
          rcases hmember with ⟨l, hl, hlu⟩
          exact ⟨l, by simp [hl], hlu⟩
        · intro a hsome d
          cases hsome
          rw [ReaderSet.canFlowTo_join, Bool.and_eq_true, h.readers existing ha]
          simp only [mem_concat, FlowInput.observe.injEq]
          constructor
          · rintro ⟨hold, hnew⟩ l (hl | rfl) hlu
            · exact hold l hl hlu
            · exact hnew
          · intro hall
            exact ⟨fun l hl hlu => hall l (Or.inl hl) hlu, hall label (Or.inr rfl) hu.symm⟩
      · -- another universe: the flag is raised, the label is not joined
        have hjoin : existing.join label = .error .crossUniverse := by
          rw [ConfidentialityLabel.join, if_pos hu]
        simp only [hjoin]
        refine ⟨?_, ?_, ?_, ?_⟩
        · refine iff_of_true rfl ((unresolved_concat hmember label).2 (Or.inr ?_))
          exact fun heq => hu heq.symm
        · intro hnone
          cases hnone
        · intro a hsome
          cases hsome
          rcases hmember with ⟨l, hl, hlu⟩
          exact ⟨l, by simp [hl], hlu⟩
        · intro a hsome d
          cases hsome
          rw [h.readers existing ha]
          simp only [mem_concat, FlowInput.observe.injEq]
          constructor
          · rintro hold l (hl | rfl) hlu
            · exact hold l hl hlu
            · exact absurd hlu.symm hu
          · intro hall l hl hlu
            exact hall l (Or.inl hl) hlu

end Steps

theorem summarizes_run (inputs : List (FlowInput U P)) : Summarizes (run inputs) inputs := by
  induction inputs using List.reverseRecOn with
  | nil => exact summarizes_initial
  | append_singleton inputs input ih =>
      rw [run_concat]
      cases input with
      | observe label => exact summarizes_observe ih label
      | markUnknown => exact summarizes_markUnknown ih

/-! ## Verdicts -/

section Verdicts

variable {s s' : FlowState U P} {inputs inputs' : List (FlowInput U P)}
  {d : ConfidentialityLabel U P}

theorem checkEgress_ok_iff (h : Summarizes s inputs) :
    s.checkEgress d = .ok () ↔
      .markUnknown ∉ inputs ∧ ∀ l, .observe l ∈ inputs → l.canFlowTo d = true := by
  unfold checkEgress
  cases hflag : s.unresolvedInput with
  | true =>
      -- unresolved input blocks egress, and some label cannot flow to `d` either
      rw [if_pos rfl]
      refine iff_of_false (by simp) ?_
      rintro ⟨hknown, hall⟩
      rcases h.flag.1 hflag with hmem | ⟨l, l', hl, hl', hne⟩
      · exact hknown hmem
      · have hu := hall l hl
        have hu' := hall l' hl'
        simp only [ConfidentialityLabel.canFlowTo, Bool.and_eq_true, decide_eq_true_eq] at hu hu'
        exact hne (hu.1.trans hu'.1.symm)
  | false =>
      have hresolved : ¬Unresolved inputs := by
        rw [← h.flag, hflag]
        simp
      have hknown : .markUnknown ∉ inputs := fun hmem => hresolved (Or.inl hmem)
      rw [if_neg (by simp)]
      cases ha : s.accumulated with
      | none =>
          refine iff_of_true rfl ⟨hknown, ?_⟩
          intro l hl
          exact absurd hl (h.empty ha l)
      | some a =>
          -- all labels are of the universe of the accumulated one
          have hsame : ∀ l, .observe l ∈ inputs → l.universeId = a.universeId := by
            intro l hl
            rcases h.member a ha with ⟨l₀, hl₀, hu₀⟩
            by_contra hne
            exact hresolved (Or.inr ⟨l, l₀, hl, hl₀, by rw [hu₀]; exact hne⟩)
          have hall : (∀ l, .observe l ∈ inputs → l.canFlowTo d = true) ↔
              a.universeId = d.universeId ∧ a.readers.canFlowTo d.readers = true := by
            rw [h.readers a ha]
            simp only [ConfidentialityLabel.canFlowTo, Bool.and_eq_true, decide_eq_true_eq]
            constructor
            · intro hflows
              rcases h.member a ha with ⟨l₀, hl₀, hu₀⟩
              exact ⟨hu₀.symm.trans (hflows l₀ hl₀).1, fun l hl _ => (hflows l hl).2⟩
            · rintro ⟨hu, hflows⟩ l hl
              exact ⟨(hsame l hl).trans hu, hflows l hl (hsame l hl)⟩
          rw [hall, and_iff_right hknown]
          by_cases hu : a.universeId = d.universeId
          · cases hr : a.readers.canFlowTo d.readers <;> simp [hu, hr]
          · simp [hu]

theorem checkEgress_congr (h : Summarizes s inputs) (h' : Summarizes s' inputs')
    (hsame : ∀ input, input ∈ inputs ↔ input ∈ inputs') : s.checkEgress d = s'.checkEgress d := by
  have hflag : s.unresolvedInput = s'.unresolvedInput := by
    rw [Bool.eq_iff_iff, h.flag, h'.flag]
    simp only [Unresolved, hsame]
  unfold checkEgress
  rw [hflag]
  cases hflag' : s'.unresolvedInput with
  | true => rfl
  | false =>
      have hresolved : ¬Unresolved inputs' := by
        rw [← h'.flag, hflag']
        simp
      simp only [Bool.false_eq_true, if_false]
      cases ha : s.accumulated with
      | none =>
          cases ha' : s'.accumulated with
          | none => rfl
          | some a' =>
              rcases h'.member a' ha' with ⟨l, hl, _⟩
              exact absurd ((hsame _).2 hl) (h.empty ha l)
      | some a =>
          rcases h.member a ha with ⟨l, hl, hlu⟩
          cases ha' : s'.accumulated with
          | none => exact absurd ((hsame _).1 hl) (h'.empty ha' l)
          | some a' =>
              rcases h'.member a' ha' with ⟨l', hl', hlu'⟩
              have hu : a.universeId = a'.universeId := by
                by_contra hne
                refine hresolved (Or.inr ⟨l, l', (hsame _).1 hl, hl', ?_⟩)
                rw [hlu, hlu']
                exact hne
              have hr : a.readers.canFlowTo d.readers = a'.readers.canFlowTo d.readers := by
                rw [Bool.eq_iff_iff, h.readers a ha, h'.readers a' ha', hu]
                simp only [hsame]
              simp only [hu, hr]

end Verdicts

/-- A check passes if and only if no input is unknown and every observed label may flow to the
destination; so the verdict is the same for the same inputs in any order and multiplicity, and an
error stays an error. -/
theorem checkEgress_exact (inputs : List (FlowInput U P)) (d : ConfidentialityLabel U P) :
    ((run inputs).checkEgress d = .ok () ↔
      .markUnknown ∉ inputs ∧ ∀ l, .observe l ∈ inputs → l.canFlowTo d = true) ∧
    (∀ inputs', (∀ input, input ∈ inputs ↔ input ∈ inputs') →
      (run inputs').checkEgress d = (run inputs).checkEgress d) ∧
    ∀ more, (run inputs).checkEgress d ≠ .ok () →
      (run (inputs ++ more)).checkEgress d ≠ .ok () := by
  refine ⟨checkEgress_ok_iff (summarizes_run inputs), ?_, ?_⟩
  · intro inputs' hsame
    exact (checkEgress_congr (summarizes_run inputs) (summarizes_run inputs') hsame).symm
  · intro more herror hok
    refine herror ((checkEgress_ok_iff (summarizes_run inputs)).2 ?_)
    rcases (checkEgress_ok_iff (summarizes_run (inputs ++ more))).1 hok with ⟨hknown, hall⟩
    exact ⟨fun hmem => hknown (List.mem_append_left more hmem),
      fun l hl => hall l (List.mem_append_left more hl)⟩

end FlowState

end Ifc
end Maju
