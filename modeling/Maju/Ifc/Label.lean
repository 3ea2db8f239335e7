import Mathlib.Data.Finset.Card

/-!
# Label — reader-set confidentiality labels

A label names the universe it is meaningful in and the readers that may learn a value.  Information
may flow where no reader is added.  `join` combines the restrictions of two inputs, and is a least
upper bound for this order: what flows out of a join is what flows out of both sides.
-/

namespace Maju
namespace Ifc

universe u v

/-- The principals that may learn a value within one universe. -/
inductive ReaderSet (P : Type v) where
  | everyone
  | only (readers : Finset P)
  deriving DecidableEq

namespace ReaderSet

variable {P : Type v} [DecidableEq P]

/-- `ReaderSet::can_flow_to`. -/
def canFlowTo : ReaderSet P → ReaderSet P → Bool
  | .everyone, _ => true
  | .only _, .everyone => false
  | .only source, .only destination => decide (destination ⊆ source)

/-- `ReaderSet::join`. -/
def join : ReaderSet P → ReaderSet P → ReaderSet P
  | .everyone, value => value
  | value, .everyone => value
  | .only left, .only right => .only (left ∩ right)

/-- `ReaderSet::meet`. -/
def meet : ReaderSet P → ReaderSet P → ReaderSet P
  | .everyone, _ => .everyone
  | _, .everyone => .everyone
  | .only left, .only right => .only (left ∪ right)

theorem canFlowTo_join (a b d : ReaderSet P) :
    (a.join b).canFlowTo d = (a.canFlowTo d && b.canFlowTo d) := by
  cases a with
  | everyone => simp [join, canFlowTo]
  | only left =>
      cases b with
      | everyone => simp [join, canFlowTo]
      | only right =>
          cases d with
          | everyone => rfl
          | only destination => simp [join, canFlowTo, Finset.subset_inter_iff]

end ReaderSet

/-- A reader set inside one isolated universe. -/
structure ConfidentialityLabel (U : Type u) (P : Type v) where
  universeId : U
  readers : ReaderSet P
  deriving DecidableEq

inductive LabelError where
  | emptyReaderSet
  | crossUniverse
  deriving DecidableEq, Repr

namespace ConfidentialityLabel

variable {U : Type u} {P : Type v}

/-- `ConfidentialityLabel::public`. -/
def publicLabel (universeId : U) : ConfidentialityLabel U P := ⟨universeId, .everyone⟩

/-- `ConfidentialityLabel::restricted`. -/
def restricted (universeId : U) (readers : Finset P) :
    Except LabelError (ConfidentialityLabel U P) :=
  if readers.card = 0 then .error .emptyReaderSet else .ok ⟨universeId, .only readers⟩

/-- `ConfidentialityLabel::restricted_to`. -/
def restrictedTo (universeId : U) (principal : P) : ConfidentialityLabel U P :=
  ⟨universeId, .only {principal}⟩

variable [DecidableEq U] [DecidableEq P]

/-- `ConfidentialityLabel::can_flow_to`. -/
def canFlowTo (label destination : ConfidentialityLabel U P) : Bool :=
  decide (label.universeId = destination.universeId) &&
    label.readers.canFlowTo destination.readers

/-- `ConfidentialityLabel::join`. -/
def join (label other : ConfidentialityLabel U P) :
    Except LabelError (ConfidentialityLabel U P) :=
  if label.universeId ≠ other.universeId then .error .crossUniverse
  else .ok ⟨label.universeId, label.readers.join other.readers⟩

end ConfidentialityLabel

end Ifc
end Maju
