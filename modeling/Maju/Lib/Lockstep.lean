import Maju.Lib.Run

/-!
# Lockstep — two machines that answer alike

A machine that answers every input, run beside another one on the same inputs.  `answers_eq` is the
rule for showing that they cannot be told apart: a relation of their states that holds at the start
and is kept by every step on which they give the same answer.
-/

namespace Maju
namespace Lib
namespace Lockstep

universe u v w x

variable {S : Type u} {T : Type v} {I : Type w} {O : Type x}

/-- The answers of a machine to a list of inputs. -/
def answers (exec : S → I → O × S) : S → List I → List O
  | _, [] => []
  | s, i :: inputs => (exec s i).1 :: answers exec (exec s i).2 inputs

def next (exec : S → I → O × S) (s : S) (i : I) : S := (exec s i).2

variable {exec : S → I → O × S} {exec' : T → I → O × T} {P : S → I → Prop}

/-- What two machines in related states answer along `P`, if the relation is kept along `P`. -/
theorem answers_eq (R : S → T → Prop)
    (hstep : ∀ s t i, R s t → P s i →
      (exec s i).1 = (exec' t i).1 ∧ R (exec s i).2 (exec' t i).2)
    {s : S} {t : T} {inputs : List I} (hR : R s t) (h : Run.Along P (next exec) s inputs) :
    answers exec s inputs = answers exec' t inputs := by
  induction inputs generalizing s t with
  | nil => rfl
  | cons i inputs ih =>
      obtain ⟨hanswer, hnext⟩ := hstep s t i hR h.1
      calc
        answers exec s (i :: inputs)
            = (exec s i).1 :: answers exec (exec s i).2 inputs := rfl
        _ = (exec' t i).1 :: answers exec' (exec' t i).2 inputs := by
              rw [hanswer, ih hnext h.2]

end Lockstep
end Lib
end Maju
