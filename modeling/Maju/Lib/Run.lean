import Mathlib.Data.List.Basic

/-!
# Run — runs of a deterministic machine

A machine is a step function on states, driven by a list of inputs.  `Along P` says that every
step of a run is taken in a state and with an input that satisfy `P`, and `invariant` is the
induction rule: what holds at the start and is kept by every step that satisfies `P` holds after
every run along `P`.  Since the rule is about every list of inputs, it is about every state that
a run passes through.  `recurs` is about endless runs: where a measure falls at every step but the
marked ones, the marked ones recur.
-/

namespace Maju
namespace Lib
namespace Run

universe u v

variable {S : Type u} {I : Type v}

def run (step : S → I → S) (s : S) (inputs : List I) : S := inputs.foldl step s

/-- Every step of the run satisfies `P`. -/
def Along (P : S → I → Prop) (step : S → I → S) : S → List I → Prop
  | _, [] => True
  | s, i :: inputs => P s i ∧ Along P step (step s i) inputs

instance Along.decidable (P : S → I → Prop) (step : S → I → S) [∀ s i, Decidable (P s i)] :
    (s : S) → (inputs : List I) → Decidable (Along P step s inputs)
  | _, [] => isTrue trivial
  | s, i :: inputs =>
      have := Along.decidable P step (step s i) inputs
      inferInstanceAs (Decidable (P s i ∧ Along P step (step s i) inputs))

variable {P : S → I → Prop} {step : S → I → S}

theorem Along.mono {Q : S → I → Prop} (hPQ : ∀ s i, P s i → Q s i) {s : S} {inputs : List I}
    (h : Along P step s inputs) : Along Q step s inputs := by
  induction inputs generalizing s with
  | nil => trivial
  | cons i inputs ih => exact ⟨hPQ s i h.1, ih h.2⟩

theorem Along.and {Q : S → I → Prop} {s : S} {inputs : List I} (hP : Along P step s inputs)
    (hQ : Along Q step s inputs) : Along (fun s i => P s i ∧ Q s i) step s inputs := by
  induction inputs generalizing s with
  | nil => trivial
  | cons i inputs ih => exact ⟨⟨hP.1, hQ.1⟩, ih hP.2 hQ.2⟩

theorem run_append (s : S) (before after : List I) :
    run step s (before ++ after) = run step (run step s before) after :=
  List.foldl_append

theorem Along.append {s : S} {before after : List I} (h : Along P step s before)
    (hafter : Along P step (run step s before) after) : Along P step s (before ++ after) := by
  induction before generalizing s with
  | nil => exact hafter
  | cons i before ih => exact ⟨h.1, ih h.2 hafter⟩

theorem Along.of_append {s : S} {before after : List I} (h : Along P step s (before ++ after)) :
    Along P step s before ∧ Along P step (run step s before) after := by
  induction before generalizing s with
  | nil => exact ⟨trivial, h⟩
  | cons i before ih => exact ⟨⟨h.1, (ih h.2).1⟩, (ih h.2).2⟩

theorem Along.concat {s : S} {inputs : List I} {i : I} (h : Along P step s inputs)
    (hi : P (run step s inputs) i) : Along P step s (inputs ++ [i]) :=
  h.append ⟨hi, trivial⟩

/-- A condition that every input meets in every state holds along the run. -/
theorem along_of_forall_mem {s : S} {inputs : List I} (h : ∀ i ∈ inputs, ∀ s, P s i) :
    Along P step s inputs := by
  induction inputs generalizing s with
  | nil => trivial
  | cons i inputs ih =>
      exact ⟨h i List.mem_cons_self s, ih fun j hj => h j (List.mem_cons_of_mem i hj)⟩

/-- What every step along `P` preserves, a run along `P` preserves. -/
theorem invariant (Inv : S → Prop) (hstep : ∀ s i, Inv s → P s i → Inv (step s i)) {s : S}
    {inputs : List I} (hs : Inv s) (h : Along P step s inputs) : Inv (run step s inputs) := by
  induction inputs generalizing s with
  | nil => exact hs
  | cons i inputs ih => exact ih (hstep s i hs h.1) h.2

/-- A condition that follows from `P` in the states of an invariant holds along a run along `P`. -/
theorem Along.of_invariant {Q : S → I → Prop} (Inv : S → Prop)
    (hstep : ∀ s i, Inv s → P s i → Inv (step s i)) (hQ : ∀ s i, Inv s → P s i → Q s i) {s : S}
    {inputs : List I} (hs : Inv s) (h : Along P step s inputs) : Along Q step s inputs := by
  induction inputs generalizing s with
  | nil => trivial
  | cons i inputs ih => exact ⟨hQ s i hs h.1, ih (hstep s i hs h.1) h.2⟩

/-- What a step preserves exactly when `C` holds, a run preserves exactly when it goes along `C`. -/
theorem holds_iff_along {C : S → I → Prop} (Inv Good : S → Prop)
    (hinv : ∀ s i, Inv s → P s i → Inv (step s i))
    (hgood : ∀ s i, Inv s → P s i → (Good (step s i) ↔ Good s ∧ C s i)) {s : S} {inputs : List I}
    (hs : Inv s) (h : Along P step s inputs) :
    Good (run step s inputs) ↔ Good s ∧ Along C step s inputs := by
  induction inputs generalizing s with
  | nil => exact (and_iff_left trivial).symm
  | cons i inputs ih =>
      calc
        Good (run step (step s i) inputs)
            ↔ Good (step s i) ∧ Along C step (step s i) inputs := ih (hinv s i hs h.1) h.2
        _ ↔ (Good s ∧ C s i) ∧ Along C step (step s i) inputs := and_congr_left' (hgood s i hs h.1)
        _ ↔ Good s ∧ Along C step s (i :: inputs) := and_assoc

/-- What every step preserves, every run preserves. -/
theorem invariant_of_step (Inv : S → Prop) (hstep : ∀ s i, Inv s → Inv (step s i)) {s : S}
    (hs : Inv s) (inputs : List I) : Inv (run step s inputs) := by
  induction inputs generalizing s with
  | nil => exact hs
  | cons i inputs ih => exact ih (hstep s i hs)

/-! ## Runs without an end -/

/-- The state after the first inputs of an endless sequence. -/
def after (step : S → I → S) (s : S) (inputs : Nat → I) : Nat → S
  | 0 => s
  | n + 1 => step (after step s inputs n) (inputs n)

/-- What every step preserves holds in all states of an endless run. -/
theorem invariant_after (Inv : S → Prop) (hstep : ∀ s i, Inv s → Inv (step s i)) {s : S}
    (hs : Inv s) (inputs : Nat → I) (n : Nat) : Inv (after step s inputs n) := by
  induction n with
  | zero => exact hs
  | succ n ih => exact hstep _ _ ih

/-- Where a well-founded measure falls at every step that is not marked, marked steps recur. -/
theorem recurs {α : Type*} {r : α → α → Prop} (hr : WellFounded r) (measure : Nat → α)
    {mark : Nat → Prop} (hfall : ∀ n, ¬ mark n → r (measure (n + 1)) (measure n)) (n : Nat) :
    ∃ k, n ≤ k ∧ mark k := by
  generalize hm : measure n = m
  induction m using hr.induction generalizing n with
  | h m ih =>
      by_cases hmark : mark n
      · exact ⟨n, Nat.le_refl n, hmark⟩
      · obtain ⟨k, hk, hmarked⟩ := ih (measure (n + 1)) (hm ▸ hfall n hmark) (n + 1) rfl
        exact ⟨k, Nat.le_of_succ_le hk, hmarked⟩

end Run
end Lib
end Maju
