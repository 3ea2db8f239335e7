import Mathlib.Data.Nat.Notation
import Mathlib.Tactic.TypeStar

/-!
# Loop — turns that go on, end or fail

* `loop` — turns until one of them ends or fails; each that goes on makes a measure smaller;
* `loop_ok_induction` — what holds where a loop ends, and in front of a turn if it holds behind it,
  holds where the loop begins;
* `loop_ne_error` — an error that no turn makes from the states of an invariant is not met.
-/

namespace Maju
namespace Lib

section Loop

variable {σ α ε : Type*} {body : σ → Except ε (σ ⊕ α)} {measure : σ → Nat}

/-- Every turn that goes on makes the measure smaller. -/
def Descends (measure : σ → Nat) (body : σ → Except ε (σ ⊕ α)) : Prop :=
  ∀ s s', body s = .ok (.inl s') → measure s' < measure s

/-- Turns until one of them ends or fails. -/
def loop (body : σ → Except ε (σ ⊕ α)) (measure : σ → Nat) (h : Descends measure body) (s : σ) :
    Except ε α :=
  match _hturn : body s with
  | .error e => .error e
  | .ok (.inl s') => loop body measure h s'
  | .ok (.inr a) => .ok a
termination_by measure s
decreasing_by exact h s s' _hturn

variable (h : Descends measure body) {s s' : σ} {a : α} {e : ε}

theorem loop_of_next (hturn : body s = .ok (.inl s')) :
    loop body measure h s = loop body measure h s' := by
  rw [loop]
  split <;> simp_all

theorem loop_of_done (hturn : body s = .ok (.inr a)) : loop body measure h s = .ok a := by
  rw [loop]
  split <;> simp_all

/-- What holds where a loop ends, and in front of a turn if it holds behind it, holds where the loop
begins. -/
theorem loop_ok_induction (P : σ → α → Prop) (hdone : ∀ s a, body s = .ok (.inr a) → P s a)
    (hnext : ∀ s s' a, body s = .ok (.inl s') → P s' a → P s a)
    (hok : loop body measure h s = .ok a) : P s a := by
  fun_induction loop body measure h s with
  | case1 s e hturn => cases hok
  | case2 s s' hturn ih => exact hnext s s' a hturn (ih hok)
  | case3 s b hturn =>
      cases hok
      exact hdone s a hturn

/-- An error that no turn makes from the states of an invariant is not met. -/
theorem loop_ne_error (Inv : σ → Prop) (hstep : ∀ s s', Inv s → body s = .ok (.inl s') → Inv s')
    (hne : ∀ s, Inv s → body s ≠ .error e) (hs : Inv s) : loop body measure h s ≠ .error e := by
  fun_induction loop body measure h s with
  | case1 s e' hturn =>
      intro hcontra
      cases hcontra
      exact hne s hs hturn
  | case2 s s' hturn ih => exact ih (hstep s s' hs hturn)
  | case3 s b hturn => exact fun hcontra => by cases hcontra

end Loop

end Lib
end Maju
