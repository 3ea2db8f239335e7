import Mathlib.Init

/-!
# Outcome — computations that change a state and may fail

An `EStateM` computation ends with a value or with an error, and in both cases with a state: what
was written before the error stays written.  `Outcome m s Q E` says how a computation ends from one
state, `Q` for a value and `E` for an error.

* `reads` — a computation that looks at the state and may fail;
* `Outcome.reads_bind`, `Outcome.modify_bind` — the rules that peel a computation from its front.
-/

namespace Maju
namespace Lib

universe u

variable {ε σ α β : Type u}

/-- Looks at the state and may fail. -/
def reads (f : σ → Except ε α) : EStateM ε σ α := fun s =>
  match f s with
  | .ok a => .ok a s
  | .error e => .error e s

/-- How a computation ends: with a value and a state in `Q`, or with an error and a state in `E`. -/
def Outcome (m : EStateM ε σ α) (s : σ) (Q : α → σ → Prop) (E : ε → σ → Prop) : Prop :=
  match m s with
  | .ok a s' => Q a s'
  | .error e s' => E e s'

namespace Outcome

variable {m : EStateM ε σ α} {s : σ} {Q : α → σ → Prop} {E : ε → σ → Prop}

theorem of_ok {a : α} {s' : σ} (h : Outcome m s Q E) (hm : m s = .ok a s') : Q a s' := by
  rwa [Outcome, hm] at h

theorem of_error {e : ε} {s' : σ} (h : Outcome m s Q E) (hm : m s = .error e s') : E e s' := by
  rwa [Outcome, hm] at h

theorem mono {Q' : α → σ → Prop} {E' : ε → σ → Prop} (h : Outcome m s Q E)
    (hQ : ∀ a s', Q a s' → Q' a s') (hE : ∀ e s', E e s' → E' e s') : Outcome m s Q' E' := by
  cases hm : m s with
  | ok a s' =>
      rw [Outcome, hm]
      exact hQ a s' (h.of_ok hm)
  | error e s' =>
      rw [Outcome, hm]
      exact hE e s' (h.of_error hm)

theorem reads_bind {f : σ → Except ε α} {k : α → EStateM ε σ β} {Q : β → σ → Prop}
    (herror : ∀ e, f s = .error e → E e s) (hok : ∀ a, f s = .ok a → Outcome (k a) s Q E) :
    Outcome (reads f >>= k) s Q E := by
  cases hf : f s with
  | error e =>
      have hrun : (reads f >>= k) s = .error e s := by
        simp [reads, hf, Bind.bind, EStateM.bind]
      rw [Outcome, hrun]
      exact herror e hf
  | ok a =>
      have hrun : (reads f >>= k) s = k a s := by
        simp [reads, hf, Bind.bind, EStateM.bind]
      rw [Outcome, hrun]
      exact hok a hf

theorem bind {k : α → EStateM ε σ β} {Q : β → σ → Prop}
    (h : Outcome m s (fun a s' => Outcome (k a) s' Q E) E) : Outcome (m >>= k) s Q E := by
  cases hm : m s with
  | ok a s' =>
      have hrun : (m >>= k) s = k a s' := by
        simp [Bind.bind, EStateM.bind, hm]
      rw [Outcome, hrun]
      exact h.of_ok hm
  | error e s' =>
      have hrun : (m >>= k) s = .error e s' := by
        simp [Bind.bind, EStateM.bind, hm]
      rw [Outcome, hrun]
      exact h.of_error hm

theorem modify_bind {g : σ → σ} {k : PUnit → EStateM ε σ β} {Q : β → σ → Prop}
    (h : Outcome (k ⟨⟩) (g s) Q E) : Outcome (modify g >>= k) s Q E := h

theorem map {f : α → β} {Q : β → σ → Prop} (h : Outcome m s (fun a => Q (f a)) E) :
    Outcome (f <$> m) s Q E := by
  cases hm : m s with
  | ok a s' =>
      have hrun : (f <$> m) s = .ok (f a) s' := by
        simp [Functor.map, EStateM.map, hm]
      rw [Outcome, hrun]
      exact h.of_ok hm
  | error e s' =>
      have hrun : (f <$> m) s = .error e s' := by
        simp [Functor.map, EStateM.map, hm]
      rw [Outcome, hrun]
      exact h.of_error hm

end Outcome
end Lib
end Maju
