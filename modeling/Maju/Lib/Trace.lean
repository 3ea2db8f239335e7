import Mathlib.Data.List.Basic

/-!
# Trace — what holds at each entry of a log

`AtEach P log` says that every entry satisfies `P` together with the entries before it.  A log that
grows at its end keeps the property if each new entry satisfies it.  `Since p q log` says that the
log has an entry with `p` and none with `q` after it.
-/

namespace Maju
namespace Lib

universe u

variable {E : Type u} {P : List E → E → Prop}

/-- Every entry of the log satisfies `P`, given the entries before it. -/
def AtEach (P : List E → E → Prop) (log : List E) : Prop :=
  ∀ before e after, log = before ++ e :: after → P before e

namespace AtEach

theorem nil : AtEach P [] := by
  intro before e after h
  simp at h

theorem append {log entries : List E} (h : AtEach P log)
    (hentries : ∀ before e after, entries = before ++ e :: after → P (log ++ before) e) :
    AtEach P (log ++ entries) := by
  intro before e after hsplit
  rcases List.append_eq_append_iff.1 hsplit with ⟨middle, hbefore, hmiddle⟩ | ⟨middle, hlog, hmiddle⟩
  · rw [hbefore]
    exact hentries middle e after hmiddle
  · cases middle with
    | nil =>
        have hfirst := hentries [] e after hmiddle.symm
        rw [List.append_nil] at hlog hfirst
        rwa [hlog] at hfirst
    | cons first middle =>
        rcases List.cons.inj hmiddle with ⟨rfl, _⟩
        exact h before e middle hlog

theorem of_append {log entries : List E} (h : AtEach P (log ++ entries)) : AtEach P log := by
  rintro before e after rfl
  exact h before e (after ++ entries) (by simp)

/-- Entries that satisfy `P` whatever stands before them. -/
theorem append_of_forall {log entries : List E} (h : AtEach P log)
    (hentries : ∀ e ∈ entries, ∀ before, P before e) : AtEach P (log ++ entries) := by
  refine h.append ?_
  rintro before e after rfl
  exact hentries e (by simp) _

theorem concat {log : List E} {e : E} (h : AtEach P log) (he : P log e) :
    AtEach P (log ++ [e]) := by
  refine h.append ?_
  intro before e' after hsplit
  rcases List.singleton_eq_append_iff.1 hsplit with ⟨rfl, hlast⟩ | ⟨_, hlast⟩
  · rcases List.cons.inj hlast with ⟨rfl, _⟩
    rwa [List.append_nil]
  · cases hlast

end AtEach

/-! ## Since -/

/-- An entry of the log satisfies `p` and none after it satisfies `q`. -/
def Since (p q : E → Prop) (log : List E) : Prop :=
  ∃ before e after, log = before ++ e :: after ∧ p e ∧ ∀ x ∈ after, ¬ q x

section Since

variable {p q : E → Prop}

theorem Since.not_nil : ¬ Since p q [] := by
  rintro ⟨before, e, after, hlog, -, -⟩
  simp at hlog

theorem since_concat_iff {log : List E} {e : E} :
    Since p q (log ++ [e]) ↔ p e ∨ (¬ q e ∧ Since p q log) := by
  constructor
  · rintro ⟨before, x, after, hlog, hx, hafter⟩
    rcases List.eq_nil_or_concat after with rfl | ⟨middle, last, rfl⟩
    · obtain ⟨-, hlast⟩ := List.append_inj' hlog rfl
      exact Or.inl ((List.cons.inj hlast).1 ▸ hx)
    · rw [List.concat_eq_append] at hlog hafter
      have hsplit : log ++ [e] = (before ++ x :: middle) ++ [last] := by simpa using hlog
      obtain ⟨hmiddle, hlast⟩ := List.append_inj' hsplit rfl
      refine Or.inr ⟨?_, before, x, middle, hmiddle, hx, fun y hy => hafter y (by simp [hy])⟩
      exact (List.cons.inj hlast).1 ▸ hafter last (by simp)
  · rintro (he | ⟨he, before, x, after, rfl, hx, hafter⟩)
    · exact ⟨log, e, [], rfl, he, by simp⟩
    · refine ⟨before, x, after ++ [e], by simp, hx, fun y hy => ?_⟩
      rcases List.mem_append.1 hy with hy | hy
      · exact hafter y hy
      · exact List.mem_singleton.1 hy ▸ he

end Since

end Lib
end Maju
