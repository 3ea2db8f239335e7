import Maju.Lib.Run

/-!
# Delimited — sequences that can be read in one way only

Items follow each other, each in a state that depends on those before it.  If what follows does not
matter to where an item ends, and an ending does not begin like an item, then a string is cut into
items in one way only.

* `Delimited` — where an item ends;
* `Delimited.unique` — there is one way to cut;
* `listed_iff_of_unique` — where there is one way to cut, all of a string is listed unless one of
  its items is not.
-/

namespace Maju
namespace Lib

open Run

section Delimited

variable {τ α β : Type*} {P : τ → α → Prop} {next : τ → α → τ} {enc : α → List β}
  {Ends : List β → Prop}

/-- Two items that may come in a state are equal if they begin one string; neither begins an
ending. -/
structure Delimited (P : τ → α → Prop) (enc : α → List β) (Ends : List β → Prop) : Prop where
  item : ∀ {t x y u v}, P t x → P t y → enc x ++ u = enc y ++ v → x = y ∧ u = v
  ending : ∀ {t x u}, P t x → ¬ Ends (enc x ++ u)

/-- There is one way to cut a string into items and an ending. -/
theorem Delimited.unique (h : Delimited P enc Ends) {t : τ} {xs ys : List α} {u v : List β}
    (hxs : Along P next t xs) (hys : Along P next t ys) (hu : Ends u) (hv : Ends v)
    (heq : xs.flatMap enc ++ u = ys.flatMap enc ++ v) : xs = ys ∧ u = v := by
  induction xs generalizing t ys with
  | nil =>
      cases ys with
      | nil => exact ⟨rfl, heq⟩
      | cons y ys =>
          rw [List.flatMap_nil, List.nil_append, List.flatMap_cons, List.append_assoc] at heq
          exact absurd (heq ▸ hu) (h.ending hys.1)
  | cons x xs ih =>
      rw [List.flatMap_cons, List.append_assoc] at heq
      cases ys with
      | nil =>
          rw [List.flatMap_nil, List.nil_append] at heq
          exact absurd (heq ▸ hv) (h.ending hxs.1)
      | cons y ys =>
          rw [List.flatMap_cons, List.append_assoc] at heq
          obtain ⟨rfl, hrest⟩ := h.item hxs.1 hys.1 heq
          obtain ⟨rfl, rfl⟩ := ih hxs.2 hys.2 hrest
          exact ⟨rfl, rfl⟩

/-- There is a cut into listed items wherever there is one at all, unless there is a cut with an
item that is not listed. -/
theorem listed_iff_of_unique {accepted : Prop} {Passes Listed : List α → Prop} {Known : α → Prop}
    (hok : accepted ↔ ∃ l, Passes l) (hlisted : ∀ l, Listed l ↔ Passes l ∧ ∀ x ∈ l, Known x)
    (hunique : ∀ l l', Passes l → Passes l' → l = l') :
    (accepted → ∃ l, Listed l) ↔ ¬ ∃ l, Passes l ∧ ∃ x ∈ l, ¬ Known x := by
  constructor
  · rintro h ⟨l, hpasses, x, hx, hunknown⟩
    obtain ⟨l', hl'⟩ := h (hok.2 ⟨l, hpasses⟩)
    obtain ⟨hpasses', hknown⟩ := (hlisted l').1 hl'
    obtain rfl := hunique l l' hpasses hpasses'
    exact hunknown (hknown x hx)
  · intro h haccepted
    obtain ⟨l, hpasses⟩ := hok.1 haccepted
    refine ⟨l, (hlisted l).2 ⟨hpasses, fun x hx => ?_⟩⟩
    exact not_not.1 fun hunknown => h ⟨l, hpasses, x, hx, hunknown⟩

/-- A condition on the items alone holds along a run where it holds of every item. -/
theorem along_and_iff {Q : α → Prop} {t : τ} {xs : List α} :
    Along (fun t x => P t x ∧ Q x) next t xs ↔ Along P next t xs ∧ ∀ x ∈ xs, Q x := by
  induction xs generalizing t with
  | nil => exact ⟨fun _ => ⟨trivial, nofun⟩, fun _ => trivial⟩
  | cons x xs ih =>
      constructor
      · rintro ⟨⟨hP, hQ⟩, hrest⟩
        obtain ⟨halong, hall⟩ := ih.1 hrest
        exact ⟨⟨hP, halong⟩, List.forall_mem_cons.2 ⟨hQ, hall⟩⟩
      · rintro ⟨⟨hP, halong⟩, hall⟩
        obtain ⟨hQ, hall⟩ := List.forall_mem_cons.1 hall
        exact ⟨⟨hP, hQ⟩, ih.2 ⟨halong, hall⟩⟩

end Delimited

end Lib
end Maju
