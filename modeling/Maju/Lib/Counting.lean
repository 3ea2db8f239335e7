import Mathlib.Algebra.BigOperators.Group.List.Basic
import Mathlib.Algebra.GroupWithZero.Nat

/-!
# Counting — how many elements of a list satisfy a predicate

Counting by weights that are zero or one, counting by several predicates of which at most one
holds of an element, and the division of a list into numbered classes.
-/

namespace Maju
namespace Lib
namespace Counting

universe u v

variable {α : Type u} {β : Type v}

/-- A weight that is one on the elements that satisfy `p` and zero elsewhere counts them. -/
theorem sum_map_eq_countP (f : α → Nat) (p : α → Bool) {l : List α}
    (h : ∀ x ∈ l, f x = if p x then 1 else 0) : (l.map f).sum = l.countP p := by
  induction l with
  | nil => rfl
  | cons x l ih =>
      rw [List.map_cons, List.sum_cons, List.countP_cons, h x List.mem_cons_self,
        ih fun y hy => h y (List.mem_cons_of_mem _ hy), Nat.add_comm]

theorem countP_or_of_disjoint {p q : α → Bool} {l : List α}
    (h : ∀ x ∈ l, ¬(p x = true ∧ q x = true)) :
    l.countP (fun x => p x || q x) = l.countP p + l.countP q := by
  induction l with
  | nil => rfl
  | cons x l ih =>
      have hx := h x List.mem_cons_self
      rw [List.countP_cons, List.countP_cons, List.countP_cons,
        ih fun y hy => h y (List.mem_cons_of_mem _ hy)]
      cases hp : p x <;> cases hq : q x <;> simp_all <;> omega

/-- Among elements with distinct keys, those with the key of `a` are `a`. -/
theorem countP_key_eq [DecidableEq β] (f : α → β) {l : List α} (hl : (l.map f).Nodup) {a : α}
    (ha : a ∈ l) (p : α → Bool) :
    l.countP (fun x => decide (f x = f a) && p x) = if p a then 1 else 0 := by
  obtain ⟨before, after, rfl⟩ := List.append_of_mem ha
  rw [List.map_append, List.map_cons, List.nodup_append, List.nodup_cons] at hl
  obtain ⟨-, ⟨hafter, -⟩, hbefore⟩ := hl
  have hzero (m : List α) (hm : ∀ x ∈ m, f x ≠ f a) :
      m.countP (fun x => decide (f x = f a) && p x) = 0 := by
    rw [List.countP_eq_zero]
    intro x hx
    simp [hm x hx]
  rw [List.countP_append, List.countP_cons, hzero before, hzero after]
  · simp
  · intro x hx heq
    exact hafter (heq ▸ List.mem_map_of_mem hx)
  · intro x hx
    exact hbefore _ (List.mem_map_of_mem hx) _ List.mem_cons_self

/-- If no element satisfies two of the predicates, counting by each of them counts every element
that satisfies one of them once. -/
theorem sum_countP_eq_countP_any (p : β → α → Bool) {bs : List β} {l : List α}
    (h : bs.Pairwise fun b b' => ∀ x ∈ l, ¬(p b x = true ∧ p b' x = true)) :
    (bs.map fun b => l.countP (p b)).sum = l.countP fun x => bs.any fun b => p b x := by
  induction bs with
  | nil => simp
  | cons b bs ih =>
      obtain ⟨hhead, htail⟩ := List.pairwise_cons.1 h
      rw [List.map_cons, List.sum_cons, ih htail]
      simp only [List.any_cons]
      rw [countP_or_of_disjoint]
      rintro x hx ⟨hb, hany⟩
      obtain ⟨b', hb', hp⟩ := List.any_eq_true.1 hany
      exact hhead b' hb' x hx ⟨hb, hp⟩

/-- A list is the concatenation of its classes, in another order. -/
theorem perm_flatMap_classes (f : α → Nat) (n : Nat) {l : List α} (h : ∀ x ∈ l, f x < n) :
    ((List.range n).flatMap fun k => l.filter fun x => f x = k).Perm l := by
  induction n generalizing l with
  | zero =>
      have hnil : l = [] := List.eq_nil_iff_forall_not_mem.2 fun x hx => Nat.not_lt_zero _ (h x hx)
      rw [hnil]
      exact List.Perm.refl []
  | succ n ih =>
      have hbelow := ih (l := l.filter fun x => f x < n)
        fun x hx => by simpa using (List.mem_filter.1 hx).2
      have hclass : ∀ k ∈ List.range n, (l.filter fun x => f x = k) =
          (l.filter fun x => f x < n).filter fun x => f x = k := by
        intro k hk
        rw [List.filter_filter]
        refine List.filter_congr fun x _ => ?_
        have hlt := List.mem_range.1 hk
        by_cases heq : f x = k
        · simp [heq, hlt]
        · simp [heq]
      have htop : (l.filter fun x => f x = n) = l.filter fun x => !decide (f x < n) := by
        refine List.filter_congr fun x hx => ?_
        have hle := h x hx
        by_cases heq : f x = n
        · simp [heq]
        · have hlt : f x < n := by omega
          simp [heq, hlt]
      rw [List.range_succ, List.flatMap_append, List.flatMap_singleton, htop,
        List.flatMap_congr hclass]
      exact (hbelow.append_right _).trans (List.filter_append_perm _ l)

end Counting
end Lib
end Maju
