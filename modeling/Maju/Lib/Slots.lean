import Mathlib.Algebra.BigOperators.Group.List.Basic
import Mathlib.Algebra.GroupWithZero.Nat

/-!
# Slots — lists written in place

A list whose elements are numbered by their position and rewritten one at a time: what a sum over
the slots becomes, and which slots a write leaves alone.
-/

namespace Maju
namespace Lib
namespace Slots

universe u v

variable {α : Type u} {M : Type v} [AddCommMonoid M]

/-- Writing one slot exchanges its summand. -/
theorem sum_map_set (f : α → M) {l : List α} {i : Nat} {a : α} (h : l[i]? = some a) (b : α) :
    ((l.set i b).map f).sum + f a = (l.map f).sum + f b := by
  induction l generalizing i with
  | nil => simp at h
  | cons x l ih =>
      cases i with
      | zero =>
          obtain rfl : x = a := by simpa using h
          simp only [List.set_cons_zero, List.map_cons, List.sum_cons]
          rw [add_right_comm, add_comm (f b), add_right_comm]
      | succ i =>
          have hrest := ih (by simpa using h)
          simp only [List.set_cons_succ, List.map_cons, List.sum_cons]
          rw [add_assoc, hrest, add_assoc]

omit [AddCommMonoid M] in
/-- After a write, a slot holds the written element or what it held before. -/
theorem getElem?_set_cases {l : List α} {i j : Nat} {b x : α}
    (h : (l.set i b)[j]? = some x) : (j = i ∧ x = b) ∨ (j ≠ i ∧ l[j]? = some x) := by
  rw [List.getElem?_set] at h
  by_cases hij : i = j
  · subst hij
    simp only [if_true] at h
    split at h
    · exact Or.inl ⟨rfl, (Option.some.inj h).symm⟩
    · cases h
  · rw [if_neg hij] at h
    exact Or.inr ⟨Ne.symm hij, h⟩

omit [AddCommMonoid M] in
/-- After an append, a slot holds the new element or what it held before. -/
theorem getElem?_append_singleton_cases {l : List α} {j : Nat} {b x : α}
    (h : (l ++ [b])[j]? = some x) : (j = l.length ∧ x = b) ∨ (j < l.length ∧ l[j]? = some x) := by
  by_cases hj : j < l.length
  · rw [List.getElem?_append_left hj] at h
    exact Or.inr ⟨hj, h⟩
  · rw [List.getElem?_append_right (Nat.le_of_not_lt hj)] at h
    rw [List.getElem?_singleton] at h
    split at h
    · exact Or.inl ⟨by omega, (Option.some.inj h).symm⟩
    · cases h

omit [AddCommMonoid M] in
/-- If every weighted element of `l` is covered by an element of `m` with its key, and no two
weighted elements of `l` share a key, then `l` weighs at most as much as `m`. -/
theorem sum_le_of_keyed {β κ : Type} (f : α → Nat) (g : β → Nat) (a : α → κ) (b : β → κ)
    {l : List α} {m : List β}
    (hcover : ∀ x ∈ l, 0 < f x → ∃ y ∈ m, b y = a x ∧ f x ≤ g y)
    (hkeys : l.Pairwise fun x x' => 0 < f x → 0 < f x' → a x ≠ a x') :
    (l.map f).sum ≤ (m.map g).sum := by
  induction l generalizing m with
  | nil => exact Nat.zero_le _
  | cons x l ih =>
      obtain ⟨hhead, hkeys⟩ := List.pairwise_cons.1 hkeys
      rw [List.map_cons, List.sum_cons]
      rcases Nat.eq_zero_or_pos (f x) with hzero | hpos
      · rw [hzero, Nat.zero_add]
        exact ih (fun y hy => hcover y (List.mem_cons_of_mem _ hy)) hkeys
      · obtain ⟨y, hy, hkey, hle⟩ := hcover x List.mem_cons_self hpos
        obtain ⟨m₁, m₂, rfl⟩ := List.append_of_mem hy
        -- the other elements are covered by the rest of `m`
        have hrest : (l.map f).sum ≤ ((m₁ ++ m₂).map g).sum := by
          refine ih ?_ hkeys
          intro x' hx' hpos'
          obtain ⟨y', hy', hkey', hle'⟩ := hcover x' (List.mem_cons_of_mem _ hx') hpos'
          refine ⟨y', ?_, hkey', hle'⟩
          have hne : y' ≠ y := by
            rintro rfl
            exact hhead x' hx' hpos hpos' (hkey.symm.trans hkey')
          simpa [hne] using hy'
        simp only [List.map_append, List.map_cons, List.sum_append, List.sum_cons] at hrest ⊢
        omega

/-! ## Exclusive slots -/

def Exclusive (conflict : α → α → Prop) (l : List α) : Prop :=
  ∀ (i j : Nat) (x y : α), l[i]? = some x → l[j]? = some y → conflict x y → i = j

section Exclusive

variable {conflict : α → α → Prop} {l : List α} {b : α}

theorem Exclusive.nil : Exclusive conflict [] := by
  intro i j x y hx
  simp at hx

omit [AddCommMonoid M] in
/-- A write keeps the slots exclusive if the new element conflicts with no other slot. -/
theorem Exclusive.set (hsymm : ∀ x y, conflict x y → conflict y x) (h : Exclusive conflict l)
    {i : Nat} (hb : ∀ (j : Nat) (x : α), l[j]? = some x → conflict x b → j = i) :
    Exclusive conflict (l.set i b) := by
  intro j k x y hx hy hxy
  rcases getElem?_set_cases hx with ⟨rfl, rfl⟩ | ⟨-, hxold⟩
  · rcases getElem?_set_cases hy with ⟨rfl, -⟩ | ⟨-, hyold⟩
    · rfl
    · exact (hb k y hyold (hsymm x y hxy)).symm
  · rcases getElem?_set_cases hy with ⟨rfl, rfl⟩ | ⟨-, hyold⟩
    · exact hb j x hxold hxy
    · exact h j k x y hxold hyold hxy

omit [AddCommMonoid M] in
/-- So does an append of an element without conflicts. -/
theorem Exclusive.append (hsymm : ∀ x y, conflict x y → conflict y x) (h : Exclusive conflict l)
    (hb : ∀ x ∈ l, ¬ conflict x b) : Exclusive conflict (l ++ [b]) := by
  intro j k x y hx hy hxy
  rcases getElem?_append_singleton_cases hx with ⟨rfl, rfl⟩ | ⟨-, hxold⟩
  · rcases getElem?_append_singleton_cases hy with ⟨rfl, -⟩ | ⟨-, hyold⟩
    · rfl
    · exact absurd (hsymm x y hxy) (hb y (List.mem_of_getElem? hyold))
  · rcases getElem?_append_singleton_cases hy with ⟨rfl, rfl⟩ | ⟨-, hyold⟩
    · exact absurd hxy (hb x (List.mem_of_getElem? hxold))
    · exact h j k x y hxold hyold hxy

end Exclusive

end Slots
end Lib
end Maju
