import Mathlib.Data.List.Basic
import Mathlib.Data.List.Nodup
import Mathlib.Data.List.Pairwise

/-!
# OrderedSet — lists used as sets

Two shapes recur in the programs verified here:

* a vector filled through a "seen" hash set, which keeps the first occurrence of each element
  (`insertNew`, folded over the candidates);
* an ordered set, whose elements are stored strictly increasing (`BTreeSet`).
-/

namespace Maju
namespace Lib

universe u

/-! ## Appending an element unless it was seen -/

section InsertNew

variable {α : Type u} [DecidableEq α]

/-- `if seen.insert(x) { acc.push(x) }`, where `seen` holds the elements of `acc`. -/
def insertNew (acc : List α) (x : α) : List α :=
  if x ∈ acc then acc else acc ++ [x]

@[simp] theorem mem_insertNew {acc : List α} {x y : α} :
    y ∈ insertNew acc x ↔ y ∈ acc ∨ y = x := by
  unfold insertNew
  split
  · next h =>
      constructor
      · exact Or.inl
      · rintro (hy | rfl)
        · exact hy
        · exact h
  · simp

theorem nodup_insertNew {acc : List α} (h : acc.Nodup) (x : α) : (insertNew acc x).Nodup := by
  unfold insertNew
  split
  · exact h
  · next hx =>
      rw [List.nodup_append]
      refine ⟨h, List.nodup_singleton x, ?_⟩
      intro a ha b hb hab
      rw [List.mem_singleton] at hb
      exact hx (hb ▸ hab ▸ ha)

@[simp] theorem mem_foldl_insertNew {xs acc : List α} {y : α} :
    y ∈ xs.foldl insertNew acc ↔ y ∈ acc ∨ y ∈ xs := by
  induction xs generalizing acc with
  | nil => simp
  | cons x xs ih =>
      rw [List.foldl_cons, ih, mem_insertNew, List.mem_cons, or_assoc]

end InsertNew

/-! ## Ordered sets -/

/-- A set stored as its strictly increasing list of elements. -/
structure BTreeSet (α : Type u) [LT α] where
  toList : List α
  sorted : toList.Pairwise (· < ·)

namespace BTreeSet

variable {α : Type u} [LT α]

def empty : BTreeSet α := ⟨[], List.Pairwise.nil⟩

def singleton (a : α) : BTreeSet α := ⟨[a], List.pairwise_singleton _ a⟩

instance [DecidableEq α] : DecidableEq (BTreeSet α) := fun s t =>
  decidable_of_iff (s.toList = t.toList) (by cases s; cases t; simp)

def contains [DecidableEq α] (s : BTreeSet α) (a : α) : Bool := decide (a ∈ s.toList)

def len (s : BTreeSet α) : Nat := s.toList.length

def isEmpty (s : BTreeSet α) : Bool := s.toList.isEmpty

@[simp] theorem contains_eq_true [DecidableEq α] {s : BTreeSet α} {a : α} :
    s.contains a = true ↔ a ∈ s.toList := by
  simp [contains]

@[simp] theorem isEmpty_eq_true {s : BTreeSet α} : s.isEmpty = true ↔ s.toList = [] := by
  simp [isEmpty]

end BTreeSet

end Lib
end Maju
