import Mathlib.Data.List.Basic

/-!
# Fields — one list cut into fields in two ways

Fields that are written one after another, with nothing that says where one ends, can be spelled by
other fields: elements move over the end of a field into the field next to it.

* `moves_iff`, `respelled_iff` — two and three fields that spell the same list;
* `append_mark_inj`, `append_mark_iff` — what a mark between the fields tells.
-/

namespace Maju
namespace Lib

variable {α : Type} {u v w u' v' w' : List α}

/-- Of two first fields the shorter lacks what stands in front of the field behind it. -/
def Moves (u v u' v' : List α) : Prop :=
  (∃ x, u' = u ++ x ∧ v = x ++ v') ∨ ∃ x, u = u' ++ x ∧ v' = x ++ v

/-- The first of three fields grows, either by the front of the second, whose rest may move against
the third, or by all of the second and the front of the third. -/
def Grows (u v w u' v' w' : List α) : Prop :=
  ∃ x, x ≠ [] ∧ u' = u ++ x ∧
    ((∃ rest, v = x ++ rest ∧ Moves rest w v' w') ∨ ∃ y, x = v ++ y ∧ w = y ++ (v' ++ w'))

/-- Three fields, and three others that elements have moved between. -/
def Respelled (u v w u' v' w' : List α) : Prop :=
  (u = u' ∧ Moves v w v' w') ∨ Grows u v w u' v' w' ∨ Grows u' v' w' u v w

theorem moves_iff : Moves u v u' v' ↔ u ++ v = u' ++ v' := List.append_eq_append_iff.symm

theorem Grows.append_eq (h : Grows u v w u' v' w') : u ++ (v ++ w) = u' ++ (v' ++ w') := by
  obtain ⟨x, -, rfl, ⟨rest, rfl, hmoves⟩ | ⟨y, rfl, rfl⟩⟩ := h
  · rw [List.append_assoc, List.append_assoc, moves_iff.1 hmoves]
  · simp only [List.append_assoc]

theorem grows_of_append {x : List α} (hx : x ≠ []) (hu : u' = u ++ x)
    (h : v ++ w = x ++ (v' ++ w')) : Grows u v w u' v' w' := by
  refine ⟨x, hx, hu, ?_⟩
  rcases List.append_eq_append_iff.1 h with ⟨y, hy, hw⟩ | ⟨rest, hrest, hw⟩
  · exact Or.inr ⟨y, hy, hw⟩
  · exact Or.inl ⟨rest, hrest, moves_iff.2 hw.symm⟩

/-- Two splits of one list are the same, or one of them is later. -/
theorem append_eq_append_cases : u ++ v = u' ++ v' ↔ (u = u' ∧ v = v') ∨
    (∃ x, x ≠ [] ∧ u' = u ++ x ∧ v = x ++ v') ∨ ∃ x, x ≠ [] ∧ u = u' ++ x ∧ v' = x ++ v := by
  rw [List.append_eq_append_iff]
  constructor
  · rintro (⟨x, hu, hv⟩ | ⟨x, hu, hv⟩) <;> by_cases hx : x = []
    · exact Or.inl ⟨by simp [hu, hx], by simp [hv, hx]⟩
    · exact Or.inr (Or.inl ⟨x, hx, hu, hv⟩)
    · exact Or.inl ⟨by simp [hu, hx], by simp [hv, hx]⟩
    · exact Or.inr (Or.inr ⟨x, hx, hu, hv⟩)
  · rintro (⟨rfl, rfl⟩ | ⟨x, -, hu, hv⟩ | ⟨x, -, hu, hv⟩)
    · exact Or.inl ⟨[], by simp, by simp⟩
    · exact Or.inl ⟨x, hu, hv⟩
    · exact Or.inr ⟨x, hu, hv⟩

theorem respelled_iff : Respelled u v w u' v' w' ↔ u ++ (v ++ w) = u' ++ (v' ++ w') := by
  constructor
  · rintro (⟨rfl, hmoves⟩ | hgrows | hgrows)
    · rw [moves_iff.1 hmoves]
    · exact hgrows.append_eq
    · exact hgrows.append_eq.symm
  · intro h
    rcases append_eq_append_cases.1 h with ⟨hu, hv⟩ | ⟨x, hx, hu, hv⟩ | ⟨x, hx, hu, hv⟩
    · exact Or.inl ⟨hu, moves_iff.2 hv⟩
    · exact Or.inr (Or.inl (grows_of_append hx hu hv))
    · exact Or.inr (Or.inr (grows_of_append hx hu hv))

/-- Two texts that end at the first occurrence of a mark can be told apart from what follows. -/
theorem append_mark_inj {mark : α} {x y u v : List α} (hx : mark ∉ x) (hy : mark ∉ y)
    (h : x ++ mark :: u = y ++ mark :: v) : x = y ∧ u = v := by
  induction x generalizing y with
  | nil =>
      cases y with
      | nil => exact ⟨rfl, (List.cons.inj h).2⟩
      | cons b y => exact absurd ((List.cons.inj h).1 ▸ List.mem_cons_self) hy
  | cons a x ih =>
      cases y with
      | nil => exact absurd ((List.cons.inj h).1 ▸ List.mem_cons_self) hx
      | cons b y =>
          obtain ⟨rfl, hrest⟩ := List.cons.inj h
          obtain ⟨rfl, huv⟩ := ih (fun hm => hx (List.mem_cons_of_mem _ hm))
            (fun hm => hy (List.mem_cons_of_mem _ hm)) hrest
          exact ⟨rfl, huv⟩

/-- A mark that is not in the second field stands in the first or in the third. -/
theorem append_mark_iff {mark : α} {y z : List α} (hv : mark ∉ v) :
    u ++ (v ++ w) = y ++ mark :: z ↔
      (∃ rest, u = y ++ mark :: rest ∧ rest ++ (v ++ w) = z) ∨
        ∃ front, y = u ++ (v ++ front) ∧ w = front ++ mark :: z := by
  constructor
  · intro h
    have hthird : ∀ {s : List α}, y = u ++ s → v ++ w = s ++ mark :: z →
        ∃ front, y = u ++ (v ++ front) ∧ w = front ++ mark :: z := by
      intro s hy hvw
      rcases List.append_eq_append_iff.1 hvw with ⟨front, hs, hw⟩ | ⟨t, hvs, ht⟩
      · exact ⟨front, by rw [hy, hs], hw⟩
      · cases t with
        | nil => exact ⟨[], by simpa [hy] using hvs.symm, by simpa using ht.symm⟩
        | cons c t =>
            obtain ⟨rfl, -⟩ := List.cons.inj ht
            exact absurd (by simp [hvs]) hv
    rcases List.append_eq_append_iff.1 h with ⟨s, hy, hvw⟩ | ⟨s, hu, hz⟩
    · exact Or.inr (hthird hy hvw)
    · cases s with
      | nil => exact Or.inr (hthird (s := []) (by simpa using hu.symm) hz.symm)
      | cons c s =>
          obtain ⟨rfl, hrest⟩ := List.cons.inj hz
          exact Or.inl ⟨s, hu, hrest.symm⟩
  · rintro (⟨rest, rfl, rfl⟩ | ⟨front, rfl, rfl⟩) <;> simp only [List.append_assoc, List.cons_append]

end Lib
end Maju
