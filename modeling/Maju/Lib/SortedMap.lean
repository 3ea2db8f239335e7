import Mathlib.Data.List.Lex
import Mathlib.Data.List.Sort
import Mathlib.Data.List.Dedup

/-!
# SortedMap — maps that iterate in the order of their keys, and sorted lists without repetition

A `SortedMap` is its list of entries with strictly increasing keys, so two maps with the same
entries are equal and iteration is the list itself.  `sortDedup` is the sort and the removal of
adjacent repetitions of a list.
-/

namespace Maju
namespace Lib

universe u v

/-! ## Maps -/

/-- A map as its entries in the order of their keys. -/
structure SortedMap (K : Type u) (V : Type v) [LinearOrder K] where
  entries : List (K × V)
  sorted : entries.Pairwise fun a b => a.1 < b.1

namespace SortedMap

variable {K : Type u} {V : Type v} [LinearOrder K]

@[ext] theorem ext {m n : SortedMap K V} (h : m.entries = n.entries) : m = n := by
  cases m
  cases n
  cases h
  rfl

instance [DecidableEq V] : DecidableEq (SortedMap K V) := fun m n =>
  decidable_of_iff (m.entries = n.entries) ⟨SortedMap.ext, fun h => congrArg entries h⟩

def empty : SortedMap K V := ⟨[], List.Pairwise.nil⟩

/-- Put an entry at its place, in the stead of one with the same key. -/
def insertEntry (k : K) (v : V) : List (K × V) → List (K × V)
  | [] => [(k, v)]
  | e :: rest =>
      if k < e.1 then (k, v) :: e :: rest
      else if k = e.1 then (k, v) :: rest
      else e :: insertEntry k v rest

theorem fst_mem_insertEntry {k k' : K} {v : V} {l : List (K × V)}
    (h : k' ∈ (insertEntry k v l).map Prod.fst) : k' = k ∨ k' ∈ l.map Prod.fst := by
  induction l with
  | nil => simpa [insertEntry] using h
  | cons e rest ih =>
      unfold insertEntry at h
      split_ifs at h with hlt heq
      · simpa using h
      · simp only [List.map_cons, List.mem_cons] at h ⊢
        rcases h with hk | hrest
        · exact Or.inl hk
        · exact Or.inr (Or.inr hrest)
      · simp only [List.map_cons, List.mem_cons] at h ⊢
        rcases h with hk | hrest
        · exact Or.inr (Or.inl hk)
        · rcases ih hrest with hk | hmem
          · exact Or.inl hk
          · exact Or.inr (Or.inr hmem)

theorem sorted_insertEntry (k : K) (v : V) {l : List (K × V)}
    (h : l.Pairwise fun a b => a.1 < b.1) :
    (insertEntry k v l).Pairwise fun a b => a.1 < b.1 := by
  induction l with
  | nil => simp [insertEntry]
  | cons e rest ih =>
      rcases List.pairwise_cons.1 h with ⟨hfirst, hrest⟩
      unfold insertEntry
      split_ifs with hlt heq
      · refine List.pairwise_cons.2 ⟨?_, h⟩
        intro a ha
        rcases List.mem_cons.1 ha with rfl | ha'
        · exact hlt
        · exact lt_trans hlt (hfirst a ha')
      · subst heq
        exact List.pairwise_cons.2 ⟨hfirst, hrest⟩
      · refine List.pairwise_cons.2 ⟨?_, ih hrest⟩
        intro a ha
        rcases fst_mem_insertEntry (List.mem_map_of_mem ha) with hk | hmem
        · rw [hk]
          exact lt_of_le_of_ne (not_lt.1 hlt) (Ne.symm heq)
        · rcases List.mem_map.1 hmem with ⟨b, hb, hba⟩
          rw [← hba]
          exact hfirst b hb

def insert (m : SortedMap K V) (k : K) (v : V) : SortedMap K V :=
  ⟨insertEntry k v m.entries, sorted_insertEntry k v m.sorted⟩

def contains (m : SortedMap K V) (k : K) : Bool := m.entries.any fun e => e.1 = k

theorem contains_iff {m : SortedMap K V} {k : K} :
    m.contains k = true ↔ k ∈ m.entries.map Prod.fst := by
  simp [contains]

/-- Entries inserted one after the other. -/
def insertAll (m : SortedMap K V) (l : List (K × V)) : SortedMap K V :=
  l.foldl (fun m e => m.insert e.1 e.2) m

/-- A new key adds one entry. -/
theorem insertEntry_perm {k : K} (v : V) {l : List (K × V)} (h : k ∉ l.map Prod.fst) :
    (insertEntry k v l).Perm ((k, v) :: l) := by
  induction l with
  | nil => exact List.Perm.refl _
  | cons e rest ih =>
      simp only [List.map_cons, List.mem_cons, not_or] at h
      unfold insertEntry
      split_ifs with hlt heq
      · exact List.Perm.refl _
      · exact absurd heq h.1
      · exact ((ih h.2).cons e).trans (List.Perm.swap _ _ _)

/-- Entries with new and distinct keys are all there afterwards. -/
theorem insertAll_perm {l : List (K × V)} {m : SortedMap K V}
    (hnodup : (l.map Prod.fst).Nodup) (hnew : ∀ k ∈ l.map Prod.fst, k ∉ m.entries.map Prod.fst) :
    (m.insertAll l).entries.Perm (m.entries ++ l) := by
  induction l generalizing m with
  | nil => simp [insertAll]
  | cons e rest ih =>
      rw [List.map_cons, List.nodup_cons] at hnodup
      have hinsert := insertEntry_perm e.2 (hnew e.1 (by simp))
      have hrest := ih (m := m.insert e.1 e.2) hnodup.2 (by
        intro k hk hmem
        rcases fst_mem_insertEntry hmem with rfl | hold
        · exact hnodup.1 hk
        · exact hnew k (List.mem_cons_of_mem _ hk) hold)
      have hmove : (m.entries ++ e :: rest).Perm ((e :: m.entries) ++ rest) := by
        simp [List.perm_middle]
      exact hrest.trans ((hinsert.append_right rest).trans hmove.symm)

/-- A key behind all others goes to the end. -/
theorem insertEntry_last {k : K} {v : V} {l : List (K × V)} (h : ∀ e ∈ l, e.1 < k) :
    insertEntry k v l = l ++ [(k, v)] := by
  induction l with
  | nil => rfl
  | cons e rest ih =>
      have he := h e List.mem_cons_self
      have hrest := ih fun a ha => h a (List.mem_cons_of_mem e ha)
      simp [insertEntry, not_lt.2 (le_of_lt he), ne_of_gt he, hrest]

/-- Sorted entries inserted in their order are the entries of the map. -/
theorem entries_insertAll {l : List (K × V)} {m : SortedMap K V}
    (h : (m.entries ++ l).Pairwise fun a b => a.1 < b.1) :
    (m.insertAll l).entries = m.entries ++ l := by
  induction l generalizing m with
  | nil => simp [insertAll]
  | cons e rest ih =>
      have hlast : ∀ a ∈ m.entries, a.1 < e.1 := fun a ha =>
        (List.pairwise_append.1 h).2.2 a ha e List.mem_cons_self
      have hinsert : (m.insert e.1 e.2).entries = m.entries ++ [e] := insertEntry_last hlast
      have hrest := ih (m := m.insert e.1 e.2) (by
        rw [hinsert]
        simpa using h)
      rw [hinsert] at hrest
      simpa [insertAll] using hrest

theorem insertAll_entries (m : SortedMap K V) : empty.insertAll m.entries = m := by
  refine SortedMap.ext ?_
  have h := entries_insertAll (l := m.entries) (m := empty) (by simpa [empty] using m.sorted)
  simpa [empty] using h

theorem length_insertEntry_le (k : K) (v : V) (l : List (K × V)) :
    (insertEntry k v l).length ≤ l.length + 1 := by
  induction l with
  | nil => simp [insertEntry]
  | cons e rest ih =>
      unfold insertEntry
      split_ifs
      · simp
      · simp
      · simpa using ih

end SortedMap

/-! ## Sorted lists without repetition -/

section SortDedup

variable {α : Type u} [LinearOrder α]

/-- `Vec::dedup`: drop an element that equals the one before it. -/
def dedupAdjacent : List α → List α
  | [] => []
  | [a] => [a]
  | a :: b :: rest => if a = b then dedupAdjacent (b :: rest) else a :: dedupAdjacent (b :: rest)

/-- `sort` and `dedup`. -/
def sortDedup (l : List α) : List α := dedupAdjacent (l.insertionSort (· ≤ ·))

theorem mem_dedupAdjacent {a : α} {l : List α} : a ∈ dedupAdjacent l ↔ a ∈ l := by
  induction l using dedupAdjacent.induct with
  | case1 => rfl
  | case2 b => rfl
  | case3 b rest ih =>
      rw [dedupAdjacent, if_pos rfl, ih]
      simp
  | case4 b c rest hne ih =>
      rw [dedupAdjacent, if_neg hne, List.mem_cons, ih]
      exact List.mem_cons.symm

theorem pairwise_dedupAdjacent {l : List α} (h : l.Pairwise (· ≤ ·)) :
    (dedupAdjacent l).Pairwise (· < ·) := by
  induction l using dedupAdjacent.induct with
  | case1 => exact List.Pairwise.nil
  | case2 b => exact List.pairwise_singleton _ _
  | case3 b rest ih =>
      rw [dedupAdjacent, if_pos rfl]
      exact ih (List.pairwise_cons.1 h).2
  | case4 b c rest hne ih =>
      rcases List.pairwise_cons.1 h with ⟨hfirst, hrest⟩
      rw [dedupAdjacent, if_neg hne]
      refine List.pairwise_cons.2 ⟨?_, ih hrest⟩
      intro a ha
      have hbc : b < c := lt_of_le_of_ne (hfirst c List.mem_cons_self) hne
      rcases List.mem_cons.1 (mem_dedupAdjacent.1 ha) with rfl | hmem
      · exact hbc
      · exact lt_of_lt_of_le hbc ((List.pairwise_cons.1 hrest).1 a hmem)

theorem dedupAdjacent_eq_self {l : List α} (h : l.Pairwise (· < ·)) : dedupAdjacent l = l := by
  induction l using dedupAdjacent.induct with
  | case1 => rfl
  | case2 b => rfl
  | case3 b rest ih => exact absurd ((List.pairwise_cons.1 h).1 b List.mem_cons_self) (lt_irrefl _)
  | case4 b c rest hne ih =>
      rw [dedupAdjacent, if_neg hne, ih (List.pairwise_cons.1 h).2]

theorem mem_sortDedup {a : α} {l : List α} : a ∈ sortDedup l ↔ a ∈ l :=
  mem_dedupAdjacent.trans (List.mem_insertionSort _)

theorem pairwise_sortDedup (l : List α) : (sortDedup l).Pairwise (· < ·) :=
  pairwise_dedupAdjacent (List.pairwise_insertionSort (· ≤ ·) l)

theorem sortDedup_eq_self {l : List α} (h : l.Pairwise (· < ·)) : sortDedup l = l := by
  have hsorted : l.insertionSort (· ≤ ·) = l :=
    List.Pairwise.insertionSort_eq (h.imp fun hlt => le_of_lt hlt)
  rw [sortDedup, hsorted, dedupAdjacent_eq_self h]

/-- The result is fixed by the elements. -/
theorem sortDedup_eq_iff {l r : List α} : sortDedup l = sortDedup r ↔ ∀ a, a ∈ l ↔ a ∈ r := by
  constructor
  · intro h a
    rw [← mem_sortDedup, h, mem_sortDedup]
  · intro h
    have hl := pairwise_sortDedup l
    have hr := pairwise_sortDedup r
    have hperm : (sortDedup l).Perm (sortDedup r) := by
      apply (List.perm_ext_iff_of_nodup (hl.imp ne_of_lt) (hr.imp ne_of_lt)).2
      intro a
      rw [mem_sortDedup, mem_sortDedup, h]
    exact hperm.eq_of_pairwise (fun _ _ _ _ hab hba => absurd hba (lt_asymm hab)) hl hr

end SortDedup

end Lib
end Maju
