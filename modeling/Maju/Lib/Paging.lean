import Mathlib.Data.List.Basic
import Mathlib.Data.List.Nodup

/-!
# Paging — reading a filtered list in pages

A store keeps a list in order and answers with at most `K` of its elements that satisfy `w`; the
reader keeps those that satisfy `a`, and asks again behind the last one it kept.  The store's `w`
need not agree with the reader's `a`: an element that satisfies only `a` is never seen, and an
element that satisfies only `w` takes a place on a page.

* `filter_take_eq_take_iff` — one page is exact when it reaches the elements it should have;
* `Paged` — the elements kept over all pages, until a page has none;
* `paged_complete_iff` — all pages together are complete when the store misses nothing and no `K`
  elements in a row are dropped in front of one that is kept.
-/

namespace Maju
namespace Lib
namespace Paging

universe u

variable {α : Type u} (w a : α → Bool)

/-! ## One page -/

/-- What the reader keeps of a page of at most `K` elements. -/
def page (K : Nat) (V : List α) : List α := ((V.filter w).take K).filter a

/-- A page of at most `K` elements has the first `L` elements that the reader wants, if and only
if it reaches each of them. -/
theorem page_eq_take_iff {K L : Nat} (hKL : K ≤ L) {V : List α} (hnodup : V.Nodup) :
    page w a K V = (V.filter a).take L ↔
      ∀ x ∈ (V.filter a).take L, x ∈ (V.filter w).take K := by
  unfold page
  induction V generalizing K L with
  | nil => simp
  | cons x V ih =>
      obtain ⟨hx, hnodup⟩ := List.nodup_cons.1 hnodup
      have hnotW : ∀ K, x ∉ (V.filter w).take K := fun K hmem =>
        hx (List.mem_filter.1 (List.mem_of_mem_take hmem)).1
      have hnotA : ∀ L, x ∉ (V.filter a).take L := fun L hmem =>
        hx (List.mem_filter.1 (List.mem_of_mem_take hmem)).1
      cases hw : w x with
      | false =>
          rw [List.filter_cons_of_neg (by simp [hw])]
          cases ha : a x with
          | false =>
              rw [List.filter_cons_of_neg (by simp [ha])]
              exact ih hKL hnodup
          | true =>
              rw [List.filter_cons_of_pos ha]
              cases L with
              | zero =>
                  obtain rfl := Nat.le_zero.1 hKL
                  simp
              | succ L =>
                  -- the page misses `x`
                  rw [List.take_succ_cons]
                  constructor
                  · intro heq
                    have hmem : x ∈ ((V.filter w).take K).filter a := heq ▸ List.mem_cons_self
                    exact absurd (List.mem_filter.1 hmem).1 (hnotW K)
                  · intro h
                    exact absurd (h x List.mem_cons_self) (hnotW K)
      | true =>
          rw [List.filter_cons_of_pos hw]
          cases K with
          | zero =>
              simp only [List.take_zero, List.filter_nil, List.not_mem_nil, imp_false]
              rw [eq_comm, List.eq_nil_iff_forall_not_mem]
          | succ K =>
              rw [List.take_succ_cons]
              cases ha : a x with
              | false =>
                  -- `x` takes a place on the page
                  rw [List.filter_cons_of_neg (by simp [ha]), List.filter_cons_of_neg (by simp [ha]),
                    ih (Nat.le_of_succ_le hKL) hnodup]
                  refine forall₂_congr ?_
                  intro y hy
                  rw [List.mem_cons]
                  constructor
                  · exact Or.inr
                  · rintro (rfl | hmem)
                    · exact absurd hy (hnotA L)
                    · exact hmem
              | true =>
                  rw [List.filter_cons_of_pos ha, List.filter_cons_of_pos ha]
                  cases L with
                  | zero => cases hKL
                  | succ L =>
                      rw [List.take_succ_cons, List.cons.injEq, and_iff_right rfl,
                        ih (Nat.le_of_succ_le_succ hKL) hnodup, List.forall_mem_cons]
                      rw [and_iff_right List.mem_cons_self]
                      refine forall₂_congr ?_
                      intro y hy
                      rw [List.mem_cons]
                      constructor
                      · exact Or.inr
                      · rintro (rfl | hmem)
                        · exact absurd hy (hnotA L)
                        · exact hmem

/-! ## All pages -/

/-- The elements kept over all pages of a list: after a page the reader asks for what is behind
the last element it kept, and it stops at a page of which it keeps nothing. -/
inductive Paged (K : Nat) : List α → List α → Prop
  | stop {V : List α} (h : page w a K V = []) : Paged K V []
  | next {V₁ V₂ : List α} {last : α} {rest : List α}
      (h : (page w a K (V₁ ++ last :: V₂)).getLast? = some last) (hrest : Paged K V₂ rest) :
      Paged K (V₁ ++ last :: V₂) (page w a K (V₁ ++ last :: V₂) ++ rest)

/-- No `K` elements in a row that the reader drops stand in front of one that it keeps. -/
def Bridged (K : Nat) (W : List α) : Prop :=
  ∀ p q x s, W = p ++ q ++ x :: s → (∀ y ∈ q, a y = false) → a x = true → q.length < K

theorem Bridged.suffix {K : Nat} {p W : List α} (h : Bridged a K (p ++ W)) : Bridged a K W := by
  intro p' q x s hW
  refine h (p ++ p') q x s ?_
  rw [hW]
  simp

/-- Paging ends. -/
theorem exists_paged (K : Nat) (V : List α) : ∃ all, Paged w a K V all := by
  induction hn : V.length using Nat.strongRecOn generalizing V with
  | ind n ih =>
      cases hlast : (page w a K V).getLast? with
      | none => exact ⟨[], .stop (List.getLast?_eq_none_iff.1 hlast)⟩
      | some last =>
          have hmem : last ∈ V := by
            have := List.mem_of_getLast? hlast
            exact (List.mem_filter.1 (List.mem_of_mem_take (List.mem_filter.1 this).1)).1
          obtain ⟨V₁, V₂, rfl⟩ := List.append_of_mem hmem
          obtain ⟨rest, hrest⟩ := ih V₂.length (by simp at hn; omega) V₂ rfl
          exact ⟨_, .next hlast hrest⟩

variable {w a}

/-- A page up to the last element that is kept. -/
theorem page_of_last {K : Nat} {V₁ V₂ : List α} {last : α} (hnodup : (V₁ ++ last :: V₂).Nodup)
    (h : (page w a K (V₁ ++ last :: V₂)).getLast? = some last) :
    page w a K (V₁ ++ last :: V₂) = (V₁.filter w).filter a ++ [last] ∧ w last = true ∧
      a last = true := by
  have hmem := List.mem_filter.1 (List.mem_of_getLast? h)
  have hw : w last = true := (List.mem_filter.1 (List.mem_of_mem_take hmem.1)).2
  have hV : (V₁ ++ last :: V₂).filter w = V₁.filter w ++ last :: V₂.filter w := by
    rw [List.filter_append, List.filter_cons_of_pos hw]
  have hfresh : last ∉ V₁ ∧ last ∉ V₂ := by
    have := List.nodup_middle.1 hnodup
    simpa using (List.nodup_cons.1 this).1
  refine ⟨?_, hw, hmem.2⟩
  -- the page reaches beyond the elements in front of the last one
  have hK : (V₁.filter w).length < K := by
    by_contra hle
    rw [hV, List.take_append_of_le_length (Nat.le_of_not_lt hle)] at hmem
    exact hfresh.1 (List.mem_filter.1 (List.mem_of_mem_take hmem.1)).1
  have hpage : page w a K (V₁ ++ last :: V₂) =
      (V₁.filter w).filter a ++ last :: ((V₂.filter w).take (K - (V₁.filter w).length - 1)).filter a := by
    obtain ⟨K', rfl⟩ : ∃ K', K = (V₁.filter w).length + (K' + 1) :=
      ⟨K - (V₁.filter w).length - 1, by omega⟩
    rw [page, hV, List.take_length_add_append, List.take_succ_cons, List.filter_append,
      List.filter_cons_of_pos hmem.2]
    congr 4
    omega
  rw [hpage] at h ⊢
  cases hrest : ((V₂.filter w).take (K - (V₁.filter w).length - 1)).filter a with
  | nil => rfl
  | cons y ys =>
      exfalso
      rw [hrest, List.getLast?_append_cons, List.getLast?_cons_cons] at h
      have hlast := List.mem_of_getLast? h
      rw [← hrest] at hlast
      exact hfresh.2 (List.mem_filter.1 (List.mem_of_mem_take (List.mem_filter.1 hlast).1)).1

/-- Nothing is kept that the store does not select or the reader does not want. -/
theorem Paged.mem {K : Nat} {V all : List α} (h : Paged w a K V all) {x : α} (hx : x ∈ all) :
    x ∈ V ∧ w x = true ∧ a x = true := by
  induction h with
  | stop => cases hx
  | @next V₁ V₂ last rest hlast _ ih =>
      rcases List.mem_append.1 hx with hx | hx
      · obtain ⟨hwin, ha⟩ := List.mem_filter.1 hx
        obtain ⟨hV, hw⟩ := List.mem_filter.1 (List.mem_of_mem_take hwin)
        exact ⟨hV, hw, ha⟩
      · obtain ⟨hV, hwa⟩ := ih hx
        exact ⟨by simp [hV], hwa⟩

/-- Paging is complete when the store misses nothing and gaps are bridged. -/
theorem Paged.eq_filter {K : Nat} {V all : List α} (h : Paged w a K V all) (hnodup : V.Nodup)
    (hall : ∀ x ∈ V, a x = true → w x = true) (hbridged : Bridged a K (V.filter w)) :
    all = V.filter a := by
  induction h with
  | @stop V hpage =>
      symm
      rw [List.filter_eq_nil_iff]
      intro x hx hax
      -- the first element that is wanted lies on the page
      have hsome : ((V.filter w).find? a).isSome = true :=
        List.find?_isSome.2 ⟨x, List.mem_filter.2 ⟨hx, hall x hx hax⟩, hax⟩
      obtain ⟨y, hy⟩ := Option.isSome_iff_exists.1 hsome
      obtain ⟨hay, q, s, hW, hq⟩ := List.find?_eq_some_iff_append.1 hy
      have hlen : q.length < K :=
        hbridged [] q y s hW (fun z hz => by simpa using hq z hz) hay
      have hmem : y ∈ page w a K V := by
        refine List.mem_filter.2 ⟨?_, hay⟩
        rw [hW]
        obtain ⟨K', rfl⟩ : ∃ K', K = q.length + (K' + 1) := ⟨K - q.length - 1, by omega⟩
        rw [List.take_length_add_append, List.take_succ_cons]
        simp
      rw [hpage] at hmem
      cases hmem
  | @next V₁ V₂ last rest hlast _ ih =>
      obtain ⟨hpage, hw, ha⟩ := page_of_last hnodup hlast
      have hV : (V₁ ++ last :: V₂).filter w = (V₁.filter w ++ [last]) ++ V₂.filter w := by
        rw [List.filter_append, List.filter_cons_of_pos hw]
        simp
      have hrest := ih (List.Nodup.of_append_right hnodup |> fun h => (List.nodup_cons.1 h).2)
        (fun x hx => hall x (by simp [hx])) (Bridged.suffix a (hV ▸ hbridged))
      have hfront : (V₁.filter w).filter a = V₁.filter a := by
        rw [List.filter_filter]
        refine List.filter_congr ?_
        intro x hx
        cases hax : a x with
        | false => rfl
        | true => rw [hall x (by simp [hx]) hax]; rfl
      rw [hpage, hrest, hfront, List.filter_append, List.filter_cons_of_pos ha]
      simp

/-- An element behind a gap is never kept. -/
theorem Paged.not_mem_of_gap {K : Nat} {V all : List α} (h : Paged w a K V all)
    (hnodup : V.Nodup) {p q s : List α} {x : α} (hW : V.filter w = p ++ q ++ x :: s)
    (hq : ∀ y ∈ q, a y = false) (hlen : K ≤ q.length) : x ∉ all := by
  induction h generalizing p with
  | stop => simp
  | @next V₁ V₂ last rest hlast _ ih =>
      have hnodupW : (p ++ q ++ x :: s).Nodup := hW ▸ hnodup.filter w
      have hwindow : ∀ y ∈ page w a K (V₁ ++ last :: V₂), y ∈ p := by
        intro y hy
        obtain ⟨hwin, hay⟩ := List.mem_filter.1 hy
        rw [hW, List.take_append_of_le_length (by simp; omega)] at hwin
        rcases List.mem_append.1 (List.mem_of_mem_take hwin) with hp | hyq
        · exact hp
        · rw [hq y hyq] at hay
          cases hay
      have hxp : x ∉ p := by
        intro hmem
        have := (List.nodup_middle.1 hnodupW)
        simp [hmem] at this
      obtain ⟨hpage, hw, ha⟩ := page_of_last hnodup hlast
      have hlastp : last ∈ p := hwindow last (by rw [hpage]; simp)
      obtain ⟨p₁, p₂, rfl⟩ := List.append_of_mem hlastp
      have hsplit : V₁.filter w ++ last :: V₂.filter w =
          p₁ ++ last :: (p₂ ++ q ++ x :: s) := by
        rw [← List.filter_cons_of_pos hw, ← List.filter_append, hW]
        simp
      have hnodupV : (V₁.filter w ++ last :: V₂.filter w).Nodup := by
        rw [← List.filter_cons_of_pos hw, ← List.filter_append]
        exact hnodup.filter w
      have hlast₁ : last ∉ V₁.filter w ∧ last ∉ V₂.filter w := by
        have := (List.nodup_cons.1 (List.nodup_middle.1 hnodupV)).1
        simpa [not_or] using this
      obtain ⟨_, _, hV₂⟩ := (List.append_cons_inj_of_notMem hlast₁.1 hlast₁.2).1 hsplit
      rw [List.mem_append]
      rintro (hmem | hmem)
      · exact hxp (hwindow x hmem)
      · exact ih (List.nodup_cons.1 (List.Nodup.of_append_right hnodup)).2 hV₂ hmem

/-- All pages together keep every wanted element, if and only if the store misses none and no gap
is as long as a page. -/
theorem paged_complete_iff {K : Nat} {V all : List α} (h : Paged w a K V all)
    (hnodup : V.Nodup) :
    (∀ x ∈ V, a x = true → x ∈ all) ↔
      (∀ x ∈ V, a x = true → w x = true) ∧ Bridged a K (V.filter w) := by
  constructor
  · intro hcomplete
    refine ⟨fun x hx hax => (h.mem (hcomplete x hx hax)).2.1, ?_⟩
    intro p q x s hW hq hax
    by_contra hlen
    refine h.not_mem_of_gap hnodup hW hq (Nat.le_of_not_lt hlen) (hcomplete x ?_ hax)
    have hmem : x ∈ V.filter w := by
      rw [hW]
      simp
    exact (List.mem_filter.1 hmem).1
  · rintro ⟨hall, hbridged⟩ x hx hax
    rw [h.eq_filter hnodup hall hbridged]
    exact List.mem_filter.2 ⟨hx, hax⟩

/-! ## A specification -/

theorem Bridged.congr {a b : α → Bool} {K : Nat} {W : List α} (hab : ∀ x ∈ W, a x = b x)
    (h : Bridged a K W) : Bridged b K W := by
  intro p q x s hW hq hx
  have hmem : ∀ y ∈ q ++ x :: s, y ∈ W := by
    intro y hy
    rw [hW, List.append_assoc]
    exact List.mem_append_right p hy
  refine h p q x s hW ?_ ?_
  · intro y hy
    rw [hab y (hmem y (by simp [hy]))]
    exact hq y hy
  · rw [hab x (hmem x (by simp))]
    exact hx

/-- A reader that keeps nothing but what satisfies `b`, and misses none of it, keeps just that. -/
theorem Paged.eq_filter_of_complete {b : α → Bool} {K : Nat} {V all : List α}
    (h : Paged w a K V all) (hnodup : V.Nodup) (hab : ∀ x ∈ V, a x = true → b x = true)
    (hcomplete : ∀ x ∈ V, b x = true → x ∈ all) : all = V.filter b := by
  obtain ⟨hall, hbridged⟩ := (paged_complete_iff h hnodup).1 fun x hx ha =>
    hcomplete x hx (hab x hx ha)
  rw [h.eq_filter hnodup hall hbridged]
  refine List.filter_congr ?_
  intro x hx
  rw [Bool.eq_iff_iff]
  exact ⟨hab x hx, fun hb => (h.mem (hcomplete x hx hb)).2.2⟩

/-- A reader that keeps `a` of what it fetches by `w` has the first `L` elements that satisfy `b` on
its first page and all of them on its pages together, if and only if it fetches and keeps all of
them, its first page reaches those it should have, and no gap is as long as a page. -/
theorem paged_exact_iff {b : α → Bool} {K L : Nat} (hKL : K ≤ L) {V all : List α}
    (h : Paged w a K V all) (hnodup : V.Nodup) (hab : ∀ x ∈ V, a x = true → b x = true) :
    (page w a K V = (V.filter b).take L ∧ ∀ x ∈ V, b x = true → x ∈ all) ↔
      (∀ x ∈ V, b x = true → a x = true ∧ w x = true) ∧
        (∀ x ∈ (V.filter b).take L, x ∈ (V.filter w).take K) ∧ Bridged b K (V.filter w) := by
  -- once the reader keeps what satisfies `b`, the two predicates agree
  have hagree : (∀ x ∈ V, b x = true → a x = true) → ∀ x ∈ V, a x = b x := by
    intro hba x hx
    rw [Bool.eq_iff_iff]
    exact ⟨hab x hx, hba x hx⟩
  constructor
  · rintro ⟨hpage, hcomplete⟩
    have hkept : ∀ x ∈ V, b x = true → a x = true ∧ w x = true := fun x hx hb =>
      (h.mem (hcomplete x hx hb)).2.symm
    have heq := hagree fun x hx hb => (hkept x hx hb).1
    rw [← List.filter_congr heq] at hpage ⊢
    have hbridged := ((paged_complete_iff h hnodup).1 fun x hx ha =>
      hcomplete x hx (hab x hx ha)).2
    exact ⟨hkept, (page_eq_take_iff w a hKL hnodup).1 hpage,
      hbridged.congr fun x hx => heq x (List.mem_filter.1 hx).1⟩
  · rintro ⟨hkept, hfirst, hbridged⟩
    have heq := hagree fun x hx hb => (hkept x hx hb).1
    rw [← List.filter_congr heq] at hfirst ⊢
    refine ⟨(page_eq_take_iff w a hKL hnodup).2 hfirst, ?_⟩
    intro x hx hb
    refine (paged_complete_iff h hnodup).2 ⟨fun y hy ha => (hkept y hy (hab y hy ha)).2, ?_⟩ x hx
      (hkept x hx hb).1
    exact hbridged.congr fun y hy => (heq y (List.mem_filter.1 hy).1).symm

end Paging
end Lib
end Maju
