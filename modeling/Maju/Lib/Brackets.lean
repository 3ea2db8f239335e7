import Mathlib.Algebra.Group.Nat.Even
import Mathlib.Data.List.Basic
import Mathlib.Data.List.TakeWhile

/-!
# Brackets — pieces between doubled brackets, in one pass

A scanner looks for a doubled opening bracket and from there for a doubled closing bracket; at an
inner doubled opening bracket it starts again, and behind a closed piece it goes on.  The alphabet
and the two brackets are arbitrary.

* `findClose`, `spans` — the two loops over the positions;
* `runBefore` — how many opening brackets stand right before a position;
* `mem_spans_iff` — a piece without brackets is found exactly when it is enclosed and the run of
  opening brackets before it has even length;
* `splitPair` — the cut at the first doubled mark.
-/

namespace Maju
namespace Lib

universe u

variable {α : Type u} [DecidableEq α] (o c : α) (l : List α)

/-! ## The loops -/

/-- Both positions from `i` on hold `x`. -/
def pairAt (x : α) (l : List α) (i : Nat) : Bool := l[i]? = some x && l[i + 1]? = some x

/-- The end of the piece that starts at `j`, if it is closed before another one opens. -/
def findClose (j : Nat) : Nat × Bool :=
  if j + 1 < l.length then
    if pairAt o l j then (j, false)
    else if pairAt c l j then (j, true)
    else findClose (j + 1)
  else (j, false)
termination_by l.length - j

theorem le_findClose (j : Nat) : j ≤ (findClose o c l j).1 := by
  induction j using findClose.induct o c l with
  | case1 j hlt hopen => rw [findClose, if_pos hlt, if_pos hopen]
  | case2 j hlt hopen hclose => rw [findClose, if_pos hlt, if_neg hopen, if_pos hclose]
  | case3 j hlt hopen hclose ih =>
      rw [findClose, if_pos hlt, if_neg hopen, if_neg hclose]
      exact Nat.le_trans (Nat.le_succ j) ih
  | case4 j hend => rw [findClose, if_neg hend]

/-- The closed pieces from `i` on, by start and end. -/
def spans (i : Nat) : List (Nat × Nat) :=
  if i + 3 < l.length then
    if pairAt o l i then
      if (findClose o c l (i + 2)).2 then
        (i + 2, (findClose o c l (i + 2)).1) :: spans ((findClose o c l (i + 2)).1 + 2)
      else spans (i + 2)
    else spans (i + 1)
  else []
termination_by l.length - i
decreasing_by
  · have hle := le_findClose o c l (i + 2)
    omega
  · omega
  · omega

/-- The number of opening brackets right before a position. -/
def runBefore : Nat → Nat
  | 0 => 0
  | i + 1 => if l[i]? = some o then runBefore i + 1 else 0

/-- There is no bracket between two positions. -/
def Plain (start stop : Nat) : Prop :=
  ∀ m, start ≤ m → m < stop → l[m]? ≠ some o ∧ l[m]? ≠ some c

variable {o c l}

theorem pairAt_iff {x : α} {i : Nat} :
    pairAt x l i = true ↔ l[i]? = some x ∧ l[i + 1]? = some x := by
  simp [pairAt]

theorem pairAt.lt {x : α} {i : Nat} (h : pairAt x l i = true) : i + 1 < l.length :=
  (List.getElem?_eq_some_iff.1 (pairAt_iff.1 h).2).1

/-- The run is what is taken from the position backwards. -/
theorem runBefore_eq {i : Nat} (hi : i ≤ l.length) :
    runBefore o l i = ((l.take i).reverse.takeWhile (· = o)).length := by
  induction i with
  | zero => rfl
  | succ i ih =>
      have hlt : i < l.length := hi
      have htake : (l.take (i + 1)).reverse = l[i] :: (l.take i).reverse := by
        rw [List.take_add_one, List.getElem?_eq_getElem hlt]
        simp only [Option.toList_some, List.reverse_append, List.reverse_singleton,
          List.singleton_append]
      rw [htake, runBefore, List.getElem?_eq_getElem hlt, ih (Nat.le_of_lt hlt),
        List.takeWhile_cons]
      by_cases heq : l[i] = o
      · simp only [heq, if_true, decide_true, List.length_cons]
      · simp [heq]

/-! ## The end of a piece -/

/-- What a closed piece has seen. -/
theorem findClose_true {j k : Nat} (h : findClose o c l j = (k, true)) :
    pairAt c l k = true ∧ ∀ m, j ≤ m → m < k → pairAt o l m = false ∧ pairAt c l m = false := by
  induction j using findClose.induct o c l with
  | case1 j hlt hopen =>
      rw [findClose, if_pos hlt, if_pos hopen] at h
      cases h
  | case2 j hlt hopen hclose =>
      rw [findClose, if_pos hlt, if_neg hopen, if_pos hclose] at h
      cases h
      exact ⟨hclose, fun m hm hk => absurd hk (Nat.not_lt.2 hm)⟩
  | case3 j hlt hopen hclose ih =>
      rw [findClose, if_pos hlt, if_neg hopen, if_neg hclose] at h
      obtain ⟨hk, hbetween⟩ := ih h
      refine ⟨hk, fun m hm hmk => ?_⟩
      rcases Nat.eq_or_lt_of_le hm with rfl | hm
      · exact ⟨by simpa using hopen, by simpa using hclose⟩
      · exact hbetween m hm hmk
  | case4 j hend =>
      rw [findClose, if_neg hend] at h
      cases h

/-- A piece without brackets is closed at its end. -/
theorem findClose_of_plain (hoc : o ≠ c) {j k : Nat} (hjk : j ≤ k) (hplain : Plain o c l j k)
    (hclose : pairAt c l k = true) : findClose o c l j = (k, true) := by
  induction j using findClose.induct o c l with
  | case1 j hlt hopen =>
      rcases Nat.eq_or_lt_of_le hjk with rfl | hjk
      · -- both brackets in one place
        have hsame := (pairAt_iff.1 hopen).1.symm.trans (pairAt_iff.1 hclose).1
        exact absurd (Option.some.inj hsame) hoc
      · exact absurd (pairAt_iff.1 hopen).1 (hplain j (Nat.le_refl j) hjk).1
  | case2 j hlt hopen hhere =>
      rw [findClose, if_pos hlt, if_neg hopen, if_pos hhere]
      rcases Nat.eq_or_lt_of_le hjk with rfl | hjk
      · rfl
      · exact absurd (pairAt_iff.1 hhere).1 (hplain j (Nat.le_refl j) hjk).2
  | case3 j hlt hopen hhere ih =>
      rw [findClose, if_pos hlt, if_neg hopen, if_neg hhere]
      rcases Nat.eq_or_lt_of_le hjk with rfl | hjk
      · exact absurd hclose hhere
      · exact ih hjk fun m hm hmk => hplain m (Nat.le_of_succ_le hm) hmk
  | case4 j hend =>
      have hbound := pairAt.lt hclose
      omega

/-! ## The pieces -/

/-- Where the scanner stands, it has not passed an odd number of brackets of a run. -/
def Aligned (o : α) (l : List α) (i : Nat) : Prop := l[i]? = some o → Even (runBefore o l i)

theorem runBefore_add_two {i : Nat} (h : pairAt o l i = true) :
    runBefore o l (i + 2) = runBefore o l i + 2 := by
  obtain ⟨hfirst, hsecond⟩ := pairAt_iff.1 h
  simp [runBefore, hfirst, hsecond]

theorem Aligned.add_two {i : Nat} (h : Aligned o l i) (hopen : pairAt o l i = true) :
    Aligned o l (i + 2) := by
  intro _
  rw [runBefore_add_two hopen]
  exact (h (pairAt_iff.1 hopen).1).add ⟨1, rfl⟩

theorem Aligned.succ {i : Nat} (hopen : pairAt o l i = false) : Aligned o l (i + 1) := by
  intro hnext
  have hnot : l[i]? ≠ some o := by
    intro hthis
    rw [pairAt_iff.2 ⟨hthis, hnext⟩] at hopen
    cases hopen
  simp [runBefore, hnot]

theorem aligned_behind {i : Nat} (hoc : o ≠ c) (hclose : pairAt c l i = true) :
    Aligned o l (i + 2) := by
  intro _
  have hnot : l[i + 1]? ≠ some o := by
    rw [(pairAt_iff.1 hclose).2]
    exact fun h => hoc (Option.some.inj h).symm
  simp [runBefore, hnot]

/-- Every piece stands between doubled brackets, behind the position of the scanner. -/
theorem of_mem_spans {i : Nat} {e : Nat × Nat} (h : e ∈ spans o c l i) :
    ∃ s, e.1 = s + 2 ∧ i ≤ s ∧ e.1 ≤ e.2 ∧ pairAt o l s = true ∧ pairAt c l e.2 = true := by
  induction i using spans.induct o c l with
  | case1 i hlt hopen hclosed ih =>
      rw [spans, if_pos hlt, if_pos hopen, if_pos hclosed] at h
      have hle := le_findClose o c l (i + 2)
      rcases List.mem_cons.1 h with rfl | h
      · exact ⟨i, rfl, Nat.le_refl i, hle, hopen, (findClose_true (Prod.ext rfl hclosed)).1⟩
      · obtain ⟨s, hs, his, hrest⟩ := ih h
        exact ⟨s, hs, by omega, hrest⟩
  | case2 i hlt hopen hclosed ih =>
      rw [spans, if_pos hlt, if_pos hopen, if_neg hclosed] at h
      obtain ⟨s, hs, his, hrest⟩ := ih h
      exact ⟨s, hs, by omega, hrest⟩
  | case3 i hlt hopen ih =>
      rw [spans, if_pos hlt, if_neg hopen] at h
      obtain ⟨s, hs, his, hrest⟩ := ih h
      exact ⟨s, hs, by omega, hrest⟩
  | case4 i hend =>
      rw [spans, if_neg hend] at h
      cases h

/-- The pieces come in the order of their starts. -/
theorem pairwise_spans (i : Nat) : (spans o c l i).Pairwise fun e f => e.1 < f.1 := by
  induction i using spans.induct o c l with
  | case1 i hlt hopen hclosed ih =>
      rw [spans, if_pos hlt, if_pos hopen, if_pos hclosed]
      refine List.pairwise_cons.2 ⟨fun f hf => ?_, ih⟩
      have hle := le_findClose o c l (i + 2)
      obtain ⟨s, hs, his, -⟩ := of_mem_spans hf
      dsimp only
      omega
  | case2 i hlt hopen hclosed ih =>
      rw [spans, if_pos hlt, if_pos hopen, if_neg hclosed]
      exact ih
  | case3 i hlt hopen ih =>
      rw [spans, if_pos hlt, if_neg hopen]
      exact ih
  | case4 i hend =>
      rw [spans, if_neg hend]
      exact List.Pairwise.nil

/-- A piece behind an aligned doubled bracket starts right there or two places further on. -/
theorem lt_of_even {i s : Nat} (h : Aligned o l i) (hopen : pairAt o l i = true)
    (hs : pairAt o l s = true) (heven : Even (runBefore o l s)) (his : i ≤ s) (hne : s ≠ i) :
    i + 2 ≤ s := by
  by_contra hnot
  obtain rfl : s = i + 1 := by omega
  have hodd : runBefore o l (i + 1) = runBefore o l i + 1 := by
    simp [runBefore, (pairAt_iff.1 hopen).1]
  rw [hodd] at heven
  exact (Nat.even_add_one.1 heven) (h (pairAt_iff.1 hopen).1)

/-- A piece without brackets is found exactly when it is enclosed in doubled brackets and the run of
opening brackets before it is even. -/
theorem mem_spans_iff (hoc : o ≠ c) {i s j : Nat} (hi : Aligned o l i) (hsj : s + 2 ≤ j)
    (hplain : Plain o c l (s + 2) j) :
    (s + 2, j) ∈ spans o c l i ↔
      i ≤ s ∧ pairAt o l s = true ∧ pairAt c l j = true ∧ Even (runBefore o l s) := by
  induction i using spans.induct o c l with
  | case1 i hlt hopen hclosed ih =>
      rw [spans, if_pos hlt, if_pos hopen, if_pos hclosed, List.mem_cons]
      have hfound : findClose o c l (i + 2) = ((findClose o c l (i + 2)).1, true) :=
        Prod.ext rfl hclosed
      have hle := le_findClose o c l (i + 2)
      generalize (findClose o c l (i + 2)).1 = k at hfound hle ih ⊢
      obtain ⟨hk, hbetween⟩ := findClose_true hfound
      have hrest := ih (aligned_behind hoc hk)
      constructor
      · rintro (heq | hmem)
        · obtain ⟨hs, rfl⟩ := Prod.mk.inj heq
          obtain rfl : s = i := by omega
          exact ⟨Nat.le_refl s, hopen, hk, hi (pairAt_iff.1 hopen).1⟩
        · obtain ⟨his, hothers⟩ := hrest.1 hmem
          exact ⟨by omega, hothers⟩
      · rintro ⟨his, hs, hj, heven⟩
        by_cases heq : s = i
        · subst heq
          rw [findClose_of_plain hoc hsj hplain hj] at hfound
          exact Or.inl (by rw [(Prod.mk.inj hfound).1])
        · -- a doubled opening bracket behind the piece, and so behind its end
          have hfar := lt_of_even hi hopen hs heven his heq
          refine Or.inr (hrest.2 ⟨?_, hs, hj, heven⟩)
          by_contra hnear
          have hsk : ¬ s < k := by
            intro hsk
            rw [(hbetween s hfar hsk).1] at hs
            cases hs
          have hdiff : s = k ∨ s = k + 1 := by omega
          rcases hdiff with rfl | rfl
          · exact hoc (Option.some.inj ((pairAt_iff.1 hs).1.symm.trans (pairAt_iff.1 hk).1))
          · exact hoc (Option.some.inj ((pairAt_iff.1 hs).1.symm.trans (pairAt_iff.1 hk).2))
  | case2 i hlt hopen hclosed ih =>
      rw [spans, if_pos hlt, if_pos hopen, if_neg hclosed, ih (hi.add_two hopen)]
      constructor
      · rintro ⟨his, hothers⟩
        exact ⟨by omega, hothers⟩
      · rintro ⟨his, hs, hj, heven⟩
        refine ⟨?_, hs, hj, heven⟩
        by_cases heq : s = i
        · subst heq
          rw [findClose_of_plain hoc hsj hplain hj] at hclosed
          exact absurd rfl hclosed
        · exact lt_of_even hi hopen hs heven his heq
  | case3 i hlt hopen ih =>
      have hopen' : pairAt o l i = false := by simpa using hopen
      rw [spans, if_pos hlt, if_neg hopen, ih (Aligned.succ hopen')]
      constructor
      · rintro ⟨his, hothers⟩
        exact ⟨by omega, hothers⟩
      · rintro ⟨his, hs, hothers⟩
        refine ⟨?_, hs, hothers⟩
        by_contra hnot
        obtain rfl : s = i := by omega
        exact hopen hs
  | case4 i hend =>
      rw [spans, if_neg hend]
      constructor
      · intro hmem
        cases hmem
      · rintro ⟨his, -, hj, -⟩
        have hbound := pairAt.lt hj
        omega

theorem aligned_zero : Aligned o l 0 := fun _ => by simp [runBefore]

/-! ## The first doubled mark -/

/-- What stands before the first doubled `x` and what stands behind it. -/
def splitPair (x : α) : List α → Option (List α × List α)
  | [] => none
  | [_] => none
  | a :: b :: rest =>
      if a = x ∧ b = x then some ([], rest)
      else (splitPair x (b :: rest)).map fun e => (a :: e.1, e.2)

variable {x : α}

theorem pair_prefix_iff {a b : α} {rest : List α} :
    [x, x] <+: a :: b :: rest ↔ a = x ∧ b = x := by
  simp [List.cons_prefix_cons, eq_comm]

theorem splitPair_eq_none_iff : splitPair x l = none ↔ ¬ [x, x] <:+: l := by
  induction l using splitPair.induct x with
  | case1 => simp [splitPair]
  | case2 a =>
      have hnot : ¬ [x, x] <:+: [a] := fun h => absurd h.length_le (by simp)
      simp [splitPair, hnot]
  | case3 a b rest hpair =>
      rw [splitPair, if_pos hpair, List.infix_cons_iff, pair_prefix_iff]
      simp [hpair]
  | case4 a b rest hpair ih =>
      rw [splitPair, if_neg hpair, List.infix_cons_iff, pair_prefix_iff, Option.map_eq_none_iff, ih]
      simp [hpair]

theorem splitPair_eq_some_iff {p q : List α} :
    splitPair x l = some (p, q) ↔ l = p ++ x :: x :: q ∧ ¬ [x, x] <:+: p ++ [x] := by
  induction l using splitPair.induct x generalizing p with
  | case1 => simp [splitPair]
  | case2 a =>
      rw [splitPair]
      constructor
      · intro h
        cases h
      · rintro ⟨h, -⟩
        have hlen := congrArg List.length h
        simp at hlen
        omega
  | case3 a b rest hpair =>
      obtain ⟨rfl, rfl⟩ := hpair
      rw [splitPair, if_pos ⟨rfl, rfl⟩]
      constructor
      · intro h
        obtain ⟨rfl, rfl⟩ := Prod.mk.inj (Option.some.inj h)
        exact ⟨rfl, fun hin => absurd hin.length_le (by simp)⟩
      · rintro ⟨h, hfirst⟩
        cases p with
        | nil => simpa using h
        | cons y p =>
            -- the doubled mark would start inside of `p`
            exfalso
            apply hfirst
            have hhead : b :: b :: rest = y :: (p ++ b :: b :: q) := h
            obtain ⟨rfl, htail⟩ := List.cons.inj hhead
            cases p with
            | nil => exact List.infix_refl _
            | cons z p =>
                obtain ⟨rfl, -⟩ := List.cons.inj htail
                exact (List.prefix_append [b, b] (p ++ [b])).isInfix
  | case4 a b rest hpair ih =>
      rw [splitPair, if_neg hpair]
      constructor
      · intro h
        obtain ⟨e, he, heq⟩ := Option.map_eq_some_iff.1 h
        obtain ⟨rfl, rfl⟩ := Prod.mk.inj heq
        obtain ⟨hl, hfirst⟩ := ih.1 he
        refine ⟨congrArg (a :: ·) hl, ?_⟩
        rw [List.cons_append, List.infix_cons_iff, not_or]
        refine ⟨?_, hfirst⟩
        intro hpre
        -- the second character is the same in the whole list
        have hwhole : [x, x] <+: a :: b :: rest := by
          refine hpre.trans ?_
          rw [hl]
          exact ⟨x :: e.2, by simp⟩
        exact hpair (pair_prefix_iff.1 hwhole)
      · rintro ⟨h, hfirst⟩
        cases p with
        | nil =>
            obtain ⟨rfl, htail⟩ := List.cons.inj h
            exact absurd ⟨rfl, (List.cons.inj htail).1⟩ hpair
        | cons y p =>
            obtain ⟨rfl, htail⟩ := List.cons.inj h
            have hrest : ¬ [x, x] <:+: p ++ [x] :=
              fun hin => hfirst (List.infix_cons hin)
            rw [ih.2 ⟨htail, hrest⟩]
            rfl

theorem splitPair_append {p : List α} (h : ¬ [x, x] <:+: p ++ [x]) (q : List α) :
    splitPair x (p ++ x :: x :: q) = some (p, q) :=
  splitPair_eq_some_iff.2 ⟨rfl, h⟩

theorem length_of_splitPair {p q : List α} (h : splitPair x l = some (p, q)) :
    q.length < l.length := by
  rw [(splitPair_eq_some_iff.1 h).1]
  simp
  omega

end Lib
end Maju
