import Mathlib.Data.List.Basic
import Mathlib.Data.List.Nodup
import Mathlib.Tactic.Tauto

/-!
# HashChain — numbered entries linked by digests

A chain numbers its entries without gaps, and each entry names the digest of its predecessor.
`ChainFrom` is the invariant of the writer.  `Linked` is what a reader can check on a segment: only
adjacent pairs are compared, and nothing anchors the first entry.

* `ChainFrom.append` — appending the next entry keeps the invariant;
* `ChainFrom.linked_filter` — every segment cut out by numbers passes the check of the reader;
* `ChainFrom.mem_of_linked` — a selection of entries that passes has no hole, as long as different
  entries have different digests.

`Succession` is a chain without numbers, whose first entry has no predecessor.  The missing
predecessor anchors it: as long as different entries have different digests, no digest recurs and
no two entries name the same predecessor.
-/

namespace Maju
namespace Lib
namespace HashChain

universe u v

variable {α : Type u} {D : Type v} (seq : α → Int) (prev : α → Option D) (digest : α → D)

/-- The entries after number `n`, whose first names the digest `p`. -/
def ChainFrom : Int → Option D → List α → Prop
  | _, _, [] => True
  | n, p, a :: as => seq a = n + 1 ∧ prev a = p ∧ ChainFrom (n + 1) (some (digest a)) as

/-- Each entry names the digest of the one before it; the first is compared with what is
expected, if anything. -/
def Linked : Option D → List α → Prop
  | _, [] => True
  | expected, a :: as => (expected = none ∨ prev a = expected) ∧ Linked (some (digest a)) as

/-- The digest that the next entry has to name. -/
def lastDigest (p : Option D) (as : List α) : Option D :=
  match as.getLast? with
  | none => p
  | some a => some (digest a)

variable {seq prev digest}

theorem lastDigest_cons (p : Option D) (a : α) (as : List α) :
    lastDigest digest p (a :: as) = lastDigest digest (some (digest a)) as := by
  cases as with
  | nil => rfl
  | cons b bs =>
      cases hlast : (b :: bs).getLast? with
      | none => simp at hlast
      | some c =>
          have hcons : (a :: b :: bs).getLast? = some c := by
            rw [List.getLast?_cons_cons, hlast]
          simp [lastDigest, hlast, hcons]

/-- A chain grows by an entry with the next number that names the last digest. -/
theorem chainFrom_append {n : Int} {p : Option D} {as : List α} {a : α} :
    ChainFrom seq prev digest n p (as ++ [a]) ↔
      ChainFrom seq prev digest n p as ∧ seq a = n + as.length + 1 ∧
        prev a = lastDigest digest p as := by
  induction as generalizing n p with
  | nil => simp [ChainFrom, lastDigest]
  | cons b bs ih =>
      rw [List.cons_append]
      simp only [ChainFrom, ih, lastDigest_cons, List.length_cons]
      have hnum : n + 1 + (bs.length : Int) + 1 = n + ((bs.length + 1 : Nat) : Int) + 1 := by
        push_cast
        omega
      rw [hnum]
      tauto

theorem ChainFrom.lt_seq {n : Int} {p : Option D} {as : List α}
    (h : ChainFrom seq prev digest n p as) {a : α} (ha : a ∈ as) : n < seq a := by
  induction as generalizing n p with
  | nil => cases ha
  | cons b bs ih =>
      rcases List.mem_cons.1 ha with rfl | hbs
      · have := h.1
        omega
      · have := ih h.2.2 hbs
        omega

theorem ChainFrom.seq_le {n : Int} {p : Option D} {as : List α}
    (h : ChainFrom seq prev digest n p as) {a : α} (ha : a ∈ as) : seq a ≤ n + as.length := by
  induction as generalizing n p with
  | nil => cases ha
  | cons b bs ih =>
      rcases List.mem_cons.1 ha with rfl | hbs
      · have := h.1
        simp only [List.length_cons]
        omega
      · have := ih h.2.2 hbs
        simp only [List.length_cons]
        omega

/-- The numbers increase along the chain. -/
theorem ChainFrom.pairwise {n : Int} {p : Option D} {as : List α}
    (h : ChainFrom seq prev digest n p as) : as.Pairwise fun a b => seq a < seq b := by
  induction as generalizing n p with
  | nil => exact List.Pairwise.nil
  | cons a as ih =>
      refine List.pairwise_cons.2 ⟨?_, ih h.2.2⟩
      intro b hb
      rw [h.1]
      exact h.2.2.lt_seq hb

/-- The numbers are `n + 1, n + 2, …` without gaps. -/
theorem ChainFrom.map_seq {n : Int} {p : Option D} {as : List α}
    (h : ChainFrom seq prev digest n p as) :
    as.map seq = (List.range as.length).map fun i : Nat => n + 1 + (i : Int) := by
  induction as generalizing n p with
  | nil => rfl
  | cons a as ih =>
      rw [List.map_cons, h.1, ih h.2.2, List.length_cons, List.range_succ_eq_map, List.map_cons,
        List.map_map]
      refine congrArg₂ List.cons (by simp) (List.map_congr_left ?_)
      intro i _
      simp only [Function.comp_apply]
      push_cast
      omega

/-- Every segment cut out by numbers passes the check of the reader. -/
theorem ChainFrom.linked_filter {n : Int} {p : Option D} {as : List α}
    (h : ChainFrom seq prev digest n p as) (lo hi : Int) {expected : Option D}
    (hexpected : expected = none ∨ (expected = p ∧ lo ≤ n)) :
    Linked prev digest expected (as.filter fun a => lo ≤ seq a ∧ seq a ≤ hi) := by
  induction as generalizing n p expected with
  | nil => trivial
  | cons a as ih =>
      rcases h with ⟨hseq, hprev, hrest⟩
      by_cases hin : lo ≤ seq a ∧ seq a ≤ hi
      · rw [List.filter_cons_of_pos (by simpa using hin)]
        refine ⟨?_, ih hrest (Or.inr ⟨rfl, by omega⟩)⟩
        rcases hexpected with hnone | ⟨hp, _⟩
        · exact Or.inl hnone
        · exact Or.inr (hprev.trans hp.symm)
      · rw [List.filter_cons_of_neg (by simpa using hin)]
        by_cases hbelow : seq a < lo
        · -- before the segment nothing is expected yet
          have hnone : expected = none := by
            rcases hexpected with hnone | ⟨_, hle⟩
            · exact hnone
            · omega
          exact ih hrest (Or.inl hnone)
        · -- past the segment nothing is left
          have hempty : (as.filter fun b => lo ≤ seq b ∧ seq b ≤ hi) = [] := by
            refine List.filter_eq_nil_iff.2 ?_
            intro b hb
            have hgt := hrest.lt_seq hb
            simp only [decide_eq_true_eq]
            omega
          rw [hempty]
          trivial

/-- Every entry but the first names the digest of the entry numbered before it. -/
theorem ChainFrom.exists_pred {n : Int} {p : Option D} {as : List α}
    (h : ChainFrom seq prev digest n p as) {a : α} (ha : a ∈ as) :
    (seq a = n + 1 ∧ prev a = p) ∨
      ∃ b ∈ as, seq a = seq b + 1 ∧ prev a = some (digest b) := by
  induction as generalizing n p with
  | nil => cases ha
  | cons c cs ih =>
      rcases List.mem_cons.1 ha with rfl | hcs
      · exact Or.inl ⟨h.1, h.2.1⟩
      · rcases ih h.2.2 hcs with ⟨hseq, hprev⟩ | ⟨b, hb, hseq, hprev⟩
        · exact Or.inr ⟨c, List.mem_cons_self, by rw [hseq, h.1], hprev⟩
        · exact Or.inr ⟨b, List.mem_cons_of_mem c hb, hseq, hprev⟩

/-- A selection of entries of a chain that passes the check of the reader has no hole. -/
theorem ChainFrom.mem_of_linked {n : Int} {p : Option D} {as picked : List α}
    (h : ChainFrom seq prev digest n p as)
    (hinj : ∀ a ∈ as, ∀ b ∈ as, digest a = digest b → seq a = seq b)
    (hsub : picked ⊆ as) (hsorted : picked.Pairwise fun a b => seq a < seq b)
    {expected : Option D} (hlinked : Linked prev digest expected picked)
    {a b : α} (ha : a ∈ picked) (hb : b ∈ picked) {m : Int} (ham : seq a ≤ m) (hmb : m ≤ seq b) :
    ∃ c ∈ picked, seq c = m := by
  induction picked generalizing expected a with
  | nil => cases ha
  | cons c cs ih =>
      rcases List.pairwise_cons.1 hsorted with ⟨hfirst, hrest⟩
      have hsub' : cs ⊆ as := fun x hx => hsub (List.mem_cons_of_mem c hx)
      have hca : seq c ≤ seq a := by
        rcases List.mem_cons.1 ha with rfl | hcs
        · exact Int.le_refl _
        · exact Int.le_of_lt (hfirst a hcs)
      by_cases hm : m = seq c
      · exact ⟨c, List.mem_cons_self, hm.symm⟩
      have hbcs : b ∈ cs := by
        rcases List.mem_cons.1 hb with rfl | hcs
        · omega
        · exact hcs
      cases cs with
      | nil => cases hbcs
      | cons d ds =>
          -- the next entry picked is the next entry of the chain
          have hnext : seq d = seq c + 1 := by
            have hlink : prev d = some (digest c) := by
              rcases hlinked.2.1 with hnone | hprev
              · cases hnone
              · exact hprev
            have hcd : seq c < seq d := hfirst d List.mem_cons_self
            have hcin : n < seq c := h.lt_seq (hsub List.mem_cons_self)
            rcases h.exists_pred (hsub' List.mem_cons_self) with ⟨hseq, _⟩ | ⟨e, he, hseq, hprev⟩
            · omega
            · have hdigest : digest e = digest c := by
                rw [hprev] at hlink
                exact Option.some.inj hlink
              have := hinj e he c (hsub List.mem_cons_self) hdigest
              omega
          have hd : seq d ≤ m := by omega
          rcases ih hsub' hrest hlinked.2 List.mem_cons_self hbcs hd with ⟨e, he, hem⟩
          exact ⟨e, List.mem_cons_of_mem c he, hem⟩

/-! ## Chains without numbers -/

variable (prev digest) in
/-- The first entry names `p`, each later one the digest of the entry before it. -/
def Succession : Option D → List α → Prop
  | _, [] => True
  | p, a :: as => prev a = p ∧ Succession (some (digest a)) as

/-- A succession grows by an entry that names the last digest. -/
theorem succession_append {p : Option D} {as : List α} {a : α} :
    Succession prev digest p (as ++ [a]) ↔
      Succession prev digest p as ∧ prev a = lastDigest digest p as := by
  induction as generalizing p with
  | nil => simp [Succession, lastDigest]
  | cons b bs ih =>
      rw [List.cons_append]
      simp only [Succession, ih, lastDigest_cons]
      tauto

/-- What the entry at a place names. -/
theorem Succession.prev_eq {p : Option D} {as : List α} (h : Succession prev digest p as) {i : Nat}
    {a : α} (ha : as[i]? = some a) :
    (i = 0 ∧ prev a = p) ∨
      ∃ j b, i = j + 1 ∧ as[j]? = some b ∧ prev a = some (digest b) := by
  induction as generalizing p i with
  | nil => simp at ha
  | cons c cs ih =>
      cases i with
      | zero =>
          rw [List.getElem?_cons_zero] at ha
          cases ha
          exact Or.inl ⟨rfl, h.1⟩
      | succ i =>
          rw [List.getElem?_cons_succ] at ha
          rcases ih h.2 ha with ⟨hi, hprev⟩ | ⟨j, b, hi, hb, hprev⟩
          · exact Or.inr ⟨0, c, by omega, rfl, hprev⟩
          · exact Or.inr ⟨j + 1, b, by omega, by simpa using hb, hprev⟩

/-- Two entries with the same predecessor are one, as long as different entries have different
digests: the predecessors are descended to the entry that has none. -/
theorem Succession.index_unique {as : List α} (h : Succession prev digest none as)
    (hinj : ∀ a ∈ as, ∀ b ∈ as, digest a = digest b → a = b) {i j : Nat} {a b : α}
    (ha : as[i]? = some a) (hb : as[j]? = some b) (hprev : prev a = prev b) : i = j := by
  induction i generalizing j a b with
  | zero =>
      rcases h.prev_eq hb with ⟨hj, _⟩ | ⟨j', c, _, _, hc⟩
      · exact hj.symm
      · rcases h.prev_eq ha with ⟨_, hnone⟩ | ⟨_, _, hzero, _⟩
        · rw [hprev, hc] at hnone
          cases hnone
        · cases hzero
  | succ i ih =>
      rcases h.prev_eq ha with ⟨hzero, _⟩ | ⟨i', c, hi, hc, hac⟩
      · cases hzero
      · rcases h.prev_eq hb with ⟨_, hnone⟩ | ⟨j', d, hj, hd, hbd⟩
        · rw [← hprev, hac] at hnone
          cases hnone
        · obtain rfl : i = i' := by omega
          have hdigest : digest c = digest d := by
            rw [hac, hbd] at hprev
            exact Option.some.inj hprev
          have hcd := hinj c (List.mem_of_getElem? hc) d (List.mem_of_getElem? hd) hdigest
          have hij := ih hc hd (congrArg prev hcd)
          omega

/-- No two entries name the same predecessor. -/
theorem Succession.nodup_prev {as : List α} (h : Succession prev digest none as)
    (hinj : ∀ a ∈ as, ∀ b ∈ as, digest a = digest b → a = b) : (as.map prev).Nodup := by
  refine List.nodup_iff_injective_getElem.2 ?_
  intro i j hij
  have hi : i.1 < as.length := by simpa using i.2
  have hj : j.1 < as.length := by simpa using j.2
  simp only [List.getElem_map] at hij
  exact Fin.ext (h.index_unique hinj (List.getElem?_eq_getElem hi) (List.getElem?_eq_getElem hj)
    hij)

/-- No digest recurs. -/
theorem Succession.nodup_digest {as : List α} (h : Succession prev digest none as)
    (hinj : ∀ a ∈ as, ∀ b ∈ as, digest a = digest b → a = b) : (as.map digest).Nodup := by
  have hnodup : as.Nodup := List.Nodup.of_map prev (h.nodup_prev hinj)
  exact hnodup.map_on hinj

end HashChain
end Lib
end Maju
