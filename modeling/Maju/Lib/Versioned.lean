import Mathlib.Data.Set.Function
import Mathlib.Order.Lattice
import Mathlib.Order.MinMax

/-!
# Versioned — registers that keep the newest value

A register holds at most one value; `offer` replaces it by a value of a strictly greater version.
`rank` orders what a register can hold, with the empty register below every value, and an offer is
a join in that order.  Where a version names one value, what a register holds after a list of
offers is decided by the set of values offered, not by their order or number
(`foldl_offer_congr`).
-/

namespace Maju
namespace Lib
namespace Versioned

universe u

variable {R : Type u} (version : R → Nat)

/-- Keep the newer of the held value and the offered one; on equal versions the held one stays. -/
def offer (held : Option R) (r : R) : Option R :=
  match held with
  | none => some r
  | some h => if version r ≤ version h then some h else some r

/-- How new the held value is. -/
def rank : Option R → Nat
  | none => 0
  | some r => version r + 1

variable {version}

@[simp] theorem rank_none : rank version none = 0 := rfl

@[simp] theorem rank_some (r : R) : rank version (some r) = version r + 1 := rfl

theorem rank_offer (held : Option R) (r : R) :
    rank version (offer version held r) = max (rank version held) (version r + 1) := by
  cases held with
  | none => simp [offer]
  | some h =>
      simp only [offer]
      split_ifs with hle
      · simp [hle]
      · have hlt : version h ≤ version r := Nat.le_of_lt (Nat.lt_of_not_le hle)
        simp [hlt]

/-- An offer leaves what was held or the value offered. -/
theorem offer_eq (held : Option R) (r : R) :
    offer version held r = held ∨ offer version held r = some r := by
  cases held with
  | none => exact Or.inr rfl
  | some h =>
      simp only [offer]
      split_ifs
      · exact Or.inl rfl
      · exact Or.inr rfl

/-- The rank after a list of offers is the least bound of all that was there. -/
theorem rank_foldl_offer_le_iff (rs : List R) (held : Option R) (n : Nat) :
    rank version (rs.foldl (offer version) held) ≤ n ↔
      rank version held ≤ n ∧ ∀ r ∈ rs, version r + 1 ≤ n := by
  induction rs generalizing held with
  | nil => simp
  | cons r rs ih =>
      rw [List.foldl_cons, ih, rank_offer, Nat.max_le, List.forall_mem_cons, and_assoc]

theorem rank_le_rank_foldl_offer (rs : List R) (held : Option R) :
    rank version held ≤ rank version (rs.foldl (offer version) held) :=
  ((rank_foldl_offer_le_iff rs held _).1 le_rfl).1

theorem le_rank_foldl_offer {rs : List R} {r : R} (hr : r ∈ rs) (held : Option R) :
    version r + 1 ≤ rank version (rs.foldl (offer version) held) :=
  ((rank_foldl_offer_le_iff rs held _).1 le_rfl).2 r hr

/-- After a list of offers the register holds what it held or one of the values offered. -/
theorem foldl_offer_eq (rs : List R) (held : Option R) :
    rs.foldl (offer version) held = held ∨
      ∃ r ∈ rs, rs.foldl (offer version) held = some r := by
  induction rs generalizing held with
  | nil => exact Or.inl rfl
  | cons r rs ih =>
      rw [List.foldl_cons]
      rcases ih (offer version held r) with heq | ⟨r', hr', heq⟩
      · rcases offer_eq held r with hkept | htaken
        · exact Or.inl (heq.trans hkept)
        · exact Or.inr ⟨r, List.mem_cons_self, heq.trans htaken⟩
      · exact Or.inr ⟨r', List.mem_cons_of_mem r hr', heq⟩

/-- Where the version names the value, the rank decides what is held. -/
theorem eq_of_rank_eq {S : Set R} (hS : S.InjOn version) {a b : Option R}
    (ha : ∀ r, a = some r → r ∈ S) (hb : ∀ r, b = some r → r ∈ S)
    (h : rank version a = rank version b) : a = b := by
  cases a with
  | none =>
      cases b with
      | none => rfl
      | some r => simp at h
  | some r =>
      cases b with
      | none => simp at h
      | some r' =>
          have hversion : version r = version r' := by simpa using h
          rw [hS (ha r rfl) (hb r' rfl) hversion]

/-- The order of the offers and their number do not matter. -/
theorem foldl_offer_congr {S : Set R} (hS : S.InjOn version) {held : Option R}
    (hheld : ∀ r, held = some r → r ∈ S) {rs rs' : List R} (hrs : ∀ r ∈ rs, r ∈ S)
    (hmem : ∀ r, r ∈ rs ↔ r ∈ rs') :
    rs.foldl (offer version) held = rs'.foldl (offer version) held := by
  have hwithin : ∀ l : List R, (∀ r ∈ l, r ∈ S) → ∀ r, l.foldl (offer version) held = some r →
      r ∈ S := by
    intro l hl r hr
    rcases foldl_offer_eq l held with heq | ⟨r', hr', heq⟩
    · exact hheld r (heq.symm.trans hr)
    · have hsame : r' = r := Option.some.inj (heq.symm.trans hr)
      exact hsame ▸ hl r' hr'
  apply eq_of_rank_eq hS (hwithin rs hrs) (hwithin rs' fun r hr => hrs r ((hmem r).2 hr))
  -- both ranks have the same bounds
  apply eq_of_forall_ge_iff
  intro n
  simp only [rank_foldl_offer_le_iff, hmem]

end Versioned
end Lib
end Maju
