import Mathlib.Data.List.Lattice
import Mathlib.Data.List.MinMax
import Mathlib.Algebra.BigOperators.Group.List.Basic
import Mathlib.Data.Finmap

/-!
# HashMap — finite maps whose iteration order carries no meaning

A hash map is an association list with distinct keys (`AList`).  Lookups, inserts and erasures
are the ones of `AList`; this file adds what the programs verified here use on top of them:

* `HashMap.retain` — keep the entries that satisfy a predicate;
* `HashMap.total` — an additive weight summed over all entries.  With weights in `ℕ` it counts,
  with weights in `Multiset α` it collects, and both obey the same two equations;
* `IterOrder` — the order in which one iteration visits the entries.  An operation that iterates
  takes one as an argument, so a theorem about the operation holds for every order.
-/

namespace Maju
namespace Lib

universe u v w

/-- A finite map from `K` to `V`. -/
abbrev HashMap (K : Type u) (V : Type v) : Type (max u v) :=
  AList (fun _ : K => V)

/-- The order in which one iteration visits a list of entries: any rearrangement. -/
structure IterOrder (α : Type u) where
  run : List α → List α
  perm : ∀ l : List α, (run l).Perm l

namespace IterOrder

variable {α : Type u}

/-- Visit the entries in the order in which they are stored. -/
def stored (α : Type u) : IterOrder α where
  run := id
  perm := fun l => List.Perm.refl l

@[simp] theorem mem_run (ord : IterOrder α) {a : α} {l : List α} : a ∈ ord.run l ↔ a ∈ l :=
  (ord.perm l).mem_iff

end IterOrder

namespace HashMap

variable {K : Type u} {V : Type v}

/-! ## Keeping the entries that satisfy a predicate -/

/-- Keep exactly the entries that satisfy `p`. -/
def retain (p : K → V → Bool) (m : HashMap K V) : HashMap K V :=
  ⟨m.entries.filter fun e => p e.1 e.2,
    m.nodupKeys.sublist List.filter_sublist⟩

/-! ## Changing the values in place -/

/-- Replace every value, under its key. -/
def mapValues (f : K → V → V) (m : HashMap K V) : HashMap K V :=
  ⟨m.entries.map fun e => ⟨e.1, f e.1 e.2⟩, by
    have hkeys : (m.entries.map fun e : Sigma fun _ : K => V =>
        (⟨e.1, f e.1 e.2⟩ : Sigma fun _ : K => V)).keys = m.entries.keys := by
      simp [List.keys, Function.comp_def]
    rw [List.NodupKeys, hkeys]
    exact m.nodupKeys⟩

/-! ## Weights summed over the entries -/

section Total

variable {M : Type w} [AddCommMonoid M]

/-- The sum of `f k v` over all entries `(k, v)`. -/
def total (f : K → V → M) (m : HashMap K V) : M :=
  (m.entries.map fun e => f e.1 e.2).sum

theorem total_retain (f : K → V → M) (p : K → V → Bool) (m : HashMap K V) :
    total f (retain p m) = total (fun k v => if p k v then f k v else 0) m := by
  simp only [total, retain]
  induction m.entries with
  | nil => simp
  | cons e l ih =>
      by_cases hp : p e.1 e.2 = true
      · simp [hp, ih]
      · simp [hp, ih]

end Total

/-! ## Lookups after an update -/

variable [DecidableEq K]

theorem lookup_insert_eq (k k' : K) (v : V) (m : HashMap K V) :
    (m.insert k v).lookup k' = if k' = k then some v else m.lookup k' := by
  by_cases h : k' = k
  · subst h
    simp
  · simp [h, AList.lookup_insert_ne h]

theorem lookup_erase_eq (k k' : K) (m : HashMap K V) :
    (m.erase k).lookup k' = if k' = k then none else m.lookup k' := by
  by_cases h : k' = k
  · subst h
    simp
  · simp [h, AList.lookup_erase_ne h]

theorem mem_entries_iff {k : K} {v : V} {m : HashMap K V} :
    (⟨k, v⟩ : Sigma fun _ : K => V) ∈ m.entries ↔ m.lookup k = some v :=
  AList.mem_lookup_iff.symm

theorem lookup_of_mem_entries {m : HashMap K V} {e : Sigma fun _ : K => V}
    (h : e ∈ m.entries) : m.lookup e.1 = some e.2 :=
  mem_entries_iff.1 h

theorem lookup_retain (p : K → V → Bool) (m : HashMap K V) (k : K) :
    (retain p m).lookup k = (m.lookup k).filter (p k) := by
  ext v
  have hmem : (retain p m).lookup k = some v ↔ (⟨k, v⟩ : Sigma fun _ : K => V) ∈
      m.entries.filter fun e => p e.1 e.2 :=
    mem_entries_iff.symm
  rw [hmem, List.mem_filter, mem_entries_iff, Option.filter_eq_some_iff]

theorem lookup_mapValues (f : K → V → V) (m : HashMap K V) (k : K) :
    (mapValues f m).lookup k = (m.lookup k).map (f k) := by
  ext v
  rw [← mem_entries_iff, Option.map_eq_some_iff]
  simp only [mapValues, List.mem_map]
  constructor
  · rintro ⟨e, he, heq⟩
    obtain ⟨rfl, hv⟩ := Sigma.mk.inj_iff.1 heq
    exact ⟨e.2, lookup_of_mem_entries he, eq_of_heq hv⟩
  · rintro ⟨old, hold, rfl⟩
    exact ⟨⟨k, old⟩, mem_entries_iff.2 hold, rfl⟩

theorem eq_empty_iff {m : HashMap K V} : m = ∅ ↔ ∀ k : K, m.lookup k = none := by
  constructor
  · rintro rfl k
    exact AList.lookup_empty k
  · intro h
    apply AList.ext
    refine List.eq_nil_iff_forall_not_mem.2 ?_
    intro e he
    have hsome := lookup_of_mem_entries he
    rw [h e.1] at hsome
    cases hsome

/-! ## Totals after an update -/

variable {M : Type w} [AddCommMonoid M]

/-- The entries split into the one under `k`, if any, and the others. -/
theorem total_eq_lookup_add_erase (f : K → V → M) (k : K) (m : HashMap K V) :
    total f m = ((m.lookup k).elim 0 (f k)) + total f (m.erase k) := by
  cases hk : m.lookup k with
  | none =>
      have hnot : k ∉ m.entries.keys := by
        intro hmem
        have : (m.lookup k).isSome := AList.lookup_isSome.2 hmem
        simp [hk] at this
      have herase : (m.erase k).entries = m.entries := List.kerase_of_notMem_keys hnot
      simp [total, herase]
  | some v =>
      have hmem : (⟨k, v⟩ : Sigma fun _ : K => V) ∈ m.entries := mem_entries_iff.2 hk
      have hkeys : k ∈ m.entries.keys := List.mem_keys_of_mem hmem
      obtain ⟨b, l₁, l₂, _hnot, hsplit, herase⟩ := List.exists_of_kerase hkeys
      have hb : b = v := by
        have hin : (⟨k, b⟩ : Sigma fun _ : K => V) ∈ m.entries := by
          rw [hsplit]
          simp
        have := mem_entries_iff.1 hin
        rw [hk] at this
        exact (Option.some.inj this).symm
      subst hb
      have herase' : (m.erase k).entries = l₁ ++ l₂ := herase
      simp only [total, herase', Option.elim]
      rw [hsplit]
      simp only [List.map_append, List.map_cons, List.sum_append, List.sum_cons]
      rw [add_left_comm]

theorem total_insert (f : K → V → M) (k : K) (v : V) (m : HashMap K V) :
    total f (m.insert k v) = f k v + total f (m.erase k) := by
  simp [total, AList.entries_insert, AList.erase]

/-! ## Sizes after an update -/

theorem length_erase_le (m : HashMap K V) (k : K) :
    (m.erase k).entries.length ≤ m.entries.length :=
  (List.kerase_sublist k m.entries).length_le

/-- An insertion keeps within a size that has room for the key. -/
theorem length_insert_le {m : HashMap K V} (k : K) (v : V) {n : Nat}
    (hle : m.entries.length ≤ n) (hroom : k ∈ m ∨ m.entries.length < n) :
    (m.insert k v).entries.length ≤ n := by
  have hlen : (m.insert k v).entries.length = (m.erase k).entries.length + 1 := by
    simp [AList.entries_insert, AList.erase]
  have hsize : m.entries.length = (m.lookup k).elim 0 (fun _ => 1) +
      (m.erase k).entries.length := by
    have := total_eq_lookup_add_erase (fun _ _ => (1 : Nat)) k m
    simpa [total] using this
  rw [hlen]
  rcases hroom with hmem | hlt
  · obtain ⟨v', hv'⟩ := Option.isSome_iff_exists.1 (AList.lookup_isSome.2 hmem)
    rw [hv', Option.elim_some] at hsize
    omega
  · omega

omit [DecidableEq K] in
/-- Smaller weights have a smaller sum. -/
theorem total_le_total {f g : K → V → Nat} (h : ∀ k v, f k v ≤ g k v) (m : HashMap K V) :
    total f m ≤ total g m := by
  unfold total
  induction m.entries with
  | nil => exact Nat.le_refl 0
  | cons e l ih =>
      simp only [List.map_cons, List.sum_cons]
      exact Nat.add_le_add (h e.1 e.2) ih

end HashMap

end Lib
end Maju
