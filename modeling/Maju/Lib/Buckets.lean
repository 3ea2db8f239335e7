import Mathlib.Algebra.Order.Group.Multiset
import Maju.Lib.HashMap

/-!
# Buckets — maps from keys to lists

A key that is absent reads as the empty list (`bucket`), and a bucket is written either with
`AList.insert` or with `setBucket`, which removes the key of a list that became empty.  `sum`
adds up a weight over the elements of all buckets; both ways of writing a bucket move it by the
difference of the old and the new list.  With weights in `ℕ` this is the bookkeeping of counts,
with singletons in `Multiset` the bookkeeping of the elements themselves.
-/

namespace Maju
namespace Lib

universe u v w

abbrev Buckets (K : Type u) (V : Type v) : Type (max u v) :=
  HashMap K (List V)

namespace Buckets

variable {K : Type u} {V : Type v} [DecidableEq K]

/-- The list stored under a key, empty if there is none. -/
def bucket (m : Buckets K V) (k : K) : List V := (m.lookup k).getD []

/-- Store a list, removing the key when the list is empty. -/
def setBucket (m : Buckets K V) (k : K) (l : List V) : Buckets K V :=
  if l.isEmpty then m.erase k else m.insert k l

/-- No key is mapped to an empty list. -/
def NoEmptyBucket (m : Buckets K V) : Prop := ∀ k : K, m.lookup k ≠ some []

/-! ## Reading back -/

theorem bucket_of_lookup {m : Buckets K V} {k : K} {l : List V} (h : m.lookup k = some l) :
    m.bucket k = l := by
  simp [bucket, h]

theorem bucket_insert (m : Buckets K V) (k k' : K) (l : List V) :
    Buckets.bucket (m.insert k l) k' = if k' = k then l else m.bucket k' := by
  unfold bucket
  rw [HashMap.lookup_insert_eq]
  split <;> rfl

theorem bucket_erase (m : Buckets K V) (k k' : K) :
    Buckets.bucket (m.erase k) k' = if k' = k then [] else m.bucket k' := by
  unfold bucket
  rw [HashMap.lookup_erase_eq]
  split <;> rfl

theorem bucket_setBucket (m : Buckets K V) (k k' : K) (l : List V) :
    (m.setBucket k l).bucket k' = if k' = k then l else m.bucket k' := by
  unfold setBucket
  split
  · next hempty =>
      rw [bucket_erase, List.isEmpty_iff.1 hempty]
  · exact bucket_insert m k k' l

theorem mem_entries_of_mem_bucket {m : Buckets K V} {k : K} {v : V} (h : v ∈ m.bucket k) :
    ∃ l, (⟨k, l⟩ : Sigma fun _ : K => List V) ∈ m.entries ∧ v ∈ l := by
  unfold bucket at h
  cases hl : m.lookup k with
  | none => simp [hl] at h
  | some l => exact ⟨l, HashMap.mem_entries_iff.2 hl, by simpa [hl] using h⟩

/-! ## No empty buckets -/

theorem noEmptyBucket_empty : NoEmptyBucket (∅ : Buckets K V) := by
  intro k
  simp

theorem NoEmptyBucket.setBucket {m : Buckets K V} (h : m.NoEmptyBucket) (k : K) (l : List V) :
    (m.setBucket k l).NoEmptyBucket := by
  intro k'
  unfold Buckets.setBucket
  split
  · rw [HashMap.lookup_erase_eq]
    split
    · simp
    · exact h k'
  · next hne =>
      rw [HashMap.lookup_insert_eq]
      split
      · intro hl
        rw [Option.some.inj hl] at hne
        exact hne rfl
      · exact h k'

theorem NoEmptyBucket.insert {m : Buckets K V} (h : m.NoEmptyBucket) (k : K) {l : List V}
    (hl : l ≠ []) : NoEmptyBucket (m.insert k l) := by
  intro k'
  rw [HashMap.lookup_insert_eq]
  split
  · simpa using hl
  · exact h k'

theorem NoEmptyBucket.erase {m : Buckets K V} (h : m.NoEmptyBucket) (k : K) :
    NoEmptyBucket (m.erase k) := by
  intro k'
  rw [HashMap.lookup_erase_eq]
  split
  · simp
  · exact h k'

theorem NoEmptyBucket.retain {m : Buckets K V} (h : m.NoEmptyBucket)
    (p : K → List V → Bool) : NoEmptyBucket (HashMap.retain p m) := by
  intro k hk
  rw [HashMap.lookup_retain, Option.filter_eq_some_iff] at hk
  exact h k hk.1

/-- Without empty buckets, a key is present exactly when its bucket has an element. -/
theorem NoEmptyBucket.mem_iff {m : Buckets K V} (h : m.NoEmptyBucket) {k : K} :
    k ∈ m ↔ m.bucket k ≠ [] := by
  rw [← AList.lookup_isSome]
  unfold bucket
  cases hl : m.lookup k with
  | none => simp
  | some l =>
      have : l ≠ [] := fun hnil => h k (hnil ▸ hl)
      simpa using this

/-! ## Weights of all elements -/

section Sum

variable {M : Type w} [AddCommMonoid M]

/-- The sum of `f k v` over the elements `v` of all buckets `k`. -/
def sum (f : K → V → M) (m : Buckets K V) : M :=
  HashMap.total (fun k l => (l.map (f k)).sum) m

theorem sum_eq_bucket_add_erase (f : K → V → M) (m : Buckets K V) (k : K) :
    sum f m = ((m.bucket k).map (f k)).sum + sum f (m.erase k) := by
  unfold sum
  rw [HashMap.total_eq_lookup_add_erase _ k m]
  unfold bucket
  cases m.lookup k with
  | none => simp
  | some l => rfl

theorem sum_insert (f : K → V → M) (m : Buckets K V) (k : K) (l : List V) :
    sum f (m.insert k l) = (l.map (f k)).sum + sum f (m.erase k) :=
  HashMap.total_insert _ k l m

theorem sum_setBucket (f : K → V → M) (m : Buckets K V) (k : K) (l : List V) :
    sum f (m.setBucket k l) = (l.map (f k)).sum + sum f (m.erase k) := by
  unfold setBucket
  split
  · next hempty => simp [List.isEmpty_iff.1 hempty]
  · exact sum_insert f m k l

end Sum

def elements (m : Buckets K V) : Multiset V :=
  sum (fun _ v => {v}) m

theorem sum_map_singleton (l : List V) :
    (l.map fun v => ({v} : Multiset V)).sum = (l : Multiset V) := by
  induction l with
  | nil => rfl
  | cons v l ih =>
      rw [List.map_cons, List.sum_cons, ih]
      rfl

theorem elements_eq_bucket_add_erase (m : Buckets K V) (k : K) :
    m.elements = ↑(m.bucket k) + Buckets.elements (m.erase k) := by
  unfold elements
  rw [sum_eq_bucket_add_erase _ m k, sum_map_singleton]

theorem elements_insert (m : Buckets K V) (k : K) (l : List V) :
    Buckets.elements (m.insert k l) = ↑l + Buckets.elements (m.erase k) := by
  unfold elements
  rw [sum_insert, sum_map_singleton]

theorem elements_setBucket (m : Buckets K V) (k : K) (l : List V) :
    (m.setBucket k l).elements = ↑l + Buckets.elements (m.erase k) := by
  unfold elements
  rw [sum_setBucket, sum_map_singleton]

omit [DecidableEq K] in
theorem coe_flatMap_entries (m : Buckets K V) :
    ((m.entries.flatMap fun e => e.2 : List V) : Multiset V) = m.elements := by
  simp only [elements, sum, HashMap.total, sum_map_singleton]
  induction m.entries with
  | nil => rfl
  | cons e l ih =>
      rw [List.flatMap_cons, ← Multiset.coe_add, ih, List.map_cons, List.sum_cons]

omit [DecidableEq K] in
/-- A predicate on the keys splits the elements in two. -/
theorem elements_eq_retain_add_retain (p : K → Bool) (m : Buckets K V) :
    m.elements = Buckets.elements (HashMap.retain (fun k _ => p k) m) +
      Buckets.elements (HashMap.retain (fun k _ => !p k) m) := by
  unfold elements sum
  rw [HashMap.total_retain, HashMap.total_retain]
  unfold HashMap.total
  induction m.entries with
  | nil => rfl
  | cons e l ih =>
      simp only [List.map_cons, List.sum_cons]
      rw [ih]
      by_cases hp : p e.1 = true <;> simp [hp, add_assoc, add_left_comm]

/-- Erasing distinct keys takes out exactly their buckets. -/
theorem elements_foldl_erase {ks : List K} (hks : ks.Nodup) (m : Buckets K V) :
    Buckets.elements (ks.foldl (fun m k => m.erase k) m) + ↑(ks.flatMap m.bucket) =
      m.elements := by
  induction ks generalizing m with
  | nil => simp
  | cons k ks ih =>
      obtain ⟨hnot, hks⟩ := List.nodup_cons.1 hks
      have hrest : ks.flatMap (Buckets.bucket (m.erase k)) = ks.flatMap m.bucket := by
        refine List.flatMap_congr ?_
        intro k' hk'
        rw [bucket_erase, if_neg]
        rintro rfl
        exact hnot hk'
      have hih := ih hks (m.erase k)
      rw [hrest] at hih
      rw [List.foldl_cons, List.flatMap_cons, ← Multiset.coe_add, add_left_comm, hih,
        ← elements_eq_bucket_add_erase]

end Buckets

end Lib
end Maju
