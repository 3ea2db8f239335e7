import Maju.Lib.HashMap

/-!
# JsMap — maps that are iterated in the order of insertion

A JavaScript `Map`, and a record used as one, visits its entries in the order in which the keys were
first set.  `HashMap.set` writes a known key in place and appends a new one, so `entries` is the
order of iteration; `HashMap.setAll` sets a list of entries one after the other.
-/

namespace Maju
namespace Lib
namespace HashMap

universe u v

variable {K : Type u} {V : Type v} [DecidableEq K]

/-- Write a key of an entry list in place, or append it. -/
def setEntries (k : K) (v : V) : List (Sigma fun _ : K => V) → List (Sigma fun _ : K => V)
  | [] => [⟨k, v⟩]
  | e :: l => if e.1 = k then ⟨k, v⟩ :: l else e :: setEntries k v l

theorem mem_keys_setEntries {k x : K} {v : V} {l : List (Sigma fun _ : K => V)} :
    x ∈ (setEntries k v l).keys ↔ x = k ∨ x ∈ l.keys := by
  induction l with
  | nil => simp [setEntries]
  | cons e l ih =>
      simp only [setEntries]
      split
      next h => simp [h]
      next =>
        simp only [List.keys_cons, List.mem_cons, ih]
        exact or_left_comm

theorem nodupKeys_setEntries (k : K) (v : V) {l : List (Sigma fun _ : K => V)}
    (h : l.NodupKeys) : (setEntries k v l).NodupKeys := by
  induction l with
  | nil => simp [setEntries]
  | cons e l ih =>
      obtain ⟨hhead, htail⟩ := List.nodupKeys_cons.1 h
      simp only [setEntries]
      split
      next heq => exact List.nodupKeys_cons.2 ⟨heq ▸ hhead, htail⟩
      next hne =>
        refine List.nodupKeys_cons.2 ⟨?_, ih htail⟩
        rw [mem_keys_setEntries, not_or]
        exact ⟨hne, hhead⟩

/-- `Map.set`: a known key keeps its place. -/
def set (m : HashMap K V) (k : K) (v : V) : HashMap K V :=
  ⟨setEntries k v m.entries, nodupKeys_setEntries k v m.nodupKeys⟩

theorem lookup_set (m : HashMap K V) (k k' : K) (v : V) :
    (m.set k v).lookup k' = if k' = k then some v else m.lookup k' := by
  rcases m with ⟨l, hl⟩
  simp only [set, AList.lookup]
  induction l with
  | nil =>
      by_cases h : k' = k
      · subst h
        simp [setEntries]
      · simp [setEntries, h, List.dlookup_cons_ne]
  | cons e l ih =>
      have hrest := ih (List.nodupKeys_cons.1 hl).2
      rcases e with ⟨a, w⟩
      have hskip : ∀ l' : List (Sigma fun _ : K => V), k' ≠ a →
          List.dlookup k' (⟨a, w⟩ :: l') = List.dlookup k' l' := fun l' hne =>
        List.dlookup_cons_ne l' ⟨a, w⟩ hne
      simp only [setEntries]
      by_cases ha : a = k
      · subst ha
        by_cases hk : k' = a
        · subst hk
          simp
        · simp [hk, List.dlookup_cons_ne]
      · rw [if_neg ha]
        by_cases hk : k' = a
        · subst hk
          simp [ha]
        · rw [hskip _ hk, hskip _ hk, hrest]

@[simp] theorem lookup_set_self (m : HashMap K V) (k : K) (v : V) :
    (m.set k v).lookup k = some v := by
  simp [lookup_set]

/-- Set the entries of a list, in order. -/
def setAll (m : HashMap K V) (l : List (K × V)) : HashMap K V :=
  l.foldl (fun m e => m.set e.1 e.2) m

theorem lookup_setAll_of_not_mem {l : List (K × V)} {k : K} (h : k ∉ l.map Prod.fst)
    (m : HashMap K V) : (m.setAll l).lookup k = m.lookup k := by
  induction l generalizing m with
  | nil => rfl
  | cons e l ih =>
      simp only [List.map_cons, List.mem_cons, not_or] at h
      exact (ih h.2 (m.set e.1 e.2)).trans (by rw [lookup_set, if_neg h.1])

/-- Of distinct keys every one is found again. -/
theorem lookup_setAll_of_mem {l : List (K × V)} {k : K} {v : V} (h : (k, v) ∈ l)
    (hkeys : (l.map Prod.fst).Nodup) (m : HashMap K V) : (m.setAll l).lookup k = some v := by
  induction l generalizing m with
  | nil => cases h
  | cons e l ih =>
      obtain ⟨hhead, htail⟩ := List.nodup_cons.1 hkeys
      rcases List.mem_cons.1 h with rfl | hrest
      · exact (lookup_setAll_of_not_mem hhead _).trans (lookup_set_self m k v)
      · exact ih hrest htail _

/-- What is found was there before or has been set. -/
theorem mem_of_lookup_setAll {l : List (K × V)} {k : K} {v : V} {m : HashMap K V}
    (h : (m.setAll l).lookup k = some v) : m.lookup k = some v ∨ (k, v) ∈ l := by
  induction l generalizing m with
  | nil => exact Or.inl h
  | cons e l ih =>
      rcases ih h with hset | hmem
      · rw [lookup_set] at hset
        split at hset
        next heq =>
          cases hset
          exact Or.inr (heq ▸ List.mem_cons_self)
        next => exact Or.inl hset
      · exact Or.inr (List.mem_cons_of_mem e hmem)

def pairs (m : HashMap K V) : List (K × V) := m.entries.map fun e => (e.1, e.2)

theorem mem_pairs_iff {m : HashMap K V} {k : K} {v : V} :
    (k, v) ∈ m.pairs ↔ m.lookup k = some v := by
  rw [← mem_entries_iff]
  constructor
  · intro h
    obtain ⟨⟨a, w⟩, hmem, heq⟩ := List.mem_map.1 h
    cases heq
    exact hmem
  · exact fun h => List.mem_map.2 ⟨_, h, rfl⟩

omit [DecidableEq K] in
theorem map_fst_pairs (m : HashMap K V) : m.pairs.map Prod.fst = m.entries.keys := by
  simp [pairs, List.keys]

omit [DecidableEq K] in
/-- No key occurs twice. -/
theorem nodup_pairs (m : HashMap K V) : (m.pairs.map Prod.fst).Nodup := by
  rw [map_fst_pairs]
  exact m.nodupKeys

omit [DecidableEq K] in
/-- The pairs of a map are all of it. -/
theorem pairs_injective : Function.Injective (pairs : HashMap K V → List (K × V)) := by
  intro a b h
  refine AList.ext (List.map_injective_iff.2 ?_ h)
  rintro ⟨k, v⟩ ⟨k', v'⟩ heq
  cases heq
  rfl

omit [DecidableEq K] in
theorem pairs_retain (p : K → V → Bool) (m : HashMap K V) :
    (retain p m).pairs = m.pairs.filter fun e => p e.1 e.2 := by
  rw [pairs, pairs, List.filter_map]
  rfl

/-- A new key goes to the end. -/
theorem pairs_set_of_not_mem {m : HashMap K V} {k : K} (h : k ∉ m.pairs.map Prod.fst) (v : V) :
    (m.set k v).pairs = m.pairs ++ [(k, v)] := by
  rcases m with ⟨l, hl⟩
  rw [map_fst_pairs] at h
  simp only [set, pairs] at h ⊢
  clear hl
  induction l with
  | nil => rfl
  | cons e l ih =>
      simp only [List.keys_cons, List.mem_cons, not_or] at h
      rw [setEntries, if_neg (Ne.symm h.1), List.map_cons, ih h.2]
      rfl

/-- And so do new keys, in their order. -/
theorem pairs_setAll_of_new {m : HashMap K V} {l : List (K × V)}
    (hkeys : ((m.pairs ++ l).map Prod.fst).Nodup) : (m.setAll l).pairs = m.pairs ++ l := by
  induction l generalizing m with
  | nil => simp [setAll]
  | cons e l ih =>
      have hnew : e.1 ∉ m.pairs.map Prod.fst := by
        intro hmem
        rw [List.map_append, List.nodup_append] at hkeys
        exact hkeys.2.2 _ hmem _ (List.mem_map_of_mem List.mem_cons_self) rfl
      have hset := pairs_set_of_not_mem hnew e.2
      have hrest := ih (m := m.set e.1 e.2) (by simpa [hset] using hkeys)
      calc
        (m.setAll (e :: l)).pairs = ((m.set e.1 e.2).setAll l).pairs := rfl
        _ = (m.set e.1 e.2).pairs ++ l := hrest
        _ = m.pairs ++ e :: l := by rw [hset, List.append_assoc, List.singleton_append]

end HashMap
end Lib
end Maju
