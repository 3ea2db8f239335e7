import Maju.Lib.JsMap
import Mathlib.Order.BoundedOrder.Lattice
import Mathlib.Order.Lattice

/-!
# MaxRegister — maps that only grow

A map from keys to values of a linear order with a least element, where a value is only ever
replaced by a larger one.  What such a map holds is, at every key, the join of the entries that were
written to it, whatever their order:

* `latest entries k` — the join of the entries at `k`;
* `Holds m f` — the map has the values of `f`, and no entry where `f` is least;
* `Holds.set`, `Holds.keep` — a larger entry is written, another is ignored;
* `joinAll m entries` — entries are written to any map, larger ones only.
-/

namespace Maju
namespace Lib
namespace MaxRegister

universe u v

variable {K : Type u} {V : Type v} [DecidableEq K] [LinearOrder V] [OrderBot V]

/-- The largest value of a key among entries. -/
def latest (entries : List (K × V)) (k : K) : V :=
  (entries.filter fun e => e.1 = k).foldr (fun e v => max e.2 v) ⊥

@[simp] theorem latest_nil (k : K) : latest ([] : List (K × V)) k = ⊥ := rfl

theorem latest_cons (e : K × V) (entries : List (K × V)) (k : K) :
    latest (e :: entries) k = if e.1 = k then max e.2 (latest entries k) else latest entries k := by
  simp only [latest, List.filter_cons]
  by_cases h : e.1 = k
  · simp [h]
  · simp [h]

theorem latest_append (a b : List (K × V)) (k : K) :
    latest (a ++ b) k = max (latest a k) (latest b k) := by
  induction a with
  | nil => simp
  | cons e a ih =>
      simp only [List.cons_append, latest_cons, ih]
      split
      next => rw [max_assoc]
      next => rfl

theorem latest_le_iff {entries : List (K × V)} {k : K} {v : V} :
    latest entries k ≤ v ↔ ∀ w, (k, w) ∈ entries → w ≤ v := by
  induction entries with
  | nil => simp
  | cons e entries ih =>
      rcases e with ⟨key, value⟩
      rw [latest_cons]
      by_cases h : key = k
      · subst h
        simp only [if_true, max_le_iff, ih, List.mem_cons, Prod.mk.injEq, true_and]
        constructor
        · rintro ⟨hvalue, hrest⟩ w (rfl | hw)
          · exact hvalue
          · exact hrest w hw
        · exact fun hall => ⟨hall value (Or.inl rfl), fun w hw => hall w (Or.inr hw)⟩
      · have hne : ∀ w, (k, w) ≠ (key, value) := fun w heq => h (by cases heq; rfl)
        simp only [if_neg h, ih, List.mem_cons, hne, false_or]

theorem le_latest {entries : List (K × V)} {k : K} {v : V} (h : (k, v) ∈ entries) :
    v ≤ latest entries k :=
  latest_le_iff.1 (le_refl _) v h

/-- The join depends only on the set of entries. -/
theorem latest_congr {a b : List (K × V)} (h : ∀ e, e ∈ a ↔ e ∈ b) (k : K) :
    latest a k = latest b k := by
  apply le_antisymm
  · exact latest_le_iff.2 fun w hw => le_latest ((h _).1 hw)
  · exact latest_le_iff.2 fun w hw => le_latest ((h _).2 hw)

/-! ## Maps -/

/-- The value of a key, the least one if there is none. -/
def valueAt (m : HashMap K V) (k : K) : V := (m.lookup k).getD ⊥

/-- The map has exactly the values of a function that are not least. -/
def Holds (m : HashMap K V) (f : K → V) : Prop :=
  ∀ k, m.lookup k = if f k = ⊥ then none else some (f k)

namespace Holds

variable {m : HashMap K V} {f g : K → V}

theorem valueAt_eq (h : Holds m f) (k : K) : valueAt m k = f k := by
  unfold valueAt
  rw [h k]
  split
  next hbot => exact hbot.symm
  next => rfl

/-- Maps agree where their functions do. -/
theorem lookup_eq {m' : HashMap K V} (h : Holds m f) (h' : Holds m' g) {k : K} (hk : f k = g k) :
    m.lookup k = m'.lookup k := by
  rw [h k, h' k, hk]

theorem congr (h : Holds m f) (hfg : ∀ k, f k = g k) : Holds m g := by
  intro k
  rw [← hfg k]
  exact h k

/-- A larger entry is written. -/
theorem set (h : Holds m f) {k : K} {v : V} (hv : f k < v) :
    Holds (m.set k v) fun k' => max (f k') (latest [(k, v)] k') := by
  intro k'
  rw [HashMap.lookup_set]
  by_cases hk : k' = k
  · subst hk
    have hpos : v ≠ ⊥ := (bot_le.trans_lt hv).ne'
    simp [latest_cons, max_eq_right hv.le, hpos]
  · have hk' : ¬ k = k' := fun heq => hk heq.symm
    simp [latest_cons, hk, hk', h k']

/-- An entry that is not larger is ignored. -/
theorem keep (h : Holds m f) {k : K} {v : V} (hv : v ≤ f k) :
    Holds m fun k' => max (f k') (latest [(k, v)] k') := by
  refine h.congr fun k' => ?_
  by_cases hk : k = k'
  · subst hk
    simp [latest_cons, max_eq_left hv]
  · simp [latest_cons, hk]

/-- The entries of a map without least values. -/
theorem of_pairs (hpos : ∀ k v, m.lookup k = some v → v ≠ ⊥) : Holds m (latest m.pairs) := by
  intro k
  cases hk : m.lookup k with
  | none =>
      have hbot : latest m.pairs k ≤ ⊥ := by
        refine latest_le_iff.2 fun w hw => ?_
        rw [HashMap.mem_pairs_iff, hk] at hw
        cases hw
      rw [if_pos (le_bot_iff.1 hbot)]
  | some v =>
      have hlatest : latest m.pairs k = v := by
        apply le_antisymm
        · refine latest_le_iff.2 fun w hw => ?_
          rw [HashMap.mem_pairs_iff, hk] at hw
          cases hw
          exact le_refl _
        · exact le_latest (HashMap.mem_pairs_iff.2 hk)
      rw [hlatest, if_neg (hpos k v hk)]

end Holds

/-! ## Writing to any map -/

/-- A larger value is written, another is ignored. -/
def join (m : HashMap K V) (k : K) (v : V) : HashMap K V :=
  if valueAt m k < v then m.set k v else m

def joinAll (m : HashMap K V) (entries : List (K × V)) : HashMap K V :=
  entries.foldl (fun m e => join m e.1 e.2) m

theorem valueAt_join (m : HashMap K V) (k : K) (v : V) (k' : K) :
    valueAt (join m k v) k' = max (valueAt m k') (latest [(k, v)] k') := by
  rw [latest_cons, latest_nil, max_bot_right]
  unfold join
  by_cases hlt : valueAt m k < v
  · rw [if_pos hlt]
    by_cases hk : k = k'
    · subst hk
      rw [if_pos rfl, max_eq_right hlt.le]
      simp [valueAt]
    · rw [if_neg hk, max_bot_right]
      simp [valueAt, HashMap.lookup_set, Ne.symm hk]
  · rw [if_neg hlt]
    by_cases hk : k = k'
    · subst hk
      rw [if_pos rfl, max_eq_left (not_lt.1 hlt)]
    · rw [if_neg hk, max_bot_right]

theorem valueAt_joinAll (m : HashMap K V) (entries : List (K × V)) (k : K) :
    valueAt (joinAll m entries) k = max (valueAt m k) (latest entries k) := by
  induction entries generalizing m with
  | nil => simp [joinAll]
  | cons e entries ih =>
      calc
        valueAt (joinAll m (e :: entries)) k
            = valueAt (joinAll (join m e.1 e.2) entries) k := rfl
        _ = max (max (valueAt m k) (latest [e] k)) (latest entries k) := by
              rw [ih, valueAt_join]
        _ = max (valueAt m k) (latest (e :: entries) k) := by
              rw [max_assoc, ← latest_append, List.singleton_append]

/-- Nothing is written exactly when no entry is larger. -/
theorem joinAll_eq_self_iff {m : HashMap K V} {entries : List (K × V)} :
    joinAll m entries = m ↔ ∀ e ∈ entries, e.2 ≤ valueAt m e.1 := by
  constructor
  · intro h e he
    calc
      e.2 ≤ latest entries e.1 := le_latest he
      _ ≤ valueAt (joinAll m entries) e.1 := by
            rw [valueAt_joinAll]
            exact le_max_right _ _
      _ = valueAt m e.1 := by rw [h]
  · intro h
    induction entries with
    | nil => rfl
    | cons e entries ih =>
        have hkept : join m e.1 e.2 = m := if_neg (not_lt.2 (h e List.mem_cons_self))
        have hrest := ih fun e' he' => h e' (List.mem_cons_of_mem e he')
        simpa only [joinAll, List.foldl_cons, hkept] using hrest

end MaxRegister
end Lib
end Maju
