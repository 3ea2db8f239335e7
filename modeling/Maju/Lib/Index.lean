import Maju.Lib.HashMap

/-!
# Index — inverted indexes from keys to lists of entries

An index maps a key to the entries filed under it.  What an index holds is read as a function of
the key (`Filing`); `pushed` and `dropped` are the two changes of that function, and the index
operations `push` and `drop` realise them.  Membership (`Holds`) obeys one equation for each
change and `NoEmptyKey` is preserved by both, so a filing that holds nothing maps no key at all.

Stating the equations on filings lets several indexes be read as one: their filings combine into
a single filing over the disjoint union of their keys.
-/

namespace Maju
namespace Lib

universe u v

/-- What is filed under each key; `none` when the key is absent. -/
abbrev Filing (K : Type u) (E : Type v) : Type (max u v) :=
  K → Option (List E)

namespace Filing

variable {K : Type u} {E : Type v}

/-- `e` is filed under `k`. -/
def Holds (f : Filing K E) (k : K) (e : E) : Prop :=
  ∃ es : List E, f k = some es ∧ e ∈ es

/-- No key is mapped to an empty list. -/
def NoEmptyKey (f : Filing K E) : Prop :=
  ∀ k : K, f k ≠ some []

theorem eq_none_of_not_holds {f : Filing K E} (hne : f.NoEmptyKey)
    (h : ∀ k e, ¬ f.Holds k e) (k : K) : f k = none := by
  cases hk : f k with
  | none => rfl
  | some es =>
      cases es with
      | nil => exact absurd hk (hne k)
      | cons e es => exact absurd ⟨e :: es, hk, List.mem_cons_self⟩ (h k e)

theorem holds_iff_mem_getD {f : Filing K E} {k : K} {e : E} :
    f.Holds k e ↔ e ∈ (f k).getD [] := by
  unfold Holds
  cases f k with
  | none => simp
  | some es => simp

/-- The list without any copy of `e`; `none` once nothing is left. -/
def withdraw [DecidableEq E] (e : E) (es : List E) : Option (List E) :=
  let kept := es.filter fun e' => decide (e' ≠ e)
  if kept.isEmpty then none else some kept

theorem mem_withdraw [DecidableEq E] {e e' : E} {es : List E} :
    (∃ kept, withdraw e es = some kept ∧ e' ∈ kept) ↔ e' ∈ es ∧ e' ≠ e := by
  have hmem : e' ∈ es.filter (fun x => decide (x ≠ e)) ↔ e' ∈ es ∧ e' ≠ e := by simp
  rw [← hmem]
  unfold withdraw
  dsimp only
  split
  · next hempty =>
      rw [List.isEmpty_iff.1 hempty]
      constructor
      · rintro ⟨kept, hkept, _⟩
        cases hkept
      · intro h
        cases h
  · simp

theorem withdraw_ne_nil [DecidableEq E] (e : E) (es : List E) : withdraw e es ≠ some [] := by
  unfold withdraw
  dsimp only
  split
  · simp
  · next hempty =>
      intro h
      rw [Option.some.inj h] at hempty
      exact hempty rfl

variable [DecidableEq K]

/-- The filing after `e` was appended under `k`. -/
def pushed (e : E) (f : Filing K E) (k : K) : Filing K E := fun k' =>
  if k' = k then some ((f k).getD [] ++ [e]) else f k'

theorem holds_pushed {f : Filing K E} {k k' : K} {e e' : E} :
    (pushed e f k).Holds k' e' ↔ (k' = k ∧ e' = e) ∨ f.Holds k' e' := by
  rw [holds_iff_mem_getD, holds_iff_mem_getD]
  unfold pushed
  by_cases hk : k' = k
  · subst hk
    simp [or_comm]
  · simp [hk]

theorem noEmptyKey_pushed {f : Filing K E} (h : f.NoEmptyKey) (e : E) (k : K) :
    (pushed e f k).NoEmptyKey := by
  intro k'
  unfold pushed
  split
  · simp
  · exact h k'

theorem holds_foldl_pushed {ks : List K} {f : Filing K E} {k' : K} {e e' : E} :
    (ks.foldl (pushed e) f).Holds k' e' ↔ (k' ∈ ks ∧ e' = e) ∨ f.Holds k' e' := by
  induction ks generalizing f with
  | nil => simp
  | cons k ks ih =>
      rw [List.foldl_cons, ih, holds_pushed, List.mem_cons]
      tauto

theorem noEmptyKey_foldl_pushed {ks : List K} {f : Filing K E} (h : f.NoEmptyKey) (e : E) :
    (ks.foldl (pushed e) f).NoEmptyKey := by
  induction ks generalizing f with
  | nil => exact h
  | cons k ks ih => exact ih (noEmptyKey_pushed h e k)

variable [DecidableEq E]

/-- The filing after every copy of `e` was withdrawn from `k`. -/
def dropped (e : E) (f : Filing K E) (k : K) : Filing K E := fun k' =>
  if k' = k then (f k).bind (withdraw e) else f k'

theorem holds_dropped {f : Filing K E} {k k' : K} {e e' : E} :
    (dropped e f k).Holds k' e' ↔ f.Holds k' e' ∧ ¬ (k' = k ∧ e' = e) := by
  unfold Holds dropped
  by_cases hk : k' = k
  · subst hk
    cases hf : f k' with
    | none => simp
    | some es => simpa using mem_withdraw
  · simp [hk]

theorem noEmptyKey_dropped {f : Filing K E} (h : f.NoEmptyKey) (e : E) (k : K) :
    (dropped e f k).NoEmptyKey := by
  intro k'
  unfold dropped
  split
  · intro hsome
    obtain ⟨es, _, hes⟩ := Option.bind_eq_some_iff.1 hsome
    exact withdraw_ne_nil e es hes
  · exact h k'

theorem holds_foldl_dropped {ks : List K} {f : Filing K E} {k' : K} {e e' : E} :
    (ks.foldl (dropped e) f).Holds k' e' ↔ f.Holds k' e' ∧ ¬ (k' ∈ ks ∧ e' = e) := by
  induction ks generalizing f with
  | nil => simp
  | cons k ks ih =>
      rw [List.foldl_cons, ih, holds_dropped, List.mem_cons]
      tauto

theorem noEmptyKey_foldl_dropped {ks : List K} {f : Filing K E} (h : f.NoEmptyKey) (e : E) :
    (ks.foldl (dropped e) f).NoEmptyKey := by
  induction ks generalizing f with
  | nil => exact h
  | cons k ks ih => exact ih (noEmptyKey_dropped h e k)

end Filing

/-! ## Indexes -/

abbrev Index (K : Type u) (E : Type v) : Type (max u v) :=
  HashMap K (List E)

namespace Index

variable {K : Type u} {E : Type v} [DecidableEq K]

def filing (ix : Index K E) : Filing K E := fun k => ix.lookup k

/-- `index.entry(k).or_default().push(e)`. -/
def push (e : E) (ix : Index K E) (k : K) : Index K E :=
  ix.insert k ((ix.lookup k).getD [] ++ [e])

theorem filing_push (e : E) (ix : Index K E) (k : K) :
    (push e ix k).filing = Filing.pushed e ix.filing k := by
  funext k'
  exact HashMap.lookup_insert_eq k k' _ ix

theorem eq_empty_iff {ix : Index K E} : ix = ∅ ↔ ∀ k, ix.filing k = none :=
  HashMap.eq_empty_iff

variable [DecidableEq E]

/-- Withdraw every copy of `e` filed under `k`; a key left without entries is removed. -/
def drop (e : E) (ix : Index K E) (k : K) : Index K E :=
  match ix.lookup k with
  | none => ix
  | some es =>
      let kept := es.filter fun e' => decide (e' ≠ e)
      if kept.isEmpty then ix.erase k else ix.insert k kept

theorem filing_drop (e : E) (ix : Index K E) (k : K) :
    (drop e ix k).filing = Filing.dropped e ix.filing k := by
  funext k'
  unfold drop filing Filing.dropped Filing.withdraw
  cases hl : ix.lookup k with
  | none =>
      by_cases hk : k' = k
      · subst hk
        simp [hl]
      · simp [hk]
  | some es =>
      dsimp only
      split
      · next hempty =>
          rw [HashMap.lookup_erase_eq, hl, Option.bind_some, if_pos hempty]
      · next hempty =>
          rw [HashMap.lookup_insert_eq, hl, Option.bind_some, if_neg hempty]

end Index

end Lib
end Maju
