import Maju.Lib.HashMap

/-!
# TypedStore — variables that keep the type of their first value

A store of variables takes a new value for a name only when it has the type of the one it holds.
Whether a list of assignments goes through does not depend on the values, only on their types.

* `assign`, `assignAll` — one assignment, and several up to the first that is refused;
* `assignAll_ok_iff` — they go through when all values of one name have one type;
* `lookup_assignAll` — what a name holds then is the last value it was given.
-/

namespace Maju
namespace Lib

universe u v w

section

variable {K : Type u} {V : Type v} {T : Type w} [DecidableEq K] [DecidableEq T]

/-- A name gets a value; an older value of another type is kept, and comes back with the new one. -/
def assign (type : V → T) (store : HashMap K V) (name : K) (value : V) :
    Except (V × V) (HashMap K V) :=
  match store.lookup name with
  | some old =>
      if type old = type value then .ok (store.insert name value) else .error (old, value)
  | none => .ok (store.insert name value)

/-- Assignments from left to right, up to the first that is refused. -/
def assignAll (type : V → T) : HashMap K V → List (K × V) → Except (V × V) (HashMap K V)
  | store, [] => .ok store
  | store, e :: es =>
      match assign type store e.1 e.2 with
      | .ok store' => assignAll type store' es
      | .error refused => .error refused

variable {type : V → T} {store store' : HashMap K V}

theorem assign_ok_iff {name : K} {value : V} :
    assign type store name value = .ok store' ↔
      (∀ old ∈ store.lookup name, type old = type value) ∧ store' = store.insert name value := by
  unfold assign
  cases store.lookup name with
  | none => simp [eq_comm]
  | some old =>
      by_cases htype : type old = type value
      · simp [htype, eq_comm]
      · simp [htype]

theorem assignAll_append (es fs : List (K × V)) :
    assignAll type store (es ++ fs) =
      (assignAll type store es).bind fun store' => assignAll type store' fs := by
  induction es generalizing store with
  | nil => rfl
  | cons e es ih =>
      simp only [List.cons_append, assignAll]
      cases assign type store e.1 e.2 with
      | error refused => rfl
      | ok store' => exact ih

/-- Assignments go through when all values of one name have one type. -/
theorem assignAll_ok_iff {es : List (K × V)} :
    (∃ store', assignAll type store es = .ok store') ↔
      (∀ e ∈ es, ∀ old ∈ store.lookup e.1, type old = type e.2) ∧
        es.Pairwise fun a b => a.1 = b.1 → type a.2 = type b.2 := by
  induction es generalizing store with
  | nil => simp [assignAll]
  | cons e es ih =>
      have hnext : (∃ store', assignAll type store (e :: es) = .ok store') ↔
          (∀ old ∈ store.lookup e.1, type old = type e.2) ∧
            ∃ store', assignAll type (store.insert e.1 e.2) es = .ok store' := by
        simp only [assignAll]
        cases hassign : assign type store e.1 e.2 with
        | error refused =>
            have hnot : ¬ ∀ old ∈ store.lookup e.1, type old = type e.2 := by
              intro htypes
              cases hassign.symm.trans (assign_ok_iff.2 ⟨htypes, rfl⟩)
            constructor
            · rintro ⟨_, hok⟩
              cases hok
            · exact fun h => absurd h.1 hnot
        | ok store' =>
            obtain ⟨htypes, rfl⟩ := assign_ok_iff.1 hassign
            exact (and_iff_right htypes).symm
      rw [hnext, ih, List.pairwise_cons, List.forall_mem_cons]
      -- the value just assigned stands for the older ones of its name
      have hlookup : ∀ a ∈ es, (∀ old ∈ store.lookup e.1, type old = type e.2) →
          ((∀ old ∈ (store.insert e.1 e.2).lookup a.1, type old = type a.2) ↔
            (∀ old ∈ store.lookup a.1, type old = type a.2) ∧
              (e.1 = a.1 → type e.2 = type a.2)) := by
        intro a _ htypes
        rw [HashMap.lookup_insert_eq]
        by_cases hname : a.1 = e.1
        · rw [if_pos hname, hname]
          constructor
          · intro h
            have htype : type e.2 = type a.2 := h e.2 rfl
            exact ⟨fun old hold => (htypes old hold).trans htype, fun _ => htype⟩
          · rintro ⟨_, h⟩ old hold
            cases hold
            exact h rfl
        · rw [if_neg hname]
          have hvacuous : e.1 = a.1 → type e.2 = type a.2 := fun heq => absurd heq.symm hname
          exact (and_iff_left hvacuous).symm
      constructor
      · rintro ⟨hhead, holds, hpairs⟩
        exact ⟨⟨hhead, fun a ha => ((hlookup a ha hhead).1 (holds a ha)).1⟩,
          fun a ha => ((hlookup a ha hhead).1 (holds a ha)).2, hpairs⟩
      · rintro ⟨⟨hhead, holds⟩, hfirst, hpairs⟩
        exact ⟨hhead, fun a ha => (hlookup a ha hhead).2 ⟨holds a ha, hfirst a ha⟩, hpairs⟩

/-- A name that gets no value keeps the one it has. -/
theorem lookup_assignAll_of_not_mem {es : List (K × V)} {name : K}
    (hok : assignAll type store es = .ok store') (hname : ∀ e ∈ es, e.1 ≠ name) :
    store'.lookup name = store.lookup name := by
  induction es generalizing store with
  | nil =>
      cases hok
      rfl
  | cons e es ih =>
      simp only [assignAll] at hok
      cases hassign : assign type store e.1 e.2 with
      | error refused =>
          rw [hassign] at hok
          cases hok
      | ok next =>
          rw [hassign] at hok
          obtain ⟨_, rfl⟩ := assign_ok_iff.1 hassign
          have hother : name ≠ e.1 := (hname e List.mem_cons_self).symm
          rw [ih hok fun a ha => hname a (List.mem_cons_of_mem e ha), HashMap.lookup_insert_eq,
            if_neg hother]

/-- A name holds the last value it was given. -/
theorem lookup_assignAll {before after : List (K × V)} {name : K} {value : V}
    (hok : assignAll type store (before ++ (name, value) :: after) = .ok store')
    (hlast : ∀ e ∈ after, e.1 ≠ name) : store'.lookup name = some value := by
  rw [assignAll_append] at hok
  cases hbefore : assignAll type store before with
  | error refused =>
      rw [hbefore] at hok
      cases hok
  | ok next =>
      rw [hbefore] at hok
      simp only [Except.bind, assignAll] at hok
      cases hassign : assign type next name value with
      | error refused =>
          rw [hassign] at hok
          cases hok
      | ok next' =>
          rw [hassign] at hok
          obtain ⟨_, rfl⟩ := assign_ok_iff.1 hassign
          rw [lookup_assignAll_of_not_mem hok hlast]
          exact AList.lookup_insert next

end

end Lib
end Maju
