import Mathlib.Data.List.Sort

/-!
# Keyset — reading a changing table page by page

The rows of a table are ordered by a key.  A reader takes the first `limit` rows behind a position,
makes the key of the last of them its next position, and goes on while there are more.  The table
may be another one at every page.

* `Behind`, `found`, `scan` — the rows behind a position, in order, and the pages of a reader;
* `pairwise_scan`, `behind_of_mem_scan` — keys only grow over all pages, whatever the tables are;
* `mem_scan` — a key that is in every table is on a page, once the reader has come to the end;
* `scan_of_eq` — over one table the pages are its rows in order.
-/

namespace Maju
namespace Lib
namespace Keyset

universe u v

variable {α : Type u} {κ : Type v} [LinearOrder κ] (key : α → κ)

/-! ## Pages -/

/-- A row behind a position; without a position, every row. -/
def Behind (cursor : Option κ) (a : α) : Prop := ∀ k ∈ cursor, k < key a

instance (cursor : Option κ) (a : α) : Decidable (Behind key cursor a) :=
  inferInstanceAs (Decidable (∀ k ∈ cursor, k < key a))

def Before (a b : α) : Prop := key a ≤ key b

instance (a b : α) : Decidable (Before key a b) := inferInstanceAs (Decidable (key a ≤ key b))

instance : Std.Total (Before key) := ⟨fun a b => le_total (key a) (key b)⟩

instance : IsTrans α (Before key) := ⟨fun _ _ _ h₁ h₂ => le_trans (α := κ) h₁ h₂⟩

/-- The rows behind a position, in order. -/
def found (cursor : Option κ) (rows : List α) : List α :=
  (rows.filter fun a => decide (Behind key cursor a)).insertionSort (Before key)

/-- The pages over a sequence of tables, and whether the last one was the end. -/
def scan (limit : Nat) : Option κ → List (List α) → List (List α) × Bool
  | _, [] => ([], false)
  | cursor, rows :: later =>
      let page := (found key cursor rows).take limit
      if limit < (found key cursor rows).length then
        let rest := scan limit (page.getLast?.map key) later
        (page :: rest.1, rest.2)
      else ([page], true)

variable {key}

/-! ## One page -/

theorem mem_found {cursor : Option κ} {rows : List α} {a : α} :
    a ∈ found key cursor rows ↔ a ∈ rows ∧ Behind key cursor a := by
  rw [found, List.mem_insertionSort, List.mem_filter, decide_eq_true_iff]

/-- Where no key is there twice, the keys grow. -/
theorem pairwise_found {cursor : Option κ} {rows : List α} (h : (rows.map key).Nodup) :
    (found key cursor rows).Pairwise fun a b => key a < key b := by
  have hle : (found key cursor rows).Pairwise (Before key) := List.pairwise_insertionSort _ _
  have hne : (found key cursor rows).Pairwise fun a b => key a ≠ key b := by
    rw [← List.pairwise_map]
    have hfilter : ((rows.filter fun a => decide (Behind key cursor a)).map key).Nodup :=
      h.sublist (List.filter_sublist.map key)
    exact (((List.perm_insertionSort (Before key) _).map key).nodup_iff.2 hfilter)
  exact hle.imp₂ (fun a b hab hab' => lt_of_le_of_ne hab hab') hne

/-- The last of growing keys is the largest. -/
theorem le_of_getLast? {l : List α} (h : l.Pairwise fun a b => key a < key b) {last : α}
    (hlast : l.getLast? = some last) : ∀ a ∈ l, key a ≤ key last := by
  obtain ⟨init, rfl⟩ := List.getLast?_eq_some_iff.1 hlast
  intro a ha
  rcases List.mem_append.1 ha with hinit | hone
  · exact ((List.pairwise_append.1 h).2.2 a hinit last (List.mem_singleton_self last)).le
  · rw [List.mem_singleton.1 hone]

/-- Rows whose keys grow are known by what they are. -/
theorem eq_of_mem_iff {l m : List α} (hl : l.Pairwise fun a b => key a < key b)
    (hm : m.Pairwise fun a b => key a < key b) (h : ∀ a, a ∈ l ↔ a ∈ m) : l = m := by
  have hnodup : ∀ {l : List α}, l.Pairwise (fun a b => key a < key b) → l.Nodup :=
    fun hl => hl.imp fun hab heq => (heq ▸ hab).false
  have hperm : l.Perm m := (List.perm_ext_iff_of_nodup (hnodup hl) (hnodup hm)).2 h
  exact hperm.eq_of_pairwise (fun a b _ _ hab hba => absurd hab hba.asymm) hl hm

/-- What is behind the last row of a page is what the page has left out. -/
theorem found_behind_last {cursor : Option κ} {rows : List α} (h : (rows.map key).Nodup)
    {limit : Nat} {last : α} (hlast : ((found key cursor rows).take limit).getLast? = some last) :
    found key (some (key last)) rows = (found key cursor rows).drop limit := by
  have hgrow : (found key cursor rows).Pairwise fun a b => key a < key b := pairwise_found h
  have hpage := hgrow.sublist (List.take_sublist limit _)
  have hlastMem := List.mem_of_getLast? hlast
  have hlastBehind := (mem_found.1 (List.mem_of_mem_take hlastMem)).2
  have hcross : ∀ a ∈ (found key cursor rows).drop limit, key last < key a := by
    have hsplit := hgrow
    rw [← List.take_append_drop limit (found key cursor rows)] at hsplit
    exact (List.pairwise_append.1 hsplit).2.2 last hlastMem
  refine eq_of_mem_iff (pairwise_found h) (hgrow.sublist (List.drop_sublist limit _)) fun a => ?_
  constructor
  · intro ha
    obtain ⟨hrows, hbehind⟩ := mem_found.1 ha
    have hlt : key last < key a := hbehind _ rfl
    have hfound : a ∈ found key cursor rows :=
      mem_found.2 ⟨hrows, fun k hk => (hlastBehind k hk).trans hlt⟩
    rw [← List.take_append_drop limit (found key cursor rows), List.mem_append] at hfound
    rcases hfound with htake | hdrop
    · exact absurd hlt (not_lt.2 (le_of_getLast? hpage hlast a htake))
    · exact hdrop
  · intro ha
    refine mem_found.2 ⟨(mem_found.1 (List.mem_of_mem_drop ha)).1, fun k hk => ?_⟩
    cases hk
    exact hcross a ha

/-- A page that is not the last has a last row. -/
theorem exists_getLast? {l : List α} {limit : Nat} (hlimit : 0 < limit) (h : limit < l.length) :
    ∃ last, (l.take limit).getLast? = some last := by
  cases hlast : (l.take limit).getLast? with
  | some last => exact ⟨last, rfl⟩
  | none =>
      have hlength := congrArg List.length (List.getLast?_eq_none_iff.1 hlast)
      rw [List.length_take, List.length_nil] at hlength
      omega

/-! ## All pages -/

/-- What is on a page is behind the position where the reader has started, and from one of the
tables. -/
theorem behind_of_mem_scan {limit : Nat} (hlimit : 0 < limit) {cursor : Option κ}
    {tables : List (List α)} {a : α} (ha : a ∈ (scan key limit cursor tables).1.flatten) :
    Behind key cursor a ∧ ∃ rows ∈ tables, a ∈ rows := by
  induction tables generalizing cursor with
  | nil => cases ha
  | cons rows later ih =>
      have hpage : a ∈ (found key cursor rows).take limit →
          Behind key cursor a ∧ ∃ rows' ∈ rows :: later, a ∈ rows' := by
        intro hmem
        obtain ⟨hrows, hbehind⟩ := mem_found.1 (List.mem_of_mem_take hmem)
        exact ⟨hbehind, rows, List.mem_cons_self, hrows⟩
      simp only [scan] at ha
      split_ifs at ha with hmore
      · rw [List.flatten_cons, List.mem_append] at ha
        rcases ha with hmem | hmem
        · exact hpage hmem
        · obtain ⟨last, hlast⟩ := exists_getLast? hlimit hmore
          rw [hlast] at hmem
          obtain ⟨hbehind, rows', hrows', hin⟩ := ih hmem
          have hlastBehind := (mem_found.1 (List.mem_of_mem_take (List.mem_of_getLast? hlast))).2
          exact ⟨fun k hk => (hlastBehind k hk).trans (hbehind _ rfl), rows',
            List.mem_cons_of_mem rows hrows', hin⟩
      · exact hpage (by simpa using ha)

/-- Over all pages the keys grow. -/
theorem pairwise_scan {limit : Nat} (hlimit : 0 < limit) {cursor : Option κ}
    {tables : List (List α)} (h : ∀ rows ∈ tables, (rows.map key).Nodup) :
    (scan key limit cursor tables).1.flatten.Pairwise fun a b => key a < key b := by
  induction tables generalizing cursor with
  | nil => exact List.Pairwise.nil
  | cons rows later ih =>
      have hpage : ((found key cursor rows).take limit).Pairwise fun a b => key a < key b :=
        (pairwise_found (h rows List.mem_cons_self)).sublist (List.take_sublist limit _)
      simp only [scan]
      split_ifs with hmore
      · obtain ⟨last, hlast⟩ := exists_getLast? hlimit hmore
        rw [List.flatten_cons, List.pairwise_append]
        refine ⟨hpage, ih fun rows' hrows' => h rows' (List.mem_cons_of_mem rows hrows'), ?_⟩
        intro a ha b hb
        rw [hlast] at hb
        -- the next pages start behind the last row of this one
        calc
          key a ≤ key last := le_of_getLast? hpage hlast a ha
          _ < key b := (behind_of_mem_scan hlimit hb).1 _ rfl
      · simpa using hpage

/-- A key behind the start that is in every table is on a page, once the reader has come to the
end; the row of the key may be another one in every table. -/
theorem mem_scan {limit : Nat} (hlimit : 0 < limit) {cursor : Option κ} {tables : List (List α)}
    (h : ∀ rows ∈ tables, (rows.map key).Nodup) (hend : (scan key limit cursor tables).2 = true)
    {k : κ} (hbehind : ∀ c ∈ cursor, c < k)
    (hk : ∀ rows ∈ tables.take (scan key limit cursor tables).1.length, ∃ a ∈ rows, key a = k) :
    ∃ rows ∈ tables.take (scan key limit cursor tables).1.length, ∃ a ∈ rows, key a = k ∧
      a ∈ (scan key limit cursor tables).1.flatten := by
  induction tables generalizing cursor with
  | nil => cases hend
  | cons rows later ih =>
      simp only [scan] at hend hk ⊢
      split_ifs at hend hk ⊢ with hmore
      · rw [List.length_cons, List.take_succ_cons] at hk ⊢
        obtain ⟨a, ha, rfl⟩ := hk rows List.mem_cons_self
        have hfound : a ∈ found key cursor rows := mem_found.2 ⟨ha, hbehind⟩
        obtain ⟨last, hlast⟩ := exists_getLast? hlimit hmore
        rw [← List.take_append_drop limit (found key cursor rows), List.mem_append] at hfound
        rcases hfound with htake | hdrop
        · exact ⟨rows, List.mem_cons_self, a, ha, rfl, List.mem_append_left _ htake⟩
        · rw [← found_behind_last (h rows List.mem_cons_self) hlast] at hdrop
          rw [hlast] at hend hk ⊢
          obtain ⟨rows', hrows', b, hb, hkey, hpage⟩ := ih
            (fun rows' hrows' => h rows' (List.mem_cons_of_mem rows hrows')) hend
            (mem_found.1 hdrop).2 fun rows' hrows' => hk rows' (List.mem_cons_of_mem rows hrows')
          exact ⟨rows', List.mem_cons_of_mem rows hrows', b, hb, hkey,
            List.mem_append_right _ hpage⟩
      · obtain ⟨a, ha, rfl⟩ := hk rows List.mem_cons_self
        have hfound : a ∈ found key cursor rows := mem_found.2 ⟨ha, hbehind⟩
        have hall : (found key cursor rows).take limit = found key cursor rows :=
          List.take_of_length_le (Nat.le_of_not_lt hmore)
        refine ⟨rows, List.mem_cons_self, a, ha, rfl, ?_⟩
        rw [List.flatten_cons, List.flatten_nil, List.append_nil, hall]
        exact hfound

/-- Over one table the reader comes to the end, and the pages are the rows in order. -/
theorem scan_of_eq {limit : Nat} (hlimit : 0 < limit) {cursor : Option κ} {rows : List α}
    (h : (rows.map key).Nodup) {tables : List (List α)} (htables : ∀ t ∈ tables, t = rows)
    (hlength : (found key cursor rows).length < tables.length) :
    (scan key limit cursor tables).2 = true ∧
      (scan key limit cursor tables).1.flatten = found key cursor rows := by
  induction tables generalizing cursor with
  | nil => exact absurd hlength (Nat.not_lt_zero _)
  | cons t later ih =>
      obtain rfl := htables t List.mem_cons_self
      simp only [scan]
      split_ifs with hmore
      · obtain ⟨last, hlast⟩ := exists_getLast? hlimit hmore
        have hdrop := found_behind_last h hlast
        have hfewer : (found key (some (key last)) t).length < later.length := by
          rw [hdrop, List.length_drop]
          rw [List.length_cons] at hlength
          omega
        obtain ⟨hend, hpages⟩ : (scan key limit (some (key last)) later).2 = true ∧
            (scan key limit (some (key last)) later).1.flatten = found key (some (key last)) t :=
          ih (fun t' ht' => htables t' (List.mem_cons_of_mem t ht')) hfewer
        rw [hlast]
        refine ⟨hend, ?_⟩
        rw [List.flatten_cons]
        exact (congrArg _ (hpages.trans hdrop)).trans (List.take_append_drop limit _)
      · refine ⟨rfl, ?_⟩
        rw [List.flatten_cons, List.flatten_nil, List.append_nil]
        exact List.take_of_length_le (Nat.le_of_not_lt hmore)

end Keyset
end Lib
end Maju
