import Maju.Lib.Slice

/-!
# Search — the occurrences of a pattern in a list

* `OccursAt` — a pattern stands at a position; positions may overlap;
* `firstAt` — what stands before and after the first occurrence;
* `splitAll` — the pieces between occurrences that are taken from the left and do not overlap;
* `Scan` — the same as a relation;
* `occursAt_encode` — in UTF-8 a text stands at the positions where characters begin.
-/

namespace Maju
namespace Lib

variable {α : Type*}

/-! ## Occurrences -/

/-- The pattern stands at the position. -/
def OccursAt (p s : List α) (n : Nat) : Prop := ∃ x y, s = x ++ (p ++ y) ∧ x.length = n

theorem occursAt_cons {a : α} {p s : List α} {n : Nat} :
    OccursAt p (a :: s) (n + 1) ↔ OccursAt p s n := by
  constructor
  · rintro ⟨x, y, hs, hlen⟩
    cases x with
    | nil => exact absurd hlen (Nat.succ_ne_zero n).symm
    | cons b x => exact ⟨x, y, (List.cons.inj hs).2, Nat.succ.inj hlen⟩
  · rintro ⟨x, y, rfl, rfl⟩
    exact ⟨a :: x, y, rfl, rfl⟩

theorem occursAt_zero {p s : List α} : OccursAt p s 0 ↔ p <+: s := by
  constructor
  · rintro ⟨x, y, rfl, hlen⟩
    rw [List.length_eq_zero_iff.1 hlen]
    exact List.prefix_append p y
  · rintro ⟨y, rfl⟩
    exact ⟨[], y, rfl, rfl⟩

/-- What stands before and after an occurrence is given by its position. -/
theorem eq_of_occurrence {p x y x' y' : List α} (h : x ++ (p ++ y) = x' ++ (p ++ y'))
    (hlen : x.length = x'.length) : x = x' ∧ y = y' := by
  obtain ⟨hx, hrest⟩ := List.append_inj h hlen
  exact ⟨hx, List.append_cancel_left hrest⟩

/-- Occurrences taken from the left, each the first after the one before. -/
inductive Scan (p : List α) : List α → List (List α) → Prop where
  | last {s : List α} : (∀ n, ¬ OccursAt p s n) → Scan p s [s]
  | hit {x y : List α} {pieces : List (List α)} :
      (∀ n, OccursAt p (x ++ (p ++ y)) n → x.length ≤ n) → Scan p y pieces →
      Scan p (x ++ (p ++ y)) (x :: pieces)

theorem Scan.ne_nil {p s : List α} {pieces : List (List α)} (h : Scan p s pieces) :
    pieces ≠ [] := by
  cases h with
  | last _ => exact List.cons_ne_nil _ _
  | hit _ _ => exact List.cons_ne_nil _ _

/-- The pieces with the pattern between them. -/
theorem Scan.intercalate {p s : List α} {pieces : List (List α)} (h : Scan p s pieces) :
    p.intercalate pieces = s := by
  induction h with
  | last _ => simp
  | hit _ hrest ih =>
      obtain ⟨piece, pieces, rfl⟩ := List.exists_cons_of_ne_nil hrest.ne_nil
      rw [List.intercalate_cons_cons, ih, List.append_assoc]

/-! ## The first occurrence -/

variable [DecidableEq α]

/-- What stands before and after the first occurrence. -/
def firstAt (p : List α) : List α → Option (List α × List α)
  | [] => if p = [] then some ([], []) else none
  | a :: s =>
      if p.isPrefixOf (a :: s) then some ([], (a :: s).drop p.length)
      else (firstAt p s).map fun e => (a :: e.1, e.2)

theorem firstAt_eq_some {p s x y : List α} (h : firstAt p s = some (x, y)) :
    s = x ++ (p ++ y) ∧ ∀ n, OccursAt p s n → x.length ≤ n := by
  induction s generalizing x with
  | nil =>
      rw [firstAt] at h
      split_ifs at h with hp
      cases h
      exact ⟨by rw [hp]; rfl, fun n _ => Nat.zero_le n⟩
  | cons a s ih =>
      rw [firstAt] at h
      split_ifs at h with hp
      · cases h
        obtain ⟨t, ht⟩ := List.isPrefixOf_iff_prefix.1 hp
        refine ⟨?_, fun n _ => Nat.zero_le n⟩
        rw [← ht, List.drop_left, List.nil_append]
      · obtain ⟨⟨x', y'⟩, hfirst, heq⟩ := Option.map_eq_some_iff.1 h
        cases heq
        obtain ⟨hs, hmin⟩ := ih hfirst
        refine ⟨by rw [hs]; rfl, fun n hn => ?_⟩
        cases n with
        | zero => exact absurd (List.isPrefixOf_iff_prefix.2 (occursAt_zero.1 hn)) hp
        | succ n => exact Nat.succ_le_succ (hmin n (occursAt_cons.1 hn))

theorem firstAt_eq_none {p s : List α} (h : firstAt p s = none) (n : Nat) : ¬ OccursAt p s n := by
  induction s generalizing n with
  | nil =>
      rw [firstAt] at h
      split_ifs at h with hp
      rintro ⟨x, y, hs, -⟩
      exact hp (by simpa using (List.append_eq_nil_iff.1 (List.append_eq_nil_iff.1 hs.symm).2).1)
  | cons a s ih =>
      rw [firstAt] at h
      split_ifs at h with hp
      have hrest : firstAt p s = none := Option.map_eq_none_iff.1 h
      cases n with
      | zero =>
          intro hn
          exact hp (List.isPrefixOf_iff_prefix.2 (occursAt_zero.1 hn))
      | succ n => exact fun hn => ih hrest n (occursAt_cons.1 hn)

/-- The first occurrence is found. -/
theorem firstAt_of_least {p x y : List α}
    (h : ∀ n, OccursAt p (x ++ (p ++ y)) n → x.length ≤ n) :
    firstAt p (x ++ (p ++ y)) = some (x, y) := by
  cases hfirst : firstAt p (x ++ (p ++ y)) with
  | none => exact absurd ⟨x, y, rfl, rfl⟩ (firstAt_eq_none hfirst x.length)
  | some e =>
      obtain ⟨heq, hmin⟩ := firstAt_eq_some hfirst
      have hlen : x.length = e.1.length :=
        Nat.le_antisymm (h _ ⟨e.1, e.2, heq, rfl⟩) (hmin _ ⟨x, y, rfl, rfl⟩)
      obtain ⟨hx, hy⟩ := eq_of_occurrence heq hlen
      rw [hx, hy]

theorem length_lt_of_firstAt {p s x y : List α} (hp : p ≠ []) (h : firstAt p s = some (x, y)) :
    y.length < s.length := by
  obtain ⟨rfl, -⟩ := firstAt_eq_some h
  have hpos : 0 < p.length := List.length_pos_of_ne_nil hp
  simp only [List.length_append]
  omega

/-! ## Pieces -/

/-- The pieces between the occurrences that are found from the left; the pattern is not empty. -/
def splitAll (p s : List α) : List (List α) :=
  match _hfirst : firstAt p s with
  | none => [s]
  | some (x, y) => if _hp : p = [] then [s] else x :: splitAll p y
termination_by s.length
decreasing_by exact length_lt_of_firstAt _hp _hfirst

theorem scan_splitAll {p : List α} (hp : p ≠ []) (s : List α) : Scan p s (splitAll p s) := by
  induction s using splitAll.induct (p := p) with
  | case1 s hnone =>
      have hlast : splitAll p s = [s] := by
        unfold splitAll
        split
        · rfl
        · next hsome => rw [hnone] at hsome; cases hsome
      rw [hlast]
      exact Scan.last (firstAt_eq_none hnone)
  | case2 s x y hfirst hnil => exact absurd hnil hp
  | case3 s x y hfirst hne ih =>
      obtain ⟨rfl, hmin⟩ := firstAt_eq_some hfirst
      have hcons : splitAll p (x ++ (p ++ y)) = x :: splitAll p y := by
        rw [splitAll]
        split
        · next hnone => rw [hfirst] at hnone; cases hnone
        · next x' y' hsome =>
            obtain ⟨rfl, rfl⟩ := Prod.mk.inj (Option.some.inj (hfirst.symm.trans hsome))
            rw [dif_neg hne]
      rw [hcons]
      exact Scan.hit hmin ih

/-! ## In UTF-8 -/

/-- A first byte of a character stands only where a character begins. -/
theorem exists_of_firstByte {text : Text} {p q : Bytes} {b : UInt8} (hb : b.IsUTF8FirstByte)
    (h : encode text = p ++ b :: q) :
    ∃ pre post, text = pre ++ post ∧ encode pre = p ∧ encode post = b :: q := by
  induction text generalizing p with
  | nil => simp [encode] at h
  | cons c text ih =>
      cases p with
      | nil => exact ⟨[], c :: text, rfl, rfl, h⟩
      | cons b' p =>
          rw [encode_cons] at h
          rcases List.append_eq_append_iff.1 h with ⟨r, hp, htext⟩ | ⟨r, hc, hq⟩
          · obtain ⟨pre, post, rfl, hpre, hpost⟩ := ih htext
            exact ⟨c :: pre, post, rfl, by rw [encode_cons, hpre, hp], hpost⟩
          · cases r with
            | nil =>
                have htext : encode text = [] ++ b :: q := by simpa using hq.symm
                obtain ⟨pre, post, rfl, hpre, hpost⟩ := ih htext
                exact ⟨c :: pre, post, rfl, by rw [encode_cons, hpre, hc]; simp, hpost⟩
            | cons b'' r =>
                -- inside the first character there is no first byte
                obtain ⟨rfl, -⟩ := List.cons.inj hq
                have hlt : (b' :: p).length < (String.utf8EncodeChar c).length := by
                  rw [hc]
                  simp
                have hat : (String.utf8EncodeChar c)[(b' :: p).length] = b := by
                  simp [hc]
                have hzero : (b' :: p).length = 0 :=
                  (@UInt8.isUTF8FirstByte_getElem_utf8EncodeChar c _ hlt).1 (hat.symm ▸ hb)
                exact absurd hzero (Nat.succ_ne_zero p.length)

/-- The first character can be read off the bytes. -/
theorem utf8EncodeChar_append_inj {c d : Char} {x y : Bytes}
    (h : String.utf8EncodeChar c ++ x = String.utf8EncodeChar d ++ y) : c = d := by
  have hread : ∀ (e : Char) (z : Bytes),
      ByteArray.utf8DecodeChar? (String.utf8EncodeChar e ++ z).toByteArray 0 = some e := by
    intro e z
    rw [List.toByteArray_append]
    exact ByteArray.utf8DecodeChar?_utf8EncodeChar_append
  have hc := hread c x
  rw [h, hread d y] at hc
  exact (Option.some.inj hc).symm

/-- A text whose bytes stand at the front of those of another text is at its front. -/
theorem exists_of_encode_prefix {text pat : Text} {q : Bytes}
    (h : encode text = encode pat ++ q) : ∃ post, text = pat ++ post := by
  induction pat generalizing text with
  | nil => exact ⟨text, rfl⟩
  | cons c pat ih =>
      rw [encode_cons, List.append_assoc] at h
      cases text with
      | nil =>
          have hlen := congrArg List.length h
          have hpos := c.utf8Size_pos
          simp [encode] at hlen
          omega
      | cons d text =>
          rw [encode_cons] at h
          have hchar : d = c := utf8EncodeChar_append_inj h
          subst hchar
          obtain ⟨post, rfl⟩ := ih (List.append_cancel_left h)
          exact ⟨post, rfl⟩

/-- The bytes of a text stand in those of another exactly where the text stands in the other. -/
theorem occursAt_encode {p s : Text} (hp : p ≠ []) {n : Nat} :
    OccursAt (encode p) (encode s) n ↔ ∃ x y, s = x ++ (p ++ y) ∧ byteLen x = n := by
  constructor
  · rintro ⟨u, v, hs, hlen⟩
    obtain ⟨c, p', rfl⟩ := List.exists_cons_of_ne_nil hp
    obtain ⟨b, bs, hc⟩ : ∃ b bs, String.utf8EncodeChar c = b :: bs :=
      List.exists_cons_of_ne_nil String.utf8EncodeChar_ne_nil
    have hfirst : b.IsUTF8FirstByte := by
      have hzero := @UInt8.isUTF8FirstByte_getElem_zero_utf8EncodeChar c
      simpa [hc] using hzero
    have hsplit : encode s = u ++ b :: (bs ++ encode p' ++ v) := by
      rw [hs, encode_cons, hc]
      simp
    obtain ⟨x, rest, rfl, hx, hrest⟩ := exists_of_firstByte hfirst hsplit
    obtain ⟨y, rfl⟩ : ∃ y, rest = c :: p' ++ y := by
      apply exists_of_encode_prefix (q := v)
      rw [hrest, encode_cons, hc]
      simp
    exact ⟨x, y, rfl, by rw [← length_encode, hx, hlen]⟩
  · rintro ⟨x, y, rfl, rfl⟩
    exact ⟨encode x, encode y, by rw [encode_append, encode_append], length_encode x⟩

/-- A text in pieces has the length of the pieces and of what stands between them. -/
theorem byteLen_intercalate (sep : Text) {pieces : List Text} (h : pieces ≠ []) :
    byteLen (sep.intercalate pieces) + byteLen sep =
      (pieces.map byteLen).sum + pieces.length * byteLen sep := by
  induction pieces with
  | nil => exact absurd rfl h
  | cons piece pieces ih =>
      cases pieces with
      | nil => simp
      | cons next pieces =>
          have hrest := ih (List.cons_ne_nil next pieces)
          rw [List.intercalate_cons_cons, byteLen_append, byteLen_append, List.map_cons,
            List.sum_cons, List.length_cons, Nat.succ_mul]
          omega

end Lib
end Maju
