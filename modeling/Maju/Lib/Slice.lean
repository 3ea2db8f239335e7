import Maju.Lib.Decimal
import Maju.Lib.Text
import Maju.Lib.Utf8

/-!
# Slice — texts cut at offsets in bytes

The bytes below 128 stand for characters of their own in UTF-8, so where one of them is found in the
bytes of a text there is a boundary of characters on both sides of it.

* `splitAtByte`, `slice` — cuts at offsets, with nothing for an offset inside a character;
* `exists_of_encode` — the cut that belongs to a byte below 128;
* `slice_append` — a slice between two boundaries;
* `floorBoundary`, `ceilBoundary` — the loops that look for a boundary below or above an offset.
-/

namespace Maju
namespace Lib

/-! ## Bytes below 128 -/

theorem le_or_of_le {x m : UInt8} (h : 128 ≤ m) : 128 ≤ x ||| m := by
  rw [UInt8.le_iff_toNat_le] at h ⊢
  rw [UInt8.toNat_or]
  exact Nat.le_trans h Nat.right_le_or

/-- A character is one byte below 128 or has none. -/
theorem utf8EncodeChar_cases (c : Char) :
    (∃ b, b < 128 ∧ String.utf8EncodeChar c = [b]) ∨ ∀ b ∈ String.utf8EncodeChar c, 128 ≤ b := by
  have hsize : c.utf8Size = 1 ∨ c.utf8Size = 2 ∨ c.utf8Size = 3 ∨ c.utf8Size = 4 := by
    have hpos := c.utf8Size_pos
    have hle := c.utf8Size_le_four
    omega
  rcases hsize with h | h | h | h
  · refine Or.inl ⟨c.val.toUInt8, ?_, String.utf8EncodeChar_eq_singleton h⟩
    have hval : c.val ≤ 127 := by simpa [Char.utf8Size_eq_one_iff] using h
    rw [UInt32.le_iff_toNat_le] at hval
    rw [UInt8.lt_iff_toNat_lt, UInt32.toNat_toUInt8]
    have hsmall : c.val.toNat ≤ 127 := hval
    have hmod : c.val.toNat % 2 ^ 8 = c.val.toNat := Nat.mod_eq_of_lt (by omega)
    rw [hmod]
    exact Nat.lt_succ_of_le hsmall
  · rw [String.utf8EncodeChar_eq_cons_cons h]
    refine Or.inr ?_
    simp only [List.forall_mem_cons, List.not_mem_nil, false_imp_iff, implies_true, and_true]
    exact ⟨le_or_of_le (by decide), le_or_of_le (by decide)⟩
  · rw [String.utf8EncodeChar_eq_cons_cons_cons h]
    refine Or.inr ?_
    simp only [List.forall_mem_cons, List.not_mem_nil, false_imp_iff, implies_true, and_true]
    exact ⟨le_or_of_le (by decide), le_or_of_le (by decide), le_or_of_le (by decide)⟩
  · rw [String.utf8EncodeChar_eq_cons_cons_cons_cons h]
    refine Or.inr ?_
    simp only [List.forall_mem_cons, List.not_mem_nil, false_imp_iff, implies_true, and_true]
    exact ⟨le_or_of_le (by decide), le_or_of_le (by decide), le_or_of_le (by decide),
      le_or_of_le (by decide)⟩

/-- A byte below 128 in a character is all of it. -/
theorem utf8EncodeChar_eq_singleton_of_mem {c : Char} {b : UInt8} (hb : b < 128)
    (h : b ∈ String.utf8EncodeChar c) : String.utf8EncodeChar c = [b] := by
  rcases utf8EncodeChar_cases c with ⟨b', -, heq⟩ | hhigh
  · rw [heq] at h ⊢
    rw [List.mem_singleton.1 h]
  · exact absurd hb (UInt8.not_lt.2 (hhigh b h))

/-- Where a byte below 128 stands in the bytes of a text, a character stands in the text. -/
theorem exists_of_encode {text : Text} {p q : Bytes} {b : UInt8} (hb : b < 128)
    (h : encode text = p ++ b :: q) :
    ∃ pre c post, text = pre ++ c :: post ∧ encode pre = p ∧ String.utf8EncodeChar c = [b] ∧
      encode post = q := by
  induction text generalizing p with
  | nil => simp [encode] at h
  | cons c text ih =>
      rw [encode_cons] at h
      have hrest : ∀ p', encode text = p' ++ b :: q → p = String.utf8EncodeChar c ++ p' →
          ∃ pre d post, c :: text = pre ++ d :: post ∧ encode pre = p ∧
            String.utf8EncodeChar d = [b] ∧ encode post = q := by
        intro p' htext hp
        obtain ⟨pre, d, post, rfl, hpre, hd, hpost⟩ := ih htext
        exact ⟨c :: pre, d, post, rfl, by rw [encode_cons, hpre, hp], hd, hpost⟩
      rcases List.append_eq_append_iff.1 h with ⟨r, hp, htext⟩ | ⟨r, hc, hq⟩
      · exact hrest r htext hp
      · cases r with
        | nil => exact hrest [] (by simpa using hq.symm) (by simpa using hc.symm)
        | cons b' r =>
            obtain ⟨rfl, htail⟩ := List.cons.inj hq
            -- the byte stands in the first character
            have hone := utf8EncodeChar_eq_singleton_of_mem hb
              (hc ▸ List.mem_append_right p List.mem_cons_self)
            rw [hone] at hc
            have hpr : p = [] ∧ r = [] := by
              cases p with
              | nil => exact ⟨rfl, by simpa using hc⟩
              | cons a p => simp at hc
            obtain ⟨rfl, rfl⟩ := hpr
            exact ⟨[], c, text, rfl, rfl, hone, by simpa using htail.symm⟩

/-! ## Cuts -/

theorem length_encode (text : Text) : (encode text).length = byteLen text := by
  induction text with
  | nil => rfl
  | cons c text ih => simp [encode_cons, ih]

theorem byteLen_eq_zero_iff {s : Text} : byteLen s = 0 ↔ s = [] := by
  cases s with
  | nil => simp
  | cons c s => simp [Nat.ne_of_gt c.utf8Size_pos]

theorem length_le_byteLen (s : Text) : s.length ≤ byteLen s := by
  induction s with
  | nil => exact Nat.le_refl 0
  | cons c s ih =>
      have hpos := Char.utf8Size_pos c
      rw [List.length_cons, byteLen_cons]
      omega

theorem byteLen_eq_length {s : Text} (h : ∀ c ∈ s, c.utf8Size = 1) : byteLen s = s.length := by
  induction s with
  | nil => rfl
  | cons c s ih =>
      rw [byteLen_cons, h c List.mem_cons_self, ih fun d hd => h d (List.mem_cons_of_mem c hd),
        List.length_cons, Nat.add_comm]

/-- Digits are one byte each. -/
theorem byteLen_decimal (n : Nat) : byteLen (decimal n) = (decimal n).length := by
  refine byteLen_eq_length fun c hc => ?_
  have hdigit := isDigit_of_mem_decimal hc
  simp only [Char.isDigit, Bool.and_eq_true, decide_eq_true_eq] at hdigit
  exact Char.utf8Size_eq_one_iff.2 (UInt32.le_trans hdigit.2 (by decide))

/-- The text up to an offset and the text from there, if the offset is a boundary. -/
def splitAtByte : Text → Nat → Option (Text × Text)
  | text, 0 => some ([], text)
  | [], _ + 1 => none
  | c :: text, n + 1 =>
      if c.utf8Size ≤ n + 1 then
        (splitAtByte text (n + 1 - c.utf8Size)).map fun e => (c :: e.1, e.2)
      else none

/-- `&text[start..stop]`, with nothing where Rust panics. -/
def slice (text : Text) (start stop : Nat) : Option Text :=
  if start ≤ stop then
    (splitAtByte text stop).bind fun e => (splitAtByte e.1 start).map Prod.snd
  else none

theorem splitAtByte_append (pre post : Text) :
    splitAtByte (pre ++ post) (byteLen pre) = some (pre, post) := by
  induction pre with
  | nil =>
      cases post <;> rfl
  | cons c pre ih =>
      obtain ⟨n, hn⟩ : ∃ n, byteLen (c :: pre) = n + 1 :=
        Nat.exists_eq_succ_of_ne_zero (by simp [Nat.ne_of_gt c.utf8Size_pos])
      have hrest : n + 1 - c.utf8Size = byteLen pre := by
        rw [← hn, byteLen_cons, Nat.add_sub_cancel_left]
      have hle : c.utf8Size ≤ n + 1 := by
        rw [← hn, byteLen_cons]
        exact Nat.le_add_right _ _
      rw [hn, List.cons_append, splitAtByte, if_pos hle, hrest, ih]
      rfl

/-- A slice between two boundaries is what stands between them. -/
theorem slice_append (pre mid post : Text) :
    slice (pre ++ (mid ++ post)) (byteLen pre) (byteLen pre + byteLen mid) = some mid := by
  have hstop := splitAtByte_append (pre ++ mid) post
  rw [byteLen_append, List.append_assoc] at hstop
  rw [slice, if_pos (Nat.le_add_right _ _), hstop, Option.bind_some, splitAtByte_append]
  rfl

theorem splitAtByte_eq_some_iff {s pre post : Text} {n : Nat} :
    splitAtByte s n = some (pre, post) ↔ s = pre ++ post ∧ byteLen pre = n := by
  constructor
  · intro h
    induction s generalizing n pre with
    | nil =>
        cases n with
        | zero =>
            cases h
            exact ⟨rfl, rfl⟩
        | succ n => cases h
    | cons c s ih =>
        cases n with
        | zero =>
            cases h
            exact ⟨rfl, rfl⟩
        | succ n =>
            rw [splitAtByte] at h
            split_ifs at h with hfits
            obtain ⟨⟨front, back⟩, hsplit, heq⟩ := Option.map_eq_some_iff.1 h
            cases heq
            obtain ⟨hs, hlen⟩ := ih hsplit
            refine ⟨by rw [hs, List.cons_append], ?_⟩
            rw [byteLen_cons, hlen]
            omega
  · rintro ⟨rfl, rfl⟩
    exact splitAtByte_append pre post

/-! ## Boundaries -/

/-- `str::is_char_boundary`. -/
def isCharBoundary (s : Text) (cut : Nat) : Bool := (splitAtByte s cut).isSome

/-- `while cut > 0 && !s.is_char_boundary(cut) { cut -= 1 }`. -/
def floorBoundary (s : Text) : Nat → Nat
  | 0 => 0
  | cut + 1 => if isCharBoundary s (cut + 1) then cut + 1 else floorBoundary s cut

/-- `while cut < s.len() && !s.is_char_boundary(cut) { cut += 1 }`. -/
def ceilBoundary (s : Text) (cut : Nat) : Nat :=
  if cut < byteLen s ∧ isCharBoundary s cut = false then ceilBoundary s (cut + 1) else cut
termination_by byteLen s - cut

theorem isCharBoundary_iff {s : Text} {cut : Nat} :
    isCharBoundary s cut = true ↔ ∃ pre post, s = pre ++ post ∧ byteLen pre = cut := by
  rw [isCharBoundary, Option.isSome_iff_exists]
  constructor
  · rintro ⟨⟨pre, post⟩, h⟩
    exact ⟨pre, post, splitAtByte_eq_some_iff.1 h⟩
  · rintro ⟨pre, post, h⟩
    exact ⟨(pre, post), splitAtByte_eq_some_iff.2 h⟩

theorem floorBoundary_le (s : Text) (cut : Nat) : floorBoundary s cut ≤ cut := by
  induction cut with
  | zero => exact Nat.le_refl 0
  | succ cut ih =>
      rw [floorBoundary]
      split
      · exact Nat.le_refl _
      · exact Nat.le_succ_of_le ih

theorem isCharBoundary_floorBoundary (s : Text) (cut : Nat) :
    isCharBoundary s (floorBoundary s cut) = true := by
  induction cut with
  | zero => exact isCharBoundary_iff.2 ⟨[], s, rfl, rfl⟩
  | succ cut ih =>
      rw [floorBoundary]
      split
      · next h => exact h
      · exact ih

theorem ceilBoundary_spec (s : Text) (cut : Nat) (h : cut ≤ byteLen s) :
    cut ≤ ceilBoundary s cut ∧ ceilBoundary s cut ≤ byteLen s ∧
      isCharBoundary s (ceilBoundary s cut) = true := by
  induction cut using ceilBoundary.induct (s := s) with
  | case1 cut hnot ih =>
      obtain ⟨hle, hend, hat⟩ := ih hnot.1
      rw [ceilBoundary, if_pos hnot]
      exact ⟨Nat.le_of_succ_le hle, hend, hat⟩
  | case2 cut hstop =>
      rw [ceilBoundary, if_neg hstop]
      refine ⟨Nat.le_refl _, h, ?_⟩
      by_cases hlt : cut < byteLen s
      · simpa [hlt] using hstop
      · -- the end of the text
        have hend : byteLen s = cut := Nat.le_antisymm (Nat.le_of_not_lt hlt) h
        exact isCharBoundary_iff.2 ⟨s, [], (List.append_nil s).symm, hend⟩

/-- A text is cut below an offset. -/
theorem exists_floor_split (s : Text) (cut : Nat) :
    ∃ pre post, s = pre ++ post ∧ splitAtByte s (floorBoundary s cut) = some (pre, post) ∧
      byteLen pre ≤ cut := by
  obtain ⟨pre, post, hs, hlen⟩ := isCharBoundary_iff.1 (isCharBoundary_floorBoundary s cut)
  exact ⟨pre, post, hs, splitAtByte_eq_some_iff.2 ⟨hs, hlen⟩, hlen ▸ floorBoundary_le s cut⟩

/-- A text is cut above an offset. -/
theorem exists_ceil_split (s : Text) {cut : Nat} (h : cut ≤ byteLen s) :
    ∃ pre post, s = pre ++ post ∧ splitAtByte s (ceilBoundary s cut) = some (pre, post) ∧
      cut ≤ byteLen pre := by
  obtain ⟨hle, _, hat⟩ := ceilBoundary_spec s cut h
  obtain ⟨pre, post, hs, hlen⟩ := isCharBoundary_iff.1 hat
  exact ⟨pre, post, hs, splitAtByte_eq_some_iff.2 ⟨hs, hlen⟩, hlen ▸ hle⟩

end Lib
end Maju
