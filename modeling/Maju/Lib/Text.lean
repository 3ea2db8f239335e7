import Mathlib.Data.List.Infix
import Mathlib.Data.List.TakeWhile
import Mathlib.Algebra.GroupWithZero.Nat

/-!
# Text — functions of the standard library on text

Text is a list of characters; its length in bytes is that of its UTF-8 form.
-/

namespace Maju
namespace Lib

/-- Text as `String` holds it. -/
abbrev Text := List Char

-- named, so that every lookup by text refers to one instance
instance lawfulBEqText : LawfulBEq (List Char) := inferInstance

/-- `str::len`: the length in UTF-8. -/
def byteLen (text : Text) : Nat := (text.map Char.utf8Size).sum

@[simp] theorem byteLen_nil : byteLen [] = 0 := rfl

@[simp] theorem byteLen_cons (c : Char) (s : Text) : byteLen (c :: s) = c.utf8Size + byteLen s := by
  simp [byteLen]

@[simp] theorem byteLen_append (s t : Text) : byteLen (s ++ t) = byteLen s + byteLen t := by
  simp [byteLen]

/-- `str::contains`. -/
def containsText (s piece : Text) : Bool := s.tails.any fun t => piece.isPrefixOf t

theorem containsText_iff {s piece : Text} : containsText s piece = true ↔ piece <:+: s := by
  rw [containsText, List.any_eq_true, List.infix_iff_prefix_suffix]
  simp [List.isPrefixOf_iff_prefix, and_comm]

/-- `str::strip_prefix`. -/
def afterPrefix (p s : Text) : Option Text :=
  if p.isPrefixOf s then some (s.drop p.length) else none

theorem afterPrefix_eq_some_iff {p s rest : Text} : afterPrefix p s = some rest ↔ s = p ++ rest := by
  unfold afterPrefix
  by_cases hp : p <+: s
  · obtain ⟨t, ht⟩ := hp
    rw [← ht]
    simp
  · have hnot : p.isPrefixOf s = false := by
      rw [← Bool.not_eq_true, List.isPrefixOf_iff_prefix]
      exact hp
    rw [hnot]
    constructor
    · intro h
      cases h
    · intro h
      exact absurd ⟨rest, h.symm⟩ hp

/-- `char::is_whitespace`. -/
def isWhitespace (c : Char) : Bool :=
  let n := c.toNat
  (9 ≤ n && n ≤ 13) || n = 0x20 || n = 0x85 || n = 0xA0 || n = 0x1680 ||
    (0x2000 ≤ n && n ≤ 0x200A) || n = 0x2028 || n = 0x2029 || n = 0x202F || n = 0x205F || n = 0x3000

/-- `str::trim`. -/
def trim (s : Text) : Text :=
  ((s.dropWhile isWhitespace).reverse.dropWhile isWhitespace).reverse

/-- A text without white space is its own trim. -/
theorem trim_eq_self {s : Text} (h : ∀ c ∈ s, isWhitespace c = false) : trim s = s := by
  have hdrop : ∀ t : Text, (∀ c ∈ t, isWhitespace c = false) →
      t.dropWhile isWhitespace = t := by
    intro t ht
    cases t with
    | nil => rfl
    | cons c t => simp [ht c List.mem_cons_self]
  rw [trim, hdrop s h, hdrop s.reverse fun c hc => h c (List.mem_reverse.1 hc), List.reverse_reverse]

theorem isAlphanum_iff {c : Char} : c.isAlphanum = true ↔
    ((65 ≤ c.toNat ∧ c.toNat ≤ 90) ∨ (97 ≤ c.toNat ∧ c.toNat ≤ 122)) ∨
      (48 ≤ c.toNat ∧ c.toNat ≤ 57) := by
  change ((decide (65 ≤ c.val ∧ c.val ≤ 90) || (decide (97 ≤ c.val) && decide (c.val ≤ 122))) ||
    (decide (48 ≤ c.val) && decide (c.val ≤ 57))) = true ↔ _
  simp only [Bool.or_eq_true, Bool.and_eq_true, decide_eq_true_eq, UInt32.le_iff_toNat_le]
  rfl

/-- Letters and digits are ASCII. -/
theorem toNat_lt_of_isAlphanum {c : Char} (h : c.isAlphanum = true) : c.toNat < 128 := by
  have hranges := isAlphanum_iff.1 h
  omega

end Lib
end Maju
