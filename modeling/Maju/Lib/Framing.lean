import Maju.Lib.Decimal
import Maju.Lib.Slice
import Mathlib.Data.Set.Function

/-!
# Framing — fields that can be cut off the front of what follows them

Bytes that are put together from several fields stand for one choice of the fields only when each
can be told from what comes after it.  This file has the usual ways to write a field so.

* `PrefixFreeOn` — what is written for a value fixes the value and the rest;
* `prefixFreeOn_of_length`, `prefixFreeOn_of_terminated` — a fixed length, a byte at the end;
* `PrefixFreeOn.counted` — the length in front;
* `PrefixFreeOn.many` — any number of fields up to a byte that none of them begins with.
-/

namespace Maju
namespace Lib

universe u v

variable {α : Type u} {β : Type v} {f : α → List β} {s : Set α}

/-- For values in `s`, what `f` writes can be cut off the front. -/
def PrefixFreeOn (f : α → List β) (s : Set α) : Prop :=
  ∀ ⦃a⦄, a ∈ s → ∀ ⦃b⦄, b ∈ s → ∀ ⦃r t : List β⦄, f a ++ r = f b ++ t → a = b ∧ r = t

/-- Fields of one length. -/
theorem prefixFreeOn_of_length {n : Nat} (hf : Set.InjOn f s) (hlen : ∀ a ∈ s, (f a).length = n) :
    PrefixFreeOn f s := by
  intro a ha b hb r t heq
  have hcut := List.append_inj heq ((hlen a ha).trans (hlen b hb).symm)
  exact ⟨hf ha hb hcut.1, hcut.2⟩

/-- Fields up to an element that none of them has. -/
theorem prefixFreeOn_of_terminated {sep : β} (hf : Set.InjOn f s) (hsep : ∀ a ∈ s, sep ∉ f a) :
    PrefixFreeOn (fun a => f a ++ [sep]) s := by
  have hcut : ∀ x y r t : List β, sep ∉ x → sep ∉ y → x ++ sep :: r = y ++ sep :: t →
      x = y ∧ r = t := by
    intro x
    induction x with
    | nil =>
        intro y r t _ hy heq
        cases y with
        | nil => exact ⟨rfl, (List.cons.inj heq).2⟩
        | cons c y => exact absurd (List.cons.inj heq).1 (List.ne_of_not_mem_cons hy)
    | cons c x ih =>
        intro y r t hx hy heq
        cases y with
        | nil => exact absurd (List.cons.inj heq).1.symm (List.ne_of_not_mem_cons hx)
        | cons d y =>
            obtain ⟨rfl, htail⟩ := List.cons.inj heq
            have hrest := ih y r t (List.not_mem_of_not_mem_cons hx)
              (List.not_mem_of_not_mem_cons hy) htail
            exact ⟨congrArg (c :: ·) hrest.1, hrest.2⟩
  intro a ha b hb r t heq
  simp only [List.append_assoc, List.singleton_append] at heq
  have hparts := hcut (f a) (f b) r t (hsep a ha) (hsep b hb) heq
  exact ⟨hf ha hb hparts.1, hparts.2⟩

/-- A field with its length in front, when the length can be cut off. -/
theorem PrefixFreeOn.counted {g : Nat → List β} (hg : PrefixFreeOn g Set.univ)
    (hf : Set.InjOn f s) : PrefixFreeOn (fun a => g (f a).length ++ f a) s := by
  intro a ha b hb r t heq
  simp only [List.append_assoc] at heq
  obtain ⟨hlen, hrest⟩ := hg (Set.mem_univ _) (Set.mem_univ _) heq
  have hcut := List.append_inj hrest hlen
  exact ⟨hf ha hb hcut.1, hcut.2⟩

/-- Any number of fields, up to an element that none of them begins with. -/
theorem PrefixFreeOn.many {sep : β} (hf : PrefixFreeOn f s)
    (hhead : ∀ a ∈ s, ∃ c rest, f a = c :: rest ∧ c ≠ sep) :
    PrefixFreeOn (fun l : List α => l.flatMap f ++ [sep]) { l | ∀ a ∈ l, a ∈ s } := by
  intro l
  induction l with
  | nil =>
      intro _ m hm r t heq
      cases m with
      | nil => exact ⟨rfl, by simpa using heq⟩
      | cons b m =>
          -- the other list goes on where this one ends
          obtain ⟨c, rest, hc, hne⟩ := hhead b (hm b List.mem_cons_self)
          simp only [List.flatMap_nil, List.flatMap_cons, hc, List.nil_append, List.cons_append]
            at heq
          exact absurd (List.cons.inj heq).1.symm hne
  | cons a l ih =>
      intro hl m hm r t heq
      cases m with
      | nil =>
          obtain ⟨c, rest, hc, hne⟩ := hhead a (hl a List.mem_cons_self)
          simp only [List.flatMap_nil, List.flatMap_cons, hc, List.nil_append, List.cons_append]
            at heq
          exact absurd (List.cons.inj heq).1 hne
      | cons b m =>
          simp only [List.flatMap_cons, List.append_assoc] at heq
          obtain ⟨rfl, htail⟩ := hf (hl a List.mem_cons_self) (hm b List.mem_cons_self) heq
          have hrest := ih (fun x hx => hl x (List.mem_cons_of_mem a hx))
            (fun x hx => hm x (List.mem_cons_of_mem a hx))
            (by simpa only [List.append_assoc] using htail)
          exact ⟨congrArg (a :: ·) hrest.1, hrest.2⟩

/-! ## Text -/

/-- An ASCII character in the bytes of a text is in the text. -/
theorem mem_of_mem_encode {c : Char} {b : UInt8} {text : Text} (hb : b < 128)
    (hc : String.utf8EncodeChar c = [b]) (h : b ∈ encode text) : c ∈ text := by
  obtain ⟨p, q, htext⟩ := List.append_of_mem h
  obtain ⟨pre, d, post, rfl, -, hd, -⟩ := exists_of_encode hb htext
  have hone : encode [c] = encode [d] := by
    simp only [encode, List.flatMap_cons, List.flatMap_nil, hc, hd]
  rw [List.cons.inj (encode_injective hone) |>.1]
  exact List.mem_append_right pre List.mem_cons_self

/-- A count in decimal digits, up to a colon. -/
def countBytes (n : Nat) : Bytes := encode (decimal n) ++ [58]

theorem countBytes_prefixFree : PrefixFreeOn countBytes Set.univ := by
  apply prefixFreeOn_of_terminated
  · exact (encode_injective.comp decimal_injective).injOn
  · intro n _ hmem
    exact not_mem_decimal (c := ':') rfl n (mem_of_mem_encode (by decide) (by decide) hmem)

/-- A text with the number of its bytes in front. -/
def countedText (text : Text) : Bytes := countBytes (byteLen text) ++ encode text

theorem countedText_prefixFree : PrefixFreeOn countedText Set.univ := by
  have hcounted := countBytes_prefixFree.counted (encode_injective.injOn (s := Set.univ))
  simp only [length_encode] at hcounted
  exact hcounted

end Lib
end Maju
