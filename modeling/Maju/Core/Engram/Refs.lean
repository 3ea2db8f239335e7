import Maju.Core.Engram.Slug
import Maju.Lib.Brackets

/-!
# Refs — references between engrams

A body refers to another engram by its slug in doubled brackets.  The scanner works on the bytes of
the body; it starts again at an inner doubled bracket and goes on behind a closed candidate, whether
it was a slug or not.

* `extractRefs` — the scanner, with nothing for a slice inside a character;
* `IsReference` — an occurrence of a slug in doubled brackets behind an even run of brackets;
* `extract_refs_exact` — the scanner finds exactly these, once each and in the order in which they
  first occur.
-/

namespace Maju
namespace Core
namespace Engram

open Lib

/-! ## The scanner -/

/-- `b'['`. -/
def openBracket : UInt8 := 91

/-- `b']'`. -/
def closeBracket : UInt8 := 93

/-- `validate_slug(candidate).is_ok()`. -/
def isSlug (candidate : Text) : Bool :=
  match validateSlug candidate with
  | .ok _ => true
  | .error _ => false

/-- A candidate is kept if it is a slug that was not seen before. -/
def push (out : List Text) (candidate : Text) : List Text :=
  if isSlug candidate && !out.contains candidate then out ++ [candidate] else out

/-- The inner loop: from `j` to an inner `[[` or to the next `]]`, and whether it was the latter. -/
def innerScan (body : Text) (j : Nat) : Nat × Bool :=
  findClose openBracket closeBracket (encode body) j

/-- The outer loop of `extract_refs` from byte `i`. -/
def scan (body : Text) (i : Nat) (out : List Text) : Option (List Text) :=
  if i + 3 < (encode body).length then
    if pairAt openBracket (encode body) i then
      if (innerScan body (i + 2)).2 then
        match slice body (i + 2) (innerScan body (i + 2)).1 with
        | none => none
        | some candidate => scan body ((innerScan body (i + 2)).1 + 2) (push out candidate)
      else
        -- an inner `[[` or no `]]` at all: on behind the two brackets
        scan body (i + 2) out
    else scan body (i + 1) out
  else some out
termination_by (encode body).length - i
decreasing_by
  · have hle : i + 2 ≤ (innerScan body (i + 2)).1 := le_findClose _ _ _ _
    omega
  · omega
  · omega

def extractRefs (body : Text) : Option (List Text) := scan body 0 []

/-! ## References -/

/-- The maximal run of opening brackets at the end of a text. -/
def openRun (text : Text) : Nat := (text.reverse.takeWhile (· = '[')).length

/-- At byte `n` there is `[[slug]]`, and the run of brackets right before the slug is even. -/
def IsReference (body : Text) (n : Nat) (slug : Text) : Prop :=
  ∃ before after, body = before ++ ('[' :: '[' :: (slug ++ ']' :: ']' :: after)) ∧
    byteLen before = n ∧ Even (openRun (before ++ ['[', '[']))

/-! ## Brackets in the bytes -/

theorem encode_openBracket : String.utf8EncodeChar '[' = [openBracket] := by decide

theorem encode_closeBracket : String.utf8EncodeChar ']' = [closeBracket] := by decide

theorem eq_of_utf8EncodeChar {c d : Char} (h : String.utf8EncodeChar c = String.utf8EncodeChar d) :
    c = d := by
  have hlist : encode [c] = encode [d] := by simpa [encode] using h
  exact (List.cons.inj (encode_injective hlist)).1

theorem pairAt_append {b : UInt8} (p l : Bytes) (n : Nat) :
    pairAt b (p ++ l) (p.length + n) = pairAt b l n := by
  have hnext : p.length + n + 1 = p.length + (n + 1) := rfl
  simp only [pairAt, hnext, List.getElem?_append_right (Nat.le_add_right _ _),
    Nat.add_sub_cancel_left]

theorem exists_of_pairAt {text : Text} {n : Nat} {b : UInt8} {c : Char} (hb : b < 128)
    (hc : String.utf8EncodeChar c = [b]) (h : pairAt b (encode text) n = true) :
    ∃ pre post, text = pre ++ c :: c :: post ∧ byteLen pre = n := by
  obtain ⟨hfirst, hsecond⟩ := pairAt_iff.1 h
  obtain ⟨hn, hbyte⟩ := List.getElem?_eq_some_iff.1 hfirst
  obtain ⟨hn', hbyte'⟩ := List.getElem?_eq_some_iff.1 hsecond
  have hnext : (encode text).drop (n + 1) = b :: (encode text).drop (n + 2) := by
    rw [List.drop_eq_getElem_cons hn', hbyte']
  have hboth : (encode text).drop n = b :: b :: (encode text).drop (n + 2) := by
    rw [List.drop_eq_getElem_cons hn, hbyte, hnext]
  have hsplit : encode text =
      (encode text).take n ++ b :: b :: (encode text).drop (n + 2) := by
    rw [← hboth, List.take_append_drop]
  obtain ⟨pre, d, rest, rfl, hpre, hd, hrest⟩ := exists_of_encode hb hsplit
  obtain rfl := eq_of_utf8EncodeChar (hd.trans hc.symm)
  obtain ⟨pre', d', post, rfl, hpre', hd', -⟩ :=
    exists_of_encode (p := []) hb (by simpa using hrest)
  obtain rfl := eq_of_utf8EncodeChar (hd'.trans hc.symm)
  have hnil : pre' = [] := encode_injective hpre'
  subst hnil
  refine ⟨pre, post, rfl, ?_⟩
  rw [← length_encode, hpre, List.length_take]
  omega

theorem openRun_concat (text : Text) (c : Char) :
    openRun (text ++ [c]) = if c = '[' then openRun text + 1 else 0 := by
  rw [openRun, List.reverse_append, List.reverse_singleton, List.singleton_append,
    List.takeWhile_cons]
  by_cases hc : c = '['
  · simp [hc, openRun]
  · simp [hc]

theorem length_takeWhile_encode (before : Text) :
    ((encode before).reverse.takeWhile (· = openBracket)).length = openRun before := by
  induction before using List.reverseRecOn with
  | nil => rfl
  | append_singleton before c ih =>
      have hconcat : encode (before ++ [c]) = encode before ++ String.utf8EncodeChar c := by
        simp [encode]
      rw [openRun_concat, hconcat, List.reverse_append]
      by_cases hc : c = '['
      · subst hc
        rw [encode_openBracket, if_pos rfl, ← ih]
        simp
      · have hnot : openBracket ∉ String.utf8EncodeChar c := by
          intro hmem
          have hone := utf8EncodeChar_eq_singleton_of_mem (by decide) hmem
          exact hc (eq_of_utf8EncodeChar (hone.trans encode_openBracket.symm))
        obtain ⟨b, bytes, hbytes⟩ : ∃ b bytes, (String.utf8EncodeChar c).reverse = b :: bytes :=
          List.exists_cons_of_ne_nil (by simp [String.utf8EncodeChar_ne_nil])
        have hb : b ≠ openBracket := by
          rintro rfl
          exact hnot (List.mem_reverse.1 (hbytes ▸ List.mem_cons_self))
        rw [hbytes, if_neg hc]
        simp [hb]

theorem runBefore_encode (before rest : Text) :
    runBefore openBracket (encode (before ++ rest)) (byteLen before) = openRun before := by
  have hle : byteLen before ≤ (encode (before ++ rest)).length := by
    rw [length_encode, byteLen_append]
    exact Nat.le_add_right _ _
  have htake : (encode (before ++ rest)).take (byteLen before) = encode before := by
    rw [encode_append, ← length_encode, List.take_left']
    rfl
  rw [runBefore_eq hle, htake, length_takeWhile_encode]

theorem even_openRun_iff (before : Text) :
    Even (openRun (before ++ ['[', '['])) ↔ Even (openRun before) := by
  have htwo : openRun (before ++ ['[', '[']) = openRun before + 2 := by
    have hsplit : before ++ ['[', '['] = (before ++ ['[']) ++ ['['] := by simp
    rw [hsplit, openRun_concat, openRun_concat]
    rfl
  have hparity : Even 2 := ⟨1, rfl⟩
  rw [htwo, Nat.even_add]
  exact iff_true_right hparity

/-! ## Pieces and candidates -/

/-- The pieces of the body, by start and end. -/
def pieces (body : Text) : List (Nat × Nat) := spans openBracket closeBracket (encode body) 0

theorem exists_of_mem_spans {body : Text} {i : Nat} {e : Nat × Nat}
    (h : e ∈ spans openBracket closeBracket (encode body) i) :
    ∃ before piece after, body = before ++ ('[' :: '[' :: (piece ++ ']' :: ']' :: after)) ∧
      e = (byteLen before + 2, byteLen before + 2 + byteLen piece) := by
  obtain ⟨s, hs, -, hle, hopen, hclose⟩ := of_mem_spans h
  obtain ⟨before, rest, rfl, hbefore⟩ := exists_of_pairAt (by decide) encode_openBracket hopen
  obtain ⟨k, hk⟩ : ∃ k, e.2 = byteLen before + 2 + k := ⟨e.2 - (byteLen before + 2), by omega⟩
  have hhead : (encode (before ++ ['[', '['])).length = byteLen before + 2 := by
    rw [length_encode, byteLen_append]
    rfl
  have hrest : pairAt closeBracket (encode rest) k = true := by
    have hmove := pairAt_append (b := closeBracket) (encode (before ++ ['[', '['])) (encode rest) k
    rw [hhead, ← hk, ← encode_append, List.append_assoc] at hmove
    rw [← hmove]
    exact hclose
  obtain ⟨piece, after, rfl, hpiece⟩ := exists_of_pairAt (by decide) encode_closeBracket hrest
  refine ⟨before, piece, after, rfl, Prod.ext ?_ ?_⟩
  · dsimp only
    omega
  · dsimp only
    omega

theorem slice_piece (before piece after : Text) :
    slice (before ++ ('[' :: '[' :: (piece ++ ']' :: ']' :: after))) (byteLen before + 2)
      (byteLen before + 2 + byteLen piece) = some piece := by
  have hslice := slice_append (before ++ ['[', '[']) piece (']' :: ']' :: after)
  rw [byteLen_append, List.append_assoc] at hslice
  exact hslice

def candidate (body : Text) (e : Nat × Nat) : Text := (slice body e.1 e.2).getD []

theorem slice_eq_candidate {body : Text} {i : Nat} {e : Nat × Nat}
    (h : e ∈ spans openBracket closeBracket (encode body) i) :
    slice body e.1 e.2 = some (candidate body e) := by
  obtain ⟨before, piece, after, rfl, rfl⟩ := exists_of_mem_spans h
  simp only [candidate, slice_piece, Option.getD_some]

theorem scan_eq (body : Text) (i : Nat) (out : List Text) :
    scan body i out =
      some (((spans openBracket closeBracket (encode body) i).map (candidate body)).foldl push
        out) := by
  induction i using spans.induct openBracket closeBracket (encode body) generalizing out with
  | case1 i hlt hopen hclosed ih =>
      have hhead : (i + 2, (innerScan body (i + 2)).1) ∈
          spans openBracket closeBracket (encode body) i := by
        rw [spans, if_pos hlt, if_pos hopen, if_pos hclosed]
        exact List.mem_cons_self
      have hslice := slice_eq_candidate hhead
      rw [scan, if_pos hlt, if_pos hopen, innerScan, if_pos hclosed]
      simp only [innerScan] at hslice
      rw [hslice]
      dsimp only
      rw [ih, spans.eq_def _ _ _ i, if_pos hlt, if_pos hopen, if_pos hclosed, List.map_cons,
        List.foldl_cons]
  | case2 i hlt hopen hclosed ih =>
      rw [scan, if_pos hlt, if_pos hopen, innerScan, if_neg hclosed, ih, spans.eq_def _ _ _ i,
        if_pos hlt, if_pos hopen, if_neg hclosed]
  | case3 i hlt hopen ih =>
      rw [scan, if_pos hlt, if_neg hopen, ih, spans.eq_def _ _ _ i, if_pos hlt, if_neg hopen]
  | case4 i hend => rw [scan, if_neg hend, spans, if_neg hend, List.map_nil, List.foldl_nil]

/-! ## What is kept -/

theorem push_spec (candidates : List Text) :
    (candidates.foldl push []).Nodup ∧
      (∀ s, s ∈ candidates.foldl push [] ↔ isSlug s = true ∧ s ∈ candidates) ∧
      (candidates.foldl push []).Pairwise fun s t => candidates.idxOf s < candidates.idxOf t := by
  induction candidates using List.reverseRecOn with
  | nil => simp
  | append_singleton candidates c ih =>
      obtain ⟨hnodup, hmem, horder⟩ := ih
      rw [List.foldl_append, List.foldl_cons, List.foldl_nil]
      generalize candidates.foldl push [] = out at hnodup hmem horder
      have horder' : out.Pairwise fun s t =>
          (candidates ++ [c]).idxOf s < (candidates ++ [c]).idxOf t := by
        refine horder.imp_of_mem fun hs ht hlt => ?_
        rw [List.idxOf_append_of_mem ((hmem _).1 hs).2, List.idxOf_append_of_mem ((hmem _).1 ht).2]
        exact hlt
      by_cases hnew : isSlug c = true ∧ c ∉ out
      · have hpush : push out c = out ++ [c] := by simp [push, hnew]
        have hfirst : c ∉ candidates := fun hc => hnew.2 ((hmem c).2 ⟨hnew.1, hc⟩)
        rw [hpush]
        refine ⟨?_, fun s => ?_, ?_⟩
        · rw [List.nodup_append]
          refine ⟨hnodup, List.pairwise_singleton _ _, ?_⟩
          rintro s hs t ht rfl
          exact hnew.2 (List.mem_singleton.1 ht ▸ hs)
        · simp only [List.mem_append, List.mem_singleton, hmem]
          constructor
          · rintro (⟨hs, hin⟩ | rfl)
            · exact ⟨hs, Or.inl hin⟩
            · exact ⟨hnew.1, Or.inr rfl⟩
          · rintro ⟨hs, hin | rfl⟩
            · exact Or.inl ⟨hs, hin⟩
            · exact Or.inr rfl
        · rw [List.pairwise_append]
          refine ⟨horder', List.pairwise_singleton _ _, fun s hs t ht => ?_⟩
          rw [List.mem_singleton.1 ht, List.idxOf_append_of_mem ((hmem s).1 hs).2,
            List.idxOf_append_of_notMem hfirst]
          exact Nat.lt_add_right _ (List.idxOf_lt_length_of_mem ((hmem s).1 hs).2)
      · have hpush : push out c = out := by
          rw [push, if_neg]
          simpa using hnew
        rw [hpush]
        refine ⟨hnodup, fun s => ?_, horder'⟩
        rw [hmem, List.mem_append, List.mem_singleton]
        constructor
        · exact fun h => ⟨h.1, Or.inl h.2⟩
        · rintro ⟨hs, hin | rfl⟩
          · exact ⟨hs, hin⟩
          · -- a slug that was seen before
            by_contra hnot
            exact hnew ⟨hs, fun hout => hnot ((hmem s).1 hout)⟩

theorem exists_of_idxOf_lt {β : Type} {r : β → β → Prop} {g : β → Text} {l : List β} {s t : Text}
    (hl : l.Pairwise r) (hlt : (l.map g).idxOf s < (l.map g).idxOf t) (hs : s ∈ l.map g) :
    ∃ e ∈ l, g e = s ∧ ∀ f ∈ l, g f = t → r e f := by
  induction l with
  | nil => cases hs
  | cons a l ih =>
      obtain ⟨hfirst, hrest⟩ := List.pairwise_cons.1 hl
      rw [List.map_cons] at hlt hs
      have hat : g a ≠ t := by
        intro heq
        rw [heq, List.idxOf_cons_self] at hlt
        exact absurd hlt (Nat.not_lt_zero _)
      by_cases hsa : g a = s
      · refine ⟨a, List.mem_cons_self, hsa, fun f hf hft => ?_⟩
        rcases List.mem_cons.1 hf with rfl | hf
        · exact absurd hft hat
        · exact hfirst f hf
      · rw [List.idxOf_cons_ne _ hsa, List.idxOf_cons_ne _ hat] at hlt
        have hs' := (List.mem_cons.1 hs).resolve_left (Ne.symm hsa)
        obtain ⟨e, he, hes, hbefore⟩ := ih hrest (Nat.lt_of_succ_lt_succ hlt) hs'
        refine ⟨e, List.mem_cons_of_mem a he, hes, fun f hf hft => ?_⟩
        rcases List.mem_cons.1 hf with rfl | hf
        · exact absurd hft hat
        · exact hbefore f hf hft

/-! ## The references of a body -/

theorem isSlug_iff {s : Text} : isSlug s = true ↔ validateSlug s = .ok () := by
  unfold isSlug
  split
  · next h => simp [h]
  · next h => simp [h]

theorem plain_slug {slug : Text} (before rest : Text) (h : isSlug slug = true) :
    Plain openBracket closeBracket (encode (before ++ ('[' :: '[' :: (slug ++ rest))))
      (byteLen before + 2) (byteLen before + 2 + byteLen slug) := by
  intro m hm hlt
  have hbytes := validateSlug_bytes (isSlug_iff.1 h)
  have hhead : (encode (before ++ ['[', '['])).length = byteLen before + 2 := by
    rw [length_encode, byteLen_append]
    rfl
  have hsplit : encode (before ++ ('[' :: '[' :: (slug ++ rest))) =
      encode (before ++ ['[', '[']) ++ (encode slug ++ encode rest) := by
    rw [← encode_append, ← encode_append, List.append_assoc]
    rfl
  have hin : m - (byteLen before + 2) < (encode slug).length := by
    rw [length_encode]
    omega
  rw [hsplit, List.getElem?_append_right (by omega), hhead, List.getElem?_append_left hin,
    List.getElem?_eq_getElem hin]
  have hbyte := hbytes _ (List.getElem_mem hin)
  constructor
  · intro heq
    rw [Option.some.inj heq] at hbyte
    exact absurd hbyte (by decide)
  · intro heq
    rw [Option.some.inj heq] at hbyte
    exact absurd hbyte (by decide)

theorem isReference_iff {body slug : Text} (h : isSlug slug = true) (n : Nat) :
    IsReference body n slug ↔
      ∃ e ∈ pieces body, e.1 = n + 2 ∧ candidate body e = slug := by
  have hpair : ∀ before after body : Text,
      body = before ++ ('[' :: '[' :: (slug ++ ']' :: ']' :: after)) →
      ((byteLen before + 2, byteLen before + 2 + byteLen slug) ∈ pieces body ↔
        Even (openRun (before ++ ['[', '[']))) := by
    rintro before after body rfl
    have hplain := plain_slug before (']' :: ']' :: after) h
    have hopen : pairAt openBracket
        (encode (before ++ ('[' :: '[' :: (slug ++ ']' :: ']' :: after)))) (byteLen before) = true := by
      have hmove := pairAt_append (b := openBracket) (encode before)
        (encode ('[' :: '[' :: (slug ++ ']' :: ']' :: after))) 0
      rw [length_encode, ← encode_append] at hmove
      rw [← Nat.add_zero (byteLen before), hmove]
      rfl
    have hclose : pairAt closeBracket
        (encode (before ++ ('[' :: '[' :: (slug ++ ']' :: ']' :: after))))
        (byteLen before + 2 + byteLen slug) = true := by
      have hmove := pairAt_append (b := closeBracket) (encode (before ++ ('[' :: '[' :: slug)))
        (encode (']' :: ']' :: after)) 0
      have hlen : (encode (before ++ ('[' :: '[' :: slug))).length =
          byteLen before + 2 + byteLen slug := by
        rw [length_encode, byteLen_append, byteLen_cons, byteLen_cons, Nat.add_assoc,
          ← Nat.add_assoc _ _ (byteLen slug)]
        rfl
      rw [hlen, ← encode_append, List.append_assoc] at hmove
      exact hmove
    rw [pieces, mem_spans_iff (by decide) aligned_zero (Nat.le_add_right _ _) hplain,
      even_openRun_iff, runBefore_encode]
    simp only [Nat.zero_le, hopen, hclose, true_and]
  constructor
  · rintro ⟨before, after, rfl, rfl, heven⟩
    refine ⟨_, (hpair before after _ rfl).2 heven, rfl, ?_⟩
    rw [candidate, slice_piece, Option.getD_some]
  · rintro ⟨e, he, hstart, hslug⟩
    obtain ⟨before, piece, after, rfl, rfl⟩ := exists_of_mem_spans he
    rw [candidate, slice_piece, Option.getD_some] at hslug
    subst hslug
    exact ⟨before, after, rfl, Nat.add_right_cancel hstart, (hpair before after _ rfl).1 he⟩

/-- The scanner ends without a panic on every body and returns, without repetition and in the order
of their first references, exactly the slugs that the body refers to. -/
theorem extract_refs_exact (body : Text) :
    ∃ refs, extractRefs body = some refs ∧ refs.Nodup ∧
      (∀ s, s ∈ refs ↔ validateSlug s = .ok () ∧ ∃ n, IsReference body n s) ∧
      refs.Pairwise fun s t => ∃ n, IsReference body n s ∧ ∀ m, IsReference body m t → n < m := by
  obtain ⟨hnodup, hmem, horder⟩ := push_spec ((pieces body).map (candidate body))
  have hfound : ∀ {s : Text}, isSlug s = true →
      (s ∈ (pieces body).map (candidate body) ↔ ∃ n, IsReference body n s) := by
    intro s hs
    constructor
    · intro h
      obtain ⟨e, he, hslug⟩ := List.mem_map.1 h
      obtain ⟨start, hstart, -⟩ := of_mem_spans he
      exact ⟨start, (isReference_iff hs start).2 ⟨e, he, hstart, hslug⟩⟩
    · rintro ⟨n, href⟩
      obtain ⟨e, he, -, hslug⟩ := (isReference_iff hs n).1 href
      exact List.mem_map.2 ⟨e, he, hslug⟩
  refine ⟨_, scan_eq body 0 [], hnodup, fun s => ?_, ?_⟩
  · rw [← isSlug_iff]
    constructor
    · intro h
      obtain ⟨hs, hin⟩ := (hmem s).1 h
      exact ⟨hs, (hfound hs).1 hin⟩
    · rintro ⟨hs, href⟩
      exact (hmem s).2 ⟨hs, (hfound hs).2 href⟩
  · refine horder.imp_of_mem fun {s t} hs ht hlt => ?_
    obtain ⟨hslug, hin⟩ := (hmem s).1 hs
    -- the piece in which `s` first occurs
    obtain ⟨e, he, hes, hbefore⟩ := exists_of_idxOf_lt (pairwise_spans 0) hlt hin
    obtain ⟨start, hstart, -⟩ := of_mem_spans he
    refine ⟨start, (isReference_iff hslug start).2 ⟨e, he, hstart, hes⟩, fun m href => ?_⟩
    obtain ⟨f, hf, hfstart, hft⟩ := (isReference_iff ((hmem t).1 ht).1 m).1 href
    have hfirst := hbefore f hf hft
    omega

end Engram
end Core
end Maju
