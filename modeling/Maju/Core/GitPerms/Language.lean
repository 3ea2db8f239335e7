import Maju.Core.GitPerms.Evaluate

/-!
# Language — the ref patterns and the refs they cover

The parser of patterns is a cascade of branches with a running count of wildcards, and the matcher
has two paths whose slices and unreachable arms are safe only for what the parser builds.

* `IsRefPattern` — the grammar of patterns, said of the text;
* `Covers` — the refs of a pattern, said of the two texts;
* `RefPattern.matchesOrPanics` — the matcher with its panics;
* `RefPattern.language` — parser and matcher compute these, and no panic is reached.
-/

namespace Maju
namespace Core
namespace GitPerms

open Lib

/-! ## The grammar -/

/-- A non-empty word over `[A-Za-z0-9._-]`. -/
def IsLiteral (part : List Char) : Prop := part ≠ [] ∧ ∀ c ∈ part, isPatternChar c = true

/-- What stands before the last slash. -/
def IsInnerPart (part : List Char) : Prop := IsLiteral part ∨ part = ['*']

def IsLastPart (part : List Char) : Prop := IsInnerPart part ∨ part = ['*', '*']

def isWildcardPart (part : List Char) : Bool := part = ['*'] || part = ['*', '*']

/-- Parts in the order of a pattern, with the number of wildcards that they may have. -/
structure IsPatternTail (budget : Nat) (parts : List (List Char)) : Prop where
  inner : ∀ part ∈ parts.dropLast, IsInnerPart part
  last : ∀ part ∈ parts.getLast?, IsLastPart part
  wildcards : parts.countP isWildcardPart ≤ budget

/-- `refs/seg(/seg)*` in at most 256 bytes with at most three wildcards. -/
def IsRefPattern (pattern : String) : Prop :=
  pattern.utf8ByteSize ≤ maxPatternLength ∧
    ∃ parts, parts ≠ [] ∧ pattern.toList = "refs".toList ++ parts.flatMap ('/' :: ·) ∧
      IsPatternTail maxWildcardsPerPattern parts

/-- A ref has the segments of a pattern, or at least as many for a pattern that ends in `**`, and
each literal stands in its position. -/
def Covers (pattern refName : String) : Prop :=
  let parts := fields '/' pattern.toList
  let segments := fields '/' refName.toList
  (if parts.getLast? = some ['*', '*'] then parts.length ≤ segments.length
    else segments.length = parts.length) ∧
  ∀ (i : Nat) (part : List Char), parts[i]? = some part → isWildcardPart part = false →
    segments[i]? = some part

/-! ## The parts of a pattern -/

theorem mem_dropLast_or_getLast? {α : Type} {a : α} {l : List α} (h : a ∈ l) :
    a ∈ l.dropLast ∨ l.getLast? = some a := by
  have hne : l ≠ [] := List.ne_nil_of_mem h
  rw [← List.dropLast_append_getLast hne] at h
  rcases List.mem_append.1 h with hinit | hlast
  · exact Or.inl hinit
  · rw [List.mem_singleton.1 hlast]
    exact Or.inr (List.getLast?_eq_some_getLast hne)

/-- The segment of a part that the parser accepts. -/
def segmentOf (part : List Char) : PatternSegment :=
  if part = ['*', '*'] then .recursiveWildcard
  else if part = ['*'] then .wildcard
  else .literal part

theorem IsLiteral.ne_star {part : List Char} (h : IsLiteral part) : part ≠ ['*'] := by
  rintro rfl
  exact absurd (h.2 '*' List.mem_cons_self) (by decide)

theorem IsLiteral.ne_stars {part : List Char} (h : IsLiteral part) : part ≠ ['*', '*'] := by
  rintro rfl
  exact absurd (h.2 '*' List.mem_cons_self) (by decide)

theorem not_isLiteral_iff {part : List Char} :
    (part.isEmpty || !part.all isPatternChar) = true ↔ ¬ IsLiteral part := by
  cases part with
  | nil => simp [IsLiteral]
  | cons c part => simp [IsLiteral, imp_iff_not_or]

theorem IsInnerPart.segmentOf_ne {part : List Char} (h : IsInnerPart part) :
    segmentOf part ≠ .recursiveWildcard := by
  rcases h with hliteral | rfl
  · simp [segmentOf, hliteral.ne_star, hliteral.ne_stars]
  · decide

theorem isPatternTail_cons_iff {budget : Nat} {part : List Char} {parts : List (List Char)} :
    IsPatternTail budget (part :: parts) ↔
      (IsInnerPart part ∨ (part = ['*', '*'] ∧ parts = [])) ∧
        (if isWildcardPart part then 1 else 0) ≤ budget ∧
          IsPatternTail (budget - if isWildcardPart part then 1 else 0) parts := by
  constructor
  · rintro ⟨hinner, hlast, hcount⟩
    rw [List.countP_cons] at hcount
    cases parts with
    | nil =>
        refine ⟨?_, by simpa using hcount, by simp, by simp, by simp⟩
        rcases hlast part rfl with h | h
        · exact Or.inl h
        · exact Or.inr ⟨h, rfl⟩
    | cons next parts =>
        refine ⟨Or.inl (hinner part (by simp)), by omega, ?_, ?_, by omega⟩
        · exact fun p hp => hinner p (by simp [hp])
        · exact fun p hp => hlast p (by simpa using hp)
  · rintro ⟨hpart, hone, hinner, hlast, hcount⟩
    have hwildcards : (part :: parts).countP isWildcardPart ≤ budget := by
      rw [List.countP_cons]
      omega
    cases parts with
    | nil =>
        refine ⟨by simp, ?_, hwildcards⟩
        intro p hp
        obtain rfl : part = p := by simpa using hp
        exact hpart.imp_right And.left
    | cons next parts =>
        refine ⟨?_, fun p hp => hlast p (by simpa using hp), hwildcards⟩
        intro p hp
        rcases List.mem_cons.1 (by simpa using hp) with rfl | hp
        · exact hpart.resolve_right fun h => by simp at h
        · exact hinner p hp

theorem parseSegments_eq_ok_iff {wildcards : Nat} {parts : List (List Char)}
    {segments : List PatternSegment} (hn : wildcards ≤ maxWildcardsPerPattern) :
    parseSegments wildcards parts = .ok segments ↔
      IsPatternTail (maxWildcardsPerPattern - wildcards) parts ∧
        segments = parts.map segmentOf := by
  induction parts generalizing wildcards segments with
  | nil =>
      have hnil : IsPatternTail (maxWildcardsPerPattern - wildcards) [] :=
        ⟨by simp, by simp, by simp⟩
      simp [parseSegments, hnil, eq_comm]
  | cons part parts ih =>
      have hmap : ∀ (n : Nat) (s : PatternSegment), n ≤ maxWildcardsPerPattern →
          ((parseSegments n parts).map (s :: ·) = .ok segments ↔
            IsPatternTail (maxWildcardsPerPattern - n) parts ∧
              segments = s :: parts.map segmentOf) := by
        intro n s hle
        cases hrest : parseSegments n parts with
        | error e =>
            have hnot : ¬ IsPatternTail (maxWildcardsPerPattern - n) parts := by
              intro htail
              have hok := (ih hle).2 ⟨htail, rfl⟩
              rw [hrest] at hok
              cases hok
            simp [Except.map, hnot]
        | ok rest =>
            obtain ⟨htail, rfl⟩ := (ih hle).1 hrest
            simp [Except.map, htail, eq_comm]
      rw [isPatternTail_cons_iff, parseSegments]
      by_cases hstars : part = ['*', '*']
      · subst hstars
        cases parts with
        | nil =>
            have hnil : ∀ budget, IsPatternTail budget [] := fun _ => ⟨by simp, by simp, by simp⟩
            by_cases hspent : maxWildcardsPerPattern < wildcards + 1
            · simp [isWildcardPart, hspent]
              omega
            · simp [isWildcardPart, hspent, hnil, segmentOf, eq_comm]
              omega
        | cons next parts =>
            -- a recursive wildcard before the end
            have hnot : ¬ IsInnerPart ['*', '*'] := fun h => h.segmentOf_ne rfl
            simp [hnot]
      · by_cases hstar : part = ['*']
        · subst hstar
          have hinner : IsInnerPart ['*'] := Or.inr rfl
          by_cases hspent : maxWildcardsPerPattern < wildcards + 1
          · simp [isWildcardPart, hspent]
            omega
          · have hrest := hmap (wildcards + 1) .wildcard (Nat.le_of_not_lt hspent)
            have hone : 1 ≤ maxWildcardsPerPattern - wildcards := by omega
            simp [isWildcardPart, hspent, hrest, hinner, hone, segmentOf, Nat.sub_sub]
        · have hword : isWildcardPart part = false := by simp [isWildcardPart, hstar, hstars]
          have hrest := hmap wildcards (.literal part) hn
          by_cases hliteral : IsLiteral part
          · have hgood := mt not_isLiteral_iff.1 (not_not_intro hliteral)
            simp [hstars, hstar, hword, hgood, hrest, segmentOf, IsInnerPart, hliteral]
          · have hbad := not_isLiteral_iff.2 hliteral
            simp [hstars, hstar, hbad, IsInnerPart, hliteral]

/-! ## The parser -/

theorem refs_isPrefixOf {parts : List (List Char)} (hparts : parts ≠ []) :
    "refs/".toList.isPrefixOf ("refs".toList ++ parts.flatMap ('/' :: ·)) = true := by
  obtain ⟨part, rest, rfl⟩ := List.exists_cons_of_ne_nil hparts
  rw [List.isPrefixOf_iff_prefix]
  exact ⟨part ++ rest.flatMap ('/' :: ·), by simp⟩

theorem IsLastPart.slash_not_mem {part : List Char} (h : IsLastPart part) : '/' ∉ part := by
  rcases h with (hliteral | rfl) | rfl
  · intro hmem
    exact absurd (hliteral.2 '/' hmem) (by decide)
  · decide
  · decide

theorem IsPatternTail.isLastPart {budget : Nat} {parts : List (List Char)}
    (h : IsPatternTail budget parts) : ∀ part ∈ parts, IsLastPart part := by
  intro part hmem
  rcases mem_dropLast_or_getLast? hmem with hinit | hlast
  · exact Or.inl (h.inner part hinit)
  · exact h.last part hlast

theorem IsLiteral.isPatternTail_cons {budget : Nat} {part : List Char} {parts : List (List Char)}
    (h : IsLiteral part) : IsPatternTail budget (part :: parts) ↔ IsPatternTail budget parts := by
  have hinner : IsInnerPart part := Or.inl h
  have hword : isWildcardPart part = false := by simp [isWildcardPart, h.ne_star, h.ne_stars]
  rw [isPatternTail_cons_iff]
  simp [hinner, hword]

theorem isLiteral_refs : IsLiteral "refs".toList := by
  have hchars : "refs".toList = ['r', 'e', 'f', 's'] := by simp
  have hall : ['r', 'e', 'f', 's'].all isPatternChar = true := by decide
  rw [hchars]
  exact ⟨List.cons_ne_nil _ _, List.all_eq_true.mp hall⟩

namespace RefPattern

theorem parse_eq_ok_iff {pattern : String} {p : RefPattern} :
    parse pattern = .ok p ↔
      pattern.utf8ByteSize ≤ maxPatternLength ∧ "refs/".toList.isPrefixOf pattern.toList = true ∧
        IsPatternTail maxWildcardsPerPattern (fields '/' pattern.toList) ∧
          p.raw = pattern ∧ p.segments = (fields '/' pattern.toList).map segmentOf := by
  have hsegments : ∀ segments, parseSegments 0 (fields '/' pattern.toList) = .ok segments ↔
      IsPatternTail maxWildcardsPerPattern (fields '/' pattern.toList) ∧
        segments = (fields '/' pattern.toList).map segmentOf :=
    fun _ => parseSegments_eq_ok_iff (Nat.zero_le maxWildcardsPerPattern)
  rw [parse]
  split
  · next hempty =>
      have hnil : pattern.toList = [] := by simpa using hempty
      simp [hnil]
  · split
    · next hlong => simp [Nat.not_le.2 hlong]
    · split
      · next hrefs => simp at hrefs; simp [hrefs]
      · next hshort hrefs =>
          have hle : pattern.utf8ByteSize ≤ maxPatternLength := Nat.le_of_not_lt hshort
          have hpre : "refs/".toList.isPrefixOf pattern.toList = true := by simpa using hrefs
          split
          · next e herror =>
              have hnot : ¬ IsPatternTail maxWildcardsPerPattern (fields '/' pattern.toList) := by
                intro htail
                have hok := (hsegments _).2 ⟨htail, rfl⟩
                rw [herror] at hok
                cases hok
              simp [hnot]
          · next segments hok =>
              obtain ⟨htail, hsegs⟩ := (hsegments segments).1 hok
              constructor
              · intro h
                obtain rfl := Except.ok.inj h
                exact ⟨hle, hpre, htail, rfl, hsegs⟩
              · rintro ⟨-, -, -, hraw, hp⟩
                obtain ⟨raw, segs, hlast⟩ := p
                obtain rfl : raw = pattern := hraw
                obtain rfl : segs = segments := hp.trans hsegs.symm
                rfl

theorem exists_parse_iff (pattern : String) :
    (∃ p, parse pattern = .ok p) ↔ IsRefPattern pattern := by
  constructor
  · rintro ⟨p, hp⟩
    obtain ⟨hle, hpre, htail, -, -⟩ := parse_eq_ok_iff.1 hp
    obtain ⟨text, htext⟩ := List.isPrefixOf_iff_prefix.1 hpre
    obtain ⟨part, parts, hfields, hjoin, -⟩ := exists_fields '/' text
    have hpattern : pattern.toList = "refs".toList ++ '/' :: text := by rw [← htext]; rfl
    refine ⟨hle, part :: parts, by simp, ?_, ?_⟩
    · rw [hpattern, List.flatMap_cons, List.cons_append, ← hjoin]
    · rw [hpattern, fields_append (by decide), hfields, isLiteral_refs.isPatternTail_cons] at htail
      exact htail
  · rintro ⟨hle, parts, hparts, htext, htail⟩
    have hpre : "refs/".toList.isPrefixOf pattern.toList = true := by
      rw [htext]
      exact refs_isPrefixOf hparts
    have hslash : ∀ part ∈ "refs".toList :: parts, '/' ∉ part := by
      intro part hpart
      rcases List.mem_cons.1 hpart with rfl | hpart
      · decide
      · exact (htail.isLastPart part hpart).slash_not_mem
    have hfields : fields '/' pattern.toList = "refs".toList :: parts := by
      rw [htext, fields_join hslash]
    have hwhole : IsPatternTail maxWildcardsPerPattern (fields '/' pattern.toList) := by
      rw [hfields, isLiteral_refs.isPatternTail_cons]
      exact htail
    have hok := (parseSegments_eq_ok_iff (Nat.zero_le maxWildcardsPerPattern)).2 ⟨hwhole, rfl⟩
    exact ⟨⟨pattern, _, recursive_last_parseSegments hok⟩,
      parse_eq_ok_iff.2 ⟨hle, hpre, hwhole, rfl, rfl⟩⟩

end RefPattern

/-! ## The matcher with its panics -/

/-- `&v[..n]`, which panics behind the end. -/
def sliceTo {α : Type} (v : List α) (n : Nat) : Option (List α) :=
  if n ≤ v.length then some (v.take n) else none

/-- `all` over the pairs, where a recursive wildcard is `unreachable!()`. -/
def allOrPanics : List (PatternSegment × List Char) → Option Bool
  | [] => some true
  | (.wildcard, _) :: rest => allOrPanics rest
  | (.literal text, segment) :: rest => if text = segment then allOrPanics rest else some false
  | (.recursiveWildcard, _) :: _ => none

theorem allOrPanics_eq {pairs : List (PatternSegment × List Char)}
    (h : ∀ e ∈ pairs, e.1 ≠ .recursiveWildcard) :
    allOrPanics pairs = some (pairs.all fun e => RefPattern.segmentMatches e.1 e.2) := by
  induction pairs with
  | nil => rfl
  | cons e pairs ih =>
      obtain ⟨s, segment⟩ := e
      have hrest := ih fun e he => h e (List.mem_cons_of_mem _ he)
      cases s with
      | wildcard => simp [allOrPanics, RefPattern.segmentMatches, hrest]
      | literal text =>
          by_cases heq : text = segment
          · simp [allOrPanics, RefPattern.segmentMatches, heq, hrest]
          · simp [allOrPanics, RefPattern.segmentMatches, heq]
      | recursiveWildcard => exact absurd rfl (h _ List.mem_cons_self)

namespace RefPattern

/-- `RefPattern::matches`, with nothing for a panic. -/
def matchesOrPanics (p : RefPattern) (refName : String) : Option Bool :=
  let refSegments := fields '/' refName.toList
  if p.segments.getLast? = some .recursiveWildcard then
    let prefixLen := p.segments.length - 1
    if refSegments.length ≤ prefixLen then some false
    else
      (sliceTo p.segments prefixLen).bind fun pattern =>
        (sliceTo refSegments prefixLen).bind fun segments => allOrPanics (pattern.zip segments)
  else if refSegments.length ≠ p.segments.length then some false
  else allOrPanics (p.segments.zip refSegments)

theorem matchesOrPanics_eq (p : RefPattern) (refName : String) :
    p.matchesOrPanics refName = some (p.matchesRef refName) := by
  have hinit : ∀ e ∈ p.segments.dropLast, e ≠ .recursiveWildcard := by
    rintro e he rfl
    exact p.recursive_last he
  simp only [matchesOrPanics, matchesRef, ← List.dropLast_eq_take]
  split
  · next hlast =>
      split
      · rfl
      · next hlong =>
          have hpattern : p.segments.length - 1 ≤ p.segments.length := Nat.sub_le _ _
          have hsegments := Nat.le_of_lt (Nat.lt_of_not_le hlong)
          rw [sliceTo, if_pos hpattern, sliceTo, if_pos hsegments, ← List.dropLast_eq_take]
          exact allOrPanics_eq fun e he => hinit e.1 (List.of_mem_zip he).1
  · next hlast =>
      split
      · rfl
      · refine allOrPanics_eq fun e he => ?_
        rcases mem_dropLast_or_getLast? (List.of_mem_zip he).1 with hmem | hend
        · exact hinit e.1 hmem
        · intro heq
          exact hlast (heq ▸ hend)

/-! ## What is covered -/

theorem segmentOf_eq_recursiveWildcard_iff {part : List Char} :
    segmentOf part = .recursiveWildcard ↔ part = ['*', '*'] := by
  unfold segmentOf
  split
  · simp_all
  · split <;> simp_all

theorem getLast?_map_segmentOf_iff {parts : List (List Char)} :
    (parts.map segmentOf).getLast? = some .recursiveWildcard ↔
      parts.getLast? = some ['*', '*'] := by
  rw [List.getLast?_map]
  cases parts.getLast? with
  | none => simp
  | some part => simp [segmentOf_eq_recursiveWildcard_iff]

theorem zipMatches_iff {parts segments : List (List Char)} (hlen : parts.length ≤ segments.length)
    (hinner : ∀ part ∈ parts, part ≠ ['*', '*']) :
    zipMatches (parts.map segmentOf) segments = true ↔
      ∀ (i : Nat) (part : List Char), parts[i]? = some part → isWildcardPart part = false →
        segments[i]? = some part := by
  induction parts generalizing segments with
  | nil => simp [zipMatches]
  | cons part parts ih =>
      cases segments with
      | nil => simp at hlen
      | cons segment segments =>
          have hrest := ih (by simpa using hlen) fun p hp => hinner p (List.mem_cons_of_mem part hp)
          have hhead : segmentMatches (segmentOf part) segment = true ↔
              (isWildcardPart part = false → segment = part) := by
            have hne := hinner part List.mem_cons_self
            by_cases hstar : part = ['*']
            · simp [segmentOf, isWildcardPart, hstar, segmentMatches]
            · simp [segmentOf, isWildcardPart, hstar, hne, segmentMatches, eq_comm]
          have hcons : zipMatches ((part :: parts).map segmentOf) (segment :: segments) =
              (segmentMatches (segmentOf part) segment &&
                zipMatches (parts.map segmentOf) segments) := rfl
          rw [hcons, Bool.and_eq_true, hhead, hrest]
          constructor
          · rintro ⟨hfirst, hothers⟩ i p hp hword
            cases i with
            | zero =>
                obtain rfl : part = p := by simpa using hp
                simpa using hfirst hword
            | succ i => simpa using hothers i p (by simpa using hp) hword
          · intro h
            refine ⟨fun hword => by simpa using h 0 part rfl hword, ?_⟩
            intro i p hp hword
            simpa using h (i + 1) p (by simpa using hp) hword

theorem matchesRef_iff {pattern : String} {p : RefPattern} (hp : parse pattern = .ok p)
    (refName : String) : p.matchesRef refName = true ↔ Covers pattern refName := by
  obtain ⟨-, -, htail, -, hsegments⟩ := parse_eq_ok_iff.1 hp
  simp only [matchesRef, Covers, hsegments, getLast?_map_segmentOf_iff, List.length_map]
  generalize fields '/' refName.toList = segments
  generalize fields '/' pattern.toList = parts at htail
  have hinit : ∀ part ∈ parts.dropLast, part ≠ ['*', '*'] := by
    rintro part hpart rfl
    exact (htail.inner _ hpart).segmentOf_ne rfl
  split
  · next hlast =>
      have hpos : parts ≠ [] := by
        rintro rfl
        cases hlast
      have hlen := List.length_pos_of_ne_nil hpos
      split
      · next hshort =>
          have hless : ¬ parts.length ≤ segments.length := by omega
          simp [hless]
      · next hlong =>
          have hle : parts.length ≤ segments.length := by omega
          have htake : (parts.map segmentOf).take (parts.length - 1) =
              parts.dropLast.map segmentOf := by
            rw [← List.map_take, List.dropLast_eq_take]
          rw [htake, zipMatches_iff (by simp; omega) hinit]
          simp only [hle, true_and, List.getElem?_dropLast, List.getElem?_take]
          constructor
          · intro h i part hpart hword
            by_cases hi : i < parts.length - 1
            · simpa [hi] using h i part (by simpa [hi] using hpart) hword
            · -- the last part is the recursive wildcard
              obtain ⟨hbound, -⟩ := List.getElem?_eq_some_iff.1 hpart
              obtain rfl : i = parts.length - 1 := by omega
              rw [← List.getLast?_eq_getElem?, hlast, Option.some.injEq] at hpart
              subst hpart
              cases hword
          · intro h i part hpart hword
            by_cases hi : i < parts.length - 1
            · simpa [hi] using h i part (by simpa [hi] using hpart) hword
            · simp [hi] at hpart
  · next hlast =>
      have hall : ∀ part ∈ parts, part ≠ ['*', '*'] := by
        intro part hpart
        rcases mem_dropLast_or_getLast? hpart with hmem | hend
        · exact hinit part hmem
        · intro heq
          exact hlast (heq ▸ hend)
      split
      · next hdiff => simp [hdiff]
      · next hsame =>
          have heq : segments.length = parts.length := not_not.1 hsame
          rw [zipMatches_iff heq.ge hall]
          simp [heq]

/-! ## The language -/

/-- The parser accepts exactly the grammar; an accepted pattern covers exactly the refs that its
text describes, and its matcher reaches no `unreachable!` and no slice behind the end. -/
theorem language (pattern : String) :
    ((∃ p, parse pattern = .ok p) ↔ IsRefPattern pattern) ∧
      ∀ p, parse pattern = .ok p → ∀ refName : String, ∃ answer,
        p.matchesOrPanics refName = some answer ∧ (answer = true ↔ Covers pattern refName) :=
  ⟨exists_parse_iff pattern, fun p hp refName =>
    ⟨p.matchesRef refName, p.matchesOrPanics_eq refName, matchesRef_iff hp refName⟩⟩

/-- `refs/heads/**` covers a branch two levels down and not the level itself. -/
theorem language_branches :
    Covers "refs/heads/**" "refs/heads/a/b" ∧ ¬ Covers "refs/heads/**" "refs/heads" := by
  have hp : parse "refs/heads/**" = .ok ⟨"refs/heads/**",
      [.literal "refs".toList, .literal "heads".toList, .recursiveWildcard], by decide⟩ := rfl
  obtain ⟨deep, hdeep, hcovers⟩ := (language "refs/heads/**").2 _ hp "refs/heads/a/b"
  obtain ⟨flat, hflat, hnot⟩ := (language "refs/heads/**").2 _ hp "refs/heads"
  have htrue : some true = some deep := hdeep
  have hfalse : some false = some flat := hflat
  refine ⟨hcovers.1 (Option.some.inj htrue).symm, fun h => ?_⟩
  exact absurd ((Option.some.inj hfalse).trans (hnot.2 h)) (by decide)

end RefPattern

end GitPerms
end Core
end Maju
