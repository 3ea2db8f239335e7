import Maju.Relay.Git.Size
import Mathlib.Data.List.Chain
import Mathlib.Data.List.Infix

/-!
# LongNames — manifests that are published and then refused

A listing of refs that `git for-each-ref` can print is read back line by line, so the snapshot of a
workspace with `count` refs finds them all.  With names of `m + n + 18` bytes the listing has
`count * (m + n + 60)` bytes and the JSON at least `count * (m + n + 64)`.  Between the two bounds
of 4 MiB there is room for a manifest that `cas_publish` installs and `load_pointer` refuses; its
names are longer than the pre-receive policy admits.
-/

namespace Maju
namespace Relay
namespace Git

open Lib

/-! ## A listing that is read back -/

theorem fields_terminated {sep : Char} {l : List Text} (h : ∀ s ∈ l, sep ∉ s) :
    fields sep (l.flatMap fun s => s ++ [sep]) = l ++ [[]] := by
  induction l with
  | nil => rfl
  | cons s l ih =>
      have hs := h s List.mem_cons_self
      rw [List.flatMap_cons, List.append_assoc, List.singleton_append, fields_append hs,
        ih fun t ht => h t (List.mem_cons_of_mem s ht)]
      rfl

theorem lines_terminated {l : List Text} (h : ∀ s ∈ l, '\n' ∉ s ∧ '\r' ∉ s) :
    lines (l.flatMap fun s => s ++ ['\n']) = l := by
  have hstrip : l.map stripCr = l := by
    refine (List.map_congr_left ?_).trans (List.map_id l)
    intro s hs
    rw [stripCr, if_neg]
    · rfl
    · intro hlast
      exact (h s hs).2 (List.mem_of_getLast? hlast)
  rw [lines, fields_terminated fun s hs => (h s hs).1]
  simp [hstrip]

def refLine (e : Text × Text) : Text := e.1 ++ ' ' :: e.2

theorem readRefLine_refLine {e : Text × Text} (hname : ' ' ∉ e.1)
    (hoid : byteLen e.2 = 40 ∧ e.2.all isAsciiHexdigit) : readRefLine (refLine e) = some e := by
  have hname' : ∀ c ∈ e.1, (decide (c ≠ ' ')) = true := by
    intro c hc
    simp only [decide_eq_true_eq]
    rintro rfl
    exact hname hc
  have hsplit : splitSpace (refLine e) = some e := by
    unfold splitSpace refLine
    rw [List.dropWhile_append_of_pos hname', List.takeWhile_append_of_pos hname']
    simp
  simp [readRefLine, hsplit, hoid]

theorem collectRefs_refLines {l : List (Text × Text)} {refs : Refs}
    (h : ∀ e ∈ l, ' ' ∉ e.1 ∧ byteLen e.2 = 40 ∧ e.2.all isAsciiHexdigit)
    (hcount : refs.entries.length + l.length ≤ maxManifestRefs) :
    collectRefs refs (l.map refLine) = .ok (refs.insertAll l) := by
  induction l generalizing refs with
  | nil => rfl
  | cons e l ih =>
      rcases h e List.mem_cons_self with ⟨hname, hoid⟩
      have hlength := SortedMap.length_insertEntry_le e.1 e.2 refs.entries
      rw [List.length_cons] at hcount
      have hroom : ¬(maxManifestRefs ≤ refs.entries.length ∧ (!refs.contains e.1) = true) := by
        omega
      rw [List.map_cons, collectRefs, readRefLine_refLine hname hoid]
      dsimp only
      rw [if_neg hroom]
      refine ih (fun a ha => h a (List.mem_cons_of_mem e ha)) ?_
      have : (refs.insert e.1 e.2).entries.length ≤ refs.entries.length + 1 := hlength
      omega

/-! ## Ten thousand long names -/

theorem not_containsText {s piece : Text} {c : Char} (h : c ∉ s) :
    containsText s (c :: piece) = false := by
  rw [containsText, List.any_eq_false]
  intro t ht hprefix
  rcases List.isPrefixOf_iff_prefix.1 hprefix with ⟨rest, rfl⟩
  exact h (((List.mem_tails _ _).1 ht).subset (by simp))

theorem not_containsText_twice {s : Text} {c : Char}
    (h : s.IsChain fun a b => ¬(a = c ∧ b = c)) : containsText s [c, c] = false := by
  rw [containsText, List.any_eq_false]
  intro t ht hprefix
  rcases List.isPrefixOf_iff_prefix.1 hprefix with ⟨rest, rfl⟩
  have hchain := h.suffix ((List.mem_tails _ _).1 ht)
  simp at hchain

/-- `refs/heads/`. -/
def headsPath : Text := ['r', 'e', 'f', 's', '/', 'h', 'e', 'a', 'd', 's', '/']

/-- A branch name in two components, the second of which is numbered. -/
def longName (m n i : Nat) : Text :=
  headsPath ++ (List.replicate m 'a' ++ '/' :: (hexDigits 4 i ++ List.replicate n 'b'))

section LongName

variable (m n : Nat)

theorem byteLen_replicate {c : Char} (h : c.utf8Size = 1) : byteLen (List.replicate n c) = n := by
  simp [byteLen, h]

theorem byteLen_longName (i : Nat) : byteLen (longName m n i) = m + n + 16 := by
  rw [longName, byteLen_append, byteLen_append, byteLen_cons, byteLen_append, byteLen_hexDigits,
    byteLen_replicate m rfl, byteLen_replicate n rfl, show byteLen headsPath = 11 from rfl,
    show '/'.utf8Size = 1 from rfl]
  omega

theorem mem_longName {c : Char} {i : Nat} (h : c ∈ longName m n i) :
    c ∈ headsPath ∨ ∃ d < 16, hexDigit d = c := by
  simp only [longName, List.mem_append, List.mem_cons, List.mem_replicate] at h
  rcases h with hfix | ⟨_, rfl⟩ | rfl | hhex | ⟨_, rfl⟩
  · exact Or.inl hfix
  · exact Or.inl (by decide)
  · exact Or.inl (by decide)
  · by_contra hnot
    simp only [not_or, not_exists, not_and] at hnot
    exact not_mem_hexDigits hnot.2 4 i hhex
  · exact Or.inr ⟨11, by decide, by decide⟩

theorem not_mem_longName {c : Char} (hfix : c ∉ headsPath) (hhex : ∀ d < 16, hexDigit d ≠ c)
    (i : Nat) : c ∉ longName m n i := by
  intro h
  rcases mem_longName m n h with hmem | ⟨d, hd, heq⟩
  · exact hfix hmem
  · exact hhex d hd heq

theorem longName_injOn {i j : Nat} (hi : i < 16 ^ 4) (hj : j < 16 ^ 4)
    (h : longName m n i = longName m n j) : i = j := by
  have htail := (List.cons.inj (List.append_cancel_left (List.append_cancel_left h))).2
  exact hexDigits_injOn hi hj (List.append_cancel_right htail)

theorem isChain_of_not_mem {s : Text} (h : '/' ∉ s) :
    s.IsChain fun a b => ¬(a = '/' ∧ b = '/') := by
  refine List.Pairwise.isChain (List.pairwise_of_forall_mem_list ?_)
  rintro a ha b _ ⟨rfl, _⟩
  exact h ha

theorem not_mem_replicate {c d : Char} (h : c ≠ d) : c ∉ List.replicate n d :=
  fun hmem => h (List.eq_of_mem_replicate hmem)

theorem isChain_longName (i : Nat) :
    (longName (m + 1) n i).IsChain fun a b => ¬(a = '/' ∧ b = '/') := by
  have htail : '/' ∉ hexDigits 4 i ++ List.replicate n 'b' := by
    rw [List.mem_append, not_or]
    exact ⟨not_mem_hexDigits (by decide) 4 i, not_mem_replicate n (by decide)⟩
  have hrest : ('/' :: (hexDigits 4 i ++ List.replicate n 'b')).IsChain
      fun a b => ¬(a = '/' ∧ b = '/') := by
    refine List.isChain_cons.2 ⟨?_, isChain_of_not_mem htail⟩
    rintro b hb ⟨_, rfl⟩
    exact htail (List.mem_of_mem_head? hb)
  refine List.isChain_append.2 ⟨by decide, List.isChain_append.2 ⟨?_, hrest, ?_⟩, ?_⟩
  · exact isChain_of_not_mem (not_mem_replicate _ (by decide))
  · rintro a ha b _ ⟨rfl, _⟩
    exact not_mem_replicate (m + 1) (by decide) (List.mem_of_mem_getLast? ha)
  · -- the first component starts with a letter
    rintro a _ b hb ⟨_, rfl⟩
    simp [List.replicate_succ] at hb

theorem isSafeRefname_longName (i : Nat) : isSafeRefname (longName (m + 1) (n + 1) i) = true := by
  have hdots : containsText (longName (m + 1) (n + 1) i) ['.', '.'] = false :=
    not_containsText (not_mem_longName _ _ (by decide) (by decide) i)
  have hslashes : containsText (longName (m + 1) (n + 1) i) ['/', '/'] = false :=
    not_containsText_twice (isChain_longName m (n + 1) i)
  have hlast : (longName (m + 1) (n + 1) i).getLast? = some 'b' := by
    simp [longName, List.getLast?_append, List.getLast?_cons, List.getLast?_replicate]
  have hchars : ∀ c ∈ longName (m + 1) (n + 1) i,
      (c.isAlphanum || c = '/' || c = '_' || c = '.' || c = '-') = true := by
    intro c hc
    rcases mem_longName _ _ hc with hfix | ⟨d, hd, rfl⟩
    · have hall : headsPath.all (fun c =>
          c.isAlphanum || c = '/' || c = '_' || c = '.' || c = '-') = true := by decide
      exact List.all_eq_true.1 hall c hfix
    · have hall : ∀ d < 16, ((hexDigit d).isAlphanum || hexDigit d = '/' || hexDigit d = '_' ||
          hexDigit d = '.' || hexDigit d = '-') = true := by decide
      exact hall d hd
  have hprefix : "refs/".toList.isPrefixOf (longName (m + 1) (n + 1) i) = true := rfl
  have hhead : (longName (m + 1) (n + 1) i).head? = some 'r' := rfl
  have hdots' : "..".toList = ['.', '.'] := rfl
  have hslashes' : "//".toList = ['/', '/'] := rfl
  simp only [isSafeRefname, hprefix, hdots', hslashes', hdots, hslashes, hhead, hlast,
    List.all_eq_true.2 hchars]
  decide

end LongName

/-- Numbered refs with names of `m + n + 18` bytes. -/
def longRefs (m n count : Nat) : List (Text × Text) :=
  (List.range count).map fun i => (longName (m + 1) (n + 1) i, hexDigits 40 i)

/-- What `git for-each-ref` prints for them. -/
def longListing (m n count : Nat) : Text :=
  ((longRefs m n count).map refLine).flatMap fun s => s ++ ['\n']

section LongRefs

variable {m n count : Nat}

theorem mem_longRefs {e : Text × Text} (h : e ∈ longRefs m n count) :
    ∃ i < count, e = (longName (m + 1) (n + 1) i, hexDigits 40 i) := by
  rcases List.mem_map.1 h with ⟨i, hi, heq⟩
  exact ⟨i, List.mem_range.1 hi, heq.symm⟩

theorem sum_map_eq_mul {α : Type} {f : α → Nat} {c : Nat} {l : List α} (h : ∀ a ∈ l, f a = c) :
    (l.map f).sum = l.length * c := by
  have hsum := List.sum_eq_card_nsmul (l.map f) c (by
    intro x hx
    rcases List.mem_map.1 hx with ⟨a, ha, rfl⟩
    exact h a ha)
  simpa using hsum

theorem byteLen_flatMap {α : Type} (l : List α) (f : α → Text) :
    byteLen (l.flatMap f) = (l.map fun a => byteLen (f a)).sum := by
  induction l with
  | nil => rfl
  | cons a l ih => rw [List.flatMap_cons, byteLen_append, ih, List.map_cons, List.sum_cons]

theorem byteLen_longListing : byteLen (longListing m n count) = count * (m + n + 60) := by
  rw [longListing, byteLen_flatMap, List.map_map]
  have hline := sum_map_eq_mul (f := (fun s => byteLen (s ++ ['\n'])) ∘ refLine)
    (c := m + n + 60) (l := longRefs m n count) (by
      intro e he
      rcases mem_longRefs he with ⟨i, _, rfl⟩
      simp only [Function.comp_apply, refLine, byteLen_append, byteLen_longName, byteLen_cons,
        byteLen_hexDigits, byteLen_nil, show ' '.utf8Size = 1 from rfl,
        show '\n'.utf8Size = 1 from rfl]
      omega)
  rw [hline, longRefs, List.length_map, List.length_range]

theorem lines_longListing : lines (longListing m n count) = (longRefs m n count).map refLine := by
  refine lines_terminated ?_
  intro s hs
  rcases List.mem_map.1 hs with ⟨e, he, rfl⟩
  rcases mem_longRefs he with ⟨i, _, rfl⟩
  have hnot : ∀ c, c ∉ headsPath → (∀ d < 16, hexDigit d ≠ c) → c ≠ ' ' →
      c ∉ refLine (longName (m + 1) (n + 1) i, hexDigits 40 i) := by
    intro c hfix hhex hspace
    simp only [refLine, List.mem_append, List.mem_cons, not_or]
    exact ⟨not_mem_longName _ _ hfix hhex i, hspace, not_mem_hexDigits hhex 40 i⟩
  exact ⟨hnot '\n' (by decide) (by decide) (by decide),
    hnot '\r' (by decide) (by decide) (by decide)⟩

theorem collectRefs_longRefs (h : count ≤ maxManifestRefs) :
    collectRefs SortedMap.empty ((longRefs m n count).map refLine) =
      .ok (SortedMap.empty.insertAll (longRefs m n count)) := by
  refine collectRefs_refLines ?_ (by simpa [SortedMap.empty, longRefs] using h)
  intro e he
  rcases mem_longRefs he with ⟨i, _, rfl⟩
  exact ⟨not_mem_longName _ _ (by decide) (by decide) i, byteLen_hexDigits 40 i,
    all_isAsciiHexdigit_hexDigits 40 i⟩

theorem insertAll_longRefs_perm (h : count ≤ maxManifestRefs) :
    (SortedMap.empty.insertAll (longRefs m n count) : Refs).entries.Perm (longRefs m n count) := by
  refine SortedMap.insertAll_perm (m := SortedMap.empty) ?_ (fun _ _ => List.not_mem_nil)
  rw [longRefs, List.map_map]
  refine List.Nodup.map_on ?_ List.nodup_range
  intro i hi j hj heq
  have hbound : maxManifestRefs < 16 ^ 4 := by decide
  have hi' := List.mem_range.1 hi
  have hj' := List.mem_range.1 hj
  exact longName_injOn _ _ (by omega) (by omega) heq

end LongRefs

namespace Sample

/-- A workspace with these refs, and HEAD on the first of them. -/
def longAnswers (m n count : Nat) : Answers Nat where
  listing := .ok ⟨byteLen (longListing m n count), some (longListing m n count),
    fun _ h => congrArg byteLen (Option.some.inj h)⟩
  symbolicRef := .ok (some (longName (m + 1) (n + 1) 0))
  permit := .ok ()
  compaction := .error .packCapture
  delta := .ok (some 7)
  uploaded := true

/-- The refs that are published from it. -/
def longPublished (m n count : Nat) : Refs := SortedMap.empty.insertAll (longRefs m n count)

/-- The manifest that is published from it. -/
def longManifest (m n count : Nat) : Manifest :=
  composeAfter (ParentState.fresh Text).parent none (longName (m + 1) (n + 1) 0)
    (longPublished m n count) (some (packKey lengthBackend.info 7))

section LongManifest

variable {m n count : Nat}

theorem longPublished_perm (h : count ≤ maxManifestRefs) :
    (longPublished m n count).entries.Perm (longRefs m n count) := insertAll_longRefs_perm h

theorem mem_longPublished (h : count ≤ maxManifestRefs) {e : Text × Text}
    (he : e ∈ (longPublished m n count).entries) :
    ∃ i, e = (longName (m + 1) (n + 1) i, hexDigits 40 i) := by
  rcases mem_longRefs ((longPublished_perm h).mem_iff.1 he) with ⟨i, _, heq⟩
  exact ⟨i, heq⟩

theorem length_longPublished (h : count ≤ maxManifestRefs) :
    (longPublished m n count).entries.length = count := by
  rw [(longPublished_perm h).length_eq, longRefs, List.length_map, List.length_range]

theorem contains_longPublished (h : count ≤ maxManifestRefs) (hpos : 0 < count) :
    (longPublished m n count).contains (longName (m + 1) (n + 1) 0) = true := by
  rw [SortedMap.contains_iff]
  have hfirst : (longName (m + 1) (n + 1) 0, hexDigits 40 0) ∈ longRefs m n count :=
    List.mem_map.2 ⟨0, List.mem_range.2 hpos, rfl⟩
  exact List.mem_map.2 ⟨_, (longPublished_perm h).mem_iff.2 hfirst, rfl⟩

theorem trim_longName : trim (longName (m + 1) (n + 1) 0) = longName (m + 1) (n + 1) 0 := by
  refine trim_eq_self ?_
  intro c hc
  rcases mem_longName _ _ hc with hfix | ⟨d, hd, rfl⟩
  · have hall : headsPath.all (fun c => !isWhitespace c) = true := by decide
    simpa using List.all_eq_true.1 hall c hfix
  · exact not_isWhitespace_hexDigit d hd

theorem snapshot_longAnswers (h : count ≤ maxManifestRefs)
    (hbytes : count * (m + n + 60) ≤ maxRefSnapshotBytes) :
    snapshot (longAnswers m n count) =
      .ok (longPublished m n count, longName (m + 1) (n + 1) 0) := by
  have hsize : ¬maxRefSnapshotBytes < byteLen (longListing m n count) := by
    rw [byteLen_longListing]
    omega
  have hcollect := collectRefs_longRefs (m := m) (n := n) h
  simp only [snapshot, longAnswers, bind, Except.bind, snapshotWorkspaceState, if_neg hsize,
    Option.getD_some, lines_longListing, hcollect, Option.map_some, trim_longName]
  rfl

theorem packs_longManifest : (longManifest m n count).packs = [packKey lengthBackend.info 7] := rfl

theorem isPackKey_packKey : isPackKey (packKey lengthBackend.info 7) = true := by decide

theorem longManifest_isValid (h : count ≤ maxManifestRefs) : (longManifest m n count).IsValid := by
  refine ⟨?_, ?_, isSafeRefname_longName m n 0, ?_, ?_, fun p hp => by cases hp⟩
  · rw [packs_longManifest]
    decide
  · exact le_trans (le_of_eq (length_longPublished h)) h
  · intro e he
    rcases mem_longPublished h he with ⟨i, rfl⟩
    refine ⟨isSafeRefname_longName m n i, ?_⟩
    rw [isHexOid, byteLen_hexDigits, all_isAsciiHexdigit_hexDigits]
    decide
  · intro key hkey
    rw [packs_longManifest, List.mem_singleton] at hkey
    rw [hkey]
    exact isPackKey_packKey

theorem resolvePublishedHead_longName (h : count ≤ maxManifestRefs) (hpos : 0 < count)
    (parentHead : Text) :
    resolvePublishedHead (longPublished m n count) (longName (m + 1) (n + 1) 0) parentHead =
      longName (m + 1) (n + 1) 0 := by
  have hbranch : isPublishedBranch (longPublished m n count) (longName (m + 1) (n + 1) 0) =
      true := by
    rw [isPublishedBranch, contains_longPublished h hpos]
    rfl
  rw [resolvePublishedHead, if_pos hbranch]

theorem prepare_longManifest (h : count ≤ maxManifestRefs) (hpos : 0 < count)
    (hbytes : count * (m + n + 60) ≤ maxRefSnapshotBytes) :
    prepareManifest lengthBackend.info limits packCompactionThreshold (ParentState.fresh Text)
      (longAnswers m n count) = .ok (longManifest m n count, [7]) := by
  have hentries : (longPublished m n count).entries ≠ [] := by
    intro hnil
    have hlength := length_longPublished (m := m) (n := n) h
    rw [hnil] at hlength
    simp at hlength
    omega
  have hcapture : capturePack lengthBackend.info limits (longPublished m n count)
      (longAnswers m n count).delta = .ok (some 7) := by
    rw [capturePack, if_neg hentries]
    rfl
  have hdelta : publishDelta lengthBackend.info limits (ParentState.fresh Text)
      (longAnswers m n count) none (longPublished m n count) (longName (m + 1) (n + 1) 0) =
        .ok (longManifest m n count, [7]) := by
    rw [publishDelta, hcapture]
    rfl
  have hcompose : composeManifest lengthBackend.info limits packCompactionThreshold
      (ParentState.fresh Text) (longAnswers m n count) = .ok (longManifest m n count, [7]) := by
    rw [composeManifest, snapshot_longAnswers h hbytes]
    simp only [bind, Except.bind, resolvePublishedHead_longName h hpos]
    exact hdelta
  rw [prepareManifest, hcompose]
  simp only [bind, Except.bind, Manifest.validate_ok_iff.2 (longManifest_isValid h)]

theorem le_encodedSize_longManifest (h : count ≤ maxManifestRefs) (hpos : 0 < count) :
    count * (m + n + 64) ≤ encodedSize (longManifest m n count) := by
  have hsum : ((longPublished m n count).entries.map fun e =>
      byteLen e.1 + byteLen e.2 + 5 + 1).sum = count * (m + n + 64) := by
    rw [sum_map_eq_mul (c := m + n + 64), length_longPublished h]
    intro e he
    rcases mem_longPublished h he with ⟨i, rfl⟩
    dsimp only
    rw [byteLen_longName, byteLen_hexDigits]
    omega
  have hrefs : count * (m + n + 64) ≤ bracketed ((longPublished m n count).entries.map fun e =>
      byteLen e.1 + byteLen e.2 + 5) := by
    rw [bracketed, ← hsum, List.map_map]
    split_ifs with hnil
    · have hlength := length_longPublished (m := m) (n := n) h
      rw [List.map_eq_nil_iff.1 hnil] at hlength
      simp at hlength
      omega
    · exact Nat.le_succ _
  have heq : (longManifest m n count).refs = longPublished m n count := rfl
  rw [encodedSize, heq]
  omega

theorem casPublish_longManifest (h : count ≤ maxManifestRefs) (hpos : 0 < count)
    (hbytes : count * (m + n + 60) ≤ maxRefSnapshotBytes)
    (hlarge : maxManifestBytes < count * (m + n + 64)) :
    ∃ after, casPublish lengthBackend emptyStore limits (ParentState.fresh Text)
        (longAnswers m n count) = .ok (longManifest m n count, after) ∧
      loadPointer lengthBackend after = .error .resourceLimit := by
  have hpublish : ∃ after, casPublish lengthBackend emptyStore limits (ParentState.fresh Text)
      (longAnswers m n count) = .ok (longManifest m n count, after) := by
    rw [casPublish, prepare_longManifest h hpos hbytes]
    exact ⟨_, rfl⟩
  rcases hpublish with ⟨after, hafter⟩
  refine ⟨after, hafter, ?_⟩
  rcases casPublish_ok hafter with ⟨hcanonical, hvalid, hmanifests, hpointer⟩
  have hstored : after.manifests.lookup
      (lengthBackend.manifestDigest (longManifest m n count)) =
        some (longManifest m n count).canonicalBytes := by
    rw [hmanifests, lookup_putImmutable]
    simp [emptyStore]
  rw [loadPointer_stored hcanonical hvalid hpointer hstored, if_pos]
  have hsize := le_encodedSize_longManifest (m := m) (n := n) h hpos
  omega

end LongManifest

end Sample

open Sample in
/-- Ten thousand refs with names of 377 bytes, within the limits of the snapshot, are published and
then refused. -/
theorem long_names_unclonable :
    ∃ after, casPublish lengthBackend emptyStore limits (ParentState.fresh Text)
        (longAnswers 179 180 maxManifestRefs) = .ok (longManifest 179 180 maxManifestRefs, after) ∧
      loadPointer lengthBackend after = .error .resourceLimit := by
  exact casPublish_longManifest (le_refl _) (by decide) (by decide) (by decide)

end Git
end Relay
end Maju
