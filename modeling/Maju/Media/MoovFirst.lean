import Maju.Media.Mp4

/-!
# MoovFirst — the two scans of a video file against each other

* `Chain`, `Wraps` — atoms that the first scan follows, and one whose end is no `u64`;
* `InOrder`, `Hidden` — no `mdat` in front of `moov` at the top level, and one inside another box;
* `Tiles.bounds`, `Tiles.sorted` — where the boxes of a tiling lie;
* `Ok` — no overflow, and the structure of a file that both scans accept;
* `mp4_checks_ok_iff` — these two are the exceptions.
-/

namespace Maju
namespace Media

open Lib

/-! ## The top level as the first scan sees it -/

/-- An atom of the top level. -/
structure Atom where
  offset : Nat
  size : Nat
  kind : Bytes
  deriving DecidableEq, Repr

/-- The file has the header of the atom, and the header gives it a size. -/
def IsAtom (file : Bytes) (a : Atom) : Prop :=
  ∃ h, readExact file a.offset 8 = some h ∧ a.kind = h.drop 4 ∧
    atomSize file a.offset (beNat (h.take 4)) = .size a.size

/-- Atoms one behind the other. -/
inductive Chain (file : Bytes) : Nat → List Atom → Nat → Prop where
  | nil {offset : Nat} : Chain file offset [] offset
  | cons {a : Atom} {rest : List Atom} {stop : Nat} :
      IsAtom file a → Chain file (a.offset + a.size) rest stop →
      Chain file a.offset (a :: rest) stop

/-- No `mdat` comes in front of a `moov`. -/
def InOrder : Bool → List Bytes → Prop
  | _, [] => True
  | moovSeen, kind :: rest =>
      ¬ (kind = ascii "mdat" ∧ moovSeen = false) ∧ InOrder (moovSeen || kind = ascii "moov") rest

theorem readExact_some {file bytes : Bytes} {off n : Nat} (h : readExact file off n = some bytes) :
    off + n ≤ file.length ∨ n = 0 := by
  unfold readExact at h
  dsimp only at h
  split_ifs at h with hlen
  rw [List.length_take, List.length_drop] at hlen
  omega

theorem IsAtom.inside {file : Bytes} {a : Atom} (h : IsAtom file a) : a.offset < file.length := by
  obtain ⟨head, hread, -⟩ := h
  have hend := readExact_some hread
  omega

theorem scanAtoms_eq {file : Bytes} {offset n : Nat} {moovSeen : Bool} {header : Bytes}
    (hread : readExact file offset 8 = some header) :
    scanAtoms file offset moovSeen n =
      if maxAtoms < n + 1 then .error (.media .moovNotAtFront)
      else
        match atomSize file offset (beNat (header.take 4)) with
        | .stop => .ok ()
        | .toEnd =>
            if header.drop 4 = ascii "mdat" ∧ moovSeen = false then
              .error (.media .moovNotAtFront)
            else .ok ()
        | .size size =>
            if header.drop 4 = ascii "mdat" ∧ moovSeen = false then
              .error (.media .moovNotAtFront)
            else
              (addU64 offset size).bind fun next =>
                scanAtoms file next (moovSeen || header.drop 4 = ascii "moov") (n + 1) := by
  have hinside : offset < file.length := by
    have hend := readExact_some hread
    omega
  conv_lhs => unfold scanAtoms
  rw [if_pos hinside]
  by_cases hmax : maxAtoms < n + 1
  · rw [dif_pos hmax, if_pos hmax]
  · rw [dif_neg hmax, if_neg hmax]
    simp only [hread]
    cases atomSize file offset (beNat (header.take 4)) with
    | stop => rfl
    | toEnd => rfl
    | size size =>
        dsimp only
        split_ifs
        · rfl
        · cases addU64 offset size <;> rfl

theorem scanAtoms_atom {file : Bytes} {a : Atom} (h : IsAtom file a) (moovSeen : Bool) (n : Nat) :
    scanAtoms file a.offset moovSeen n =
      if maxAtoms < n + 1 ∨ (a.kind = ascii "mdat" ∧ moovSeen = false) then
        .error (.media .moovNotAtFront)
      else
        (addU64 a.offset a.size).bind fun next =>
          scanAtoms file next (moovSeen || a.kind = ascii "moov") (n + 1) := by
  obtain ⟨head, hread, hkind, hsize⟩ := h
  rw [scanAtoms_eq hread, hsize, hkind]
  dsimp only
  by_cases hmax : maxAtoms < n + 1
  · rw [if_pos hmax, if_pos (Or.inl hmax)]
  · by_cases horder : head.drop 4 = ascii "mdat" ∧ moovSeen = false
    · rw [if_neg hmax, if_pos horder, if_pos (Or.inr horder)]
    · rw [if_neg hmax, if_neg horder, if_neg (not_or.2 ⟨hmax, horder⟩)]

/-- An atom that the scan reaches, in order, ends behind the last `u64`. -/
def WrapsFrom (file : Bytes) (offset : Nat) (moovSeen : Bool) (n : Nat) : Prop :=
  ∃ atoms a, Chain file offset atoms a.offset ∧ IsAtom file a ∧ n + atoms.length < maxAtoms ∧
    InOrder moovSeen ((atoms ++ [a]).map Atom.kind) ∧ 2 ^ 64 ≤ a.offset + a.size

/-- The first scan meets an atom that ends behind the last `u64`. -/
def Wraps (file : File) : Prop := WrapsFrom file.1 0 false 0

theorem addU64_eq_overflow {a b : Nat} (h : 2 ^ 64 ≤ a + b) : addU64 a b = .error .overflow :=
  if_neg (Nat.not_lt.2 h)

theorem Chain.inside {file : Bytes} {offset : Nat} {atoms : List Atom} {a : Atom}
    (h : Chain file offset atoms a.offset) (ha : IsAtom file a) : offset < file.length := by
  generalize hstop : a.offset = stop at h
  cases h with
  | nil => exact hstop ▸ ha.inside
  | cons hfirst _ => exact hfirst.inside

theorem scanAtoms_of_chain {file : Bytes} {offset : Nat} {atoms : List Atom} {a : Atom}
    (h : Chain file offset atoms a.offset) (ha : IsAtom file a) {moovSeen : Bool} {n : Nat}
    (hn : n + atoms.length < maxAtoms)
    (horder : InOrder moovSeen ((atoms ++ [a]).map Atom.kind))
    (hlarge : 2 ^ 64 ≤ a.offset + a.size) (hfile : file.length ≤ 2 ^ 63) :
    scanAtoms file offset moovSeen n = .error .overflow := by
  generalize hstop : a.offset = stop at h
  induction h generalizing moovSeen n with
  | nil =>
      have hgo : ¬ (maxAtoms < n + 1 ∨ (a.kind = ascii "mdat" ∧ moovSeen = false)) :=
        not_or.2 ⟨Nat.not_lt.2 hn, horder.1⟩
      rw [← hstop, scanAtoms_atom ha, if_neg hgo, addU64_eq_overflow hlarge]
      rfl
  | @cons b rest stop hb hrest ih =>
      have hlen : n + 1 + rest.length < maxAtoms := by
        rw [List.length_cons] at hn
        omega
      have hgo : ¬ (maxAtoms < n + 1 ∨ (b.kind = ascii "mdat" ∧ moovSeen = false)) :=
        not_or.2 ⟨by omega, horder.1⟩
      -- what follows in the chain begins inside the file
      have hsum : b.offset + b.size < 2 ^ 64 := by
        have hinside : b.offset + b.size < file.length := (hstop ▸ hrest).inside ha
        omega
      rw [scanAtoms_atom hb, if_neg hgo, addU64_of_lt hsum]
      exact ih hlen horder.2 hstop

theorem wrapsFrom_of_scanAtoms {file : Bytes} {offset n : Nat} {moovSeen : Bool}
    (h : scanAtoms file offset moovSeen n = .error .overflow) :
    WrapsFrom file offset moovSeen n := by
  fun_induction scanAtoms file offset moovSeen n with
  | case7 offset moovSeen n _ hmax header hread fourcc size hsize horder e hsum =>
      have hlarge : 2 ^ 64 ≤ offset + size := by
        unfold addU64 at hsum
        split_ifs at hsum with hsmall
        exact Nat.le_of_not_lt hsmall
      exact ⟨[], ⟨offset, size, fourcc⟩, .nil, ⟨header, hread, rfl, hsize⟩,
        Nat.not_lt.1 hmax, ⟨horder, trivial⟩, hlarge⟩
  | case8 offset moovSeen n _ hmax header hread fourcc size hsize horder next hsum ih =>
      obtain ⟨atoms, a, hchain, ha, hlen, hrest, hlarge⟩ := ih h
      have hfirst : IsAtom file ⟨offset, size, fourcc⟩ := ⟨header, hread, rfl, hsize⟩
      refine ⟨⟨offset, size, fourcc⟩ :: atoms, a, .cons hfirst (addU64_ok hsum ▸ hchain), ha, ?_,
        ⟨horder, hrest⟩, hlarge⟩
      rw [List.length_cons]
      omega
  | _ => cases h

theorem checkMoovBeforeMdat_overflow_iff (file : File) :
    checkMoovBeforeMdat file.1 = .error .overflow ↔ Wraps file := by
  constructor
  · exact wrapsFrom_of_scanAtoms
  · rintro ⟨atoms, a, hchain, ha, hlen, horder, hlarge⟩
    exact scanAtoms_of_chain hchain ha hlen horder hlarge file.2

/-! ## The top level as the walk sees it -/

/-- The boxes that are in no other box. -/
def tops (boxes : List BoxAt) : List BoxAt := boxes.filter fun b => b.depth = 0

theorem Tiles.le_depth {file : Bytes} {depth off stop : Nat} {boxes : List BoxAt}
    (h : Tiles file depth off stop boxes) : ∀ b ∈ boxes, depth ≤ b.depth := by
  induction h with
  | done _ => simp
  | plain _ _ _ _ ih =>
      intro x hx
      rcases List.mem_cons.1 hx with rfl | hx
      · exact Nat.le_refl _
      · exact ih x hx
  | container _ _ _ _ _ ihInner ihRest =>
      intro x hx
      rcases List.mem_cons.1 hx with rfl | hx
      · exact Nat.le_refl _
      · rcases List.mem_append.1 hx with hx | hx
        · exact Nat.le_of_succ_le (ihInner x hx)
        · exact ihRest x hx

/-- Boxes lie in the part that they fill. -/
theorem Tiles.bounds {file : Bytes} {depth off stop : Nat} {boxes : List BoxAt}
    (h : Tiles file depth off stop boxes) :
    off ≤ stop ∧ ∀ b ∈ boxes, off ≤ b.offset ∧ b.offset < stop := by
  induction h with
  | done _ => simp
  | plain _ hisBox _ _ ih =>
      obtain ⟨hhead, hheader, hfits⟩ := hisBox.bounds
      refine ⟨by omega, fun x hx => ?_⟩
      rcases List.mem_cons.1 hx with rfl | hx
      · omega
      · have hin := ih.2 x hx
        omega
  | container _ hisBox _ _ _ ihInner ihRest =>
      obtain ⟨hhead, hheader, hfits⟩ := hisBox.bounds
      refine ⟨by omega, fun x hx => ?_⟩
      rcases List.mem_cons.1 hx with rfl | hx
      · omega
      · rcases List.mem_append.1 hx with hx | hx
        · have hin := ihInner.2 x hx
          omega
        · have hin := ihRest.2 x hx
          omega

/-- A tiling lists its boxes in the order of their offsets. -/
theorem Tiles.sorted {file : Bytes} {depth off stop : Nat} {boxes : List BoxAt}
    (h : Tiles file depth off stop boxes) : boxes.Pairwise fun a b => a.offset < b.offset := by
  induction h with
  | done _ => exact .nil
  | plain _ hisBox _ hrest ih =>
      obtain ⟨hhead, hheader, hfits⟩ := hisBox.bounds
      refine List.pairwise_cons.2 ⟨fun x hx => ?_, ih⟩
      have hin := hrest.bounds.2 x hx
      omega
  | container _ hisBox _ hinner hrest ihInner ihRest =>
      obtain ⟨hhead, hheader, hfits⟩ := hisBox.bounds
      refine List.pairwise_cons.2 ⟨fun x hx => ?_, List.pairwise_append.2 ⟨ihInner, ihRest, ?_⟩⟩
      · rcases List.mem_append.1 hx with hx | hx
        · have hin := hinner.bounds.2 x hx
          omega
        · have hin := hrest.bounds.2 x hx
          omega
      · intro x hx y hy
        have hin := hinner.bounds.2 x hx
        have hbehind := hrest.bounds.2 y hy
        omega

theorem tops_container {file : Bytes} {depth off stop : Nat} {b : BoxAt} {inner rest : List BoxAt}
    (hb : b.depth = 0) (hinner : Tiles file (depth + 1) off stop inner) :
    tops (b :: (inner ++ rest)) = b :: tops rest := by
  have hnone : tops inner = [] := by
    apply List.filter_eq_nil_iff.2
    intro x hx
    have hdepth := hinner.le_depth x hx
    simp only [decide_eq_true_eq]
    omega
  unfold tops at hnone ⊢
  rw [List.filter_cons_of_pos (by simpa using hb), List.filter_append, hnone, List.nil_append]

theorem atomSize_of_declaredSize {file : Bytes} {off stop compact size header : Nat}
    (h : declaredSize file off stop compact = some (size, header)) (hheader : header ≤ size) :
    atomSize file off compact = .size size ∨
      (atomSize file off compact = .toEnd ∧ size = stop - off) := by
  unfold declaredSize at h
  unfold atomSize
  split_ifs at h ⊢ with hlong hend hshort
  · obtain ⟨ext, hread, heq⟩ := Option.map_eq_some_iff.1 h
    cases heq
    rw [hread]
    exact Or.inl (if_neg (Nat.not_lt.2 hheader))
  · cases h
    exact Or.inr ⟨rfl, rfl⟩
  · cases h
    omega
  · cases h
    exact Or.inl rfl

theorem scanAtoms_end {file : Bytes} {offset n : Nat} {moovSeen : Bool}
    (h : file.length ≤ offset) : scanAtoms file offset moovSeen n = .ok () := by
  unfold scanAtoms
  exact if_neg (Nat.not_lt.2 h)

theorem scanAtoms_box {file : Bytes} {b : BoxAt} (h : IsBox file file.length b)
    (hfile : file.length ≤ 2 ^ 63) (moovSeen : Bool) (n : Nat) :
    scanAtoms file b.offset moovSeen n =
      if maxAtoms < n + 1 ∨ (b.kind = ascii "mdat" ∧ moovSeen = false) then
        .error (.media .moovNotAtFront)
      else scanAtoms file (b.offset + b.size) (moovSeen || b.kind = ascii "moov") (n + 1) := by
  obtain ⟨head, hread, hkind, hsize⟩ := h.declared
  have hfits := h.fits
  rcases atomSize_of_declaredSize hsize h.header with hatom | ⟨hatom, hrest⟩
  · have hisAtom : IsAtom file ⟨b.offset, b.size, b.kind⟩ := ⟨head, hread, hkind, hatom⟩
    have hsum : b.offset + b.size < 2 ^ 64 := by omega
    rw [scanAtoms_atom hisAtom, addU64_of_lt hsum]
    rfl
  · -- a box of size zero is the last one
    have hend : file.length ≤ b.offset + b.size := by omega
    rw [scanAtoms_eq hread, hatom, scanAtoms_end hend, hkind]
    dsimp only
    by_cases hmax : maxAtoms < n + 1
    · rw [if_pos hmax, if_pos (Or.inl hmax)]
    · by_cases horder : head.drop 4 = ascii "mdat" ∧ moovSeen = false
      · rw [if_neg hmax, if_pos horder, if_pos (Or.inr horder)]
      · rw [if_neg hmax, if_neg horder, if_neg (not_or.2 ⟨hmax, horder⟩)]

theorem scanAtoms_box_ok_iff {file : Bytes} {b : BoxAt} (h : IsBox file file.length b)
    (hfile : file.length ≤ 2 ^ 63) {moovSeen : Bool} {n : Nat} {rest : List BoxAt}
    (ih : n + 1 ≤ maxAtoms →
      (scanAtoms file (b.offset + b.size) (moovSeen || b.kind = ascii "moov") (n + 1) = .ok () ↔
        n + 1 + rest.length ≤ maxAtoms ∧
          InOrder (moovSeen || b.kind = ascii "moov") (rest.map BoxAt.kind))) :
    scanAtoms file b.offset moovSeen n = .ok () ↔
      n + (b :: rest).length ≤ maxAtoms ∧ InOrder moovSeen ((b :: rest).map BoxAt.kind) := by
  rw [scanAtoms_box h hfile, List.length_cons, List.map_cons]
  constructor
  · intro hok
    split_ifs at hok with hstop
    obtain ⟨hcount, horder⟩ := not_or.1 hstop
    obtain ⟨hlen, hrest⟩ := (ih (Nat.le_of_not_lt hcount)).1 hok
    exact ⟨by omega, horder, hrest⟩
  · rintro ⟨hlen, horder, hrest⟩
    have hcount : n + 1 ≤ maxAtoms := by omega
    rw [if_neg (not_or.2 ⟨Nat.not_lt.2 hcount, horder⟩)]
    exact (ih hcount).2 ⟨by omega, hrest⟩

/-- On a tiled file, the first scan accepts what has not too many boxes at the top level, in
order. -/
theorem scanAtoms_ok_iff {file : Bytes} {off : Nat} {boxes : List BoxAt}
    (h : Tiles file 0 off file.length boxes) (hfile : file.length ≤ 2 ^ 63) {moovSeen : Bool}
    {n : Nat} (hn : n ≤ maxAtoms) :
    scanAtoms file off moovSeen n = .ok () ↔
      n + (tops boxes).length ≤ maxAtoms ∧ InOrder moovSeen ((tops boxes).map BoxAt.kind) := by
  generalize hdepth : 0 = depth at h
  generalize hstop : file.length = stop at h
  induction h generalizing moovSeen n with
  | done _ =>
      rw [scanAtoms_end (Nat.le_of_eq hstop)]
      exact ⟨fun _ => ⟨hn, trivial⟩, fun _ => rfl⟩
  | @plain stop b rest _ hisBox _ _ ih =>
      have htops : tops (b :: rest) = b :: tops rest :=
        List.filter_cons_of_pos (by simpa using hdepth.symm)
      rw [htops]
      exact scanAtoms_box_ok_iff (hstop ▸ hisBox) hfile fun hcount => ih hcount hdepth hstop
  | @container stop b inner rest _ hisBox _ hinner _ _ ih =>
      rw [tops_container hdepth.symm hinner]
      exact scanAtoms_box_ok_iff (hstop ▸ hisBox) hfile fun hcount => ih hcount hdepth hstop

/-! ## What two scans that accept say about a file -/

/-- A `moov` begins before every `mdat`. -/
def MoovFirst (boxes : List BoxAt) : Prop :=
  ∀ b ∈ boxes, b.kind = ascii "mdat" → ∃ m ∈ boxes, m.kind = ascii "moov" ∧ m.offset < b.offset

/-- The structure of a file. -/
structure Structured (file : File) (boxes : List BoxAt) : Prop where
  tiles : Tiles file.1 0 0 file.1.length boxes
  kinds : ∀ b ∈ boxes, b.kind ∈ allowed
  count : boxes.length ≤ maxBoxes
  depth : ∀ b ∈ boxes, b.depth ≤ maxBoxDepth
  moovFirst : MoovFirst boxes

/-- No sum overflows, and a file that both scans accept has the structure. -/
structure Ok (file : File) : Prop where
  moov : checkMoovBeforeMdat file.1 ≠ .error .overflow
  walk : validateMp4MetadataFree file.1 ≠ .error .overflow
  accepted : ∀ visited, checkMoovBeforeMdat file.1 = .ok () →
    validateMp4MetadataFree file.1 = .ok visited → Structured file visited

/-- A box inside another is an `mdat` and has no `moov` before it, and nothing else is wrong. -/
def Hidden (file : File) : Prop :=
  ∃ boxes, Tiles file.1 0 0 file.1.length boxes ∧ boxes.length ≤ maxBoxes ∧
    (tops boxes).length ≤ maxAtoms ∧ InOrder false ((tops boxes).map BoxAt.kind) ∧
    ∃ b ∈ boxes, 0 < b.depth ∧ b.kind = ascii "mdat" ∧
      ∀ m ∈ boxes, m.kind = ascii "moov" → b.offset ≤ m.offset

-- A `trak` around an `mdat`, and no `moov` at all.
example : ∃ h, Hidden ⟨[0, 0, 0, 16] ++ ascii "trak" ++ [0, 0, 0, 8] ++ ascii "mdat", h⟩ := by
  have hmdat : IsBox ([0, 0, 0, 16] ++ ascii "trak" ++ [0, 0, 0, 8] ++ ascii "mdat") 16
      ⟨8, 8, 8, ascii "mdat", 1⟩ :=
    ⟨by decide, ⟨[0, 0, 0, 8] ++ ascii "mdat", by decide⟩, by decide, by decide,
      by decide, by decide⟩
  have htrak : IsBox ([0, 0, 0, 16] ++ ascii "trak" ++ [0, 0, 0, 8] ++ ascii "mdat") 16
      ⟨0, 16, 8, ascii "trak", 0⟩ :=
    ⟨by decide, ⟨[0, 0, 0, 16] ++ ascii "trak", by decide⟩, by decide, by decide,
      by decide, by decide⟩
  have hinner := Tiles.plain (by decide) hmdat (by decide) (.done (by decide))
  have htiles := Tiles.container (by decide) htrak (by decide) hinner (.done (by decide))
  refine ⟨by decide, _, htiles, by decide, by decide, ⟨by decide, trivial⟩, ?_⟩
  exact ⟨_, List.mem_cons_of_mem _ List.mem_cons_self, by decide, rfl, by decide⟩

theorem Tiles.forall {file : Bytes} {depth off stop : Nat} {boxes : List BoxAt}
    (h : Tiles file depth off stop boxes) :
    ∀ b ∈ boxes, b.kind ∈ allowed ∧ b.depth ≤ maxBoxDepth := by
  induction h with
  | done _ => simp
  | plain hdepth hisBox _ _ ih =>
      intro x hx
      rcases List.mem_cons.1 hx with rfl | hx
      · exact ⟨hisBox.allowed, hdepth⟩
      · exact ih x hx
  | container hdepth hisBox _ _ _ ihInner ihRest =>
      intro x hx
      rcases List.mem_cons.1 hx with rfl | hx
      · exact ⟨hisBox.allowed, hdepth⟩
      · rcases List.mem_append.1 hx with hx | hx
        · exact ihInner x hx
        · exact ihRest x hx

theorem InOrder.moov_mem {moovSeen : Bool} {before after : List Bytes}
    (h : InOrder moovSeen (before ++ ascii "mdat" :: after)) :
    moovSeen = true ∨ ascii "moov" ∈ before := by
  induction before generalizing moovSeen with
  | nil =>
      have hseen : ¬ moovSeen = false := fun hnot => h.1 ⟨rfl, hnot⟩
      exact Or.inl (by simpa using hseen)
  | cons kind rest ih =>
      rcases ih h.2 with hseen | hmem
      · rcases Bool.or_eq_true_iff.1 hseen with hbefore | hkind
        · exact Or.inl hbefore
        · rw [← of_decide_eq_true hkind]
          exact Or.inr List.mem_cons_self
      · exact Or.inr (List.mem_cons_of_mem _ hmem)

theorem exists_moov_of_top {file : Bytes} {depth off stop : Nat} {boxes : List BoxAt}
    (h : Tiles file depth off stop boxes) (horder : InOrder false ((tops boxes).map BoxAt.kind))
    {b : BoxAt} (hb : b ∈ boxes) (htop : b.depth = 0) (hkind : b.kind = ascii "mdat") :
    ∃ m ∈ boxes, m.kind = ascii "moov" ∧ m.offset < b.offset := by
  have hmem : b ∈ tops boxes := List.mem_filter.2 ⟨hb, by simpa using htop⟩
  obtain ⟨before, after, hsplit⟩ := List.append_of_mem hmem
  rw [hsplit, List.map_append, List.map_cons, hkind] at horder
  rcases horder.moov_mem with hfalse | hmoov
  · cases hfalse
  · obtain ⟨m, hm, hmkind⟩ := List.mem_map.1 hmoov
    have hsorted : (tops boxes).Pairwise fun a b => a.offset < b.offset := h.sorted.filter _
    rw [hsplit] at hsorted
    have hlt := (List.pairwise_append.1 hsorted).2.2 m hm b List.mem_cons_self
    have htops : m ∈ tops boxes := hsplit ▸ List.mem_append_left _ hm
    exact ⟨m, (List.mem_filter.1 htops).1, hmkind, hlt⟩

/-- The two scans keep their promise if and only if no size wraps round and no `mdat` is hidden
inside a box in front of `moov`. -/
theorem mp4_checks_ok_iff (file : File) : Ok file ↔ ¬ Wraps file ∧ ¬ Hidden file := by
  have hlen : (0 : Nat) ≤ file.1.length := Nat.zero_le _
  constructor
  · intro h
    refine ⟨fun hwraps => h.moov ((checkMoovBeforeMdat_overflow_iff file).2 hwraps), ?_⟩
    rintro ⟨boxes, htiles, hcount, htops, horder, b, hb, -, hkind, hnone⟩
    have hscan : checkMoovBeforeMdat file.1 = .ok () :=
      (scanAtoms_ok_iff htiles file.2 (Nat.zero_le _)).2 ⟨by omega, horder⟩
    have hwalk : validateMp4MetadataFree file.1 = .ok boxes := walk_of_tiles htiles file.2 hcount
    obtain ⟨m, hm, hmoov, hlt⟩ := (h.accepted boxes hscan hwalk).moovFirst b hb hkind
    exact Nat.not_lt.2 (hnone m hm hmoov) hlt
  · rintro ⟨hwraps, hhidden⟩
    refine ⟨fun hover => hwraps ((checkMoovBeforeMdat_overflow_iff file).1 hover),
      walk_ne_overflow file.2, fun visited hscan hwalk => ?_⟩
    obtain ⟨boxes, rfl, htiles, hcount⟩ := tiles_of_walk hlen (Nat.zero_le _) hwalk
    obtain ⟨htops, horder⟩ := (scanAtoms_ok_iff htiles file.2 (Nat.zero_le _)).1 hscan
    refine ⟨htiles, fun b hb => (htiles.forall b hb).1, hcount, fun b hb => (htiles.forall b hb).2,
      fun b hb hkind => ?_⟩
    by_contra hnone
    rcases Nat.eq_zero_or_pos b.depth with htop | hdeep
    · exact hnone (exists_moov_of_top htiles horder hb htop hkind)
    · refine hhidden ⟨_, htiles, hcount, by omega, horder, b, hb, hdeep, hkind, ?_⟩
      intro m hm hmoov
      by_contra hlt
      exact hnone ⟨m, hm, hmoov, Nat.lt_of_not_le hlt⟩

/-- A `free` box, and one whose size is the largest `u64`. -/
def wrapping : Bytes :=
  [0, 0, 0, 8] ++ ascii "free" ++ [0, 0, 0, 1] ++ ascii "free" ++
    [255, 255, 255, 255, 255, 255, 255, 255]

theorem wrapping_box_overflows : ∃ file : File, file.1 = wrapping ∧
    checkMoovBeforeMdat file.1 = .error .overflow ∧ ¬ Ok file := by
  have hlen : wrapping.length ≤ 2 ^ 63 := by decide
  have hfirst : IsAtom wrapping ⟨0, 8, ascii "free"⟩ :=
    ⟨[0, 0, 0, 8] ++ ascii "free", by decide, by decide, by decide⟩
  have hsecond : IsAtom wrapping ⟨8, 2 ^ 64 - 1, ascii "free"⟩ :=
    ⟨[0, 0, 0, 1] ++ ascii "free", by decide, by decide, by decide⟩
  have hover : checkMoovBeforeMdat wrapping = .error .overflow :=
    @scanAtoms_of_chain wrapping 0 [⟨0, 8, ascii "free"⟩] _ (.cons hfirst .nil) hsecond false 0
      (by decide) ⟨by decide, by decide, trivial⟩ (by decide) hlen
  exact ⟨⟨wrapping, hlen⟩, rfl, hover, fun h => h.moov hover⟩

end Media
end Maju
