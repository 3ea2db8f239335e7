import Maju.Media.Checked

/-!
# Mp4 — two scans of the boxes of a video file

One scan follows the boxes at the top level and looks for `moov` in front of `mdat`; the other walks
into containers and checks the type of every box.

* `checkMoovBeforeMdat`, `validateMp4MetadataFree` — the two scans, with the sums that Rust does not
  check ending in `overflow`;
* `Tiles` — boxes that fill a part of the file exactly, those of a container its payload;
* `tiles_of_walk`, `walk_of_tiles` — the walk accepts the files that are tiled so;
* `walk_ne_overflow` — and never overflows.
-/

namespace Maju
namespace Media

open Lib

/-- `read_exact` at an offset. -/
def readExact (file : Bytes) (off n : Nat) : Option Bytes :=
  let bytes := (file.drop off).take n
  if bytes.length = n then some bytes else none

/-! ## The order of the top level -/

def maxAtoms : Nat := 1024

/-- What the header of an atom says: nothing that can be followed, the rest of the file, or a
size. -/
inductive AtomSize where
  | stop
  | toEnd
  | size (n : Nat)
  deriving DecidableEq, Repr

def atomSize (file : Bytes) (offset compactSize : Nat) : AtomSize :=
  if compactSize = 1 then
    match readExact file (offset + 8) 8 with
    | none => .stop
    | some ext => if beNat ext < 16 then .stop else .size (beNat ext)
  else if compactSize = 0 then .toEnd
  else if compactSize < 8 then .stop
  else .size compactSize

/-- The loop of `check_moov_before_mdat`. -/
def scanAtoms (file : Bytes) (offset : Nat) (moovSeen : Bool) (atomsScanned : Nat) :
    Except Halt Unit :=
  if offset < file.length then
    if _hmax : maxAtoms < atomsScanned + 1 then .error (.media .moovNotAtFront)
    else
      match readExact file offset 8 with
      | none => .ok ()
      | some header =>
          let fourcc := header.drop 4
          match atomSize file offset (beNat (header.take 4)) with
          | .stop => .ok ()
          | .toEnd =>
              if fourcc = ascii "mdat" ∧ moovSeen = false then .error (.media .moovNotAtFront)
              else .ok ()
          | .size n =>
              if fourcc = ascii "mdat" ∧ moovSeen = false then .error (.media .moovNotAtFront)
              else
                match addU64 offset n with
                | .error e => .error e
                | .ok next =>
                    scanAtoms file next (moovSeen || fourcc = ascii "moov") (atomsScanned + 1)
  else .ok ()
termination_by maxAtoms - atomsScanned

def checkMoovBeforeMdat (file : Bytes) : Except Halt Unit := scanAtoms file 0 false 0

/-! ## The walk -/

def maxBoxes : Nat := 100000

def maxBoxDepth : Nat := 32

def emptyFfmpegUdta : Bytes :=
  [0, 0, 0, 0x35] ++ ascii "meta" ++ [0, 0, 0, 0, 0, 0, 0, 0x21] ++ ascii "hdlr" ++
    [0, 0, 0, 0, 0, 0, 0, 0] ++ ascii "mdirappl" ++
    [0, 0, 0, 0, 0, 0, 0, 0, 0, 0, 0, 0, 8] ++ ascii "ilst"

def forbidden : List Bytes :=
  ["meta", "ilst", "keys", "data", "uuid", "xml ", "bxml", "loci", "\u00a9xyz", "name",
    "chap"].map ascii

def containers : List Bytes :=
  ["moov", "trak", "mdia", "minf", "stbl", "edts", "dinf", "sinf", "schi"].map ascii

def allowed : List Bytes :=
  ["ftyp", "moov", "mdat", "free", "skip", "wide", "trak", "mdia", "minf",
    "stbl", "edts", "dinf", "sinf", "schi", "udta", "mvhd", "tkhd", "mdhd",
    "hdlr", "vmhd", "smhd", "dref", "url ", "urn ", "stsd", "stts", "stss",
    "ctts", "stsc", "stsz", "stco", "co64", "sgpd", "sbgp", "sdtp", "elst"].map ascii

/-- A box that has been visited. -/
structure BoxAt where
  offset : Nat
  size : Nat
  header : Nat
  kind : Bytes
  depth : Nat
  deriving DecidableEq, Repr

/-- The size of a box and of its header; nothing if the long size cannot be read. -/
def declaredSize (file : Bytes) (off stop compact : Nat) : Option (Nat × Nat) :=
  if compact = 1 then (readExact file (off + 8) 8).map fun ext => (beNat ext, 16)
  else if compact = 0 then some (stop - off, 8)
  else some (compact, 8)

/-- One turn of the loop of `walk` up to its recursion; `count` has been increased. -/
def readBox (file : Bytes) (off stop count depth : Nat) : Except Halt BoxAt :=
  if maxBoxes < count ∨ stop - off < 8 then .error (.media .invalidVideo)
  else
    match readExact file off 8 with
    | none => .error (.media .invalidVideo)
    | some h =>
        let kind := h.drop 4
        match declaredSize file off stop (beNat (h.take 4)) with
        | none => .error (.media .invalidVideo)
        | some (size, header) =>
            if size < header ∨ ((checkedAdd off size).filter (· ≤ stop)).isNone then
              .error (.media .invalidVideo)
            else if kind ∈ forbidden ∨ kind ∉ allowed then .error (.media .metadataForbidden)
            else if kind = ascii "udta" then
              if size ≠ header + emptyFfmpegUdta.length then .error (.media .metadataForbidden)
              else
                match readExact file (off + header) emptyFfmpegUdta.length with
                | none => .error (.media .invalidVideo)
                | some body =>
                    if body ≠ emptyFfmpegUdta then .error (.media .metadataForbidden)
                    else .ok ⟨off, size, header, kind, depth⟩
            else .ok ⟨off, size, header, kind, depth⟩

/-- A box that the walk lets pass: it lies in the part that is walked, its type is allowed, and a
`udta` box is the empty one. -/
structure IsBox (file : Bytes) (stop : Nat) (b : BoxAt) : Prop where
  room : b.offset + 8 ≤ stop
  declared : ∃ h, readExact file b.offset 8 = some h ∧ b.kind = h.drop 4 ∧
    declaredSize file b.offset stop (beNat (h.take 4)) = some (b.size, b.header)
  header : b.header ≤ b.size
  fits : b.offset + b.size ≤ stop
  allowed : b.kind ∈ allowed
  udta : b.kind = ascii "udta" → b.size = b.header + emptyFfmpegUdta.length ∧
    readExact file (b.offset + b.header) emptyFfmpegUdta.length = some emptyFfmpegUdta

theorem not_forbidden : ∀ kind ∈ allowed, kind ∉ forbidden := by
  decide

theorem eight_le_header {file : Bytes} {off stop compact size header : Nat}
    (h : declaredSize file off stop compact = some (size, header)) : 8 ≤ header := by
  unfold declaredSize at h
  split_ifs at h
  · obtain ⟨ext, -, heq⟩ := Option.map_eq_some_iff.1 h
    cases heq
    decide
  · cases h
    exact Nat.le_refl 8
  · cases h
    exact Nat.le_refl 8

theorem readBox_ok {file : Bytes} {off stop count depth : Nat} {b : BoxAt}
    (h : readBox file off stop count depth = .ok b) :
    count ≤ maxBoxes ∧ b.offset = off ∧ b.depth = depth ∧ IsBox file stop b := by
  unfold readBox at h
  split_ifs at h with hroom
  obtain ⟨hcount, hhead⟩ := not_or.1 hroom
  split at h
  · cases h
  · next head hread =>
      dsimp only at h
      split at h
      · cases h
      · next size header hsize =>
          split_ifs at h with hbad hkind hudta hlen
          all_goals
            obtain ⟨hheader, hend⟩ := not_or.1 hbad
            obtain ⟨-, hfits⟩ := checkedAdd_filter_isNone.1 (by simpa using hend)
            have hallowed : head.drop 4 ∈ allowed := not_not.1 (not_or.1 hkind).2
          · split at h
            · cases h
            · next body hbody =>
                split_ifs at h with hother
                cases h
                have hempty : body = emptyFfmpegUdta := not_not.1 hother
                exact ⟨Nat.le_of_not_lt hcount, rfl, rfl,
                  { room := by dsimp only; omega
                    declared := ⟨head, hread, rfl, hsize⟩
                    header := Nat.le_of_not_lt hheader
                    fits := hfits
                    allowed := hallowed
                    udta := fun _ => ⟨not_not.1 hlen, hempty ▸ hbody⟩ }⟩
          · cases h
            exact ⟨Nat.le_of_not_lt hcount, rfl, rfl,
              { room := by dsimp only; omega
                declared := ⟨head, hread, rfl, hsize⟩
                header := Nat.le_of_not_lt hheader
                fits := hfits
                allowed := hallowed
                udta := fun heq => absurd heq hudta }⟩

theorem readBox_of_isBox {file : Bytes} {stop : Nat} {b : BoxAt} (hstop : stop ≤ 2 ^ 63)
    (h : IsBox file stop b) {count : Nat} (hcount : count ≤ maxBoxes) :
    readBox file b.offset stop count b.depth = .ok b := by
  obtain ⟨offset, size, header, kind, depth⟩ := b
  obtain ⟨hroom, ⟨head, hread, hkind, hsize⟩, hheader, hfits, hallowed, hudta⟩ := h
  dsimp only at *
  subst hkind
  have hhead : ¬ (maxBoxes < count ∨ stop - offset < 8) := by omega
  have hend : ((checkedAdd offset size).filter (· ≤ stop)).isNone = false :=
    checkedAdd_filter_isNone.2 ⟨by omega, hfits⟩
  have hlen : ¬ size < header := Nat.not_lt.2 hheader
  have hok : ¬ (head.drop 4 ∈ forbidden ∨ head.drop 4 ∉ allowed) := by
    rintro (hforbidden | hnot)
    · exact not_forbidden _ hallowed hforbidden
    · exact hnot hallowed
  simp only [readBox, if_neg hhead, hread, hsize, hlen, hend, Bool.false_eq_true, or_self, if_false,
    if_neg hok]
  split_ifs with hkind hother
  · exact absurd (hudta hkind).1 hother
  · simp only [(hudta hkind).2, ne_eq, not_true_eq_false, if_false]
  · rfl

theorem IsBox.bounds {file : Bytes} {stop : Nat} {b : BoxAt} (h : IsBox file stop b) :
    8 ≤ b.header ∧ b.header ≤ b.size ∧ b.offset + b.size ≤ stop := by
  obtain ⟨head, -, -, hsize⟩ := h.declared
  exact ⟨eight_le_header hsize, h.header, h.fits⟩

/-- `walk`, with the boxes visited so far; their number is `count`. -/
def walk (file : Bytes) (off stop : Nat) (visited : List BoxAt) (depth : Nat) :
    Except Halt (List BoxAt) :=
  if maxBoxDepth < depth then .error (.media .invalidVideo)
  else if _hmore : off < stop then
    match _hbox : readBox file off stop (visited.length + 1) depth with
    | .error e => .error e
    | .ok b =>
        match _hnext : addU64 off b.size with
        | .error e => .error e
        | .ok next =>
            if b.kind ∈ containers then
              match _hinner : addU64 off b.header with
              | .error e => .error e
              | .ok inner =>
                  match walk file inner next (visited ++ [b]) (depth + 1) with
                  | .error e => .error e
                  | .ok visited => walk file next stop visited depth
            else walk file next stop (visited ++ [b]) depth
  else .ok visited
termination_by stop - off
decreasing_by
  all_goals
    obtain ⟨-, hoff, -, hisBox⟩ := readBox_ok _hbox
    obtain ⟨hhead, hheader, hfits⟩ := hisBox.bounds
    rw [hoff] at hfits
    obtain rfl := addU64_ok _hnext
  · obtain rfl := addU64_ok _hinner
    omega
  · omega
  · omega

def validateMp4MetadataFree (file : Bytes) : Except Halt (List BoxAt) :=
  walk file 0 file.length [] 0

/-! ## The structure -/

/-- Boxes, in the order in which they begin, that fill a part of the file exactly; those of a
container fill its payload. -/
inductive Tiles (file : Bytes) : Nat → Nat → Nat → List BoxAt → Prop where
  | done {depth stop : Nat} : depth ≤ maxBoxDepth → Tiles file depth stop stop []
  | plain {stop : Nat} {b : BoxAt} {rest : List BoxAt} :
      b.depth ≤ maxBoxDepth → IsBox file stop b → b.kind ∉ containers →
      Tiles file b.depth (b.offset + b.size) stop rest →
      Tiles file b.depth b.offset stop (b :: rest)
  | container {stop : Nat} {b : BoxAt} {inner rest : List BoxAt} :
      b.depth ≤ maxBoxDepth → IsBox file stop b → b.kind ∈ containers →
      Tiles file (b.depth + 1) (b.offset + b.header) (b.offset + b.size) inner →
      Tiles file b.depth (b.offset + b.size) stop rest →
      Tiles file b.depth b.offset stop (b :: (inner ++ rest))

theorem walk_eq (file : Bytes) (off stop : Nat) (visited : List BoxAt) (depth : Nat) :
    walk file off stop visited depth =
      if maxBoxDepth < depth then .error (.media .invalidVideo)
      else if off < stop then
        (readBox file off stop (visited.length + 1) depth).bind fun b =>
          (addU64 off b.size).bind fun next =>
            if b.kind ∈ containers then
              (addU64 off b.header).bind fun inner =>
                (walk file inner next (visited ++ [b]) (depth + 1)).bind fun visited =>
                  walk file next stop visited depth
            else walk file next stop (visited ++ [b]) depth
      else .ok visited := by
  conv_lhs => unfold walk
  split_ifs with hdepth hmore
  · rfl
  · split
    · next e hbox =>
        rw [hbox]
        rfl
    · next b hbox =>
        rw [hbox, Except.bind]
        split
        · next e hnext =>
            rw [hnext]
            rfl
        · next next hnext =>
            rw [hnext, Except.bind]
            split_ifs
            · split
              · next e hinner =>
                  rw [hinner]
                  rfl
              · next inner hinner =>
                  rw [hinner, Except.bind]
                  cases walk file inner next (visited ++ [b]) (depth + 1) <;> rfl
            · rfl
  · rfl

theorem walk_ok {file : Bytes} {off stop depth : Nat} {visited visited' : List BoxAt}
    (h : walk file off stop visited depth = .ok visited') :
    depth ≤ maxBoxDepth ∧
      ((stop ≤ off ∧ visited' = visited) ∨
        ∃ b, visited.length + 1 ≤ maxBoxes ∧ b.offset = off ∧ b.depth = depth ∧
          IsBox file stop b ∧
          ((b.kind ∉ containers ∧
              walk file (off + b.size) stop (visited ++ [b]) depth = .ok visited') ∨
            (b.kind ∈ containers ∧ ∃ between,
              walk file (off + b.header) (off + b.size) (visited ++ [b]) (depth + 1) = .ok between ∧
                walk file (off + b.size) stop between depth = .ok visited'))) := by
  rw [walk_eq] at h
  split_ifs at h with hdepth hmore
  · refine ⟨Nat.le_of_not_lt hdepth, Or.inr ?_⟩
    obtain ⟨b, hbox, hread⟩ := bind_ok h
    obtain ⟨next, hnext, hchecked⟩ := bind_ok hread
    obtain rfl := addU64_ok hnext
    obtain ⟨hcount, hoff, hbdepth, hisBox⟩ := readBox_ok hbox
    refine ⟨b, hcount, hoff, hbdepth, hisBox, ?_⟩
    by_cases hkind : b.kind ∈ containers
    · rw [if_pos hkind] at hchecked
      obtain ⟨inner, hinner, hwalk⟩ := bind_ok hchecked
      obtain ⟨between, hbetween, hafter⟩ := bind_ok hwalk
      obtain rfl := addU64_ok hinner
      exact Or.inr ⟨hkind, between, hbetween, hafter⟩
    · rw [if_neg hkind] at hchecked
      exact Or.inl ⟨hkind, hchecked⟩
  · cases h
    exact ⟨Nat.le_of_not_lt hdepth, Or.inl ⟨Nat.le_of_not_lt hmore, rfl⟩⟩

/-- The walk visits boxes that fill the part it walks. -/
theorem tiles_of_walk {file : Bytes} {off stop depth : Nat} {visited visited' : List BoxAt}
    (hoff : off ≤ stop) (hcount : visited.length ≤ maxBoxes)
    (h : walk file off stop visited depth = .ok visited') :
    ∃ boxes, visited' = visited ++ boxes ∧ Tiles file depth off stop boxes ∧
      visited'.length ≤ maxBoxes := by
  induction hn : stop - off using Nat.strongRecOn
    generalizing off stop depth visited visited' with
  | ind n ih =>
      obtain ⟨hdepth, ⟨hend, rfl⟩ | ⟨b, hroom, rfl, rfl, hisBox, hrest⟩⟩ := walk_ok h
      · obtain rfl : off = stop := Nat.le_antisymm hoff hend
        exact ⟨[], (List.append_nil _).symm, .done hdepth, hcount⟩
      · obtain ⟨hhead, hheader, hfits⟩ := hisBox.bounds
        have hone : (visited ++ [b]).length ≤ maxBoxes := by simpa using hroom
        rcases hrest with ⟨hkind, hrest⟩ | ⟨hkind, between, hinner, hrest⟩
        · obtain ⟨rest, rfl, htiles, hlen⟩ := ih _ (by omega) hfits hone hrest rfl
          exact ⟨b :: rest, by simp, .plain hdepth hisBox hkind htiles, hlen⟩
        · -- first the payload, then what follows the box
          obtain ⟨inner, rfl, hinnerTiles, hinnerLen⟩ :=
            ih _ (by omega) (Nat.add_le_add_left hheader _) hone hinner rfl
          obtain ⟨rest, rfl, htiles, hlen⟩ := ih _ (by omega) hfits hinnerLen hrest rfl
          exact ⟨b :: (inner ++ rest), by simp, .container hdepth hisBox hkind hinnerTiles htiles,
            hlen⟩

/-- Boxes that fill a part are visited, if they are not too many. -/
theorem walk_of_tiles {file : Bytes} {off stop depth : Nat} {boxes : List BoxAt}
    (h : Tiles file depth off stop boxes) (hstop : stop ≤ 2 ^ 63) {visited : List BoxAt}
    (hcount : (visited ++ boxes).length ≤ maxBoxes) :
    walk file off stop visited depth = .ok (visited ++ boxes) := by
  induction h generalizing visited with
  | done hdepth =>
      rw [walk_eq, if_neg (Nat.not_lt.2 hdepth), if_neg (Nat.lt_irrefl _), List.append_nil]
  | @plain stop b rest hdepth hisBox hkind _ ih =>
      obtain ⟨hhead, hheader, hfits⟩ := hisBox.bounds
      have hone : visited.length + 1 ≤ maxBoxes := by
        simp only [List.length_append, List.length_cons] at hcount
        omega
      have hbox := readBox_of_isBox hstop hisBox hone
      have hnext := @addU64_of_lt b.offset b.size (by omega)
      rw [walk_eq, if_neg (Nat.not_lt.2 hdepth), if_pos (by omega), hbox, Except.bind, hnext,
        Except.bind, if_neg hkind, ih hstop (by simpa using hcount)]
      simp
  | @container stop b inner rest hdepth hisBox hkind _ _ ihInner ihRest =>
      obtain ⟨hhead, hheader, hfits⟩ := hisBox.bounds
      have hone : visited.length + 1 ≤ maxBoxes := by
        simp only [List.length_append, List.length_cons] at hcount
        omega
      have hbox := readBox_of_isBox hstop hisBox hone
      have hnext := @addU64_of_lt b.offset b.size (by omega)
      have hinner := @addU64_of_lt b.offset b.header (by omega)
      have hpayload : walk file (b.offset + b.header) (b.offset + b.size) (visited ++ [b])
          (b.depth + 1) = .ok (visited ++ [b] ++ inner) := by
        apply ihInner (Nat.le_trans hfits hstop)
        simp only [List.length_append, List.length_cons, List.length_nil] at hcount ⊢
        omega
      rw [walk_eq, if_neg (Nat.not_lt.2 hdepth), if_pos (by omega), hbox, Except.bind, hnext,
        Except.bind, if_pos hkind, hinner, Except.bind, hpayload, Except.bind,
        ihRest hstop (by simpa using hcount)]
      simp

theorem bind_overflow {α β : Type} {x : Except Halt α} {f : α → Except Halt β}
    (h : x.bind f = .error .overflow) :
    x = .error .overflow ∨ ∃ a, x = .ok a ∧ f a = .error .overflow := by
  cases x with
  | error e =>
      cases h
      exact Or.inl rfl
  | ok a => exact Or.inr ⟨a, rfl, h⟩

theorem readBox_ne_overflow (file : Bytes) (off stop count depth : Nat) :
    readBox file off stop count depth ≠ .error .overflow := by
  intro h
  unfold readBox at h
  split_ifs at h with hroom
  · cases h
  · split at h
    · cases h
    · dsimp only at h
      split at h
      · cases h
      · split_ifs at h with hbad hkind hudta hlen
        · cases h
        · cases h
        · cases h
        · split at h
          · cases h
          · split_ifs at h with hother
            · cases h

/-- No sum of the walk is too large. -/
theorem walk_ne_overflow {file : Bytes} {off stop depth : Nat} {visited : List BoxAt}
    (hstop : stop ≤ 2 ^ 63) : walk file off stop visited depth ≠ .error .overflow := by
  intro h
  induction hn : stop - off using Nat.strongRecOn generalizing off stop depth visited with
  | ind n ih =>
      rw [walk_eq] at h
      split_ifs at h with hdepth hmore
      · cases h
      · rcases bind_overflow h with hover | ⟨b, hbox, hread⟩
        · exact readBox_ne_overflow _ _ _ _ _ hover
        · obtain ⟨hcount, rfl, -, hisBox⟩ := readBox_ok hbox
          obtain ⟨hhead, hheader, hfits⟩ := hisBox.bounds
          rw [@addU64_of_lt b.offset b.size (by omega), Except.bind] at hread
          by_cases hkind : b.kind ∈ containers
          · rw [if_pos hkind, @addU64_of_lt b.offset b.header (by omega), Except.bind] at hread
            rcases bind_overflow hread with hover | ⟨between, -, hafter⟩
            · exact ih _ (by omega) (by omega) hover rfl
            · exact ih _ (by omega) hstop hafter rfl
          · rw [if_neg hkind] at hread
            exact ih _ (by omega) hstop hread rfl

end Media
end Maju
