import Maju.Media.Checked
import Maju.Lib.Loop

/-!
# Gif — the blocks of a picture

* `skipSubBlocks`, `validateGifMetadataFree` — the walk over sub-blocks, and that over the file;
* `GifBlock`, `GifFile` — an image, a graphic control or a looping extension, and a file of them;
* `gifFile_of_ok` — what the walk accepts is made of such blocks, with nothing behind the trailer;
* `validateGifMetadataFree_ne_outOfRange` — no index is out of range.
-/

namespace Maju
namespace Media

open Lib

/-! ## Sub-blocks -/

/-- One turn of `skip_sub_blocks`. -/
def subBlockTurn (bytes : Bytes) (i : Nat) : Except Halt (Nat ⊕ Nat) :=
  match bytes[i]? with
  | none => .error (.media .invalidImage)
  | some len =>
      if len = 0 then .ok (.inr (i + 1))
      else
        match endAt bytes (i + 1) len.toNat with
        | none => .error (.media .invalidImage)
        | some stop => .ok (.inl stop)

def subBlock (data : Bytes) : Bytes := UInt8.ofNat data.length :: data

/-- The length of a sub-block is a byte, and not zero. -/
def IsSubBlock (data : Bytes) : Prop := data ≠ [] ∧ data.length < 2 ^ 8

theorem subBlockTurn_next {bytes : Bytes} {i stop : Nat}
    (h : subBlockTurn bytes i = .ok (.inl stop)) :
    ∃ data, IsSubBlock data ∧ Spans bytes i (subBlock data) stop := by
  unfold subBlockTurn at h
  split at h
  · cases h
  · next len hlen =>
      split_ifs at h with hzero
      · cases h
      split at h
      · cases h
      · next stop' hstop =>
          cases h
          obtain ⟨hsum, hle⟩ := endAt_some hstop
          have hroom : i + 1 + len.toNat ≤ bytes.length := hsum ▸ hle
          have hlength := length_take_drop hroom
          have hfield : UInt8.ofNat ((bytes.drop (i + 1)).take len.toNat).length = len := by
            rw [hlength, UInt8.ofNat_toNat]
          have hpos : 0 < len.toNat :=
            Nat.pos_of_ne_zero fun h => hzero (UInt8.toNat_inj.1 h)
          refine ⟨(bytes.drop (i + 1)).take len.toNat, ⟨?_, ?_⟩, ?_⟩
          · exact List.length_pos_iff.1 (hlength.symm ▸ hpos)
          · exact hlength.symm ▸ len.toNat_lt
          · have hspans := (spans_of_getElem? hlen).trans (spans_take hroom)
            rw [hsum] at hspans
            rw [subBlock, hfield]
            exact hspans

theorem subBlockTurn_done {bytes : Bytes} {i stop : Nat}
    (h : subBlockTurn bytes i = .ok (.inr stop)) : Spans bytes i [0] stop := by
  unfold subBlockTurn at h
  split at h
  · cases h
  · next len hlen =>
      split_ifs at h with hzero
      · cases h
        exact spans_of_getElem? (hzero ▸ hlen)
      · split at h <;> cases h

theorem subBlockTurn_descends (bytes : Bytes) :
    Descends (fun i => bytes.length - i) (subBlockTurn bytes) := by
  intro i stop h
  obtain ⟨data, -, hspans⟩ := subBlockTurn_next h
  have hle := hspans.le
  have hstop := hspans.stop_eq
  rw [subBlock, List.length_cons] at hstop
  dsimp only
  omega

def skipSubBlocks (bytes : Bytes) (i : Nat) : Except Halt Nat :=
  loop (subBlockTurn bytes) (fun i => bytes.length - i) (subBlockTurn_descends bytes) i

theorem skipSubBlocks_ok {bytes : Bytes} {i stop : Nat} (h : skipSubBlocks bytes i = .ok stop) :
    ∃ blocks : List Bytes, (∀ data ∈ blocks, IsSubBlock data) ∧
      Spans bytes i (blocks.flatMap subBlock ++ [0]) stop := by
  refine @loop_ok_induction _ _ _ (subBlockTurn bytes) _ (subBlockTurn_descends bytes) i stop
    (fun i stop => ∃ blocks : List Bytes, (∀ data ∈ blocks, IsSubBlock data) ∧
      Spans bytes i (blocks.flatMap subBlock ++ [0]) stop)
    (fun i stop hturn => ⟨[], nofun, subBlockTurn_done hturn⟩)
    (fun i mid stop hturn hrun => ?_) h
  obtain ⟨data, hdata, hspans⟩ := subBlockTurn_next hturn
  obtain ⟨blocks, hall, hrest⟩ := hrun
  refine ⟨data :: blocks, List.forall_mem_cons.2 ⟨hdata, hall⟩, ?_⟩
  rw [List.flatMap_cons, List.append_assoc]
  exact hspans.trans hrest

theorem skipSubBlocks_ne_outOfRange (bytes : Bytes) (i : Nat) :
    skipSubBlocks bytes i ≠ .error .outOfRange := by
  refine loop_ne_error _ (fun _ => True) (fun _ _ _ _ => trivial) (fun i _ => ?_) trivial
  unfold subBlockTurn
  split
  · simp
  · split_ifs
    · simp
    · split <;> simp

/-! ## The blocks of a file -/

/-- The length of the colour table that a packed field announces. -/
def tableLen (packed : UInt8) : Nat :=
  if packed &&& 0x80 ≠ 0 then 3 <<< ((packed &&& 0x07).toNat + 1) else 0

def skipTable (bytes : Bytes) (i : Nat) (packed : UInt8) : Except Halt Nat :=
  if packed &&& 0x80 ≠ 0 then
    match endAt bytes i (3 <<< ((packed &&& 0x07).toNat + 1)) with
    | none => .error (.media .invalidImage)
    | some stop => .ok stop
  else .ok i

/-- An image with its colour table, a graphic control extension, or a looping extension. -/
inductive GifBlock where
  | image (position : Bytes) (packed : UInt8) (table : Bytes) (codeSize : UInt8)
      (blocks : List Bytes)
  | control (state : Bytes)
  | looping (app count : Bytes)
  deriving DecidableEq, Repr

def GifBlock.bytes : GifBlock → Bytes
  | .image position packed table codeSize blocks =>
      [0x2c] ++ position ++ [packed] ++ table ++ [codeSize] ++ (blocks.flatMap subBlock ++ [0])
  | .control state => [0x21] ++ [0xf9] ++ [4] ++ state ++ [0]
  | .looping app count => [0x21] ++ [0xff] ++ [11] ++ app ++ [3] ++ [1] ++ count ++ [0]

/-- The applications whose extension is about looping. -/
def loopingApps : List Bytes := ["NETSCAPE2.0", "ANIMEXTS1.0"].map ascii

/-- The lengths of the fields fit, and an application is one of the two. -/
def GifBlock.Listed : GifBlock → Prop
  | .image position packed table _ blocks =>
      position.length = 8 ∧ table.length = tableLen packed ∧ ∀ data ∈ blocks, IsSubBlock data
  | .control state => state.length = 4
  | .looping app count => app ∈ loopingApps ∧ count.length = 2

/-- A header, a global colour table, listed blocks and the trailer, and nothing behind. -/
def GifFile (bytes : Bytes) (blocks : List GifBlock) : Prop :=
  (∀ b ∈ blocks, b.Listed) ∧
    ∃ version ∈ ["GIF87a", "GIF89a"].map ascii, ∃ size packed back table,
      size.length = 4 ∧ back.length = 2 ∧ table.length = tableLen packed ∧
        bytes = version ++ size ++ [packed] ++ back ++ table ++
          (blocks.flatMap GifBlock.bytes ++ [0x3b])

theorem skipTable_ok {bytes : Bytes} {i stop : Nat} {packed : UInt8} (hi : i ≤ bytes.length)
    (h : skipTable bytes i packed = .ok stop) :
    ∃ table, table.length = tableLen packed ∧ Spans bytes i table stop := by
  unfold skipTable at h
  unfold tableLen
  split_ifs at h ⊢ with hpacked
  · split at h
    · cases h
    · next stop' hstop =>
        cases h
        obtain ⟨hsum, hle⟩ := endAt_some hstop
        have hroom := hsum ▸ hle
        exact ⟨_, length_take_drop hroom, hsum ▸ spans_take hroom⟩
  · cases h
    exact ⟨[], rfl, Spans.nil hi⟩

theorem skipTable_ne_outOfRange (bytes : Bytes) (i : Nat) (packed : UInt8) :
    skipTable bytes i packed ≠ .error .outOfRange := by
  unfold skipTable
  split_ifs
  · split <;> simp
  · simp

/-! ## One turn -/

/-- An image descriptor at `i` and what belongs to it. -/
def gifImage (bytes : Bytes) (i : Nat) : Except Halt Nat :=
  if bytes.length < i + 10 then .error (.media .invalidImage)
  else
    (index bytes (i + 9)).bind fun packed =>
      (skipTable bytes (i + 10) packed).bind fun i =>
        match endAt bytes i 1 with
        | none => .error (.media .invalidImage)
        | some i => skipSubBlocks bytes i

/-- A graphic control extension; `i` is behind its label. -/
def gifControl (bytes : Bytes) (i : Nat) : Except Halt Nat :=
  if bytes[i]? ≠ some 4 ∨ bytes.length < i + 6 then .error (.media .invalidImage)
  else
    (index bytes (i + 5)).bind fun b =>
      if b ≠ 0 then .error (.media .invalidImage) else .ok (i + 6)

/-- An application extension; `i` is behind its label. -/
def gifApplication (bytes : Bytes) (i : Nat) : Except Halt Nat :=
  if bytes[i]? ≠ some 11 ∨ bytes.length < i + 12 then .error (.media .invalidImage)
  else
    (slice bytes (i + 1) (i + 12)).bind fun app =>
      if app ∉ loopingApps then .error (.media .metadataForbidden)
      else
        let i := i + 12
        if bytes[i]? ≠ some 3 ∨ bytes[i + 1]? ≠ some 1 ∨ bytes[i + 4]? ≠ some 0 then
          .error (.media .metadataForbidden)
        else .ok (i + 5)

def gifExtension (bytes : Bytes) (i : Nat) : Except Halt Nat :=
  match bytes[i + 1]? with
  | none => .error (.media .invalidImage)
  | some label =>
      if label = 0xf9 then gifControl bytes (i + 2)
      else if label = 0xff then gifApplication bytes (i + 2)
      else .error (.media .metadataForbidden)

def gifTurn (bytes : Bytes) (i : Nat) : Except Halt (Nat ⊕ Unit) :=
  match bytes[i]? with
  | none => .error (.media .invalidImage)
  | some b =>
      if b = 0x2c then (gifImage bytes i).bind fun stop => .ok (.inl stop)
      else if b = 0x21 then (gifExtension bytes i).bind fun stop => .ok (.inl stop)
      else if b = 0x3b then
        if i + 1 = bytes.length then .ok (.inr ()) else .error (.media .metadataForbidden)
      else .error (.media .invalidImage)

theorem gifImage_ok {bytes : Bytes} {i stop : Nat} (hfirst : bytes[i]? = some 0x2c)
    (h : gifImage bytes i = .ok stop) :
    ∃ b : GifBlock, b.Listed ∧ Spans bytes i b.bytes stop := by
  unfold gifImage at h
  split_ifs at h with hroom
  obtain ⟨packed, hpacked, h⟩ := bind_ok h
  obtain ⟨behind, htable, h⟩ := bind_ok h
  split at h
  · cases h
  · next start hstart =>
      obtain ⟨hsum, hle⟩ := endAt_some hstart
      obtain ⟨table, hlength, htableAt⟩ := skipTable_ok (Nat.le_of_not_lt hroom) htable
      have hposition : i + 1 + 8 ≤ bytes.length := by omega
      obtain ⟨codeSize, hcode⟩ : ∃ codeSize, bytes[behind]? = some codeSize :=
        ⟨_, List.getElem?_eq_getElem (by omega)⟩
      obtain ⟨blocks, hall, hblocksAt⟩ := skipSubBlocks_ok h
      refine ⟨.image _ packed table codeSize blocks,
        ⟨length_take_drop hposition, hlength, hall⟩, ?_⟩
      have hhead := (spans_of_getElem? hfirst).trans (spans_take hposition)
      have hcodeAt := spans_of_getElem? hcode
      rw [hsum] at hcodeAt
      have hpackedAt := spans_of_getElem? (index_ok_iff.1 hpacked)
      exact (((hhead.trans hpackedAt).trans htableAt).trans hcodeAt).trans hblocksAt

theorem gifControl_ok {bytes : Bytes} {i stop : Nat} (hstart : Spans bytes i [0x21, 0xf9] (i + 2))
    (h : gifControl bytes (i + 2) = .ok stop) :
    ∃ b : GifBlock, b.Listed ∧ Spans bytes i b.bytes stop := by
  unfold gifControl at h
  split_ifs at h with hroom
  obtain ⟨hlen, hroom⟩ := not_or.1 hroom
  obtain ⟨b, hb, h⟩ := bind_ok h
  split_ifs at h with hzero
  cases h
  have hstate : i + 2 + 1 + 4 ≤ bytes.length := by omega
  have hlast := spans_of_getElem? (index_ok_iff.1 hb)
  rw [not_not.1 hzero] at hlast
  refine ⟨.control _, length_take_drop hstate, ?_⟩
  exact ((hstart.trans (spans_of_getElem? (not_not.1 hlen))).trans (spans_take hstate)).trans hlast

theorem gifApplication_ok {bytes : Bytes} {i stop : Nat}
    (hstart : Spans bytes i [0x21, 0xff] (i + 2)) (h : gifApplication bytes (i + 2) = .ok stop) :
    ∃ b : GifBlock, b.Listed ∧ Spans bytes i b.bytes stop := by
  unfold gifApplication at h
  split_ifs at h with hroom
  obtain ⟨hlen, hroom⟩ := not_or.1 hroom
  obtain ⟨app, happ, h⟩ := bind_ok h
  dsimp only at h
  split_ifs at h with hlisted hfields
  cases h
  obtain ⟨hsize, hfields⟩ := not_or.1 hfields
  obtain ⟨hone, hzero⟩ := not_or.1 hfields
  have hlast := spans_of_getElem? (not_not.1 hzero)
  have hcount : i + 2 + 12 + 2 + 2 ≤ bytes.length := by
    have hle := hlast.le
    omega
  refine ⟨.looping app _, ⟨hlisted, length_take_drop hcount⟩, ?_⟩
  have hhead := (hstart.trans (spans_of_getElem? (not_not.1 hlen))).trans (spans_of_slice happ)
  exact (((hhead.trans (spans_of_getElem? (not_not.1 hsize))).trans
    (spans_of_getElem? (not_not.1 hone))).trans (spans_take hcount)).trans hlast

theorem gifTurn_next {bytes : Bytes} {i stop : Nat} (h : gifTurn bytes i = .ok (.inl stop)) :
    ∃ b : GifBlock, b.Listed ∧ Spans bytes i b.bytes stop := by
  unfold gifTurn at h
  split at h
  · cases h
  · next b hb =>
      split_ifs at h with himage hextension htrailer
      · obtain ⟨_, hok, h⟩ := bind_ok h
        cases h
        exact gifImage_ok (himage ▸ hb) hok
      · obtain ⟨_, hok, h⟩ := bind_ok h
        cases h
        have hstart := spans_of_getElem? (hextension ▸ hb)
        unfold gifExtension at hok
        split at hok
        · cases hok
        · next label hlabel =>
            split_ifs at hok with hcontrol happlication
            · exact gifControl_ok (hstart.trans (spans_of_getElem? (hcontrol ▸ hlabel))) hok
            · exact gifApplication_ok (hstart.trans (spans_of_getElem? (happlication ▸ hlabel))) hok
      · cases h

theorem gifTurn_done {bytes : Bytes} {i : Nat} (h : gifTurn bytes i = .ok (.inr ())) :
    bytes.drop i = [0x3b] := by
  unfold gifTurn at h
  split at h
  · cases h
  · next b hb =>
      split_ifs at h with himage hextension htrailer hlast
      · obtain ⟨_, -, h⟩ := bind_ok h
        cases h
      · obtain ⟨_, -, h⟩ := bind_ok h
        cases h
      · have hspans := spans_of_getElem? (htrailer ▸ hb)
        rw [hlast] at hspans
        exact hspans.eq_drop

theorem GifBlock.bytes_ne_nil (b : GifBlock) : b.bytes ≠ [] := by
  cases b <;> simp [GifBlock.bytes]

theorem gifTurn_descends (bytes : Bytes) :
    Descends (fun i => bytes.length - i) (gifTurn bytes) := by
  intro i stop h
  obtain ⟨b, -, hspans⟩ := gifTurn_next h
  have hpos := List.length_pos_iff.2 b.bytes_ne_nil
  have hle := hspans.le
  have hstop := hspans.stop_eq
  dsimp only
  omega

theorem gifTurn_ne_outOfRange (bytes : Bytes) (i : Nat) :
    gifTurn bytes i ≠ .error .outOfRange := by
  have himage : gifImage bytes i ≠ .error .outOfRange := by
    unfold gifImage
    split_ifs with hroom
    · simp
    · apply bind_ne (index_ne_error (by omega))
      intro packed _
      apply bind_ne (skipTable_ne_outOfRange _ _ _)
      intro behind _
      split
      · simp
      · exact skipSubBlocks_ne_outOfRange _ _
  have hcontrol : gifControl bytes (i + 2) ≠ .error .outOfRange := by
    unfold gifControl
    split_ifs with hroom
    · simp
    · apply bind_ne (index_ne_error (by omega))
      intro b _
      split_ifs <;> simp
  have happlication : gifApplication bytes (i + 2) ≠ .error .outOfRange := by
    unfold gifApplication
    split_ifs with hroom
    · simp
    · apply bind_ne (slice_ne_error (by omega) (by omega))
      intro app _
      dsimp only
      split_ifs <;> simp
  unfold gifTurn
  split
  · simp
  · split_ifs
    · exact bind_ne himage fun _ _ => by simp
    · refine bind_ne ?_ fun _ _ => by simp
      unfold gifExtension
      split
      · simp
      · split_ifs
        · exact hcontrol
        · exact happlication
        · simp
    all_goals simp

/-! ## The walk over a file -/

def validateGifMetadataFree (bytes : Bytes) : Except Halt Unit :=
  if ¬ (ascii "GIF87a" <+: bytes ∨ ascii "GIF89a" <+: bytes) ∨ bytes.length < 13 then
    .error (.media .invalidImage)
  else
    (index bytes 10).bind fun packed =>
      (skipTable bytes 13 packed).bind fun i =>
        loop (gifTurn bytes) (fun i => bytes.length - i) (gifTurn_descends bytes) i

/-- What the walk accepts is made of listed blocks. -/
theorem gifFile_of_ok {bytes : Bytes} (h : validateGifMetadataFree bytes = .ok ()) :
    ∃ blocks, GifFile bytes blocks := by
  unfold validateGifMetadataFree at h
  split_ifs at h with hheader
  obtain ⟨hversion, hroom⟩ := not_or.1 hheader
  obtain ⟨packed, hpacked, h⟩ := bind_ok h
  obtain ⟨start, htable, h⟩ := bind_ok h
  have hblocks : ∃ blocks : List GifBlock, (∀ b ∈ blocks, b.Listed) ∧
      bytes.drop start = blocks.flatMap GifBlock.bytes ++ [0x3b] := by
    refine @loop_ok_induction _ _ _ (gifTurn bytes) _ (gifTurn_descends bytes) start ()
      (fun i _ => ∃ blocks : List GifBlock, (∀ b ∈ blocks, b.Listed) ∧
        bytes.drop i = blocks.flatMap GifBlock.bytes ++ [0x3b])
      (fun i _ hturn => ⟨[], by simp, gifTurn_done hturn⟩)
      (fun i stop _ hturn hrun => ?_) h
    obtain ⟨b, hlisted, hspans⟩ := gifTurn_next hturn
    obtain ⟨blocks, hall, hdrop⟩ := hrun
    refine ⟨b :: blocks, List.forall_mem_cons.2 ⟨hlisted, hall⟩, ?_⟩
    rw [hspans.drop, hdrop, List.flatMap_cons, List.append_assoc]
  obtain ⟨blocks, hall, hdrop⟩ := hblocks
  obtain ⟨table, hlength, htableAt⟩ := skipTable_ok (Nat.le_of_not_lt hroom) htable
  obtain ⟨version, hmem, hversionAt⟩ :
      ∃ version ∈ ["GIF87a", "GIF89a"].map ascii, Spans bytes 0 version 6 := by
    have hspans : ∀ version : Bytes, version.length = 6 → version <+: bytes →
        Spans bytes 0 version 6 := by
      rintro version hsix ⟨rest, rfl⟩
      refine ⟨?_, by rw [hsix], ?_⟩
      · rw [List.length_append]
        omega
      · rw [List.drop_zero, ← hsix, List.drop_left]
    rcases not_not.1 hversion with hold | hnew
    · exact ⟨ascii "GIF87a", by simp, hspans _ rfl hold⟩
    · exact ⟨ascii "GIF89a", by simp, hspans _ rfl hnew⟩
  have hsize : 6 + 4 ≤ bytes.length := by omega
  have hback : 11 + 2 ≤ bytes.length := by omega
  refine ⟨blocks, hall, version, hmem, (bytes.drop 6).take 4, packed, (bytes.drop 11).take 2, table,
    length_take_drop hsize, length_take_drop hback, hlength, ?_⟩
  have hstart := (((hversionAt.trans (spans_take hsize)).trans
    (spans_of_getElem? (index_ok_iff.1 hpacked))).trans (spans_take hback)).trans htableAt
  have hfile := hstart.drop
  rwa [hdrop, List.drop_zero] at hfile

/-- No index of the walk is out of range. -/
theorem validateGifMetadataFree_ne_outOfRange (bytes : Bytes) :
    validateGifMetadataFree bytes ≠ .error .outOfRange := by
  unfold validateGifMetadataFree
  split_ifs with hheader
  · simp
  · apply bind_ne (index_ne_error (by omega))
    intro packed _
    apply bind_ne (skipTable_ne_outOfRange _ _ _)
    intro start _
    apply loop_ne_error _ (fun _ => True) (fun _ _ _ _ => trivial) _ trivial
    exact fun i _ => gifTurn_ne_outOfRange bytes i

end Media
end Maju
