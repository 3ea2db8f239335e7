import Maju.Media.Checked
import Maju.Lib.Loop
import Maju.Lib.Run

/-!
# Webp — the chunks of a picture, and of the frames in it

* `validateFramePayload`, `validateWebpMetadataFree` — the walks over the chunks of a frame and of a
  file;
* `RiffChunk`, `IsFrame`, `WebpFile` — a chunk, a frame and a file that is made of chunks;
* `webpFile_of_ok` — what the walk accepts is made of listed chunks;
* `validateWebpMetadataFree_ne_outOfRange` — no index is out of range.
-/

namespace Maju
namespace Media

open Lib Lib.Run

/-! ## The walk over a frame -/

/-- A number with its lowest byte first. -/
def leNat (bytes : Bytes) : Nat := beNat bytes.reverse

def leBytes (n x : Nat) : Bytes := (beBytes n x).reverse

/-- The kind of a chunk and the length of its payload. -/
def riffHeader (bytes : Bytes) (i : Nat) : Except Halt (Bytes × Nat) :=
  if bytes.length < i + 8 then .error (.media .invalidImage)
  else
    (slice bytes i (i + 4)).bind fun kind =>
      (slice bytes (i + 4) (i + 8)).bind fun len => .ok (kind, leNat len)

/-- What a frame has had so far. -/
structure FrameSeen where
  alpha : Bool
  image : Bool
  deriving DecidableEq, Repr

/-- The `match` over the kinds of a frame's chunks. -/
def frameKind (seen : FrameSeen) (kind : Bytes) : Except Halt FrameSeen :=
  if kind = ascii "ALPH" ∧ seen.alpha = false ∧ seen.image = false then
    .ok { seen with alpha := true }
  else if kind = ascii "VP8 " ∧ seen.image = false then .ok { seen with image := true }
  else if kind = ascii "VP8L" ∧ seen.alpha = false ∧ seen.image = false then
    .ok { seen with image := true }
  else if kind = ascii "ALPH" ∨ kind = ascii "VP8 " ∨ kind = ascii "VP8L" then
    .error (.media .invalidImage)
  else .error (.media .metadataForbidden)

def frameHeaderLen : Nat := 16

/-- One turn of the loop over a frame; at its end there has to have been an image. -/
def frameTurn (payload : Bytes) (s : Nat × FrameSeen) : Except Halt ((Nat × FrameSeen) ⊕ Unit) :=
  if payload.length ≤ s.1 then
    if s.2.image then .ok (.inr ()) else .error (.media .invalidImage)
  else
    (riffHeader payload s.1).bind fun (kind, len) =>
      match (checkedAdd len (len % 2)).bind fun padded =>
          (checkedAdd s.1 8).bind fun start => endAt payload start padded with
      | none => .error (.media .invalidImage)
      | some stop => (frameKind s.2 kind).bind fun seen => .ok (.inl (stop, seen))

/-! ## What a file is made of -/

/-- A chunk; behind a payload of odd length there is one more byte. -/
structure RiffChunk where
  kind : Bytes
  payload : Bytes
  pad : Bytes
  length_kind : kind.length = 4
  length_payload : payload.length < 2 ^ 32
  length_pad : pad.length = payload.length % 2

def RiffChunk.bytes (c : RiffChunk) : Bytes :=
  c.kind ++ (leBytes 4 c.payload.length ++ (c.payload ++ c.pad))

/-- What a frame has had behind a chunk. -/
def FrameSeen.next (seen : FrameSeen) (c : RiffChunk) : FrameSeen :=
  if c.kind = ascii "ALPH" then { seen with alpha := true } else { seen with image := true }

/-- Transparency comes once and in front of a lossy image; an image comes once. -/
def FrameSeen.Admits (seen : FrameSeen) (c : RiffChunk) : Prop :=
  seen.image = false ∧ (c.kind = ascii "VP8 " ∨
    ((c.kind = ascii "ALPH" ∨ c.kind = ascii "VP8L") ∧ seen.alpha = false))

/-- A header, and chunks with an image among them. -/
def IsFrame (payload : Bytes) : Prop :=
  ∃ header : Bytes, ∃ chunks : List RiffChunk, header.length = frameHeaderLen ∧
    payload = header ++ chunks.flatMap RiffChunk.bytes ∧
    Along FrameSeen.Admits FrameSeen.next ⟨false, false⟩ chunks ∧
    (run FrameSeen.next ⟨false, false⟩ chunks).image = true

def webpChunks : List Bytes := ["VP8 ", "VP8L", "VP8X", "ALPH", "ANIM", "ANMF"].map ascii

/-- The flags of ICC, EXIF and XMP data. -/
def metadataFlags : UInt8 := 0x20 ||| 0x08 ||| 0x04

/-- A chunk that the format's list has; nothing in it announces metadata, and a frame is one. -/
def RiffChunk.Listed (c : RiffChunk) : Prop :=
  c.kind ∈ webpChunks ∧
    (c.kind = ascii "VP8X" → ∀ flags ∈ c.payload.head?, flags &&& metadataFlags = 0) ∧
    (c.kind = ascii "ANMF" → IsFrame c.payload)

/-- Listed chunks behind the header of the file, and nothing behind. -/
def WebpFile (bytes : Bytes) (chunks : List RiffChunk) : Prop :=
  (∀ c ∈ chunks, c.Listed) ∧
    ∃ body, body = ascii "WEBP" ++ chunks.flatMap RiffChunk.bytes ∧ body.length < 2 ^ 32 ∧
      bytes = ascii "RIFF" ++ (leBytes 4 body.length ++ body)

/-! ## Reading a chunk -/

theorem leNat_lt (bytes : Bytes) : leNat bytes < 256 ^ bytes.length := by
  have hlt := beNat_lt bytes.reverse
  rwa [List.length_reverse] at hlt

theorem leBytes_leNat (bytes : Bytes) : leBytes bytes.length (leNat bytes) = bytes := by
  rw [leBytes, leNat, ← List.length_reverse, beBytes_beNat, List.reverse_reverse]

theorem riffHeader_ok {bytes kind : Bytes} {i len : Nat}
    (h : riffHeader bytes i = .ok (kind, len)) :
    kind.length = 4 ∧ len < 2 ^ 32 ∧ Spans bytes i (kind ++ leBytes 4 len) (i + 8) := by
  unfold riffHeader at h
  split_ifs at h with hroom
  obtain ⟨_, hkind, h⟩ := bind_ok h
  obtain ⟨field, hfield, h⟩ := bind_ok h
  cases h
  have hkindAt := spans_of_slice hkind
  have hfieldAt := spans_of_slice hfield
  have hkind4 : kind.length = 4 := Nat.add_left_cancel hkindAt.stop_eq
  have hfield4 : field.length = 4 := by
    have hstop := hfieldAt.stop_eq
    omega
  have hlt := leNat_lt field
  have hcode := leBytes_leNat field
  rw [hfield4] at hlt hcode
  refine ⟨hkind4, hlt, ?_⟩
  rw [hcode]
  exact hkindAt.trans hfieldAt

theorem riffHeader_ne_outOfRange (bytes : Bytes) (i : Nat) :
    riffHeader bytes i ≠ .error .outOfRange := by
  unfold riffHeader
  split_ifs with hroom
  · simp
  · apply bind_ne (slice_ne_error (by omega) (by omega))
    intro kind _
    exact bind_ne (slice_ne_error (by omega) (by omega)) fun _ _ => by simp

theorem exists_chunk {bytes kind : Bytes} {i len padded stop : Nat}
    (hheader : riffHeader bytes i = .ok (kind, len)) (hpadded : padded = len + len % 2)
    (hstop : endAt bytes (i + 8) padded = some stop) :
    ∃ c : RiffChunk, c.kind = kind ∧ c.payload = (bytes.drop (i + 8)).take len ∧
      c.payload.length = len ∧ Spans bytes i c.bytes stop := by
  obtain ⟨hkind4, hlt, hheaderAt⟩ := riffHeader_ok hheader
  obtain ⟨hsum, hle⟩ := endAt_some hstop
  have hpayloadAt := spans_take (show i + 8 + len ≤ bytes.length by omega)
  have hpadAt := spans_take (show i + 8 + len + len % 2 ≤ bytes.length by omega)
  have hpayload := length_take_drop (show i + 8 + len ≤ bytes.length by omega)
  have hpad := length_take_drop (show i + 8 + len + len % 2 ≤ bytes.length by omega)
  refine ⟨⟨kind, (bytes.drop (i + 8)).take len, (bytes.drop (i + 8 + len)).take (len % 2), hkind4,
    by omega, by omega⟩, rfl, rfl, hpayload, ?_⟩
  have hall := (hheaderAt.trans hpayloadAt).trans hpadAt
  rw [show i + 8 + len + len % 2 = stop by omega] at hall
  simpa only [RiffChunk.bytes, hpayload, List.append_assoc] using hall

theorem RiffChunk.bytes_ne_nil (c : RiffChunk) : c.bytes ≠ [] := by
  intro hnil
  have hkind := (List.append_eq_nil_iff.1 hnil).1
  have hlength := c.length_kind
  rw [hkind] at hlength
  cases hlength

/-! ## A frame -/

theorem frameKind_ok {seen seen' : FrameSeen} {c : RiffChunk}
    (h : frameKind seen c.kind = .ok seen') : seen.Admits c ∧ seen' = seen.next c := by
  have hnames : ascii "VP8 " ≠ ascii "ALPH" ∧ ascii "VP8L" ≠ ascii "ALPH" := by decide
  unfold frameKind at h
  unfold FrameSeen.Admits FrameSeen.next
  split_ifs at h with halpha hlossy hlossless
  · cases h
    exact ⟨⟨halpha.2.2, Or.inr ⟨Or.inl halpha.1, halpha.2.1⟩⟩, (if_pos halpha.1).symm⟩
  · cases h
    refine ⟨⟨hlossy.2, Or.inl hlossy.1⟩, (if_neg ?_).symm⟩
    exact fun heq => hnames.1 (hlossy.1.symm.trans heq)
  · cases h
    refine ⟨⟨hlossless.2.2, Or.inr ⟨Or.inr hlossless.1, hlossless.2.1⟩⟩, (if_neg ?_).symm⟩
    exact fun heq => hnames.2 (hlossless.1.symm.trans heq)

theorem frameKind_ne_outOfRange (seen : FrameSeen) (kind : Bytes) :
    frameKind seen kind ≠ .error .outOfRange := by
  unfold frameKind
  split_ifs <;> simp

theorem frameTurn_next {payload : Bytes} {s s' : Nat × FrameSeen}
    (h : frameTurn payload s = .ok (.inl s')) :
    ∃ c : RiffChunk, s.2.Admits c ∧ s'.2 = s.2.next c ∧ Spans payload s.1 c.bytes s'.1 := by
  unfold frameTurn at h
  split_ifs at h with hend himage
  · cases h
  obtain ⟨⟨kind, len⟩, hheader, h⟩ := bind_ok h
  dsimp only at h
  split at h
  · cases h
  · next stop hstop =>
      obtain ⟨padded, hpadded, hstop⟩ := Option.bind_eq_some_iff.1 hstop
      obtain ⟨start, hstart, hstop⟩ := Option.bind_eq_some_iff.1 hstop
      obtain rfl := checkedAdd_eq hstart
      obtain ⟨c, rfl, -, -, hspans⟩ := exists_chunk hheader (checkedAdd_eq hpadded) hstop
      obtain ⟨seen, hseen, h⟩ := bind_ok h
      obtain ⟨hadmits, rfl⟩ := frameKind_ok hseen
      cases h
      exact ⟨c, hadmits, rfl, hspans⟩

theorem frameTurn_done {payload : Bytes} {s : Nat × FrameSeen}
    (h : frameTurn payload s = .ok (.inr ())) : payload.length ≤ s.1 ∧ s.2.image = true := by
  unfold frameTurn at h
  split_ifs at h with hend himage
  · exact ⟨hend, himage⟩
  · obtain ⟨⟨kind, len⟩, -, h⟩ := bind_ok h
    dsimp only at h
    split at h
    · cases h
    · obtain ⟨_, -, h⟩ := bind_ok h
      cases h

theorem frameTurn_descends (payload : Bytes) :
    Descends (fun s => payload.length - s.1) (frameTurn payload) := by
  intro s s' h
  obtain ⟨c, -, -, hspans⟩ := frameTurn_next h
  have hpos := List.length_pos_iff.2 c.bytes_ne_nil
  have hle := hspans.le
  have hstop := hspans.stop_eq
  dsimp only
  omega

theorem frameTurn_ne_outOfRange (payload : Bytes) (s : Nat × FrameSeen) :
    frameTurn payload s ≠ .error .outOfRange := by
  unfold frameTurn
  split_ifs
  · simp
  · simp
  · apply bind_ne (riffHeader_ne_outOfRange _ _)
    rintro ⟨kind, len⟩ -
    dsimp only
    split
    · simp
    · exact bind_ne (frameKind_ne_outOfRange _ _) fun _ _ => by simp

def validateFramePayload (payload : Bytes) : Except Halt Unit :=
  if payload.length < frameHeaderLen then .error (.media .invalidImage)
  else
    loop (frameTurn payload) (fun s => payload.length - s.1) (frameTurn_descends payload)
      (frameHeaderLen, ⟨false, false⟩)

theorem isFrame_of_ok {payload : Bytes} (h : validateFramePayload payload = .ok ()) :
    IsFrame payload := by
  unfold validateFramePayload at h
  split_ifs at h with hroom
  have hchunks : ∃ chunks : List RiffChunk,
      payload.drop frameHeaderLen = chunks.flatMap RiffChunk.bytes ∧
      Along FrameSeen.Admits FrameSeen.next ⟨false, false⟩ chunks ∧
      (run FrameSeen.next ⟨false, false⟩ chunks).image = true := by
    refine @loop_ok_induction _ _ _ (frameTurn payload) _ (frameTurn_descends payload)
      (frameHeaderLen, ⟨false, false⟩) () (fun s _ => ∃ chunks : List RiffChunk,
        payload.drop s.1 = chunks.flatMap RiffChunk.bytes ∧
        Along FrameSeen.Admits FrameSeen.next s.2 chunks ∧
        (run FrameSeen.next s.2 chunks).image = true)
      (fun s _ hturn => ?_) (fun s s' _ hturn hrun => ?_) h
    · obtain ⟨hend, himage⟩ := frameTurn_done hturn
      exact ⟨[], List.drop_of_length_le hend, trivial, himage⟩
    · obtain ⟨c, hadmits, hseen, hspans⟩ := frameTurn_next hturn
      obtain ⟨chunks, hdrop, halong, himage⟩ := hrun
      rw [hseen] at halong himage
      refine ⟨c :: chunks, ?_, ⟨hadmits, halong⟩, himage⟩
      rw [hspans.drop, hdrop, List.flatMap_cons]
  obtain ⟨chunks, hdrop, halong, himage⟩ := hchunks
  have hlength : (payload.take frameHeaderLen).length = frameHeaderLen :=
    List.length_take_of_le (Nat.le_of_not_lt hroom)
  refine ⟨payload.take frameHeaderLen, chunks, hlength, ?_, halong, himage⟩
  rw [← hdrop, List.take_append_drop]

theorem validateFramePayload_ne_outOfRange (payload : Bytes) :
    validateFramePayload payload ≠ .error .outOfRange := by
  unfold validateFramePayload
  split_ifs
  · simp
  · apply loop_ne_error _ (fun _ => True) (fun _ _ _ _ => trivial) _ trivial
    exact fun s _ => frameTurn_ne_outOfRange payload s

/-! ## The walk over a file -/

/-- The checks of a chunk whose payload begins at `start`. -/
def checkWebpChunk (bytes : Bytes) (start len : Nat) (kind : Bytes) : Except Halt Unit :=
  if kind = ascii "VP8X" then
    match bytes[start]? with
    | none => .error (.media .invalidImage)
    | some flags =>
        if flags &&& metadataFlags ≠ 0 then .error (.media .metadataForbidden) else .ok ()
  else if kind = ascii "ANMF" then
    (slice bytes start (start + len)).bind fun payload => validateFramePayload payload
  else .ok ()

theorem checkWebpChunk_ok {bytes kind : Bytes} {start len : Nat}
    (h : checkWebpChunk bytes start len kind = .ok ()) :
    (kind = ascii "VP8X" → ∃ flags, bytes[start]? = some flags ∧ flags &&& metadataFlags = 0) ∧
      (kind = ascii "ANMF" → IsFrame ((bytes.drop start).take len)) := by
  have hnames : ascii "VP8X" ≠ ascii "ANMF" := by decide
  unfold checkWebpChunk at h
  split_ifs at h with hextended hframe
  · refine ⟨fun _ => ?_, fun hkind => absurd (hextended.symm.trans hkind) hnames⟩
    split at h
    · cases h
    · next flags hflags =>
        split_ifs at h with hbits
        exact ⟨flags, hflags, not_not.1 hbits⟩
  · refine ⟨fun hkind => absurd hkind hextended, fun _ => ?_⟩
    obtain ⟨payload, hslice, h⟩ := bind_ok h
    have hpayload := slice_some hslice
    rw [Nat.add_sub_cancel_left] at hpayload
    exact hpayload ▸ isFrame_of_ok h
  · exact ⟨fun hkind => absurd hkind hextended, fun hkind => absurd hkind hframe⟩

def webpTurn (bytes : Bytes) (i : Nat) : Except Halt (Nat ⊕ Unit) :=
  if bytes.length ≤ i then .ok (.inr ())
  else
    (riffHeader bytes i).bind fun (kind, len) =>
      match (checkedAdd len (len % 2)).bind fun padded => endAt bytes (i + 8) padded with
      | none => .error (.media .invalidImage)
      | some stop =>
          if kind ∉ webpChunks then .error (.media .metadataForbidden)
          else (checkWebpChunk bytes (i + 8) len kind).bind fun _ => .ok (.inl stop)

theorem webpTurn_next {bytes : Bytes} {i stop : Nat} (h : webpTurn bytes i = .ok (.inl stop)) :
    ∃ c : RiffChunk, c.Listed ∧ Spans bytes i c.bytes stop := by
  unfold webpTurn at h
  split_ifs at h with hend
  · cases h
  obtain ⟨⟨kind, len⟩, hheader, h⟩ := bind_ok h
  dsimp only at h
  split at h
  · cases h
  · next stop' hstop =>
      obtain ⟨padded, hpadded, hstop⟩ := Option.bind_eq_some_iff.1 hstop
      obtain ⟨c, rfl, hpayload, hlen, hspans⟩ :=
        exists_chunk hheader (checkedAdd_eq hpadded) hstop
      split_ifs at h with hlisted
      obtain ⟨_, hcheck, h⟩ := bind_ok h
      cases h
      obtain ⟨hextended, hframe⟩ := checkWebpChunk_ok hcheck
      refine ⟨c, ⟨hlisted, fun hkind flags hflags => ?_, fun hkind => ?_⟩, hspans⟩
      · -- the byte that is read as the flags is the first one of the payload
        obtain ⟨flags', hat, hbits⟩ := hextended hkind
        obtain ⟨rest, hrest⟩ := List.head?_eq_some_iff.1 hflags
        have hsplit := List.take_append_drop len (bytes.drop (i + 8))
        rw [← hpayload, hrest, List.cons_append] at hsplit
        cases hat.symm.trans (getElem?_of_drop hsplit.symm)
        exact hbits
      · rw [hpayload]
        exact hframe hkind

theorem webpTurn_done {bytes : Bytes} {i : Nat} (h : webpTurn bytes i = .ok (.inr ())) :
    bytes.length ≤ i := by
  unfold webpTurn at h
  split_ifs at h with hend
  · exact hend
  · obtain ⟨⟨kind, len⟩, -, h⟩ := bind_ok h
    dsimp only at h
    split at h
    · cases h
    · split_ifs at h
      obtain ⟨_, -, h⟩ := bind_ok h
      cases h

theorem webpTurn_descends (bytes : Bytes) :
    Descends (fun i => bytes.length - i) (webpTurn bytes) := by
  intro i stop h
  obtain ⟨c, -, hspans⟩ := webpTurn_next h
  have hpos := List.length_pos_iff.2 c.bytes_ne_nil
  have hle := hspans.le
  have hstop := hspans.stop_eq
  dsimp only
  omega

theorem webpTurn_ne_outOfRange (bytes : Bytes) (i : Nat) :
    webpTurn bytes i ≠ .error .outOfRange := by
  unfold webpTurn
  split_ifs
  · simp
  · apply bind_ne (riffHeader_ne_outOfRange _ _)
    rintro ⟨kind, len⟩ -
    dsimp only
    split
    · simp
    · next stop hstop =>
        obtain ⟨padded, hpadded, hstop⟩ := Option.bind_eq_some_iff.1 hstop
        obtain rfl := checkedAdd_eq hpadded
        obtain ⟨hsum, hle⟩ := endAt_some hstop
        by_cases hkind : kind ∉ webpChunks
        · rw [if_pos hkind]
          simp
        · rw [if_neg hkind]
          refine bind_ne ?_ fun _ _ => by simp
          unfold checkWebpChunk
          split_ifs
          · split
            · simp
            · split_ifs <;> simp
          · -- the payload ends in front of its padding
            apply bind_ne (slice_ne_error (by omega) (by omega))
            exact fun payload _ => validateFramePayload_ne_outOfRange payload
          · simp

def validateWebpMetadataFree (bytes : Bytes) : Except Halt Unit :=
  if bytes.length < 12 then .error (.media .invalidImage)
  else
    (slice bytes 0 4).bind fun riff =>
      (slice bytes 8 12).bind fun webp =>
        if riff ≠ ascii "RIFF" ∨ webp ≠ ascii "WEBP" then .error (.media .invalidImage)
        else
          (slice bytes 4 8).bind fun declared =>
            if checkedAdd (leNat declared) 8 ≠ some bytes.length then
              .error (.media .metadataForbidden)
            else loop (webpTurn bytes) (fun i => bytes.length - i) (webpTurn_descends bytes) 12

/-- What the walk accepts is made of listed chunks. -/
theorem webpFile_of_ok {bytes : Bytes} (h : validateWebpMetadataFree bytes = .ok ()) :
    ∃ chunks, WebpFile bytes chunks := by
  unfold validateWebpMetadataFree at h
  split_ifs at h with hroom
  obtain ⟨riff, hriff, h⟩ := bind_ok h
  obtain ⟨webp, hwebp, h⟩ := bind_ok h
  split_ifs at h with hmagic
  obtain ⟨declared, hdeclared, h⟩ := bind_ok h
  split_ifs at h with hlength
  obtain ⟨hriffName, hwebpName⟩ := (not_or.1 hmagic).imp not_not.1 not_not.1
  have hchunks : ∃ chunks : List RiffChunk, (∀ c ∈ chunks, c.Listed) ∧
      bytes.drop 12 = chunks.flatMap RiffChunk.bytes := by
    refine @loop_ok_induction _ _ _ (webpTurn bytes) _ (webpTurn_descends bytes) 12 ()
      (fun i _ => ∃ chunks : List RiffChunk, (∀ c ∈ chunks, c.Listed) ∧
        bytes.drop i = chunks.flatMap RiffChunk.bytes)
      (fun i _ hturn => ?_) (fun i stop _ hturn hrun => ?_) h
    · exact ⟨[], by simp, List.drop_of_length_le (webpTurn_done hturn)⟩
    · obtain ⟨c, hlisted, hspans⟩ := webpTurn_next hturn
      obtain ⟨chunks, hall, hdrop⟩ := hrun
      refine ⟨c :: chunks, ?_, ?_⟩
      · intro c' hc'
        rcases List.mem_cons.1 hc' with rfl | hc'
        · exact hlisted
        · exact hall c' hc'
      · rw [hspans.drop, hdrop, List.flatMap_cons]
  obtain ⟨chunks, hall, hdrop⟩ := hchunks
  have hriffAt := spans_of_slice hriff
  have hdeclaredAt := spans_of_slice hdeclared
  have hwebpAt := spans_of_slice hwebp
  have hdeclared4 : declared.length = 4 := by
    have hstop := hdeclaredAt.stop_eq
    omega
  have hlt := leNat_lt declared
  have hcode := leBytes_leNat declared
  rw [hdeclared4] at hlt hcode
  have hbody : bytes.drop 8 = ascii "WEBP" ++ chunks.flatMap RiffChunk.bytes := by
    rw [hwebpAt.drop, hwebpName, hdrop]
  have hsize : (bytes.drop 8).length = leNat declared := by
    have hsum := checkedAdd_eq (not_not.1 hlength)
    rw [List.length_drop]
    omega
  refine ⟨chunks, hall, bytes.drop 8, hbody, by omega, ?_⟩
  have hfile := (hriffAt.trans hdeclaredAt).drop
  rw [hsize, hcode, ← List.append_assoc, ← hriffName, ← hfile, List.drop_zero]

/-- No index of the walk is out of range. -/
theorem validateWebpMetadataFree_ne_outOfRange (bytes : Bytes) :
    validateWebpMetadataFree bytes ≠ .error .outOfRange := by
  unfold validateWebpMetadataFree
  split_ifs with hroom
  · simp
  · apply bind_ne (slice_ne_error (by omega) (by omega))
    intro riff _
    apply bind_ne (slice_ne_error (by omega) (by omega))
    intro webp _
    split_ifs
    · simp
    · apply bind_ne (slice_ne_error (by omega) (by omega))
      intro declared _
      split_ifs
      · simp
      · apply loop_ne_error _ (fun _ => True) (fun _ _ _ _ => trivial) _ trivial
        exact fun i _ => webpTurn_ne_outOfRange bytes i

end Media
end Maju
