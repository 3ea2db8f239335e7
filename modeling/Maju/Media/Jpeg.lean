import Maju.Media.Checked
import Maju.Lib.Loop
import Maju.Lib.Delimited

/-!
# Jpeg — the markers of a picture

* `validateJpegMetadataFree` — the walk over markers, segments and scan data;
* `JpegItem` — what follows the first marker of a file, one piece at a time;
* `JpegFile` — a file that is made of such pieces, the last one the end of the image;
* `validateJpegMetadataFree_ok_iff` — the walk accepts the files whose pieces it lets pass, and
  these are more than the listed ones: `JpegItem.Known` is the difference;
* `jpegFile_unique` — a file is cut into pieces in one way;
* `validateJpegMetadataFree_ne_outOfRange` — no index is out of range.
-/

namespace Maju
namespace Media

open Lib Lib.Run

/-! ## The walk -/

/-- Where the walk stands, and whether it is in a scan. -/
structure JpegAt where
  i : Nat
  inScan : Bool
  deriving DecidableEq, Repr

/-- The inner loop over the bytes `0xff`. -/
def skipFill (bytes : Bytes) (i : Nat) : Nat := i + ((bytes.drop i).takeWhile (· = 0xff)).length

def canonicalJfif (payload : Bytes) : Except Halt Bool :=
  if payload.length < 14 then .ok false
  else
    (slice payload 0 5).bind fun id =>
      if id ≠ ascii "JFIF\x00" then .ok false
      else
        (index payload 12).bind fun w =>
          (index payload 13).bind fun h => .ok (payload.length = 14 + 3 * w.toNat * h.toNat)

/-- The colour header of `APP14`. -/
def adobeHeader (payload : Bytes) : Except Halt Bool :=
  if payload.length ≠ 12 then .ok false
  else (slice payload 0 5).bind fun id => .ok (id = ascii "Adobe")

/-- The check of the segment between `i` and `stop`. -/
def checkSegment (bytes : Bytes) (marker : UInt8) (i stop : Nat) : Except Halt Unit :=
  if marker = 0xe0 then
    (slice bytes (i + 2) stop).bind fun payload =>
      (canonicalJfif payload).bind fun ok =>
        if ok then .ok () else .error (.media .metadataForbidden)
  else if marker = 0xee then
    (slice bytes (i + 2) stop).bind fun payload =>
      (adobeHeader payload).bind fun ok =>
        if ok then .ok () else .error (.media .metadataForbidden)
  else if (0xe1 ≤ marker ∧ marker ≤ 0xed) ∨ marker = 0xef ∨ marker = 0xfe then
    .error (.media .metadataForbidden)
  else .ok ()

def jpegSegment (bytes : Bytes) (i : Nat) (marker : UInt8) : Except Halt (JpegAt ⊕ Unit) :=
  if bytes.length < i + 2 then .error (.media .invalidImage)
  else
    (index bytes i).bind fun hi =>
      (index bytes (i + 1)).bind fun lo =>
        let len := beNat [hi, lo]
        if len < 2 then .error (.media .invalidImage)
        else
          match endAt bytes i len with
          | none => .error (.media .invalidImage)
          | some stop =>
              (checkSegment bytes marker i stop).bind fun _ => .ok (.inl ⟨stop, marker = 0xda⟩)

/-- A marker that has been read; `i` is behind it. -/
def jpegMarker (bytes : Bytes) (inScan : Bool) (i : Nat) (marker : UInt8) :
    Except Halt (JpegAt ⊕ Unit) :=
  if inScan = true ∧ marker = 0 then .ok (.inl ⟨i, inScan⟩)
  else if (0xd0 ≤ marker ∧ marker ≤ 0xd7) ∨ marker = 0x01 then .ok (.inl ⟨i, inScan⟩)
  else if marker = 0xd9 then
    if i = bytes.length then .ok (.inr ()) else .error (.media .metadataForbidden)
  else if marker = 0xd8 then .error (.media .invalidImage)
  else jpegSegment bytes i marker

/-- One turn of the loop; where its condition fails, the file has no end marker. -/
def jpegTurn (bytes : Bytes) (s : JpegAt) : Except Halt (JpegAt ⊕ Unit) :=
  if bytes.length ≤ s.i then .error (.media .invalidImage)
  else
    (index bytes s.i).bind fun b =>
      if b ≠ 0xff then
        if s.inScan then .ok (.inl ⟨s.i + 1, s.inScan⟩) else .error (.media .invalidImage)
      else
        let i := skipFill bytes s.i
        if bytes.length ≤ i then .error (.media .invalidImage)
        else (index bytes i).bind fun marker => jpegMarker bytes s.inScan (i + 1) marker

/-! ## The pieces of a file -/

/-- A byte of scan data, a marker without a length, or a segment; in front of a marker there are
fill bytes. -/
inductive JpegItem where
  | entropy (b : UInt8)
  | marker (fill : Nat) (m : UInt8)
  | segment (fill : Nat) (m : UInt8) (payload : Bytes)
  deriving DecidableEq, Repr

def mark (fill : Nat) (m : UInt8) : Bytes := List.replicate (fill + 1) 0xff ++ [m]

def JpegItem.bytes : JpegItem → Bytes
  | .entropy b => [b]
  | .marker fill m => mark fill m
  | .segment fill m payload => mark fill m ++ (beBytes 2 (payload.length + 2) ++ payload)

/-- Whether a scan goes on behind a piece. -/
def JpegItem.next (inScan : Bool) : JpegItem → Bool
  | .entropy _ => inScan
  | .marker _ _ => inScan
  | .segment _ m _ => m = 0xda

/-- A stuffed zero in a scan, a restart marker or `TEM`. -/
def IsBare (inScan : Bool) (m : UInt8) : Prop :=
  (inScan = true ∧ m = 0) ∨ ((0xd0 ≤ m ∧ m ≤ 0xd7) ∨ m = 0x01)

/-- The payload of a JFIF header: a thumbnail of the size that it names and nothing else. -/
def IsJfif (payload : Bytes) : Prop :=
  ∃ w h, payload[12]? = some w ∧ payload[13]? = some h ∧ payload.take 5 = ascii "JFIF\x00" ∧
    payload.length = 14 + 3 * w.toNat * h.toNat

def IsAdobe (payload : Bytes) : Prop := payload.length = 12 ∧ payload.take 5 = ascii "Adobe"

/-- The markers of `APPn` and `COM` segments that are always rejected. -/
def IsAppMarker (m : UInt8) : Prop := (0xe1 ≤ m ∧ m ≤ 0xed) ∨ m = 0xef ∨ m = 0xfe

/-- What the check of a segment lets pass. -/
def SegmentPasses (m : UInt8) (payload : Bytes) : Prop :=
  (m = 0xe0 → IsJfif payload) ∧ (m = 0xee → IsAdobe payload) ∧ ¬ IsAppMarker m

def JpegItem.Passes (inScan : Bool) : JpegItem → Prop
  | .entropy b => inScan = true ∧ b ≠ 0xff
  | .marker _ m => IsBare inScan m
  | .segment _ m payload =>
      ¬ IsBare inScan m ∧ m ∉ [0xd8, 0xd9, 0xff] ∧ payload.length + 2 < 2 ^ 16 ∧
        SegmentPasses m payload

/-- The markers that the format's list of rendering segments has. -/
def jpegSegments : List UInt8 :=
  [0xc0, 0xc1, 0xc2, 0xc3, 0xc4, 0xc5, 0xc6, 0xc7, 0xc9, 0xca, 0xcb, 0xcc, 0xcd, 0xce, 0xcf,
    0xda, 0xdb, 0xdc, 0xdd, 0xde, 0xdf, 0xe0, 0xee]

/-- A piece that the format's list has. -/
def JpegItem.Listed (inScan : Bool) : JpegItem → Prop
  | .entropy b => inScan = true ∧ b ≠ 0xff
  | .marker _ m => IsBare inScan m
  | .segment _ m payload =>
      m ∈ jpegSegments ∧ payload.length + 2 < 2 ^ 16 ∧ (m = 0xe0 → IsJfif payload) ∧
        (m = 0xee → IsAdobe payload)

/-- No segment with a marker that is not listed. -/
def JpegItem.Known : JpegItem → Prop
  | .segment _ m _ => m ∈ jpegSegments
  | _ => True

/-- The markers that no list has: `0x00` outside of a scan, reserved ones, and extensions. -/
def IsFreeMarker (inScan : Bool) (m : UInt8) : Prop :=
  (m = 0x00 ∧ inScan = false) ∨ (0x02 ≤ m ∧ m ≤ 0xbf) ∨ m = 0xc8 ∨ (0xf0 ≤ m ∧ m ≤ 0xfd)

/-- A segment with such a marker; its payload is anything. -/
def JpegItem.Free (inScan : Bool) : JpegItem → Prop
  | .segment _ m payload => IsFreeMarker inScan m ∧ payload.length + 2 < 2 ^ 16
  | _ => False

/-- Pieces between the start and the end of the image, and nothing behind. -/
def JpegFile (P : Bool → JpegItem → Prop) (bytes : Bytes) (items : List JpegItem) : Prop :=
  Along P JpegItem.next false items ∧
    ∃ fill, bytes = [0xff, 0xd8] ++ (items.flatMap JpegItem.bytes ++ mark fill 0xd9)

theorem jpegSegments_spec : ∀ m ∈ jpegSegments,
    (¬ ∃ inScan, IsBare inScan m) ∧ m ∉ [0xd8, 0xd9, 0xff] ∧ ¬ IsAppMarker m := by
  unfold IsBare IsAppMarker
  have hall : jpegSegments.all (fun m =>
      (¬ ∃ inScan, (inScan = true ∧ m = 0) ∨ ((0xd0 ≤ m ∧ m ≤ 0xd7) ∨ m = 0x01)) ∧
        m ∉ [0xd8, 0xd9, 0xff] ∧ ¬ ((0xe1 ≤ m ∧ m ≤ 0xed) ∨ m = 0xef ∨ m = 0xfe)) = true := by
    decide
  exact fun m hm => of_decide_eq_true (List.all_eq_true.1 hall m hm)

theorem not_isBare (inScan : Bool) : ¬ IsBare inScan 0xff ∧ ¬ IsBare inScan 0xd9 := by
  unfold IsBare
  revert inScan
  decide

theorem IsBare.ne {inScan : Bool} {m : UInt8} (h : IsBare inScan m) : m ≠ 0xff ∧ m ≠ 0xd9 :=
  ⟨fun hm => (not_isBare inScan).1 (hm ▸ h), fun hm => (not_isBare inScan).2 (hm ▸ h)⟩

theorem JpegItem.listed_iff {inScan : Bool} {item : JpegItem} :
    item.Listed inScan ↔ item.Passes inScan ∧ item.Known := by
  cases item with
  | entropy b => exact (and_iff_left trivial).symm
  | marker fill m => exact (and_iff_left trivial).symm
  | segment fill m payload =>
      constructor
      · rintro ⟨hm, hlen, hjfif, hadobe⟩
        obtain ⟨hbare, hother, happ⟩ := jpegSegments_spec m hm
        exact ⟨⟨fun h => hbare ⟨inScan, h⟩, hother, hlen, hjfif, hadobe, happ⟩, hm⟩
      · rintro ⟨⟨-, -, hlen, hjfif, hadobe, -⟩, hm⟩
        exact ⟨hm, hlen, hjfif, hadobe⟩

theorem isFreeMarker_iff (inScan : Bool) (m : UInt8) :
    IsFreeMarker inScan m ↔
      m ∉ jpegSegments ∧ ¬ IsBare inScan m ∧ m ∉ [0xd8, 0xd9, 0xff] ∧ ¬ IsAppMarker m := by
  unfold IsFreeMarker IsBare IsAppMarker
  have hall : (List.range 256).all (fun n => [false, true].all fun inScan =>
      ((UInt8.ofNat n = 0x00 ∧ inScan = false) ∨ (0x02 ≤ UInt8.ofNat n ∧ UInt8.ofNat n ≤ 0xbf) ∨
        UInt8.ofNat n = 0xc8 ∨ (0xf0 ≤ UInt8.ofNat n ∧ UInt8.ofNat n ≤ 0xfd)) ↔
      UInt8.ofNat n ∉ jpegSegments ∧
        ¬ ((inScan = true ∧ UInt8.ofNat n = 0) ∨
          ((0xd0 ≤ UInt8.ofNat n ∧ UInt8.ofNat n ≤ 0xd7) ∨ UInt8.ofNat n = 0x01)) ∧
        UInt8.ofNat n ∉ [0xd8, 0xd9, 0xff] ∧
        ¬ ((0xe1 ≤ UInt8.ofNat n ∧ UInt8.ofNat n ≤ 0xed) ∨ UInt8.ofNat n = 0xef ∨
          UInt8.ofNat n = 0xfe)) = true := by
    decide +kernel
  have hm := List.all_eq_true.1 hall m.toNat (List.mem_range.2 m.toNat_lt)
  have hscan := of_decide_eq_true (List.all_eq_true.1 hm inScan (by cases inScan <;> simp))
  rwa [UInt8.ofNat_toNat] at hscan

theorem JpegItem.passes_iff {inScan : Bool} {item : JpegItem} :
    item.Passes inScan ↔ item.Listed inScan ∨ item.Free inScan := by
  cases item with
  | entropy b => exact (or_iff_left id).symm
  | marker fill m => exact (or_iff_left id).symm
  | segment fill m payload =>
      constructor
      · intro h
        by_cases hm : m ∈ jpegSegments
        · exact Or.inl (JpegItem.listed_iff.2 ⟨h, hm⟩)
        · obtain ⟨hbare, hother, hlen, -, -, happ⟩ := h
          exact Or.inr ⟨(isFreeMarker_iff inScan m).2 ⟨hm, hbare, hother, happ⟩, hlen⟩
      · rintro (hlisted | ⟨hfree, hlen⟩)
        · exact (JpegItem.listed_iff.1 hlisted).1
        · obtain ⟨hm, hbare, hother, happ⟩ := (isFreeMarker_iff inScan m).1 hfree
          -- both headers are on the list
          have hcolour : m ≠ 0xe0 ∧ m ≠ 0xee :=
            ⟨fun heq => hm (heq ▸ by decide), fun heq => hm (heq ▸ by decide)⟩
          exact ⟨hbare, hother, hlen, fun h => absurd h hcolour.1, fun h => absurd h hcolour.2,
            happ⟩

/-! ## Reading a marker -/

theorem mark_ne_nil (fill : Nat) (m : UInt8) : mark fill m ≠ [] := by
  simp [mark]

theorem length_mark (fill : Nat) (m : UInt8) : (mark fill m).length = fill + 2 := by
  simp [mark]

theorem mark_inj {fill fill' : Nat} {m m' : UInt8} {u v : Bytes} (hm : m ≠ 0xff) (hm' : m' ≠ 0xff)
    (h : mark fill m ++ u = mark fill' m' ++ v) : fill = fill' ∧ m = m' ∧ u = v := by
  induction fill generalizing fill' with
  | zero =>
      cases fill' with
      | zero =>
          simp only [mark, List.replicate_succ, List.replicate_zero, List.nil_append,
            List.cons_append, List.cons.injEq, true_and] at h
          exact ⟨rfl, h⟩
      | succ fill' =>
          simp only [mark, List.replicate_succ, List.replicate_zero, List.nil_append,
            List.cons_append, List.cons.injEq, true_and] at h
          exact absurd h.1 hm
  | succ fill ih =>
      cases fill' with
      | zero =>
          simp only [mark, List.replicate_succ, List.replicate_zero, List.nil_append,
            List.cons_append, List.cons.injEq, true_and] at h
          exact absurd h.1.symm hm'
      | succ fill' =>
          have hrest : mark fill m ++ u = mark fill' m' ++ v := (List.cons.inj h).2
          obtain ⟨rfl, heq⟩ := ih hrest
          exact ⟨rfl, heq⟩

theorem skipFill_of_drop {bytes rest : Bytes} {i fill : Nat} {m : UInt8} (hm : m ≠ 0xff)
    (h : bytes.drop i = mark fill m ++ rest) :
    skipFill bytes i = i + (fill + 1) ∧ bytes[i + (fill + 1)]? = some m := by
  have hrun : ∀ n : Nat, (List.replicate n (0xff : UInt8) ++ m :: rest).takeWhile (· = 0xff) =
      List.replicate n 0xff := by
    intro n
    induction n with
    | zero => simp [hm]
    | succ n ih => simpa [List.replicate_succ] using ih
  have hsplit : bytes.drop i = List.replicate (fill + 1) 0xff ++ m :: rest := by
    rw [h, mark, List.append_assoc, List.singleton_append]
  constructor
  · rw [skipFill, hsplit, hrun, List.length_replicate]
  · have hdrop := (drop_append hsplit).2
    rw [List.length_replicate] at hdrop
    exact getElem?_of_drop hdrop

theorem exists_run (l : Bytes) : ∃ n rest, (l.takeWhile (· = 0xff)).length = n ∧
    l = List.replicate n 0xff ++ rest ∧ rest.head? ≠ some 0xff := by
  induction l with
  | nil => exact ⟨0, [], rfl, rfl, nofun⟩
  | cons b l ih =>
      by_cases hb : b = 0xff
      · obtain ⟨n, rest, hlen, rfl, hhead⟩ := ih
        refine ⟨n + 1, rest, ?_, ?_, hhead⟩
        · rw [hb, List.takeWhile_cons_of_pos (by rfl), List.length_cons, hlen]
        · rw [hb, List.replicate_succ, List.cons_append]
      · refine ⟨0, b :: l, ?_, rfl, ?_⟩
        · rw [List.takeWhile_cons_of_neg (by simpa using hb)]
          rfl
        · simpa using hb

theorem exists_mark {bytes : Bytes} {i : Nat} {m : UInt8} (hfirst : bytes[i]? = some 0xff)
    (hm : bytes[skipFill bytes i]? = some m) :
    m ≠ 0xff ∧ ∃ fill, skipFill bytes i = i + (fill + 1) ∧
      bytes.drop i = mark fill m ++ bytes.drop (skipFill bytes i + 1) := by
  obtain ⟨n, rest, hlen, hsplit, hhead⟩ := exists_run (bytes.drop i)
  have hskip : skipFill bytes i = i + n := by rw [skipFill, hlen]
  have hrest : bytes.drop (i + n) = rest := by
    have hdrop := (drop_append hsplit).2
    rwa [List.length_replicate] at hdrop
  rw [hskip] at hm ⊢
  have hcons := drop_of_getElem? hm
  rw [hrest] at hcons
  rw [hcons] at hhead
  cases n with
  | zero =>
      -- the first byte would be the marker
      have hsame : some m = some 0xff := hm.symm.trans hfirst
      exact absurd hsame hhead
  | succ fill =>
      refine ⟨fun hff => hhead (congrArg some hff), fill, rfl, ?_⟩
      rw [hsplit, hcons, mark, List.append_assoc, List.singleton_append]

/-! ## One turn -/

theorem canonicalJfif_eq (payload : Bytes) :
    ∃ ok, canonicalJfif payload = .ok ok ∧ (ok = true ↔ IsJfif payload) := by
  unfold canonicalJfif IsJfif
  split_ifs with hshort
  · refine ⟨false, rfl, nofun, ?_⟩
    rintro ⟨w, h, -, -, -, hlen⟩
    omega
  · have hlong : 14 ≤ payload.length := Nat.le_of_not_lt hshort
    have hw : payload[12]? = some (payload.get ⟨12, by omega⟩) := List.getElem?_eq_getElem _
    have hh : payload[13]? = some (payload.get ⟨13, by omega⟩) := List.getElem?_eq_getElem _
    rw [slice_ok (Nat.zero_le 5) (by omega), index_ok_iff.2 hw, index_ok_iff.2 hh, hw, hh]
    simp only [Except.bind, List.drop_zero, Nat.sub_zero]
    split_ifs with hid
    · refine ⟨false, rfl, nofun, ?_⟩
      rintro ⟨w, h, -, -, heq, -⟩
      exact absurd heq hid
    · refine ⟨_, rfl, ?_⟩
      rw [decide_eq_true_iff]
      constructor
      · exact fun hlen => ⟨_, _, rfl, rfl, not_not.1 hid, hlen⟩
      · rintro ⟨w, h, hw', hh', -, hlen⟩
        cases hw'
        cases hh'
        exact hlen

theorem adobeHeader_eq (payload : Bytes) :
    ∃ ok, adobeHeader payload = .ok ok ∧ (ok = true ↔ IsAdobe payload) := by
  unfold adobeHeader IsAdobe
  split_ifs with hlen
  · exact ⟨false, rfl, nofun, fun h => absurd h.1 hlen⟩
  · have hlen' : payload.length = 12 := not_not.1 hlen
    rw [slice_ok (Nat.zero_le 5) (by omega)]
    refine ⟨_, rfl, ?_⟩
    rw [decide_eq_true_iff]
    exact ⟨fun hid => ⟨hlen', hid⟩, fun h => h.2⟩

theorem checkSegment_eq {bytes payload : Bytes} {m : UInt8} {i stop : Nat}
    (hslice : slice bytes (i + 2) stop = .ok payload) :
    checkSegment bytes m i stop ≠ .error .outOfRange ∧
      (checkSegment bytes m i stop = .ok () ↔ SegmentPasses m payload) := by
  have hcolour : ∀ m : UInt8, m = 0xe0 ∨ m = 0xee → ¬ IsAppMarker m := by
    unfold IsAppMarker
    rintro m (rfl | rfl) <;> decide
  unfold checkSegment SegmentPasses
  split_ifs with hjfif hadobe happ
  · obtain ⟨ok, hok, hiff⟩ := canonicalJfif_eq payload
    have hnot : m ≠ 0xee := fun h => absurd (hjfif.symm.trans h) (by decide)
    rw [hslice, Except.bind, hok, Except.bind]
    cases ok with
    | true => exact ⟨nofun, fun _ => ⟨fun _ => hiff.1 rfl, fun h => absurd h hnot,
        hcolour m (Or.inl hjfif)⟩, fun _ => rfl⟩
    | false => exact ⟨nofun, nofun, fun h => absurd (hiff.2 (h.1 hjfif)) nofun⟩
  · obtain ⟨ok, hok, hiff⟩ := adobeHeader_eq payload
    rw [hslice, Except.bind, hok, Except.bind]
    cases ok with
    | true => exact ⟨nofun, fun _ => ⟨fun h => absurd h hjfif, fun _ => hiff.1 rfl,
        hcolour m (Or.inr hadobe)⟩, fun _ => rfl⟩
    | false => exact ⟨nofun, nofun, fun h => absurd (hiff.2 (h.2.1 hadobe)) nofun⟩
  · exact ⟨nofun, nofun, fun h => absurd happ h.2.2⟩
  · exact ⟨nofun, fun _ => ⟨fun h => absurd h hjfif, fun h => absurd h hadobe, happ⟩, fun _ => rfl⟩

theorem beBytes_two {hi lo : UInt8} {n : Nat} (h : beNat [hi, lo] = n) :
    beBytes 2 n = [hi, lo] ∧ n < 2 ^ 16 := by
  have hlt := beNat_lt [hi, lo]
  simp only [List.length_cons, List.length_nil] at hlt
  exact ⟨h ▸ beBytes_beNat [hi, lo], by omega⟩

theorem jpegSegment_ok {bytes : Bytes} {i : Nat} {m : UInt8} {r : JpegAt ⊕ Unit}
    (h : jpegSegment bytes i m = .ok r) :
    ∃ payload : Bytes, payload.length + 2 < 2 ^ 16 ∧ SegmentPasses m payload ∧
      r = .inl ⟨i + (2 + payload.length), m = 0xda⟩ ∧
      bytes.drop i =
        beBytes 2 (payload.length + 2) ++ payload ++ bytes.drop (i + (2 + payload.length)) := by
  unfold jpegSegment at h
  split_ifs at h with hroom
  obtain ⟨hi, hhi, h⟩ := bind_ok h
  obtain ⟨lo, hlo, h⟩ := bind_ok h
  dsimp only at h
  split_ifs at h with hlen
  split at h
  · cases h
  · next stop hstop =>
      obtain ⟨hsum, hle⟩ := endAt_some hstop
      obtain ⟨_, hcheck, h⟩ := bind_ok h
      cases h
      generalize hn : stop - (i + 2) = n at *
      have hend : i + 2 + n ≤ bytes.length := by omega
      have hslice : slice bytes (i + 2) stop = .ok ((bytes.drop (i + 2)).take n) :=
        hn ▸ slice_ok (by omega) hle
      have hcount := length_take_drop hend
      have hwidth : beNat [hi, lo] = n + 2 := by omega
      obtain ⟨hfield, hlt⟩ := beBytes_two hwidth
      refine ⟨(bytes.drop (i + 2)).take n, by omega, (checkSegment_eq hslice).2.1 hcheck, ?_, ?_⟩
      · rw [hcount, show i + (2 + n) = stop by omega]
      · rw [hcount, hfield, drop_of_getElem? (index_ok_iff.1 hhi),
          drop_of_getElem? (index_ok_iff.1 hlo), List.append_assoc, ← Nat.add_assoc]
        exact congrArg (fun rest => hi :: lo :: rest) (drop_split (i + 2) n)

theorem jpegSegment_of_drop {bytes payload rest : Bytes} {i : Nat} {m : UInt8}
    (hfile : bytes.length ≤ 2 ^ 63) (hlen : payload.length + 2 < 2 ^ 16)
    (hpasses : SegmentPasses m payload)
    (h : bytes.drop i = beBytes 2 (payload.length + 2) ++ payload ++ rest) :
    jpegSegment bytes i m = .ok (.inl ⟨i + (2 + payload.length), m = 0xda⟩) := by
  obtain ⟨hi, lo, hfield⟩ : ∃ hi lo, beBytes 2 (payload.length + 2) = [hi, lo] :=
    ⟨_, _, rfl⟩
  have hnum : beNat [hi, lo] = payload.length + 2 := by
    rw [← hfield]
    exact beNat_beBytes (by omega)
  rw [hfield] at h
  have hhi := getElem?_of_drop h
  have hend : i + (2 + payload.length) ≤ bytes.length := by
    have hle := add_le_of_drop h (by simp)
    simp only [List.length_append, List.length_cons, List.length_nil] at hle
    omega
  obtain ⟨-, htail⟩ := @drop_append bytes [hi] (lo :: (payload ++ rest)) i h
  obtain ⟨-, hbody⟩ := @drop_append bytes [hi, lo] (payload ++ rest) i (by rw [h]; simp)
  have hlo : bytes[i + 1]? = some lo := getElem?_of_drop htail
  have hslice : slice bytes (i + 2) (i + (2 + payload.length)) = .ok payload := by
    rw [slice_ok (by omega) hend, show i + (2 + payload.length) - (i + 2) = payload.length by omega]
    exact congrArg Except.ok (drop_append hbody).1
  have hstop : endAt bytes i (payload.length + 2) = some (i + (2 + payload.length)) :=
    (endAt_eq_some_iff hfile).2 ⟨by omega, hend⟩
  unfold jpegSegment
  rw [if_neg (by omega), index_ok_iff.2 hhi, Except.bind, index_ok_iff.2 hlo, Except.bind]
  simp only [hnum, hstop, (checkSegment_eq hslice).2.2 hpasses, Except.bind]
  exact if_neg (by omega)

theorem jpegSegment_ne_outOfRange (bytes : Bytes) (i : Nat) (m : UInt8) :
    jpegSegment bytes i m ≠ .error .outOfRange := by
  unfold jpegSegment
  split_ifs with hroom
  · simp
  · apply bind_ne (index_ne_error (by omega))
    intro hi _
    apply bind_ne (index_ne_error (by omega))
    intro lo _
    dsimp only
    split_ifs with hlen
    · simp
    · split
      · simp
      · next stop hstop =>
          obtain ⟨hsum, hle⟩ := endAt_some hstop
          have hslice := slice_ok (show i + 2 ≤ stop by omega) hle
          exact bind_ne (checkSegment_eq hslice).1 fun _ _ => by simp

theorem jpegTurn_next {bytes : Bytes} {s s' : JpegAt} (h : jpegTurn bytes s = .ok (.inl s')) :
    ∃ item : JpegItem, item.Passes s.inScan ∧
      s' = ⟨s.i + item.bytes.length, item.next s.inScan⟩ ∧
      bytes.drop s.i = item.bytes ++ bytes.drop s'.i := by
  have hend : ¬ bytes.length ≤ s.i := fun hend => by
    rw [jpegTurn, if_pos hend] at h
    cases h
  rw [jpegTurn, if_neg hend] at h
  obtain ⟨b, hb, h⟩ := bind_ok h
  rw [index_ok_iff] at hb
  split_ifs at h with hfirst hscan
  · cases h
    exact ⟨.entropy b, ⟨hscan, hfirst⟩, rfl, drop_of_getElem? hb⟩
  · dsimp only at h
    split_ifs at h with hroom
    obtain ⟨m, hm, h⟩ := bind_ok h
    rw [index_ok_iff] at hm
    rw [not_not.1 hfirst] at hb
    obtain ⟨hff, fill, hskip, hsplit⟩ := exists_mark hb hm
    unfold jpegMarker at h
    have hbare : ∀ s' : JpegAt, IsBare s.inScan m → s' = ⟨skipFill bytes s.i + 1, s.inScan⟩ →
        ∃ item : JpegItem, item.Passes s.inScan ∧
          s' = ⟨s.i + item.bytes.length, item.next s.inScan⟩ ∧
          bytes.drop s.i = item.bytes ++ bytes.drop s'.i := by
      rintro _ hbare rfl
      refine ⟨.marker fill m, hbare, ?_, hsplit⟩
      rw [hskip, JpegItem.bytes, length_mark, Nat.add_assoc]
      rfl
    split_ifs at h with hzero hrestart heoi hlast hsoi
    · cases h
      exact hbare _ (Or.inl hzero) rfl
    · cases h
      exact hbare _ (Or.inr hrestart) rfl
    · cases h
    · obtain ⟨payload, hlen, hpasses, hs', hrest⟩ := jpegSegment_ok h
      cases hs'
      have hknown : m ∉ [0xd8, 0xd9, 0xff] := by
        simp only [List.mem_cons, List.not_mem_nil, or_false, not_or]
        exact ⟨hsoi, heoi, hff⟩
      refine ⟨.segment fill m payload, ⟨not_or.2 ⟨hzero, hrestart⟩, hknown, hlen, hpasses⟩, ?_, ?_⟩
      · simp only [JpegItem.bytes, JpegItem.next, List.length_append, length_mark, length_beBytes,
          hskip]
        congr 1
        omega
      · rw [hsplit, hrest]
        simp only [JpegItem.bytes, List.append_assoc]

theorem jpegTurn_done {bytes : Bytes} {s : JpegAt} (h : jpegTurn bytes s = .ok (.inr ())) :
    ∃ fill, bytes.drop s.i = mark fill 0xd9 := by
  have hend : ¬ bytes.length ≤ s.i := fun hend => by
    rw [jpegTurn, if_pos hend] at h
    cases h
  rw [jpegTurn, if_neg hend] at h
  obtain ⟨b, hb, h⟩ := bind_ok h
  rw [index_ok_iff] at hb
  split_ifs at h with hfirst hscan
  · cases h
  · dsimp only at h
    split_ifs at h with hroom
    obtain ⟨m, hm, h⟩ := bind_ok h
    rw [index_ok_iff] at hm
    rw [not_not.1 hfirst] at hb
    obtain ⟨-, fill, -, hsplit⟩ := exists_mark hb hm
    unfold jpegMarker at h
    split_ifs at h with hzero hrestart heoi hlast hsoi
    · cases h
    · cases h
    · rw [heoi, List.drop_of_length_le (Nat.le_of_eq hlast.symm), List.append_nil] at hsplit
      exact ⟨fill, hsplit⟩
    · obtain ⟨_, -, -, hcontra, -⟩ := jpegSegment_ok h
      cases hcontra

theorem jpegTurn_of_mark {bytes rest : Bytes} {s : JpegAt} {fill : Nat} {m : UInt8} (hm : m ≠ 0xff)
    (h : bytes.drop s.i = mark fill m ++ rest) :
    jpegTurn bytes s = jpegMarker bytes s.inScan (s.i + (fill + 2)) m ∧
      bytes.drop (s.i + (fill + 2)) = rest := by
  obtain ⟨hskip, hmarker⟩ := skipFill_of_drop hm h
  have hlt := (List.getElem?_eq_some_iff.1 hmarker).1
  have hfirst : bytes[s.i]? = some 0xff := getElem?_of_drop h
  have hrest := (drop_append h).2
  rw [length_mark] at hrest
  refine ⟨?_, hrest⟩
  rw [jpegTurn, if_neg (by omega), index_ok_iff.2 hfirst]
  simp only [Except.bind, ne_eq, not_true_eq_false, if_false, hskip, index_ok_iff.2 hmarker]
  exact if_neg (by omega)

theorem jpegTurn_of_item {bytes rest : Bytes} {s : JpegAt} {item : JpegItem}
    (hfile : bytes.length ≤ 2 ^ 63) (hpasses : item.Passes s.inScan)
    (h : bytes.drop s.i = item.bytes ++ rest) :
    jpegTurn bytes s = .ok (.inl ⟨s.i + item.bytes.length, item.next s.inScan⟩) := by
  cases item with
  | entropy b =>
      obtain ⟨hscan, hb⟩ := hpasses
      have hfirst : bytes[s.i]? = some b := getElem?_of_drop h
      have hlt := (List.getElem?_eq_some_iff.1 hfirst).1
      rw [jpegTurn, if_neg (by omega), index_ok_iff.2 hfirst, Except.bind, if_pos hb, if_pos hscan]
      rfl
  | marker fill m =>
      have hff : m ≠ 0xff := (IsBare.ne hpasses).1
      obtain ⟨hturn, -⟩ := jpegTurn_of_mark hff h
      rw [hturn, JpegItem.bytes, length_mark]
      rcases hpasses with hzero | hrestart
      · rw [jpegMarker, if_pos hzero]
        rfl
      · rw [jpegMarker, if_pos hrestart, ite_self]
        rfl
  | segment fill m payload =>
      obtain ⟨hbare, hknown, hlen, hpasses⟩ := hpasses
      simp only [List.mem_cons, List.not_mem_nil, or_false, not_or] at hknown
      obtain ⟨hsoi, heoi, hff⟩ := hknown
      obtain ⟨hzero, hrestart⟩ := not_or.1 hbare
      rw [JpegItem.bytes, List.append_assoc] at h
      obtain ⟨hturn, hrest⟩ := jpegTurn_of_mark hff h
      rw [hturn, jpegMarker, if_neg hzero, if_neg hrestart, if_neg heoi, if_neg hsoi,
        jpegSegment_of_drop hfile hlen hpasses hrest]
      simp only [JpegItem.bytes, JpegItem.next, List.length_append, length_mark, length_beBytes]
      congr 3
      omega

theorem jpegTurn_of_end {bytes : Bytes} {s : JpegAt} {fill : Nat}
    (h : bytes.drop s.i = mark fill 0xd9) : jpegTurn bytes s = .ok (.inr ()) := by
  have hmark : bytes.drop s.i = mark fill 0xd9 ++ [] := by rw [h, List.append_nil]
  obtain ⟨hturn, -⟩ := jpegTurn_of_mark (by decide) hmark
  have hlen := congrArg List.length h
  have hle := add_le_of_drop hmark (mark_ne_nil fill 0xd9)
  rw [List.length_drop, length_mark] at hlen
  rw [length_mark] at hle
  obtain ⟨hzero, hrestart⟩ := not_or.1 (not_isBare s.inScan).2
  rw [hturn, jpegMarker, if_neg hzero, if_neg hrestart, if_pos rfl, if_pos (by omega)]

/-! ## The walk over a file -/

theorem jpegTurn_descends (bytes : Bytes) :
    Descends (fun s => bytes.length - s.i) (jpegTurn bytes) := by
  intro s s' h
  obtain ⟨item, -, rfl, hsplit⟩ := jpegTurn_next h
  have hne : item.bytes ≠ [] := by
    cases item <;> simp [JpegItem.bytes, mark]
  have hle := add_le_of_drop hsplit hne
  have hpos := List.length_pos_iff.2 hne
  dsimp only
  omega

def validateJpegMetadataFree (bytes : Bytes) : Except Halt Unit :=
  if ¬ [0xff, 0xd8] <+: bytes then .error (.media .invalidImage)
  else loop (jpegTurn bytes) (fun s => bytes.length - s.i) (jpegTurn_descends bytes) ⟨2, false⟩

/-- The walk accepts what is made of pieces that pass. -/
theorem validateJpegMetadataFree_ok_iff (file : File) :
    validateJpegMetadataFree file.1 = .ok () ↔
      ∃ items, JpegFile JpegItem.Passes file.1 items := by
  unfold validateJpegMetadataFree
  constructor
  · intro h
    split_ifs at h with hstart
    obtain ⟨rest, hrest⟩ := hstart
    have hpieces : ∃ items, Along JpegItem.Passes JpegItem.next
        false items ∧ ∃ fill, file.1.drop 2 = items.flatMap JpegItem.bytes ++ mark fill 0xd9 := by
      refine @loop_ok_induction _ _ _ (jpegTurn file.1) _ (jpegTurn_descends file.1) ⟨2, false⟩ ()
        (fun s _ => ∃ items, Along JpegItem.Passes JpegItem.next
          s.inScan items ∧ ∃ fill, file.1.drop s.i = items.flatMap JpegItem.bytes ++ mark fill 0xd9)
        (fun s _ hturn => ?_) (fun s s' _ hturn hrun => ?_) h
      · obtain ⟨fill, hend⟩ := jpegTurn_done hturn
        exact ⟨[], trivial, fill, hend⟩
      · obtain ⟨item, hpasses, rfl, hsplit⟩ := jpegTurn_next hturn
        obtain ⟨items, hitems, fill, hend⟩ := hrun
        refine ⟨item :: items, ⟨hpasses, hitems⟩, fill, ?_⟩
        rw [hsplit, hend, List.flatMap_cons, List.append_assoc]
    obtain ⟨items, hitems, fill, hend⟩ := hpieces
    refine ⟨items, hitems, fill, ?_⟩
    rw [← hend, ← hrest]
    rfl
  · rintro ⟨items, hitems, fill, hfile⟩
    have hrun : ∀ s : JpegAt, Along JpegItem.Passes JpegItem.next
        s.inScan items → file.1.drop s.i = items.flatMap JpegItem.bytes ++ mark fill 0xd9 →
        loop (jpegTurn file.1) (fun s => file.1.length - s.i) (jpegTurn_descends file.1) s =
          .ok () := by
      clear hitems hfile
      induction items with
      | nil => exact fun s _ hsplit => loop_of_done _ (jpegTurn_of_end hsplit)
      | cons item items ih =>
          intro s hitems hsplit
          rw [List.flatMap_cons, List.append_assoc] at hsplit
          rw [loop_of_next _ (jpegTurn_of_item file.2 hitems.1 hsplit)]
          exact ih _ hitems.2 (drop_append hsplit).2
    have hstart : [0xff, 0xd8] <+: file.1 := ⟨_, hfile.symm⟩
    rw [if_neg (not_not.2 hstart)]
    refine hrun ⟨2, false⟩ hitems ?_
    rw [hfile]
    rfl

/-- No index of the walk is out of range. -/
theorem validateJpegMetadataFree_ne_outOfRange (bytes : Bytes) :
    validateJpegMetadataFree bytes ≠ .error .outOfRange := by
  unfold validateJpegMetadataFree
  split_ifs
  · apply loop_ne_error _ (fun _ => True) (fun _ _ _ _ => trivial) _ trivial
    intro s _
    unfold jpegTurn
    by_cases hend : bytes.length ≤ s.i
    · rw [if_pos hend]
      simp
    · rw [if_neg hend]
      apply bind_ne (index_ne_error (Nat.lt_of_not_le hend))
      intro b _
      split_ifs
      · simp
      · simp
      · dsimp only
        split_ifs with hroom
        · simp
        · apply bind_ne (index_ne_error (Nat.lt_of_not_le hroom))
          intro m _
          unfold jpegMarker
          split_ifs <;> first | exact jpegSegment_ne_outOfRange _ _ _ | simp
  · simp

/-! ## One way to cut a file -/

theorem JpegItem.ne_of_segment {inScan : Bool} {fill : Nat} {m : UInt8} {payload : Bytes}
    (h : (JpegItem.segment fill m payload).Passes inScan) : m ≠ 0xff ∧ m ≠ 0xd9 := by
  obtain ⟨-, hknown, -⟩ := h
  simp only [List.mem_cons, List.not_mem_nil, or_false, not_or] at hknown
  exact ⟨hknown.2.2, hknown.2.1⟩

theorem payload_inj {payload payload' u v : Bytes} (hlen : payload.length + 2 < 2 ^ 16)
    (hlen' : payload'.length + 2 < 2 ^ 16)
    (h : beBytes 2 (payload.length + 2) ++ payload ++ u =
      beBytes 2 (payload'.length + 2) ++ payload' ++ v) : payload = payload' ∧ u = v := by
  rw [List.append_assoc, List.append_assoc] at h
  obtain ⟨hfield, hrest⟩ := List.append_inj h (by simp)
  have hnum : payload.length + 2 = payload'.length + 2 :=
    beBytes_injOn (by omega) (by omega) hfield
  exact List.append_inj hrest (by omega)

theorem jpegItem_delimited :
    Delimited JpegItem.Passes JpegItem.bytes
      (fun l => ∃ fill, l = mark fill 0xd9) := by
  -- scan data is no fill byte, which every marker begins with
  have hdata : ∀ {b m : UInt8} {fill : Nat} {u v : Bytes}, b ≠ 0xff →
      [b] ++ u ≠ mark fill m ++ v := by
    intro b m fill u v hb h
    exact hb (List.cons.inj h).1
  constructor
  · intro inScan x y u v hx hy h
    cases x with
    | entropy b =>
        cases y with
        | entropy b' =>
            obtain ⟨rfl, rfl⟩ := List.cons.inj h
            exact ⟨rfl, rfl⟩
        | marker fill' m' => exact absurd h (hdata hx.2)
        | segment fill' m' payload' =>
            rw [JpegItem.bytes, JpegItem.bytes, List.append_assoc] at h
            exact absurd h (hdata hx.2)
    | marker fill m =>
        have hff := IsBare.ne hx
        cases y with
        | entropy b' => exact absurd h.symm (hdata hy.2)
        | marker fill' m' =>
            have hff' := IsBare.ne hy
            obtain ⟨rfl, rfl, rfl⟩ := mark_inj hff.1 hff'.1 h
            exact ⟨rfl, rfl⟩
        | segment fill' m' payload' =>
            rw [JpegItem.bytes, JpegItem.bytes, List.append_assoc] at h
            obtain ⟨-, rfl, -⟩ := mark_inj hff.1 (JpegItem.ne_of_segment hy).1 h
            exact absurd hx hy.1
    | segment fill m payload =>
        have hff := JpegItem.ne_of_segment hx
        cases y with
        | entropy b' =>
            rw [JpegItem.bytes, JpegItem.bytes, List.append_assoc] at h
            exact absurd h.symm (hdata hy.2)
        | marker fill' m' =>
            have hff' := IsBare.ne hy
            rw [JpegItem.bytes, JpegItem.bytes, List.append_assoc] at h
            obtain ⟨-, rfl, -⟩ := mark_inj hff.1 hff'.1 h
            exact absurd hy hx.1
        | segment fill' m' payload' =>
            have hff' := JpegItem.ne_of_segment hy
            simp only [JpegItem.bytes, List.append_assoc] at h
            obtain ⟨rfl, rfl, hrest⟩ := mark_inj hff.1 hff'.1 h
            obtain ⟨rfl, rfl⟩ := payload_inj hx.2.2.1 hy.2.2.1 (by simpa using hrest)
            exact ⟨rfl, rfl⟩
  · rintro inScan x u hx ⟨fill', h⟩
    have hend : mark fill' 0xd9 = mark fill' 0xd9 ++ [] := (List.append_nil _).symm
    cases x with
    | entropy b => exact hdata hx.2 (h.trans hend)
    | marker fill m =>
        have hff := IsBare.ne hx
        exact hff.2 (mark_inj hff.1 (by decide) (h.trans hend)).2.1
    | segment fill m payload =>
        have hff := JpegItem.ne_of_segment hx
        rw [JpegItem.bytes, List.append_assoc] at h
        exact hff.2 (mark_inj hff.1 (by decide) (h.trans hend)).2.1

/-- A file is cut into pieces in one way. -/
theorem jpegFile_unique {bytes : Bytes} {items items' : List JpegItem}
    (h : JpegFile JpegItem.Passes bytes items)
    (h' : JpegFile JpegItem.Passes bytes items') : items = items' := by
  obtain ⟨hitems, fill, rfl⟩ := h
  obtain ⟨hitems', fill', heq⟩ := h'
  have hrest := (List.append_inj heq rfl).2
  exact (jpegItem_delimited.unique hitems hitems' ⟨fill, rfl⟩ ⟨fill', rfl⟩ hrest).1

theorem jpegFile_listed_iff {bytes : Bytes} (items : List JpegItem) :
    JpegFile JpegItem.Listed bytes items ↔
      JpegFile JpegItem.Passes bytes items ∧ ∀ item ∈ items, item.Known := by
  have hlisted : JpegItem.Listed = fun inScan item => item.Passes inScan ∧ item.Known :=
    funext fun _ => funext fun _ => propext JpegItem.listed_iff
  rw [JpegFile, JpegFile, hlisted, along_and_iff]
  exact and_right_comm

end Media
end Maju
