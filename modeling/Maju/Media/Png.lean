import Maju.Media.Checked
import Maju.Lib.Loop
import Maju.Lib.Delimited

/-!
# Png — the chunks of a picture

* `validatePngMetadataFree` — the walk over the chunks;
* `PngChunk`, `PngFile` — a chunk, and a file that is made of chunks up to the end chunk;
* `validatePngMetadataFree_ok_iff` — the walk accepts the files whose chunks it lets pass, and these
  are more than the listed ones: `PngChunk.Known` is the difference;
* `pngFile_unique` — a file is cut into chunks in one way;
* `validatePngMetadataFree_ne_outOfRange` — no index is out of range.
-/

namespace Maju
namespace Media

open Lib Lib.Run

/-! ## The walk -/

/-- Where the walk stands, and whether it has seen a snapshot. -/
structure PngAt where
  i : Nat
  sawSnapshot : Bool
  deriving DecidableEq, Repr

/-- `SIG`. -/
def pngSignature : Bytes := [0x89] ++ ascii "PNG\r\n" ++ [0x1a] ++ ascii "\n"

def pngSnapshotKeywords : List Bytes := [ascii "maju_agent_snapshot", ascii "maju_team_snapshot"]

/-- `known_rendering`. -/
def pngRendering : List Bytes :=
  ["cHRM", "gAMA", "sBIT", "sRGB", "bKGD", "hIST", "tRNS", "sPLT", "acTL", "fcTL", "fdAT"].map ascii

/-- The chunks that are rejected by name. -/
def pngForbidden : List Bytes := ["eXIf", "zTXt", "iTXt", "iCCP"].map ascii

/-- The payload begins with a keyword and a zero. -/
def hasKeyword (payload keyword : Bytes) : Except Halt Bool :=
  if payload.length ≤ keyword.length then .ok false
  else
    (slice payload 0 keyword.length).bind fun start =>
      if start ≠ keyword then .ok false
      else (index payload keyword.length).bind fun b => .ok (b = 0)

def isSnapshotTextChunk (payload : Bytes) : List Bytes → Except Halt Bool
  | [] => .ok false
  | keyword :: rest =>
      (hasKeyword payload keyword).bind fun ok =>
        if ok then .ok true else isSnapshotTextChunk payload rest

/-- The checks of a chunk between `i` and `stop`; whether there has been a snapshot then. -/
def checkChunk (bytes : Bytes) (sawSnapshot : Bool) (i stop : Nat) (kind : Bytes) :
    Except Halt Bool :=
  if kind = ascii "tEXt" then
    (slice bytes (i + 8) (stop - 4)).bind fun payload =>
      (isSnapshotTextChunk payload pngSnapshotKeywords).bind fun ok =>
        if sawSnapshot = true ∨ ok = false then .error (.media .metadataForbidden) else .ok true
  else if kind ∈ pngForbidden then .error (.media .metadataForbidden)
  else
    (index kind 0).bind fun b =>
      if b &&& 0x20 ≠ 0 ∧ kind ∉ pngRendering then .error (.media .metadataForbidden)
      else .ok sawSnapshot

/-- One turn of the loop, and what comes after it where it is left. -/
def pngTurn (bytes : Bytes) (s : PngAt) : Except Halt (PngAt ⊕ Unit) :=
  if bytes.length ≤ s.i then .error (.media .metadataForbidden)
  else if bytes.length < s.i + 12 then .error (.media .invalidImage)
  else
    (slice bytes s.i (s.i + 4)).bind fun len =>
      (slice bytes (s.i + 4) (s.i + 8)).bind fun kind =>
        match (checkedAdd s.i 12).bind fun v => endAt bytes v (beNat len) with
        | none => .error (.media .invalidImage)
        | some stop =>
            (checkChunk bytes s.sawSnapshot s.i stop kind).bind fun sawSnapshot =>
              if kind = ascii "IEND" then
                if stop = bytes.length then .ok (.inr ()) else .error (.media .metadataForbidden)
              else .ok (.inl ⟨stop, sawSnapshot⟩)

/-! ## The chunks of a file -/

/-- A chunk with its checksum. -/
structure PngChunk where
  kind : Bytes
  payload : Bytes
  crc : Bytes
  length_kind : kind.length = 4
  length_payload : payload.length < 2 ^ 32
  length_crc : crc.length = 4

def PngChunk.bytes (c : PngChunk) : Bytes :=
  beBytes 4 c.payload.length ++ (c.kind ++ (c.payload ++ c.crc))

/-- Whether there has been a snapshot behind a chunk. -/
def PngChunk.next (sawSnapshot : Bool) (c : PngChunk) : Bool :=
  sawSnapshot || c.kind = ascii "tEXt"

/-- A keyword, a zero and the manifest. -/
def IsSnapshot (payload : Bytes) : Prop :=
  ∃ keyword ∈ pngSnapshotKeywords, ∃ manifest, payload = keyword ++ 0 :: manifest

def IsAncillary (kind : Bytes) : Prop := ∃ b, kind[0]? = some b ∧ b &&& 0x20 ≠ 0

/-- What the checks of a chunk let pass. -/
def ChunkPasses (sawSnapshot : Bool) (kind payload : Bytes) : Prop :=
  (kind = ascii "tEXt" ∧ sawSnapshot = false ∧ IsSnapshot payload) ∨
    (kind ≠ ascii "tEXt" ∧ (IsAncillary kind → kind ∈ pngRendering))

def PngChunk.Passes (sawSnapshot : Bool) (c : PngChunk) : Prop :=
  ChunkPasses sawSnapshot c.kind c.payload

def pngCritical : List Bytes := ["IHDR", "PLTE", "IDAT", "IEND"].map ascii

/-- A chunk that the format's list has; a snapshot only where there has been none. -/
def PngChunk.Listed (sawSnapshot : Bool) (c : PngChunk) : Prop :=
  c.kind ∈ pngCritical ∨ c.kind ∈ pngRendering ∨
    (c.kind = ascii "tEXt" ∧ sawSnapshot = false ∧ IsSnapshot c.payload)

/-- No critical chunk but the four. -/
def PngChunk.Known (c : PngChunk) : Prop := IsAncillary c.kind ∨ c.kind ∈ pngCritical

/-- A chunk with an upper-case first letter and a name that no list has; its payload is anything. -/
def PngChunk.Free (c : PngChunk) : Prop := ¬ IsAncillary c.kind ∧ c.kind ∉ pngCritical

def PngChunks (P : Bool → PngChunk → Prop) : Bool → List PngChunk → Prop :=
  Along (fun sawSnapshot c => P sawSnapshot c ∧ c.kind ≠ ascii "IEND") PngChunk.next

/-- Chunks up to the end chunk, and nothing behind. -/
def PngFile (P : Bool → PngChunk → Prop) (bytes : Bytes) (chunks : List PngChunk) : Prop :=
  PngChunks P false chunks ∧
    ∃ iend : PngChunk, iend.kind = ascii "IEND" ∧
      bytes = pngSignature ++ (chunks.flatMap PngChunk.bytes ++ iend.bytes)

theorem not_isAncillary_of_critical : ∀ kind ∈ pngCritical, ¬ IsAncillary kind := by
  have hbits : ∀ kind ∈ pngCritical, (kind[0]?.all fun b => b &&& 0x20 = 0) = true := by
    decide
  rintro kind hkind ⟨b, hb, hbit⟩
  have hclear := hbits kind hkind
  rw [hb] at hclear
  exact hbit (by simpa using hclear)

theorem text_notMem : ascii "tEXt" ∉ pngRendering ∧ ascii "tEXt" ∉ pngCritical := by
  decide

theorem isAncillary_of_any {kind : Bytes} (h : (kind[0]?.any fun b => b &&& 0x20 ≠ 0) = true) :
    IsAncillary kind := by
  obtain ⟨b, hb, hbit⟩ := (Option.any_eq_true _ _).1 h
  exact ⟨b, hb, of_decide_eq_true hbit⟩

theorem isAncillary_rendering : ∀ kind ∈ pngRendering, IsAncillary kind := by
  have hbits : ∀ kind ∈ pngRendering, (kind[0]?.any fun b => b &&& 0x20 ≠ 0) = true := by
    decide
  exact fun kind hkind => isAncillary_of_any (hbits kind hkind)

theorem forbidden_spec : ∀ kind ∈ pngForbidden, IsAncillary kind ∧ kind ∉ pngRendering := by
  have hbits : ∀ kind ∈ pngForbidden,
      (kind[0]?.any fun b => b &&& 0x20 ≠ 0) = true ∧ kind ∉ pngRendering := by
    decide
  exact fun kind hkind => ⟨isAncillary_of_any (hbits kind hkind).1, (hbits kind hkind).2⟩

theorem isAncillary_text : IsAncillary (ascii "tEXt") := ⟨_, rfl, by decide⟩

theorem PngChunk.listed_iff {sawSnapshot : Bool} {c : PngChunk} :
    c.Listed sawSnapshot ↔ c.Passes sawSnapshot ∧ c.Known := by
  constructor
  · rintro (hcritical | hrendering | htext)
    · have hplain := not_isAncillary_of_critical c.kind hcritical
      refine ⟨Or.inr ⟨fun heq => ?_, fun h => absurd h hplain⟩, Or.inr hcritical⟩
      exact text_notMem.2 (heq ▸ hcritical)
    · refine ⟨Or.inr ⟨fun heq => ?_, fun _ => hrendering⟩,
        Or.inl (isAncillary_rendering c.kind hrendering)⟩
      exact text_notMem.1 (heq ▸ hrendering)
    · exact ⟨Or.inl htext, Or.inl (htext.1 ▸ isAncillary_text)⟩
  · rintro ⟨htext | ⟨-, hrendering⟩, hknown⟩
    · exact Or.inr (Or.inr htext)
    · rcases hknown with hancillary | hcritical
      · exact Or.inr (Or.inl (hrendering hancillary))
      · exact Or.inl hcritical

theorem PngChunk.passes_iff {sawSnapshot : Bool} {c : PngChunk} :
    c.Passes sawSnapshot ↔ c.Listed sawSnapshot ∨ c.Free := by
  constructor
  · intro h
    by_cases hknown : c.Known
    · exact Or.inl (PngChunk.listed_iff.2 ⟨h, hknown⟩)
    · exact Or.inr (not_or.1 hknown)
  · rintro (hlisted | ⟨hplain, -⟩)
    · exact (PngChunk.listed_iff.1 hlisted).1
    · refine Or.inr ⟨fun heq => hplain ?_, fun h => absurd h hplain⟩
      rw [heq]
      exact isAncillary_text

/-! ## The checks of a chunk -/

theorem hasKeyword_eq (payload keyword : Bytes) :
    ∃ ok, hasKeyword payload keyword = .ok ok ∧
      (ok = true ↔ ∃ manifest, payload = keyword ++ 0 :: manifest) := by
  unfold hasKeyword
  split_ifs with hshort
  · refine ⟨false, rfl, nofun, ?_⟩
    rintro ⟨manifest, rfl⟩
    rw [List.length_append, List.length_cons] at hshort
    omega
  · have hlong : keyword.length < payload.length := Nat.lt_of_not_le hshort
    have hb : payload[keyword.length]? = some (payload.get ⟨_, hlong⟩) :=
      List.getElem?_eq_getElem hlong
    rw [slice_ok (Nat.zero_le _) (Nat.le_of_lt hlong), index_ok_iff.2 hb]
    simp only [Except.bind, List.drop_zero, Nat.sub_zero]
    split_ifs with hkeyword
    · refine ⟨false, rfl, nofun, ?_⟩
      rintro ⟨manifest, rfl⟩
      exact absurd List.take_left hkeyword
    · refine ⟨_, rfl, ?_⟩
      rw [decide_eq_true_iff]
      have hsplit : payload = keyword ++ payload.drop keyword.length := by
        have htake := List.take_append_drop keyword.length payload
        rw [not_not.1 hkeyword] at htake
        exact htake.symm
      constructor
      · intro hzero
        refine ⟨payload.drop (keyword.length + 1), ?_⟩
        rw [← hzero, ← drop_of_getElem? hb]
        exact hsplit
      · rintro ⟨manifest, heq⟩
        have hdrop : payload.drop keyword.length = 0 :: manifest := by
          rw [heq, List.drop_left]
        exact Option.some.inj (hb.symm.trans (getElem?_of_drop hdrop))

theorem isSnapshotTextChunk_eq (payload : Bytes) (keywords : List Bytes) :
    ∃ ok, isSnapshotTextChunk payload keywords = .ok ok ∧
      (ok = true ↔ ∃ keyword ∈ keywords, ∃ manifest, payload = keyword ++ 0 :: manifest) := by
  induction keywords with
  | nil => exact ⟨false, rfl, nofun, by rintro ⟨_, hmem, -⟩; cases hmem⟩
  | cons keyword keywords ih =>
      obtain ⟨ok, hok, hiff⟩ := hasKeyword_eq payload keyword
      rw [isSnapshotTextChunk, hok, Except.bind]
      cases ok with
      | true => exact ⟨true, rfl, fun _ => ⟨keyword, List.mem_cons_self, hiff.1 rfl⟩, fun _ => rfl⟩
      | false =>
          obtain ⟨ok, hrest, hiff'⟩ := ih
          refine ⟨ok, hrest, hiff'.trans ⟨?_, ?_⟩⟩
          · rintro ⟨other, hmem, hother⟩
            exact ⟨other, List.mem_cons_of_mem _ hmem, hother⟩
          · rintro ⟨other, hmem, hother⟩
            rcases List.mem_cons.1 hmem with rfl | hmem
            · exact absurd (hiff.2 hother) nofun
            · exact ⟨other, hmem, hother⟩

theorem checkChunk_eq {bytes kind payload : Bytes} {sawSnapshot : Bool} {i stop : Nat}
    (hkind : kind.length = 4) (hslice : slice bytes (i + 8) (stop - 4) = .ok payload) :
    checkChunk bytes sawSnapshot i stop kind ≠ .error .outOfRange ∧
      (∀ next, checkChunk bytes sawSnapshot i stop kind = .ok next ↔
        ChunkPasses sawSnapshot kind payload ∧ next = (sawSnapshot || kind = ascii "tEXt")) := by
  unfold checkChunk ChunkPasses
  split_ifs with htext hforbidden
  · obtain ⟨ok, hok, hiff⟩ := isSnapshotTextChunk_eq payload pngSnapshotKeywords
    rw [hslice, Except.bind, hok, Except.bind]
    split_ifs with hbad
    · refine ⟨nofun, fun next => ⟨nofun, ?_⟩⟩
      rintro ⟨⟨-, hnone, hsnapshot⟩ | ⟨hnot, -⟩, -⟩
      · rcases hbad with hsaw | hfalse
        · exact absurd (hsaw.symm.trans hnone) nofun
        · exact absurd (hfalse.symm.trans (hiff.2 hsnapshot)) nofun
      · exact absurd htext hnot
    · obtain ⟨hsaw, htrue⟩ := not_or.1 hbad
      refine ⟨nofun, fun next => ⟨?_, ?_⟩⟩
      · intro h
        cases h
        refine ⟨Or.inl ⟨htext, eq_false_of_ne_true hsaw, hiff.1 (eq_true_of_ne_false htrue)⟩, ?_⟩
        rw [decide_eq_true htext, Bool.or_true]
      · rintro ⟨-, rfl⟩
        rw [decide_eq_true htext, Bool.or_true]
  · refine ⟨nofun, fun next => ⟨nofun, ?_⟩⟩
    rintro ⟨⟨hyes, -⟩ | ⟨-, hrendering⟩, -⟩
    · exact absurd hyes htext
    · obtain ⟨hancillary, hnot⟩ := forbidden_spec kind hforbidden
      exact absurd (hrendering hancillary) hnot
  · have hb : kind[0]? = some (kind.get ⟨0, by omega⟩) := List.getElem?_eq_getElem _
    rw [index_ok_iff.2 hb, Except.bind, decide_eq_false htext, Bool.or_false]
    have hancillary : IsAncillary kind ↔ kind.get ⟨0, by omega⟩ &&& 0x20 ≠ 0 := by
      constructor
      · rintro ⟨b, hb', hbit⟩
        cases hb.symm.trans hb'
        exact hbit
      · exact fun hbit => ⟨_, hb, hbit⟩
    split_ifs with hbad
    · refine ⟨nofun, fun next => ⟨nofun, ?_⟩⟩
      rintro ⟨⟨hyes, -⟩ | ⟨-, hrendering⟩, -⟩
      · exact absurd hyes htext
      · exact absurd (hrendering (hancillary.2 hbad.1)) hbad.2
    · refine ⟨nofun, fun next => ⟨?_, ?_⟩⟩
      · intro h
        cases h
        refine ⟨Or.inr ⟨htext, fun h => ?_⟩, rfl⟩
        exact not_not.1 fun hnot => hbad ⟨hancillary.1 h, hnot⟩
      · rintro ⟨-, rfl⟩
        rfl

/-! ## One turn -/

theorem PngChunk.length_bytes (c : PngChunk) : c.bytes.length = c.payload.length + 12 := by
  simp only [PngChunk.bytes, List.length_append, length_beBytes, c.length_kind, c.length_crc]
  omega

theorem pngStop_eq_some_iff {bytes : Bytes} (hfile : bytes.length ≤ 2 ^ 63) {i len stop : Nat} :
    ((checkedAdd i 12).bind fun v => endAt bytes v len) = some stop ↔
      i + 12 + len = stop ∧ stop ≤ bytes.length := by
  constructor
  · intro h
    obtain ⟨v, hv, hstop⟩ := Option.bind_eq_some_iff.1 h
    rw [checkedAdd_eq hv] at hstop
    exact endAt_some hstop
  · rintro ⟨hsum, hle⟩
    rw [checkedAdd, if_pos (by omega), Option.bind_some]
    exact (endAt_eq_some_iff hfile).2 ⟨hsum, hle⟩

theorem pngTurn_ok {bytes : Bytes} {s : PngAt} {r : PngAt ⊕ Unit} (h : pngTurn bytes s = .ok r) :
    ∃ c : PngChunk, c.Passes s.sawSnapshot ∧
      bytes.drop s.i = c.bytes ++ bytes.drop (s.i + c.bytes.length) ∧
      ((c.kind ≠ ascii "IEND" ∧ r = .inl ⟨s.i + c.bytes.length, c.next s.sawSnapshot⟩) ∨
        (c.kind = ascii "IEND" ∧ s.i + c.bytes.length = bytes.length ∧ r = .inr ())) := by
  unfold pngTurn at h
  split_ifs at h with hend hroom
  obtain ⟨len, hlen, h⟩ := bind_ok h
  obtain ⟨kind, hkind, h⟩ := bind_ok h
  split at h
  · cases h
  · next stop hstop =>
      obtain ⟨v, hv, hstop⟩ := Option.bind_eq_some_iff.1 hstop
      rw [checkedAdd_eq hv] at hstop
      obtain ⟨hsum, hle⟩ := endAt_some hstop
      obtain ⟨sawSnapshot, hcheck, h⟩ := bind_ok h
      have hlen4 : len.length = 4 := by
        rw [slice_some hlen, length_take_drop] <;> omega
      have hkind4 : kind.length = 4 := by
        rw [slice_some hkind, length_take_drop] <;> omega
      have hlt := beNat_lt len
      rw [hlen4] at hlt
      generalize hn : beNat len = n at *
      have hpayload := length_take_drop (show s.i + 8 + n ≤ bytes.length by omega)
      have hcrc := length_take_drop (show s.i + 8 + n + 4 ≤ bytes.length by omega)
      have hslice : slice bytes (s.i + 8) (stop - 4) = .ok ((bytes.drop (s.i + 8)).take n) := by
        rw [slice_ok (by omega) (by omega), show stop - 4 - (s.i + 8) = n by omega]
      obtain ⟨hpasses, rfl⟩ := ((checkChunk_eq hkind4 hslice).2 sawSnapshot).1 hcheck
      let c : PngChunk := ⟨kind, (bytes.drop (s.i + 8)).take n,
        (bytes.drop (s.i + 8 + n)).take 4, hkind4, by omega, hcrc⟩
      have hbytes : s.i + c.bytes.length = stop := by
        rw [c.length_bytes]
        show s.i + (((bytes.drop (s.i + 8)).take n).length + 12) = stop
        omega
      refine ⟨c, hpasses, ?_, ?_⟩
      · have hfield : beBytes 4 n = len := by
          rw [← hn, ← hlen4, beBytes_beNat]
        show _ = beBytes 4 ((bytes.drop (s.i + 8)).take n).length ++ (kind ++ (_ ++ _)) ++ _
        rw [hpayload, hfield, hbytes, slice_some hlen, slice_some hkind]
        simp only [List.append_assoc]
        rw [show s.i + 4 - s.i = 4 by omega, show s.i + 8 - (s.i + 4) = 4 by omega,
          ← show s.i + 8 + n + 4 = stop by omega, ← drop_split, ← drop_split (s.i + 8) n,
          ← drop_split (s.i + 4) 4, ← drop_split s.i 4]
      · rw [hbytes]
        split_ifs at h with hiend hlast
        · cases h
          exact Or.inr ⟨hiend, hlast, rfl⟩
        · cases h
          exact Or.inl ⟨hiend, rfl⟩

theorem pngTurn_of_chunk {bytes rest : Bytes} {s : PngAt} {c : PngChunk}
    (hfile : bytes.length ≤ 2 ^ 63) (hpasses : c.Passes s.sawSnapshot)
    (h : bytes.drop s.i = c.bytes ++ rest) :
    pngTurn bytes s =
      if c.kind = ascii "IEND" then
        if s.i + c.bytes.length = bytes.length then .ok (.inr ())
        else .error (.media .metadataForbidden)
      else .ok (.inl ⟨s.i + c.bytes.length, c.next s.sawSnapshot⟩) := by
  have hne : c.bytes ≠ [] := fun hnil => by
    have hlen := c.length_bytes
    rw [hnil] at hlen
    cases hlen
  have hend := add_le_of_drop h hne
  have hlength := c.length_bytes
  have hkind4 := c.length_kind
  have hcrc4 := c.length_crc
  have hpayload := c.length_payload
  generalize hn : c.payload.length = n at *
  have hfield : (beBytes 4 n).length = 4 := length_beBytes 4 n
  rw [PngChunk.bytes, hn] at h
  simp only [List.append_assoc] at h
  have hlen : slice bytes s.i (s.i + 4) = .ok (beBytes 4 n) := by
    have hslice := slice_of_drop (by omega) h
    rwa [hfield] at hslice
  have hkindAt := (drop_append h).2
  rw [hfield] at hkindAt
  have hkind : slice bytes (s.i + 4) (s.i + 8) = .ok c.kind := by
    have hslice := slice_of_drop (by omega) hkindAt
    rwa [hkind4] at hslice
  have hpayloadAt := (drop_append hkindAt).2
  rw [hkind4] at hpayloadAt
  have hslice : slice bytes (s.i + 8) (s.i + 8 + n) = .ok c.payload := by
    have hslice := slice_of_drop (by omega) hpayloadAt
    rwa [hn] at hslice
  have hstop : ((checkedAdd s.i 12).bind fun v => endAt bytes v n) =
      some (s.i + c.bytes.length) :=
    (pngStop_eq_some_iff hfile).2 ⟨by omega, hend⟩
  have hnum : beNat (beBytes 4 n) = n := beNat_beBytes (by omega)
  have hcheck : checkChunk bytes s.sawSnapshot s.i (s.i + c.bytes.length) c.kind =
      .ok (c.next s.sawSnapshot) := by
    refine ((checkChunk_eq hkind4 ?_).2 _).2 ⟨hpasses, rfl⟩
    rw [← hslice]
    congr 1
    omega
  unfold pngTurn
  rw [if_neg (by omega), if_neg (by omega), hlen, Except.bind, hkind, Except.bind]
  simp only [hnum, hstop, hcheck, Except.bind]

theorem pngTurn_ne_outOfRange (bytes : Bytes) (s : PngAt) :
    pngTurn bytes s ≠ .error .outOfRange := by
  unfold pngTurn
  split_ifs with hend hroom
  · simp
  · simp
  · rw [slice_ok (by omega) (by omega), Except.bind, slice_ok (by omega) (by omega), Except.bind]
    split
    · simp
    · next stop hstop =>
        obtain ⟨v, hv, hstop⟩ := Option.bind_eq_some_iff.1 hstop
        rw [checkedAdd_eq hv] at hstop
        obtain ⟨hsum, hle⟩ := endAt_some hstop
        have hkind4 := length_take_drop (show s.i + 4 + 4 ≤ bytes.length by omega)
        have hslice := slice_ok (show s.i + 8 ≤ stop - 4 by omega)
          (show stop - 4 ≤ bytes.length by omega)
        apply bind_ne
        · rw [show s.i + 8 - (s.i + 4) = 4 by omega]
          exact (checkChunk_eq hkind4 hslice).1
        · intro sawSnapshot _
          split_ifs <;> simp

/-! ## The walk over a file -/

theorem pngTurn_descends (bytes : Bytes) :
    Descends (fun s => bytes.length - s.i) (pngTurn bytes) := by
  intro s s' h
  have hend : ¬ bytes.length ≤ s.i := fun hend => by
    rw [pngTurn, if_pos hend] at h
    cases h
  obtain ⟨c, -, -, ⟨-, heq⟩ | ⟨-, -, heq⟩⟩ := pngTurn_ok h
  · cases heq
    have hlen := c.length_bytes
    dsimp only
    omega
  · cases heq

def validatePngMetadataFree (bytes : Bytes) : Except Halt Unit :=
  if ¬ pngSignature <+: bytes then .error (.media .invalidImage)
  else
    loop (pngTurn bytes) (fun s => bytes.length - s.i) (pngTurn_descends bytes)
      ⟨pngSignature.length, false⟩

theorem PngChunk.passes_of_end {sawSnapshot : Bool} {c : PngChunk} (h : c.kind = ascii "IEND") :
    c.Passes sawSnapshot := by
  have hmem : c.kind ∈ pngCritical := by
    rw [h]
    decide
  refine Or.inr ⟨fun heq => ?_, fun hancillary => ?_⟩
  · exact text_notMem.2 (heq ▸ hmem)
  · exact absurd hancillary (not_isAncillary_of_critical c.kind hmem)

/-- The walk accepts what is made of chunks that pass. -/
theorem validatePngMetadataFree_ok_iff (file : File) :
    validatePngMetadataFree file.1 = .ok () ↔ ∃ chunks, PngFile PngChunk.Passes file.1 chunks := by
  unfold validatePngMetadataFree
  constructor
  · intro h
    split_ifs at h with hstart
    obtain ⟨rest, hrest⟩ := hstart
    have hchunks : ∃ chunks, PngChunks PngChunk.Passes false chunks ∧
        ∃ iend : PngChunk, iend.kind = ascii "IEND" ∧
          file.1.drop pngSignature.length = chunks.flatMap PngChunk.bytes ++ iend.bytes := by
      refine @loop_ok_induction _ _ _ (pngTurn file.1) _ (pngTurn_descends file.1)
        ⟨pngSignature.length, false⟩ () (fun s _ => ∃ chunks,
          PngChunks PngChunk.Passes s.sawSnapshot chunks ∧
            ∃ iend : PngChunk, iend.kind = ascii "IEND" ∧
              file.1.drop s.i = chunks.flatMap PngChunk.bytes ++ iend.bytes)
        (fun s _ hturn => ?_) (fun s s' _ hturn hrun => ?_) h
      · obtain ⟨c, -, hsplit, ⟨-, heq⟩ | ⟨hiend, hlast, -⟩⟩ := pngTurn_ok hturn
        · cases heq
        · rw [hlast, List.drop_length, List.append_nil] at hsplit
          exact ⟨[], trivial, c, hiend, hsplit⟩
      · obtain ⟨c, hpasses, hsplit, ⟨hiend, heq⟩ | ⟨-, -, heq⟩⟩ := pngTurn_ok hturn
        · cases heq
          obtain ⟨chunks, hchunks, iend, hkind, hend⟩ := hrun
          refine ⟨c :: chunks, ⟨⟨hpasses, hiend⟩, hchunks⟩, iend, hkind, ?_⟩
          rw [hsplit, hend, List.flatMap_cons, List.append_assoc]
        · cases heq
    obtain ⟨chunks, hchunks, iend, hkind, hend⟩ := hchunks
    refine ⟨chunks, hchunks, iend, hkind, ?_⟩
    rw [← hend, ← hrest, List.drop_left]
  · rintro ⟨chunks, hchunks, iend, hkind, hfile⟩
    have hrun : ∀ s : PngAt, PngChunks PngChunk.Passes s.sawSnapshot chunks →
        file.1.drop s.i = chunks.flatMap PngChunk.bytes ++ iend.bytes →
        loop (pngTurn file.1) (fun s => file.1.length - s.i) (pngTurn_descends file.1) s =
          .ok () := by
      clear hchunks hfile
      induction chunks with
      | nil =>
          intro s _ hsplit
          have hend : file.1.drop s.i = iend.bytes ++ [] := by
            rw [hsplit, List.flatMap_nil, List.nil_append, List.append_nil]
          have hturn := pngTurn_of_chunk file.2 (PngChunk.passes_of_end hkind) hend
          have hlen := congrArg List.length hend
          have hlength := iend.length_bytes
          rw [List.length_drop, List.append_nil] at hlen
          rw [if_pos hkind, if_pos (by omega)] at hturn
          exact loop_of_done _ hturn
      | cons c chunks ih =>
          intro s hchunks hsplit
          obtain ⟨⟨hpasses, hiend⟩, hchunks⟩ := hchunks
          rw [List.flatMap_cons, List.append_assoc] at hsplit
          have hturn := pngTurn_of_chunk file.2 hpasses hsplit
          rw [if_neg hiend] at hturn
          rw [loop_of_next _ hturn]
          exact ih _ hchunks (drop_append hsplit).2
    have hstart : pngSignature <+: file.1 := ⟨_, hfile.symm⟩
    rw [if_neg (not_not.2 hstart)]
    refine hrun ⟨pngSignature.length, false⟩ hchunks ?_
    rw [hfile, List.drop_left]

/-- No index of the walk is out of range. -/
theorem validatePngMetadataFree_ne_outOfRange (bytes : Bytes) :
    validatePngMetadataFree bytes ≠ .error .outOfRange := by
  unfold validatePngMetadataFree
  split_ifs
  · apply loop_ne_error _ (fun _ => True) (fun _ _ _ _ => trivial) _ trivial
    exact fun s _ => pngTurn_ne_outOfRange bytes s
  · simp

/-! ## One way to cut a file -/

theorem PngChunk.bytes_inj {c c' : PngChunk} {u v : Bytes} (h : c.bytes ++ u = c'.bytes ++ v) :
    c = c' ∧ u = v := by
  simp only [PngChunk.bytes, List.append_assoc] at h
  obtain ⟨hfield, h⟩ := List.append_inj h (by simp)
  have hlength := beBytes_injOn c.length_payload c'.length_payload hfield
  obtain ⟨hkind, h⟩ := List.append_inj h (c.length_kind.trans c'.length_kind.symm)
  obtain ⟨hpayload, h⟩ := List.append_inj h hlength
  obtain ⟨hcrc, h⟩ := List.append_inj h (c.length_crc.trans c'.length_crc.symm)
  refine ⟨?_, h⟩
  cases c
  cases c'
  cases hkind
  cases hpayload
  cases hcrc
  rfl

theorem pngChunk_delimited (P : Bool → PngChunk → Prop) :
    Delimited (fun sawSnapshot c => P sawSnapshot c ∧ c.kind ≠ ascii "IEND") PngChunk.bytes
      (fun l => ∃ iend : PngChunk, iend.kind = ascii "IEND" ∧ l = iend.bytes) where
  item _ _ h := PngChunk.bytes_inj h
  ending := by
    rintro _ c u ⟨-, hiend⟩ ⟨iend, hkind, h⟩
    obtain ⟨rfl, -⟩ := PngChunk.bytes_inj (h.trans (List.append_nil _).symm)
    exact hiend hkind

/-- A file is cut into chunks in one way. -/
theorem pngFile_unique {P : Bool → PngChunk → Prop} {bytes : Bytes} {chunks chunks' : List PngChunk}
    (h : PngFile P bytes chunks) (h' : PngFile P bytes chunks') : chunks = chunks' := by
  obtain ⟨hchunks, iend, hkind, rfl⟩ := h
  obtain ⟨hchunks', iend', hkind', heq⟩ := h'
  have hrest := List.append_cancel_left heq
  exact ((pngChunk_delimited P).unique hchunks hchunks' ⟨iend, hkind, rfl⟩ ⟨iend', hkind', rfl⟩
    hrest).1

theorem pngFile_listed_iff {bytes : Bytes} (chunks : List PngChunk) :
    PngFile PngChunk.Listed bytes chunks ↔
      PngFile PngChunk.Passes bytes chunks ∧ ∀ c ∈ chunks, c.Known := by
  have hlisted : (fun sawSnapshot (c : PngChunk) => c.Listed sawSnapshot ∧ c.kind ≠ ascii "IEND") =
      fun sawSnapshot c => (c.Passes sawSnapshot ∧ c.kind ≠ ascii "IEND") ∧ c.Known := by
    funext sawSnapshot c
    rw [PngChunk.listed_iff]
    exact propext and_right_comm
  rw [PngFile, PngFile, PngChunks, PngChunks, hlisted, along_and_iff]
  exact and_right_comm

end Media
end Maju
