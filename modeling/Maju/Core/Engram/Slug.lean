import Maju.Lib.Decimal
import Maju.Lib.Slice

/-!
# Slug — the names of engrams

A slug is `core` or `mem/` with segments of `[a-z0-9][a-z0-9_-]{0,63}` between slashes, in at most
255 bytes.  All its bytes are below 128 and none is a bracket.
-/

namespace Maju
namespace Core
namespace Engram

open Lib

def coreSlug : Text := "core".toList

def slugMaxLen : Nat := 255

def memPrefix : Text := "mem/".toList

/-- What `validate_segment` says of a segment. -/
inductive SegmentError where
  | empty
  | tooLong
  | firstByte
  | otherByte
  deriving DecidableEq, Repr

/-- What `validate_slug` says of a slug; a segment comes with its number, from one. -/
inductive SlugError where
  | tooLong (len : Nat)
  | noPrefix (slug : Text)
  | emptyRest
  | segment (number : Nat) (segment : Text) (why : SegmentError)
  deriving DecidableEq, Repr

def isLowerAlnum (b : UInt8) : Bool := (97 ≤ b && b ≤ 122) || (48 ≤ b && b ≤ 57)

/-- A byte of a segment behind its first. -/
def isSegmentByte (b : UInt8) : Bool := isLowerAlnum b || b = 95 || b = 45

def validateSegment (s : Text) : Except SegmentError Unit :=
  match encode s with
  | [] => .error .empty
  | first :: rest =>
      if 64 < (first :: rest).length then .error .tooLong
      else if !isLowerAlnum first then .error .firstByte
      else if !rest.all isSegmentByte then .error .otherByte
      else .ok ()

/-- The loop of `validate_slug` over the segments. -/
def validateSegments : Nat → List Text → Except SlugError Unit
  | _, [] => .ok ()
  | i, segment :: segments =>
      match validateSegment segment with
      | .error why => .error (.segment (i + 1) segment why)
      | .ok _ => validateSegments (i + 1) segments

def validateSlug (slug : Text) : Except SlugError Unit :=
  if slug = coreSlug then .ok ()
  else if slugMaxLen < byteLen slug then .error (.tooLong (byteLen slug))
  else if !memPrefix.isPrefixOf slug then .error (.noPrefix slug)
  else
    let rest := slug.drop memPrefix.length
    if rest.isEmpty then .error .emptyRest
    else validateSegments 0 (fields '/' rest)

/-! ## The bytes of a slug -/

theorem validateSegment_bytes {s : Text} (h : validateSegment s = .ok ()) :
    ∀ b ∈ encode s, isSegmentByte b = true := by
  unfold validateSegment at h
  split at h
  · cases h
  · next first rest hbytes =>
      rw [hbytes]
      split at h
      · cases h
      · split at h
        · cases h
        · next hfirst =>
            split at h
            · cases h
            · next hrest =>
                simp only [Bool.not_eq_true', Bool.not_eq_false] at hfirst hrest
                refine List.forall_mem_cons.2 ⟨by simp [isSegmentByte, hfirst], ?_⟩
                exact List.all_eq_true.1 hrest

theorem validateSegments_bytes {i : Nat} {segments : List Text}
    (h : validateSegments i segments = .ok ()) :
    ∀ s ∈ segments, ∀ b ∈ encode s, isSegmentByte b = true := by
  induction segments generalizing i with
  | nil => simp
  | cons s segments ih =>
      unfold validateSegments at h
      split at h
      · cases h
      · next hs => exact List.forall_mem_cons.2 ⟨validateSegment_bytes hs, ih h⟩

/-- A byte of a slug: of a segment, or the slash. -/
def isSlugByte (b : UInt8) : Bool := isSegmentByte b || b = 47

theorem encode_flatMap_slash (segments : List Text) (b : UInt8)
    (h : b ∈ encode (segments.flatMap ('/' :: ·))) :
    b = 47 ∨ ∃ s ∈ segments, b ∈ encode s := by
  induction segments with
  | nil => simp [encode] at h
  | cons s segments ih =>
      rw [List.flatMap_cons, encode_append, List.mem_append] at h
      rcases h with h | h
      · rw [encode_cons, List.mem_append] at h
        rcases h with h | h
        · exact Or.inl (List.mem_singleton.1 h)
        · exact Or.inr ⟨s, List.mem_cons_self, h⟩
      · rcases ih h with hslash | ⟨t, ht, hb⟩
        · exact Or.inl hslash
        · exact Or.inr ⟨t, List.mem_cons_of_mem s ht, hb⟩

theorem validateSlug_bytes {slug : Text} (h : validateSlug slug = .ok ()) :
    ∀ b ∈ encode slug, isSlugByte b = true := by
  unfold validateSlug at h
  split at h
  · next hcore =>
      subst hcore
      decide +kernel
  · split at h
    · cases h
    · split at h
      · cases h
      · next hprefix =>
          dsimp only at h
          split at h
          · cases h
          · have hpre : memPrefix <+: slug := by simpa using hprefix
            obtain ⟨rest, rfl⟩ := hpre
            rw [List.drop_left] at h
            obtain ⟨s, segments, hfields, hjoin, -⟩ := exists_fields '/' rest
            rw [hfields] at h
            have hsegments := validateSegments_bytes h
            intro b hb
            rw [encode_append, hjoin, encode_append, List.mem_append, List.mem_append] at hb
            rcases hb with hmem | hfirst | hrest
            · have hall : ∀ b ∈ encode memPrefix, isSlugByte b = true := by decide +kernel
              exact hall b hmem
            · simp [isSlugByte, hsegments s List.mem_cons_self b hfirst]
            · rcases encode_flatMap_slash segments b hrest with rfl | ⟨t, ht, hbt⟩
              · decide
              · simp [isSlugByte, hsegments t (List.mem_cons_of_mem s ht) b hbt]

end Engram
end Core
end Maju
