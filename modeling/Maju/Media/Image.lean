import Maju.Media.Jpeg
import Maju.Media.Png
import Maju.Media.Webp
import Maju.Media.Gif

/-!
# Image — pictures that hold nothing but what is drawn

Four walks let a picture pass if it is made of structures that are needed to draw it.

* `validateImageMetadataFree` — the walk for a type;
* `ListedFile` — a picture that is made of what the list of its format has;
* `HasUnlistedPiece` — a picture that has something else in it, which its walk does not look at;
* `validateImageMetadataFree_listed_iff` — the first without the second, and no index out of range.
-/

namespace Maju
namespace Media

open Lib

inductive ImageFormat where
  | jpeg
  | png
  | webp
  | gif
  deriving DecidableEq, Repr

def ImageFormat.mime : ImageFormat → String
  | .jpeg => "image/jpeg"
  | .png => "image/png"
  | .webp => "image/webp"
  | .gif => "image/gif"

def validateImageMetadataFree (bytes : Bytes) (mime : String) : Except Halt Unit :=
  match mime with
  | "image/jpeg" => validateJpegMetadataFree bytes
  | "image/png" => validatePngMetadataFree bytes
  | "image/webp" => validateWebpMetadataFree bytes
  | "image/gif" => validateGifMetadataFree bytes
  | _ => .ok ()

def ImageFormat.walk : ImageFormat → Bytes → Except Halt Unit
  | .jpeg => validateJpegMetadataFree
  | .png => validatePngMetadataFree
  | .webp => validateWebpMetadataFree
  | .gif => validateGifMetadataFree

@[simp] theorem validateImageMetadataFree_mime (bytes : Bytes) (format : ImageFormat) :
    validateImageMetadataFree bytes format.mime = format.walk bytes := by
  cases format <;> rfl

/-- All of the file is made of what the list of its format has, up to the end marker. -/
def ListedFile (bytes : Bytes) : ImageFormat → Prop
  | .jpeg => ∃ items, JpegFile JpegItem.Listed bytes items
  | .png => ∃ chunks, PngFile PngChunk.Listed bytes chunks
  | .webp => ∃ chunks, WebpFile bytes chunks
  | .gif => ∃ blocks, GifFile bytes blocks

/-- Among listed pieces there is a JPEG segment with a marker, or a critical PNG chunk with a name,
that no list has. -/
def HasUnlistedPiece (bytes : Bytes) : ImageFormat → Prop
  | .jpeg =>
      ∃ items, JpegFile (fun inScan item => item.Listed inScan ∨ item.Free inScan) bytes items ∧
        ∃ item ∈ items, ¬ item.Known
  | .png =>
      ∃ chunks, PngFile (fun sawSnapshot c => c.Listed sawSnapshot ∨ c.Free) bytes chunks ∧
        ∃ c ∈ chunks, ¬ c.Known
  | .webp => False
  | .gif => False

theorem walk_ne_outOfRange (format : ImageFormat) (bytes : Bytes) :
    format.walk bytes ≠ .error .outOfRange := by
  cases format with
  | jpeg => exact validateJpegMetadataFree_ne_outOfRange bytes
  | png => exact validatePngMetadataFree_ne_outOfRange bytes
  | webp => exact validateWebpMetadataFree_ne_outOfRange bytes
  | gif => exact validateGifMetadataFree_ne_outOfRange bytes

theorem listedFile_of_walk_iff (format : ImageFormat) (file : File) :
    (format.walk file.1 = .ok () → ListedFile file.1 format) ↔
      ¬ HasUnlistedPiece file.1 format := by
  cases format with
  | jpeg =>
      have hpasses : (fun inScan (item : JpegItem) => item.Listed inScan ∨ item.Free inScan) =
          fun inScan item => item.Passes inScan :=
        funext fun _ => funext fun _ => propext JpegItem.passes_iff.symm
      rw [HasUnlistedPiece, hpasses]
      exact listed_iff_of_unique (validateJpegMetadataFree_ok_iff file) jpegFile_listed_iff
        fun _ _ => jpegFile_unique
  | png =>
      have hpasses : (fun sawSnapshot (c : PngChunk) => c.Listed sawSnapshot ∨ c.Free) =
          fun sawSnapshot c => c.Passes sawSnapshot :=
        funext fun _ => funext fun _ => propext PngChunk.passes_iff.symm
      rw [HasUnlistedPiece, hpasses]
      exact listed_iff_of_unique (validatePngMetadataFree_ok_iff file) pngFile_listed_iff
        fun _ _ => pngFile_unique
  | webp => exact ⟨fun _ => id, fun _ => webpFile_of_ok⟩
  | gif => exact ⟨fun _ => id, fun _ => gifFile_of_ok⟩

/-- A walk reads nothing outside of the file and accepts nothing but what is listed, exactly where
the file has no segment or chunk that no list has. -/
theorem validateImageMetadataFree_listed_iff (format : ImageFormat) (file : File) :
    (validateImageMetadataFree file.1 format.mime ≠ .error .outOfRange ∧
      (validateImageMetadataFree file.1 format.mime = .ok () → ListedFile file.1 format)) ↔
      ¬ HasUnlistedPiece file.1 format := by
  rw [validateImageMetadataFree_mime, and_iff_right (walk_ne_outOfRange format file.1)]
  exact listedFile_of_walk_iff format file

/-! ## A picture with a reserved segment -/

namespace Toy

/-- Between the start and the end of the image, a segment `0xf0` with one byte. -/
def hidden : File := ⟨[0xff, 0xd8, 0xff, 0xf0, 0x00, 0x03, 0x41, 0xff, 0xd9], by decide⟩

theorem jpegFile_hidden : JpegFile JpegItem.Passes hidden.1 [.segment 0 0xf0 [0x41]] := by
  have hfree : IsFreeMarker false 0xf0 := Or.inr (Or.inr (Or.inr (by decide)))
  exact ⟨⟨JpegItem.passes_iff.2 (Or.inr ⟨hfree, by decide⟩), trivial⟩, 0, rfl⟩

end Toy

/-- A segment with a reserved marker is let pass, whatever is in it. -/
theorem reserved_segment_accepted :
    ¬ ∀ (format : ImageFormat) (file : File),
      validateImageMetadataFree file.1 format.mime ≠ .error .outOfRange ∧
        (validateImageMetadataFree file.1 format.mime = .ok () → ListedFile file.1 format) := by
  intro h
  have haccepted : validateImageMetadataFree Toy.hidden.1 ImageFormat.jpeg.mime = .ok () :=
    (validateJpegMetadataFree_ok_iff Toy.hidden).2 ⟨_, Toy.jpegFile_hidden⟩
  obtain ⟨items, hlisted⟩ := (h .jpeg Toy.hidden).2 haccepted
  obtain ⟨hpasses, hknown⟩ := (jpegFile_listed_iff items).1 hlisted
  obtain rfl := jpegFile_unique hpasses Toy.jpegFile_hidden
  have hmem : (0xf0 : UInt8) ∈ jpegSegments := hknown _ List.mem_cons_self
  exact absurd hmem (by decide)

end Media
end Maju
