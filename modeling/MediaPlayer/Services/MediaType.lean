import Mathlib.Data.List.Infix

/-!
# What an uploaded file is

`app/services/media_type.py`: the media type the first bytes of a file show, or `none`
for what is not a video container.
-/

namespace MediaPlayer
namespace Services

/-- A bytes literal of ASCII text. -/
def ascii (text : String) : List UInt8 := text.toList.map fun c => UInt8.ofNat c.toNat

/-- `SNIFF_LENGTH`. -/
def sniffLength : ℕ := 4096

/-- `_EBML_MAGIC`. -/
def ebmlMagic : List UInt8 := [0x1a, 0x45, 0xdf, 0xa3]

/-- `_EBML_DOCTYPE_WINDOW`. -/
def ebmlDoctypeWindow : ℕ := 256

/-- `_ISO_BMFF_LEGACY_BOXES`. -/
def isoBmffLegacyBoxes : List (List UInt8) :=
  ["moov", "mdat", "free", "skip", "wide", "pnot"].map ascii

/-- `_QUICKTIME_BRANDS`. -/
def quicktimeBrands : List (List UInt8) := ["qt  "].map ascii

/-- `_MPEG_START_CODES`. -/
def mpegStartCodes : List (List UInt8) := [[0x00, 0x00, 0x01, 0xba], [0x00, 0x00, 0x01, 0xb3]]

/-- `_TS_SYNC_BYTE`. -/
def tsSyncByte : UInt8 := 0x47

/-- `_TS_PACKET_OFFSETS`. -/
def tsPacketOffsets : List ℕ := [0, 188, 376]

/-- `_looks_like_mpeg_ts`. -/
def looksLikeMpegTs (head : List UInt8) : Bool :=
  if head.length ≤ 376 then false
  else tsPacketOffsets.all fun offset => head[offset]? = some tsSyncByte

/-- `head[start:stop]`. -/
def slice (head : List UInt8) (start stop : ℕ) : List UInt8 := (head.take stop).drop start

/-- `sniff_video_type`. -/
def sniffVideoType (head : List UInt8) : Option String :=
  if head.length < 12 then none
  else if slice head 0 4 = ebmlMagic then
    let window := slice head 0 ebmlDoctypeWindow
    if ascii "webm" <:+: window then some "video/webm"
    else if ascii "matroska" <:+: window then some "video/x-matroska"
    -- EBML is a generic container; without a DocType it is not claimed to be video.
    else none
  else if slice head 0 4 = ascii "RIFF" ∧ slice head 8 12 = ascii "AVI " then
    some "video/x-msvideo"
  else
    let box := slice head 4 8
    if box = ascii "ftyp" then
      some (if slice head 8 12 ∈ quicktimeBrands then "video/quicktime" else "video/mp4")
    else if box ∈ isoBmffLegacyBoxes then some "video/quicktime"
    else if slice head 0 4 ∈ mpegStartCodes then some "video/mpeg"
    else if looksLikeMpegTs head then some "video/mpeg"
    else none

/-- The bytes of an object show a container the uploads accept. -/
def RecognizedVideo (bytes : List UInt8) : Prop := sniffVideoType (bytes.take sniffLength) ≠ none

instance (bytes : List UInt8) : Decidable (RecognizedVideo bytes) :=
  inferInstanceAs (Decidable (sniffVideoType (bytes.take sniffLength) ≠ none))

example : sniffVideoType ([0, 0, 0, 0x18] ++ ascii "ftypisom") = some "video/mp4" := by decide

end Services
end MediaPlayer
