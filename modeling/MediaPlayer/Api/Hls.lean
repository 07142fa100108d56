import MediaPlayer.Library.Lines
import MediaPlayer.Library.Regex
import Mathlib.Tactic.IntervalCases

/-!
# The paths the API serves a ladder under

`_HLS_PATH` and `safe_hls_path` of `app/api/hls.py`.

* `rmatch_hlsPath` — the two shapes of a path: a file of the ladder, in at most one folder
  `v0`, `v1`, ..., or a file of a rendition, in a folder for its kind and one for its height.
-/

namespace MediaPlayer
namespace Api

open Library RegularExpression

def digitChars : List Char := "0123456789".toList

def nameChars : List Char :=
  "ABCDEFGHIJKLMNOPQRSTUVWXYZabcdefghijklmnopqrstuvwxyz0123456789_-".toList

/-- `(?:v[0-9]{1,2}/)?[A-Za-z0-9_-]+\.(?:m3u8|ts)`. -/
def ladderPath : RegularExpression Char :=
  optional (literal "v" * between 1 2 (oneOf digitChars) * literal "/") *
    oneOrMore (oneOf nameChars) * literal "." * (literal "m3u8" + literal "ts")

/-- `(?:hdr|av1)/[0-9]{3,4}/(?:index\.m3u8|init\.mp4|seg[0-9]{1,6}\.m4s)`. -/
def renditionPath : RegularExpression Char :=
  (literal "hdr" + literal "av1") * literal "/" * between 3 4 (oneOf digitChars) * literal "/" *
    (literal "index.m3u8" + literal "init.mp4" +
      literal "seg" * between 1 6 (oneOf digitChars) * literal ".m4s")

/-- `_HLS_PATH`. -/
def hlsPath : RegularExpression Char := ladderPath + renditionPath

/-- `safe_hls_path`; `none` is answered 404. -/
def safeHlsPath (path : String) : Option String :=
  if hlsPath.rmatch path.toList then some path else none

/-- The folder of a rung and its audio, or none. -/
def LadderFolder (folder : List Char) : Prop :=
  folder = [] ∨ ∃ digits, folder = 'v' :: (digits ++ ['/']) ∧ 1 ≤ digits.length ∧
    digits.length ≤ 2 ∧ ∀ c ∈ digits, c ∈ digitChars

/-- The name of a rendition's file. -/
def RenditionName (name : List Char) : Prop :=
  name = "index.m3u8".toList ∨ name = "init.mp4".toList ∨
    ∃ digits, name = "seg".toList ++ digits ++ ".m4s".toList ∧ 1 ≤ digits.length ∧
      digits.length ≤ 6 ∧ ∀ c ∈ digits, c ∈ digitChars

theorem rmatch_ladderPath {text : List Char} : ladderPath.rmatch text = true ↔
    ∃ folder name ending, text = folder ++ (name ++ '.' :: ending) ∧ LadderFolder folder ∧
      (name ≠ [] ∧ ∀ c ∈ name, c ∈ nameChars) ∧
      (ending = "m3u8".toList ∨ ending = "ts".toList) := by
  simp only [ladderPath, mul_rmatch_iff, add_rmatch_iff, rmatch_literal, rmatch_optional,
    rmatch_oneOrMore_oneOf, rmatch_between_oneOf (by decide : 1 ≤ 2)]
  constructor
  · rintro ⟨_, ending, rfl, ⟨_, _, rfl, ⟨folder, name, rfl, hfolder, hname⟩, rfl⟩, hending⟩
    refine ⟨folder, name, ending, by simp, ?_, hname, hending⟩
    refine hfolder.imp_right ?_
    rintro ⟨_, _, rfl, ⟨_, digits, rfl, rfl, hleast, hmost, hdigits⟩, rfl⟩
    exact ⟨digits, by simp, hleast, hmost, hdigits⟩
  · rintro ⟨folder, name, ending, rfl, hfolder, hname, hending⟩
    refine ⟨folder ++ name ++ ".".toList, ending, by simp,
      ⟨folder ++ name, _, rfl, ⟨folder, name, rfl, hfolder.imp_right ?_, hname⟩, rfl⟩, hending⟩
    rintro ⟨digits, rfl, hleast, hmost, hdigits⟩
    exact ⟨"v".toList ++ digits, _, by simp, ⟨_, digits, rfl, rfl, hleast, hmost, hdigits⟩, rfl⟩

theorem rmatch_renditionPath {text : List Char} : renditionPath.rmatch text = true ↔
    ∃ kind height name, text = kind ++ '/' :: (height ++ '/' :: name) ∧
      (kind = "hdr".toList ∨ kind = "av1".toList) ∧
      (3 ≤ height.length ∧ height.length ≤ 4 ∧ ∀ c ∈ height, c ∈ digitChars) ∧
      RenditionName name := by
  simp only [renditionPath, mul_rmatch_iff, add_rmatch_iff, rmatch_literal,
    rmatch_between_oneOf (by decide : 3 ≤ 4), rmatch_between_oneOf (by decide : 1 ≤ 6)]
  constructor
  · rintro ⟨_, name, rfl, ⟨_, _, rfl, ⟨_, height, rfl, ⟨kind, _, rfl, hkind, rfl⟩, hheight⟩, rfl⟩,
      hname⟩
    refine ⟨kind, height, name, by simp, hkind, hheight, ?_⟩
    rcases hname with (hindex | hinit) | ⟨_, _, rfl, ⟨_, digits, rfl, rfl, hdigits⟩, rfl⟩
    · exact Or.inl hindex
    · exact Or.inr (Or.inl hinit)
    · exact Or.inr (Or.inr ⟨digits, rfl, hdigits⟩)
  · rintro ⟨kind, height, name, rfl, hkind, hheight, hname⟩
    refine ⟨kind ++ "/".toList ++ height ++ "/".toList, name, by simp,
      ⟨_, _, rfl, ⟨_, height, rfl, ⟨kind, _, rfl, hkind, rfl⟩, hheight⟩, rfl⟩, ?_⟩
    rcases hname with hindex | hinit | ⟨digits, rfl, hdigits⟩
    · exact Or.inl (Or.inl hindex)
    · exact Or.inl (Or.inr hinit)
    · exact Or.inr ⟨_, _, rfl, ⟨_, digits, rfl, rfl, hdigits⟩, rfl⟩

theorem safeHlsPath_iff {path : String} : safeHlsPath path = some path ↔
    ladderPath.rmatch path.toList = true ∨ renditionPath.rmatch path.toList = true := by
  unfold safeHlsPath hlsPath
  rw [← add_rmatch_iff]
  split_ifs with hmatch <;> simp [hmatch]

/-! ## Numbers in a path -/

theorem mem_digitChars {c : Char} (hc : c.isDigit = true) : c ∈ digitChars := by
  have hrange : 48 ≤ c.toNat ∧ c.toNat ≤ 57 := by
    simpa [Char.isDigit, UInt32.le_iff_toNat_le] using hc
  have hself : c = Char.ofNat c.toNat := (Char.ofNat_toNat c).symm
  generalize c.toNat = n at hrange hself
  obtain ⟨hleast, hmost⟩ := hrange
  subst hself
  interval_cases n <;> decide

theorem toDigits_mem_digitChars (n : ℕ) : ∀ c ∈ Nat.toDigits 10 n, c ∈ digitChars := fun _ hc =>
  mem_digitChars (Nat.isDigit_of_mem_toDigits (b := 10) (by decide) (by decide) hc)

theorem zeroPad_mem_digitChars (width n : ℕ) : ∀ c ∈ (zeroPad width n).toList, c ∈ digitChars := by
  intro c hc
  simp only [zeroPad, String.toList_ofList, List.leftpad, List.mem_append] at hc
  rcases hc with hzero | hdigit
  · rw [List.eq_of_mem_replicate hzero]
    decide
  · exact toDigits_mem_digitChars n c hdigit

/-- A number of a length has this many digits. -/
theorem length_toDigits_le {n k : ℕ} (hk : 0 < k) (hn : n < 10 ^ k) :
    (Nat.toDigits 10 n).length ≤ k :=
  (Nat.length_toDigits_le_iff (by decide) hk).mpr hn

end Api
end MediaPlayer
