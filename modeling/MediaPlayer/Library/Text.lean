import Mathlib.Algebra.Order.Floor.Defs
import Mathlib.Data.List.DropRight
import Mathlib.Data.List.Infix
import Mathlib.Data.Rat.Floor

/-!
# Text

Python's string methods, as far as programs use them, over the characters of a text.

* `strip`, `rstrip` — stripping leaves something exactly when there is a character that is
  not white space.
* `startsWith`, `endsWith`.
* `beforeFirst` — the first half of a `split` at one separator.
* `searchQuoted`, `searchNumber` — `re.search` for a value after a key.
* `zeroPad`, `roundHalfEven`; `eq_of_repr` — a printed number tells the number.
* `beforeLast` — the first half of an `rsplit` at one separator; of a path, its folder.
-/

namespace MediaPlayer
namespace Library

/-- The characters `str.strip` removes: those for which `str.isspace` holds. -/
def isSpace (c : Char) : Bool :=
  let n := c.toNat
  (9 ≤ n && n ≤ 13) || (28 ≤ n && n ≤ 32) || n == 0x85 || n == 0xA0 || n == 0x1680 ||
    (0x2000 ≤ n && n ≤ 0x200A) || n == 0x2028 || n == 0x2029 || n == 0x202F || n == 0x205F ||
    n == 0x3000

/-- `text.strip()`. -/
def strip (text : String) : String :=
  String.ofList ((text.toList.dropWhile isSpace).rdropWhile isSpace)

/-- `text.rstrip()`. -/
def rstrip (text : String) : String := String.ofList (text.toList.rdropWhile isSpace)

/-- `text.startswith(start)`. -/
def startsWith (text start : String) : Bool := start.toList.isPrefixOf text.toList

/-- `text.endswith(ending)`. -/
def endsWith (text ending : String) : Bool := ending.toList.isSuffixOf text.toList

/-- `text.rsplit(separator, 1)[0]`. -/
def beforeLast (separator : Char) (text : String) : String :=
  if separator ∈ text.toList then
    String.ofList (text.toList.rdropWhile (· != separator)).dropLast
  else text

/-- `text.split(separator, 1)[0]`. -/
def beforeFirst (separator : Char) (text : String) : String :=
  String.ofList (text.toList.takeWhile (· != separator))

/-- The group of `re.search('key([^"]+)"', text)`, for a key that ends in a quote. -/
def searchQuoted (key : List Char) : List Char → Option (List Char)
  | [] => none
  | c :: rest =>
      let after := (c :: rest).drop key.length
      let group := after.takeWhile (· != '"')
      if key.isPrefixOf (c :: rest) && !group.isEmpty && (after.drop group.length).head? == some '"'
      then some group
      else searchQuoted key rest

/-- The group of `re.search('key([0-9.]+)', text)`. -/
def searchNumber (key : List Char) : List Char → Option (List Char)
  | [] => none
  | c :: rest =>
      let group := ((c :: rest).drop key.length).takeWhile fun c => c.isDigit || c == '.'
      if key.isPrefixOf (c :: rest) && !group.isEmpty then some group else searchNumber key rest

/-- `f"{n:0{width}d}"`. -/
def zeroPad (width n : ℕ) : String := String.ofList ((Nat.toDigits 10 n).leftpad width '0')

/-- `round(x)`: a half goes to the even neighbour. -/
def roundHalfEven (x : ℚ) : ℤ :=
  let below := ⌊x⌋
  if x - below < 1 / 2 then below
  else if 1 / 2 < x - below then below + 1
  else if below % 2 = 0 then below else below + 1

@[simp] theorem startsWith_append (start rest : String) :
    startsWith (start ++ rest) start = true := by
  simp [startsWith]

/-- No match of a key begins in a text, whatever follows it. -/
def Skips (key text : List Char) : Prop :=
  ∀ rest ∈ text.tails, rest ≠ [] → ¬rest.take key.length <+: key

instance (key text : List Char) : Decidable (Skips key text) :=
  inferInstanceAs (Decidable (∀ rest ∈ text.tails, rest ≠ [] → ¬rest.take key.length <+: key))

theorem Skips.of_head {first : Char} {key text : List Char} (htext : first ∉ text) :
    Skips (first :: key) text := by
  intro rest hrest hne hstarts
  cases rest with
  | nil => exact hne rfl
  | cons c rest =>
      have hmem : c ∈ text := ((List.mem_tails _ _).mp hrest).subset (List.mem_cons_self ..)
      rw [List.length_cons, List.take_succ_cons, List.cons_prefix_cons] at hstarts
      exact htext (hstarts.1 ▸ hmem)

theorem searchQuoted_append {key text : List Char} (hskips : Skips key text) (rest : List Char) :
    searchQuoted key (text ++ rest) = searchQuoted key rest := by
  induction text with
  | nil => rfl
  | cons c text ih =>
      have htail : Skips key text := fun tail htail =>
        hskips tail ((List.mem_tails _ _).mpr
          (((List.mem_tails _ _).mp htail).trans (List.suffix_cons ..)))
      have hmiss : key.isPrefixOf (c :: (text ++ rest)) = false := by
        refine (Bool.not_eq_true _).mp fun hhit => ?_
        have hstarts : key <+: (c :: text) ++ rest := List.isPrefixOf_iff_prefix.mp hhit
        refine hskips (c :: text) ((List.mem_tails _ _).mpr List.suffix_rfl) (by simp) ?_
        refine List.prefix_of_prefix_length_le ?_ hstarts (List.length_take_le ..)
        exact (List.take_prefix ..).trans (List.prefix_append ..)
      rw [List.cons_append, searchQuoted, hmiss]
      simpa using ih htail

/-- The group is what stands between the key and the next quote. -/
theorem searchQuoted_hit {key group rest : List Char} (hkey : key ≠ []) (hgroup : group ≠ [])
    (hquote : '"' ∉ group) : searchQuoted key (key ++ (group ++ '"' :: rest)) = some group := by
  have htake : (group ++ '"' :: rest).takeWhile (· != '"') = group := by
    rw [List.takeWhile_append_of_pos fun c hc => by
      simpa using fun heq : c = '"' => hquote (heq ▸ hc)]
    simp
  cases key with
  | nil => exact absurd rfl hkey
  | cons c key =>
      have hdrop : ((c :: key) ++ (group ++ '"' :: rest)).drop (c :: key).length =
          group ++ '"' :: rest := List.drop_left ..
      have hstarts : (c :: key).isPrefixOf ((c :: key) ++ (group ++ '"' :: rest)) = true :=
        List.isPrefixOf_iff_prefix.mpr (List.prefix_append ..)
      rw [List.cons_append] at hdrop hstarts ⊢
      rw [searchQuoted]
      simp only [hdrop, htake, hstarts]
      simp [hgroup]

/-- A printed number is digits. -/
theorem not_mem_repr {c : Char} (hc : c.isDigit = false) (n : ℕ) : c ∉ n.repr.toList := by
  intro hmem
  rw [Nat.toList_repr] at hmem
  rw [Nat.isDigit_of_mem_toDigits (b := 10) (by decide) (by decide) hmem] at hc
  exact absurd hc (by simp)

theorem toString_negSucc (n : ℕ) : toString (Int.negSucc n) = "-" ++ (n + 1).repr := rfl

/-- A printed integer is digits, behind a sign if it is negative. -/
theorem not_mem_toString_int {c : Char} (hdigit : c.isDigit = false) (hminus : c ≠ '-') (n : ℤ) :
    c ∉ (toString n).toList := by
  cases n with
  | ofNat n => exact not_mem_repr hdigit n
  | negSucc n =>
      rw [toString_negSucc, String.toList_append, List.mem_append, not_or]
      exact ⟨by simpa using hminus, not_mem_repr hdigit _⟩

/-- It tells the number. -/
theorem eq_of_repr {m n : ℕ} (heq : m.repr.toList = n.repr.toList) : m = n := by
  rw [Nat.toList_repr, Nat.toList_repr] at heq
  have hvalue := congrArg (fun digits => Nat.ofDigitChars 10 digits 0) heq
  simpa only [Nat.ofDigitChars_ten_toDigits] using hvalue

/-- The folder of a path is what stands before its name. -/
theorem beforeLast_append {separator : Char} {folder name : String}
    (hname : separator ∉ name.toList) :
    beforeLast separator (folder ++ String.singleton separator ++ name) = folder := by
  have hrest : ∀ c ∈ name.toList.reverse, (c != separator) = true := by
    intro c hc
    have hmem := List.mem_reverse.mp hc
    simpa using fun heq : c = separator => hname (heq ▸ hmem)
  unfold beforeLast
  rw [if_pos (by simp)]
  simp [List.rdropWhile, List.dropWhile_append_of_pos hrest]

/-- What is left of a text at its right end is not white space. -/
theorem exists_not_isSpace_of_strip {text : String} (htext : strip text ≠ "") :
    ∃ c ∈ (strip text).toList, isSpace c = false := by
  unfold strip at htext ⊢
  rw [String.toList_ofList]
  have hne : (text.toList.dropWhile isSpace).rdropWhile isSpace ≠ [] := by
    intro hnil
    rw [hnil] at htext
    exact htext rfl
  refine ⟨_, List.getLast_mem hne, ?_⟩
  simpa using List.rdropWhile_last_not isSpace _ hne

/-- Nothing strips a text with such a character to nothing. -/
theorem strip_ne_of_mem {text : String} {c : Char} (hc : c ∈ text.toList)
    (hspace : isSpace c = false) : strip text ≠ "" := by
  intro hnil
  have hchars : (text.toList.dropWhile isSpace).rdropWhile isSpace = [] := by
    have := congrArg String.toList hnil
    simpa [strip] using this
  have hrest : text.toList.dropWhile isSpace = [] := by
    rw [List.rdropWhile_eq_nil_iff] at hchars
    cases hdrop : text.toList.dropWhile isSpace with
    | nil => rfl
    | cons first rest =>
        have hfirst : isSpace first = true := hchars first (by simp [hdrop])
        have hhead := List.head_dropWhile_not isSpace (l := text.toList) (by simp [hdrop])
        simp [hdrop, hfirst] at hhead
  have hall := List.dropWhile_eq_nil_iff.mp hrest c hc
  rw [hspace] at hall
  exact absurd hall (by simp)

/-- So text that is not blank when stripped is not blank when stripped again. -/
theorem strip_strip_ne {text : String} (htext : strip text ≠ "") : strip (strip text) ≠ "" := by
  obtain ⟨c, hc, hspace⟩ := exists_not_isSpace_of_strip htext
  exact strip_ne_of_mem hc hspace

end Library
end MediaPlayer
