import JeryuForge.Library.Blocks

/-!
# Text

The string operations the source's checks are written with, over the characters of
a text.
-/

namespace JeryuForge.Text

def splitOnce (text : String) (separator : Char) : Option (String × String) :=
  let chars := text.toList
  if separator ∈ chars then
    some
      (String.ofList (chars.takeWhile fun char => char ≠ separator),
        String.ofList ((chars.dropWhile fun char => char ≠ separator).drop 1))
  else
    none

def rsplitOnce (text : String) (separator : Char) : Option (String × String) :=
  let chars := text.toList.reverse
  if separator ∈ chars then
    some
      (String.ofList ((chars.dropWhile fun char => char ≠ separator).drop 1).reverse,
        String.ofList (chars.takeWhile fun char => char ≠ separator).reverse)
  else
    none

def isAsciiHexdigit (char : Char) : Bool :=
  char.isDigit || ('a' ≤ char && char ≤ 'f') || ('A' ≤ char && char ≤ 'F')

/-- `char::is_whitespace`: the characters with the Unicode property White_Space. -/
def isWhitespace (char : Char) : Bool :=
  let code := char.toNat
  (9 ≤ code && code ≤ 13) || code == 0x20 || code == 0x85 || code == 0xA0 ||
    code == 0x1680 || (0x2000 ≤ code && code ≤ 0x200A) || code == 0x2028 ||
    code == 0x2029 || code == 0x202F || code == 0x205F || code == 0x3000

/-- `char::is_control`. -/
def isControl (char : Char) : Bool :=
  char.toNat < 32 || (127 ≤ char.toNat && char.toNat < 160)

/-- `str::trim_matches`, over the characters. -/
def trimMatches (drop : Char → Bool) (text : List Char) : List Char :=
  (text.dropWhile drop).rdropWhile drop

def trim (text : String) : String :=
  String.ofList (trimMatches isWhitespace text.toList)

def trimStartMatches (text : String) (char : Char) : String :=
  String.ofList (text.toList.dropWhile fun first => first = char)

def split (text : String) (separator : Char → Bool) : List String :=
  (text.toList.splitOnP separator).map String.ofList

def nonEmpty (text : Option String) : Option String :=
  (text.map trim).filter fun trimmed => !trimmed.isEmpty

def startsWith (text start : String) : Bool :=
  start.toList.isPrefixOf text.toList

def endsWith (text ending : String) : Bool :=
  ending.toList.isSuffixOf text.toList

def stripSuffix (text ending : String) : Option String :=
  if endsWith text ending then
    some (String.ofList (text.toList.take (text.toList.length - ending.toList.length)))
  else
    none

/-- `str::to_ascii_lowercase`; `Char.toLower` leaves a character outside ASCII alone. -/
def toAsciiLowercase (text : String) : String :=
  String.ofList (text.toList.map Char.toLower)

/-- SQLite's `LIKE`, which does not regard the case of ASCII letters. -/
def likeChars : List Char → List Char → Bool
  | [], text => text.isEmpty
  | wildcard :: pattern, text =>
    if wildcard = '%' then
      text.tails.any fun rest => likeChars pattern rest
    else
      match text with
      | [] => false
      | char :: rest =>
        (wildcard = '_' || wildcard.toLower = char.toLower) && likeChars pattern rest

/-- `text LIKE pattern`. -/
def like (text pattern : String) : Bool :=
  likeChars pattern.toList text.toList

/-- `Vec::sort` of texts. -/
def sort (texts : List String) : List String :=
  texts.insertionSort (· ≤ ·)

def isI64 (value : Int) : Bool :=
  -2 ^ 63 ≤ value && value < 2 ^ 63

def parseI64 (text : String) : Option Int :=
  let (sign, digits) : Int × List Char :=
    match text.toList with
    | '-' :: digits => (-1, digits)
    | '+' :: digits => (1, digits)
    | digits => (1, digits)
  if digits.isEmpty || !digits.all Char.isDigit then none
  else some (sign * (Nat.ofDigitChars 10 digits 0 : Nat)) |>.filter isI64

theorem toDigits_injective : Function.Injective (Nat.toDigits 10) := by
  have hread : Function.LeftInverse (fun text => Nat.ofDigitChars 10 text 0)
      (Nat.toDigits 10) := fun _ => Nat.ofDigitChars_ten_toDigits
  exact hread.injective

theorem toList_toString (number : Nat) : (toString number).toList = Nat.toDigits 10 number := by
  simp [ToString.toString, Nat.repr]

theorem not_mem_toString {char : Char} (hchar : char.isDigit = false) (number : Nat) :
    char ∉ (toString number).toList := by
  rw [toList_toString]
  intro hmem
  rw [Nat.isDigit_of_mem_toDigits (by decide) (by decide) hmem] at hchar
  cases hchar

theorem toString_injective {number second : Nat}
    (hsame : (toString number).toList = (toString second).toList) : number = second := by
  rw [toList_toString, toList_toString] at hsame
  exact toDigits_injective hsame

theorem append_cons_inj {separator : Char} {first second rest more : List Char}
    (hrest : separator ∉ rest) (hmore : separator ∉ more)
    (hsame : first ++ separator :: rest = second ++ separator :: more) :
    first = second ∧ rest = more := by
  rcases List.append_eq_append_cons hsame with ⟨middle, rfl, rfl⟩ | ⟨middle, rfl, hmiddle⟩
  · simp at hmore
  · cases middle with
    | nil => simpa using hmiddle
    | cons head tail =>
      obtain ⟨rfl, rfl⟩ := List.cons.inj hmiddle
      simp at hrest

end JeryuForge.Text
