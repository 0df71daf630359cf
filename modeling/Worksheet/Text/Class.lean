import Worksheet.Text.Ranges

/-!
# Character classes and letter case

The classes in which the worksheet notation is written: word characters, decimal digits and blanks
are those of Unicode, identifiers and format widths are ASCII. Also the case-insensitive match of a
keyword, and trimming.
-/

namespace Worksheet.Text

/-- An ASCII decimal digit. -/
def isDigit (c : Char) : Bool := '0' ≤ c && c ≤ '9'

/-- An ASCII letter. -/
def isLetter (c : Char) : Bool := ('a' ≤ c && c ≤ 'z') || ('A' ≤ c && c ≤ 'Z')

/-- A character that may begin a name in an expression. -/
def isNameStart (c : Char) : Bool := isLetter c || c == '_'

/-- A character that may stand inside a name. -/
def isNameChar (c : Char) : Bool := isLetter c || isDigit c || c == '_'

/-- A name that a worksheet may give: a letter, then letters, digits and underscores, all ASCII. -/
def isIdentifier (s : List Char) : Bool :=
  match s with
  | [] => false
  | c :: r => isLetter c && r.all isNameChar

/-- A character of a word in the sense of Unicode. -/
def isWordChar (c : Char) : Bool :=
  if c.toNat < 0x80 then isNameChar c else inRanges wordRanges c.toNat

/-- A decimal digit of any script. -/
def isDecimal (c : Char) : Bool :=
  if c.toNat < 0x80 then isDigit c else inRanges digitRanges c.toNat

/-- White space in the sense of Unicode. -/
def isBlank (c : Char) : Bool :=
  let n := c.toNat
  (9 ≤ n && n ≤ 13) || n == 0x20 || n == 0x85 || n == 0xA0 || n == 0x1680 ||
    (0x2000 ≤ n && n ≤ 0x200A) || n == 0x2028 || n == 0x2029 || n == 0x202F || n == 0x205F ||
    n == 0x3000

theorem isBlank_of_isWhitespace {c : Char} (h : c.isWhitespace = true) : isBlank c = true := by
  simp only [Char.isWhitespace, Bool.or_eq_true, decide_eq_true_eq] at h
  rcases h with ((rfl | rfl) | rfl) | rfl <;> decide

/-! ## Trimming -/

/-- Without the blanks in front. -/
def trimStart (s : List Char) : List Char := s.dropWhile isBlank

/-- Without the blanks at the end. -/
def trimEnd (s : List Char) : List Char := (s.reverse.dropWhile isBlank).reverse

/-- Without the blanks at both ends. -/
def trim (s : List Char) : List Char := trimEnd (trimStart s)

/-- `trim` on a string. -/
def trimmed (s : String) : String := String.ofList (trim s.toList)

/-! ## Letter case -/

/-- An ASCII letter in lower case; any other character is itself. -/
def lower (c : Char) : Char := if 'A' ≤ c && c ≤ 'Z' then Char.ofNat (c.toNat + 32) else c

/-- An ASCII letter in upper case; any other character is itself. -/
def upper (c : Char) : Char := if 'a' ≤ c && c ≤ 'z' then Char.ofNat (c.toNat - 32) else c

/--
Does `c` match the lower-case ASCII letter `k` when case is ignored? Besides the two cases of the
letter itself, the long s folds to `s` and the Kelvin sign to `k`.
-/
def matchesLetter (k c : Char) : Bool :=
  lower c == k || (k == 's' && c == '\u017F') || (k == 'k' && c == '\u212A')

/-- The text after the keyword `word`, if `s` begins with it in any letter case. -/
def stripKeyword? (word s : List Char) : Option (List Char) :=
  match word, s with
  | [], s => some s
  | _ :: _, [] => none
  | k :: word, c :: s => if matchesLetter k c then stripKeyword? word s else none

/-- The text after `lead`, if `s` begins with it. -/
def strip? (lead s : List Char) : Option (List Char) :=
  match lead, s with
  | [], s => some s
  | _ :: _, [] => none
  | k :: lead, c :: s => if k == c then strip? lead s else none

theorem strip?_eq_some_iff {lead s rest : List Char} :
    strip? lead s = some rest ↔ s = lead ++ rest := by
  induction lead generalizing s with
  | nil => simp [strip?]
  | cons k lead ih =>
    cases s with
    | nil => simp [strip?]
    | cons c s =>
      by_cases h : k = c
      · subst h; simp [strip?, ih]
      · simp [strip?, h, Ne.symm h]

/-- Is there an edge of a word between the character before and the text that follows? -/
def wordEdge (before : Option Char) (s : List Char) : Bool :=
  (match before with | some c => isWordChar c | none => false) !=
    (match s with | c :: _ => isWordChar c | [] => false)

end Worksheet.Text
