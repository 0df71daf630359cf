import Worksheet.Calendar.Date
import Worksheet.Number.Word
import Worksheet.Text.Split

/-!
# Configuration files

Reads the TOML format as far as the settings need it: a file must be well formed as a whole, but
only truth values are kept. What looks at one place of a file gives what it has found there and the
text behind, or nothing if the file is not well formed.

Main definition: `Toml.read?`.
-/

namespace Worksheet.Toml

open Text

/-- A value. -/
inductive Value where
  /-- A truth value. -/
  | bool (b : Bool)
  /-- Any other value. -/
  | other
deriving DecidableEq, Repr

/-- How a table came about. -/
inductive Origin where
  /-- By its header. -/
  | header
  /-- By the header of a table inside it. -/
  | inner
  /-- By keys with points. -/
  | dotted
deriving DecidableEq, Repr

/-- What a key stands for. -/
inductive Node where
  /-- A value. -/
  | value (v : Value)
  /-- A table. -/
  | table (origin : Origin) (entries : List (String × Node))
  /-- A list of tables, of which only the last one can grow. -/
  | tables (last : List (String × Node))

/-- The keys of a table. -/
abbrev Entries := List (String × Node)

/-! ## Tables -/

namespace Entries

/-- The entries with another node for a key, at its place or at the end. -/
def put (es : Entries) (key : String) (n : Node) : Entries :=
  if es.any (·.1 == key) then es.map fun e => if e.1 == key then (key, n) else e
  else es ++ [(key, n)]

/-- Changes the table at a path; tables that are not there come about. -/
def changeAt (path : List String) (f : Entries → Option Entries) (es : Entries) : Option Entries :=
  match path with
  | [] => f es
  | key :: path =>
    match es.lookup key with
    | none => (changeAt path f []).map fun inside => es.put key (.table .inner inside)
    | some (.table origin inside) =>
      (changeAt path f inside).map fun inside => es.put key (.table origin inside)
    | some (.tables last) => (changeAt path f last).map fun last => es.put key (.tables last)
    | some (.value _) => none

/-- Gives a key with points a value. The key must be new. -/
def insert (path : List String) (v : Value) (es : Entries) : Option Entries :=
  match path with
  | [] => none
  | [key] => if (es.lookup key).isSome then none else some (es.put key (.value v))
  | key :: path =>
    match es.lookup key with
    | none => (insert path v []).map fun inside => es.put key (.table .dotted inside)
    | some (.table .dotted inside) =>
      (insert path v inside).map fun inside => es.put key (.table .dotted inside)
    | some _ => none

/-- Begins a table by its header. -/
def declare (key : String) (es : Entries) : Option Entries :=
  match es.lookup key with
  | none => some (es.put key (.table .header []))
  | some (.table .inner inside) => some (es.put key (.table .header inside))
  | some _ => none

/-- Begins one more table of a list. -/
def append (key : String) (es : Entries) : Option Entries :=
  match es.lookup key with
  | none | some (.tables _) => some (es.put key (.tables []))
  | some _ => none

end Entries

/-! ## Blanks and comments -/

/-- A character that may stand in a comment or a text. -/
def isPrintable (c : Char) : Bool := c == '\t' || (' ' ≤ c && c != '\x7f')

/-- Without the blanks in front. -/
def skipBlanks (s : List Char) : List Char := s.dropWhile fun c => c == ' ' || c == '\t'

/-- Without a comment, up to the end of the line. -/
def skipComment (s : List Char) : List Char :=
  match s with
  | '#' :: r => r.dropWhile isPrintable
  | s => s

/-- Behind the end of the line; the end of the file ends a line as well. -/
def lineEnd? (s : List Char) : Option (List Char) :=
  match skipComment (skipBlanks s) with
  | [] => some []
  | '\n' :: r | '\r' :: '\n' :: r => some r
  | _ => none

/-- Behind blanks, comments and ends of lines. -/
def skipLines (fuel : Nat) (s : List Char) : List Char :=
  match fuel with
  | 0 => s
  | fuel + 1 =>
    match skipComment (skipBlanks s) with
    | '\n' :: r | '\r' :: '\n' :: r => skipLines fuel r
    | s => s

/-! ## Digits -/

/-- The value of a decimal or hexadecimal digit. -/
def digitOf (c : Char) : Nat :=
  if isDigit c then c.toNat - '0'.toNat else (lower c).toNat - 'a'.toNat + 10

/-- The number that digits and underscores denote in a base. -/
def numeral (base : Nat) (s : List Char) : Nat :=
  (s.filter (· != '_')).foldl (fun n c => base * n + digitOf c) 0

/-- A digit in a base. -/
def isDigitOf (base : Nat) (c : Char) : Bool :=
  if isDigit c then c.toNat - '0'.toNat < base
  else base == 16 && 'a' ≤ lower c && lower c ≤ 'f'

/-! ## Texts -/

/-- The character with a code of hexadecimal digits. -/
def codePoint? (digits : List Char) : Option Char :=
  let n := numeral 16 digits
  if digits.all (isDigitOf 16) && n.isValidChar then some (Char.ofNat n) else none

/-- Behind a backslash: the character that is meant, and the text after it. -/
def escaped? (s : List Char) : Option (Char × List Char) :=
  match s with
  | 'b' :: r => some ('\x08', r)
  | 't' :: r => some ('\t', r)
  | 'n' :: r => some ('\n', r)
  | 'f' :: r => some ('\x0c', r)
  | 'r' :: r => some ('\r', r)
  | '"' :: r => some ('"', r)
  | '\\' :: r => some ('\\', r)
  | 'u' :: r =>
    if r.length < 4 then none else (codePoint? (r.take 4)).map fun c => (c, r.drop 4)
  | 'U' :: r =>
    if r.length < 8 then none else (codePoint? (r.take 8)).map fun c => (c, r.drop 8)
  | _ => none

/-- Behind an opening quote: the text up to the closing one. -/
def quoted? (fuel : Nat) (s : List Char) : Option (List Char × List Char) :=
  match fuel, s with
  | 0, _ | _, [] => none
  | _, '"' :: r => some ([], r)
  | fuel + 1, '\\' :: r => do
    let (c, r) ← escaped? r
    let (text, r) ← quoted? fuel r
    some (c :: text, r)
  | fuel + 1, c :: r =>
    if isPrintable c then (quoted? fuel r).map fun (text, r) => (c :: text, r) else none

/-- Behind an opening apostrophe: the text up to the closing one. -/
def literal? (s : List Char) : Option (List Char × List Char) :=
  match s.dropWhile fun c => isPrintable c && c != '\x27' with
  | '\x27' :: r => some (s.takeWhile fun c => isPrintable c && c != '\x27', r)
  | _ => none

/-- Behind three opening marks: the text after the three closing ones, of which up to two more may
stand in front. A backslash counts only between quotes. -/
def skipLong? (mark : Char) (fuel : Nat) (s : List Char) : Option (List Char) :=
  match fuel with
  | 0 => none
  | fuel + 1 =>
    match s with
    | [] => none
    | c :: r =>
      if c == mark then
        let count := (s.takeWhile (· == mark)).length
        if count < 3 then skipLong? mark fuel (s.drop count) else some (s.drop (min count 5))
      else if c == '\\' && mark == '"' then
        match skipBlanks r with
        | '\n' :: r | '\r' :: '\n' :: r => skipLong? mark fuel r
        | _ => (escaped? r).bind fun p => skipLong? mark fuel p.2
      else
        match s with
        | '\r' :: '\n' :: r => skipLong? mark fuel r
        | _ => if isPrintable c || c == '\n' then skipLong? mark fuel r else none

/-! ## Keys -/

/-- A character of a key without quotes. -/
def isBare (c : Char) : Bool := isNameChar c || c == '-'

/-- One part of a key. -/
def keyPart? (s : List Char) : Option (List Char × List Char) :=
  match s with
  | '"' :: r => quoted? s.length r
  | '\x27' :: r => literal? r
  | s =>
    let name := s.takeWhile isBare
    if name.isEmpty then none else some (name, s.dropWhile isBare)

/-- The parts of a key between points, and the text behind it and the blanks after it. -/
def key? (fuel : Nat) (s : List Char) : Option (List String × List Char) :=
  match fuel with
  | 0 => none
  | fuel + 1 => do
    let (part, r) ← keyPart? (skipBlanks s)
    match skipBlanks r with
    | '.' :: r =>
      let (parts, r) ← key? fuel r
      some (String.ofList part :: parts, r)
    | r => some ([String.ofList part], r)

/-! ## Numbers and times -/

/-- Digits, between which single underscores may stand. -/
def isDigits (isDigit : Char → Bool) (s : List Char) : Bool :=
  (splitAt (· == '_') s).all fun part => !part.isEmpty && part.all isDigit

/-- Without a sign in front. -/
def dropSign (s : List Char) : List Char :=
  match s with
  | '+' :: r | '-' :: r => r
  | s => s

/-- Decimal digits without a leading zero. -/
def isWhole (s : List Char) : Bool :=
  isDigits isDigit s && (s.length == 1 || s.head? != some '0')

/-- An integer that fits in a word. -/
def isInteger (s : List Char) : Bool :=
  let inBase (base : Nat) (r : List Char) : Bool :=
    isDigits (isDigitOf base) r && (word? (numeral base r)).isSome
  match s with
  | '0' :: 'x' :: r => inBase 16 r
  | '0' :: 'o' :: r => inBase 8 r
  | '0' :: 'b' :: r => inBase 2 r
  | _ =>
    let n : Int := numeral 10 (dropSign s)
    isWhole (dropSign s) && (word? (if s.head? == some '-' then -n else n)).isSome

/-- A real. -/
def isReal (s : List Char) : Bool :=
  let s := dropSign s
  let isExponent (c : Char) : Bool := c == 'e' || c == 'E'
  let (mantissa, exponent) :=
    (s.takeWhile fun c => !isExponent c, s.dropWhile fun c => !isExponent c)
  let (whole, fraction) := (mantissa.takeWhile (· != '.'), mantissa.dropWhile (· != '.'))
  s == "inf".toList || s == "nan".toList ||
    (isWhole whole && (fraction.isEmpty || isDigits isDigit (fraction.drop 1)) &&
      (exponent.isEmpty || isDigits isDigit (dropSign (exponent.drop 1))) &&
      !(fraction.isEmpty && exponent.isEmpty))

/-- A date. -/
def isDate (s : List Char) : Bool :=
  match splitAt (· == '-') s with
  | [y, m, d] =>
    y.length == 4 && m.length == 2 && d.length == 2 && (y ++ m ++ d).all isDigit &&
      (Date.ofCivil? (numeral 10 y) (numeral 10 m) (numeral 10 d)).isSome
  | _ => false

/-- Hours and minutes. -/
def isHourMinute (h m : List Char) : Bool :=
  h.length == 2 && m.length == 2 && (h ++ m).all isDigit && numeral 10 h < 24 && numeral 10 m < 60

/-- A time of day, whose seconds may have a fraction. -/
def isTime (s : List Char) : Bool :=
  match splitAt (· == ':') s with
  | [h, m, sec] =>
    let (whole, fraction) := (sec.takeWhile (· != '.'), sec.dropWhile (· != '.'))
    isHourMinute h m && whole.length == 2 && whole.all isDigit && numeral 10 whole ≤ 60 &&
      (fraction.isEmpty || (fraction.length > 1 && (fraction.drop 1).all isDigit))
  | _ => false

/-- A time of day with or without a distance from universal time. -/
def isZonedTime (s : List Char) : Bool :=
  match s.reverse with
  | 'Z' :: r | 'z' :: r => isTime r.reverse
  | _ =>
    let isSign (c : Char) : Bool := c == '+' || c == '-'
    let (time, zone) := (s.takeWhile fun c => !isSign c, s.dropWhile fun c => !isSign c)
    isTime time &&
      (match zone with
        | [] => true
        | _ :: r =>
          match splitAt (· == ':') r with
          | [h, m] => isHourMinute h m
          | _ => false)

/-- A date, a time, or both. -/
def isMoment (s : List Char) : Bool :=
  isDate s || isTime s ||
    (isDate (s.take 10) &&
      (match s.drop 10 with
        | 'T' :: r | 't' :: r | ' ' :: r => isZonedTime r
        | _ => false))

/-- A character of a number or a time. -/
def isNumeric (c : Char) : Bool := isBare c || c == '+' || c == '.' || c == ':'

/-- A truth value, a number or a time. -/
def plain? (s : List Char) : Option (Value × List Char) :=
  let short := s.takeWhile isNumeric
  let token :=
    match s.drop 10 with
    | ' ' :: c :: _ =>
      if isDigit c && isDate short then s.take 11 ++ (s.drop 11).takeWhile isNumeric else short
    | _ => short
  let rest := s.drop token.length
  if token == "true".toList then some (.bool true, rest)
  else if token == "false".toList then some (.bool false, rest)
  else if isInteger token || isReal token || isMoment token then some (.other, rest)
  else none

/-! ## Values -/

/-- The key and the value of a pair, and the text behind. -/
abbrev Pair := (List String × Value) × List Char

mutual
/-- A value. -/
def value? (fuel : Nat) (s : List Char) : Option (Value × List Char) :=
  match fuel with
  | 0 => none
  | fuel + 1 =>
    let other (rest : Option (List Char)) : Option (Value × List Char) :=
      rest.map fun r => (.other, r)
    match s with
    | '"' :: '"' :: '"' :: r => other (skipLong? '"' s.length r)
    | '\x27' :: '\x27' :: '\x27' :: r => other (skipLong? '\x27' s.length r)
    | '"' :: r => other ((quoted? s.length r).map Prod.snd)
    | '\x27' :: r => other ((literal? r).map Prod.snd)
    | '[' :: r => other (array? fuel r)
    | '\x7b' :: r =>
      match skipBlanks r with
      | '\x7d' :: r => some (.other, r)
      | r => other (inline? fuel [] r)
    | s => plain? s

/-- Behind the opening bracket or a comma: the text after the closing bracket. -/
def array? (fuel : Nat) (s : List Char) : Option (List Char) :=
  match fuel with
  | 0 => none
  | fuel + 1 =>
    match skipLines s.length s with
    | ']' :: r => some r
    | s =>
      match value? fuel s with
      | none => none
      | some (_, r) =>
        match skipLines r.length r with
        | ']' :: r => some r
        | ',' :: r => array? fuel r
        | _ => none

/-- At a pair between braces, behind other pairs: the text after the closing brace. -/
def inline? (fuel : Nat) (es : Entries) (s : List Char) : Option (List Char) :=
  match fuel with
  | 0 => none
  | fuel + 1 =>
    match pair? fuel s with
    | none => none
    | some ((key, v), r) =>
      match es.insert key v, skipBlanks r with
      | some _, '\x7d' :: r => some r
      | some es, ',' :: r => inline? fuel es r
      | _, _ => none

/-- A key and a value. -/
def pair? (fuel : Nat) (s : List Char) : Option Pair :=
  match fuel with
  | 0 => none
  | fuel + 1 =>
    match key? s.length s with
    | some (key, '=' :: r) => (value? fuel (skipBlanks r)).map fun (v, r) => ((key, v), r)
    | _ => none
end

/-! ## Files -/

/-- Behind an opening bracket of a header: its key, and the text after the closing bracket. -/
def header? (s : List Char) : Option (List String × List Char) :=
  match key? s.length s with
  | some (key, ']' :: r) => some (key, r)
  | _ => none

/-- Changes the table that a header names by a change of its last key. -/
def Entries.byHeader (es : Entries) (path : List String) (f : String → Entries → Option Entries) :
    Option Entries :=
  path.getLast?.bind fun key => es.changeAt path.dropLast (f key)

/-- The keys of a file behind those that have been read, in the table at a path. -/
def readFrom? (fuel : Nat) (es : Entries) (table : List String) (s : List Char) : Option Entries :=
  match fuel with
  | 0 => none
  | fuel + 1 =>
    match skipLines s.length s with
    | [] => some es
    | '[' :: '[' :: r => do
      match ← header? r with
      | (path, ']' :: r) => readFrom? fuel (← es.byHeader path Entries.append) path (← lineEnd? r)
      | _ => none
    | '[' :: r => do
      let (path, r) ← header? r
      readFrom? fuel (← es.byHeader path Entries.declare) path (← lineEnd? r)
    | s => do
      let ((key, v), r) ← pair? s.length s
      readFrom? fuel (← es.changeAt table (Entries.insert key v)) table (← lineEnd? r)

/-- The keys of a file, if it is well formed. A mark of the byte order may stand in front. -/
def read? (s : List Char) : Option Entries :=
  readFrom? (s.length + 1) [] [] ((strip? ['\ufeff'] s).getD s)

end Worksheet.Toml
