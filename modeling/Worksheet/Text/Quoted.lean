import Worksheet.Text.Class

/-!
# Quoted text

Text between double quotes, as it stands inside a sequence. Whatever would not be seen, or would
end the quotation, is written as an escape.
-/

namespace Worksheet.Text

/-- The characters that a hexadecimal number is written with. -/
def showHex (n : Nat) : List Char := Nat.toDigits 16 n

/-- Is the character written as an escape? Control characters are, and those beyond ASCII that have
no look of their own. -/
def isHidden (c : Char) : Bool :=
  if c.toNat < 0x80 then c.toNat < 0x20 || c.toNat == 0x7F else inRanges hiddenRanges c.toNat

/-- A character as it stands between double quotes. -/
def quoteChar (c : Char) : List Char :=
  match c with
  | '\x00' => ['\\', '0']
  | '\t' => ['\\', 't']
  | '\r' => ['\\', 'r']
  | '\n' => ['\\', 'n']
  | '\\' => ['\\', '\\']
  | '"' => ['\\', '"']
  | c => if isHidden c then '\\' :: 'u' :: '\x7b' :: (showHex c.toNat ++ ['\x7d']) else [c]

/-- The text between double quotes, with escapes. -/
def quoted (s : List Char) : List Char := '"' :: (s.flatMap quoteChar ++ ['"'])

end Worksheet.Text
