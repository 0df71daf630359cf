import Worksheet.Expression.Failure

/-!
# Draws

Functions that draw something. A worksheet has no source of chance: every draw takes the least of
what may be drawn, so that a worksheet always gives the same results.

Main definition: `chance?`, none if the function does not exist or does not take such arguments.
-/

namespace Worksheet.Library

/-- The characters of a password. -/
def passwordCharacters : List Char :=
  ("abcdefghijklmnopqrstuvwxyzABCDEFGHIJKLMNOPQRSTUVWXYZ0123456789".toList ++
    ['!', '"', '#', '$', '%', '&', '\x27', '(', ')', '*', '+', ',', '-', '.', '/', ':', ';', '<',
     '=', '>', '?', '@', '[', '\\', ']', '^', '_', '\x60', '\x7b', '|', '\x7d', '~'])

/-- The consonants, without those in `skip`. -/
def consonants (skip : List Char) : List String :=
  ("bcdfghjklmnpqrstvwxyz".toList.filter fun c => !skip.contains c).map String.singleton

/-- What a word of gibberish may begin with. -/
def onsets : List String :=
  consonants ['q', 'x', 'c'] ++
    ["bl", "br", "cl", "cr", "dr", "fl", "fr", "gl", "gr", "pl", "pr", "sk", "sl", "sm", "sn", "sp",
     "st", "str", "sw", "tr"]

/-- What a word of gibberish may end with. -/
def codas : List String :=
  consonants ['q', 'x', 'c', 's', 'j'] ++
    ["ct", "ft", "mp", "nd", "ng", "nk", "nt", "pt", "sk", "sp", "ss", "st", "oy", "ji", "ch", "ee",
     "zz", "fj", "tz"]

/-- The words of gibberish. -/
def gibberish : List String :=
  onsets.flatMap fun i => ["a", "e", "i", "o", "u"].flatMap fun v => codas.map fun f => i ++ v ++ f

/-- The drawing function with a name, applied to arguments. -/
def chance? (name : String) (args : List Datum) : Option (Evaluated Datum) :=
  match name, args with
  | "random", [] => some (.ok (.real 0.0))
  | "randint", [.int low, .int high] =>
    some (if high < low then raise .emptyRange else .ok (.int low))
  | "uniform", [.real low, .real _] => some (.ok (.real low))
  | "uniform", [.int low, .int _] => some (.ok (.real (Real.ofWord low)))
  | "choice", [.array items] =>
    some (match items with
      | d :: _ => .ok d
      | [] => raise .emptyChoice)
  | "password", [.int n] =>
    some (if n < 0 then raise .negativeLength
      else
        let c := passwordCharacters.headD 'a'
        .ok (.text (String.ofList (List.replicate n.toInt.toNat c))))
  | "gibberish", [.int n] =>
    some (if n < 0 then raise .negativeCount
      else if gibberish.length < n.toInt.toNat then raise .largeSample
      else .ok (.text (String.intercalate " " (gibberish.take n.toInt.toNat))))
  | _, _ => none

end Worksheet.Library
