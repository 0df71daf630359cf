/-!
# Patterns in a text

A pattern is tried at every place of a text from left to right; where it fits, what it covers is
passed over. `found` lists what it finds and `substitute` replaces it.
-/

namespace Worksheet.Text

/--
Looks at one place of a text: at the characters before it, the nearest one first, and at the text
from it on. Where the pattern fits, it gives what it has found and the text behind, which must be
shorter.
-/
abbrev Pattern (α : Type) := List Char → List Char → Option (α × List Char)

namespace Pattern

/-- The characters that no match covers, and the matches, of a text that stands behind `before` and
whose first `skip` characters are covered already. -/
def scanFrom {α : Type} (p : Pattern α) (before : List Char) (skip : Nat) :
    List Char → List (Char ⊕ α)
  | [] => []
  | c :: r =>
    match skip with
    | k + 1 => scanFrom p (c :: before) k r
    | 0 =>
      match p before (c :: r) with
      | none => .inl c :: scanFrom p (c :: before) 0 r
      | some (a, rest) => .inr a :: scanFrom p (c :: before) (r.length - rest.length) r

/-- What a pattern finds in a text, in order. -/
def found {α : Type} (p : Pattern α) (s : List Char) : List α :=
  (scanFrom p [] 0 s).filterMap (Sum.elim (fun _ => none) some)

/-- The text with everything that the pattern covers replaced by what it gives. -/
def substitute (p : Pattern (List Char)) (s : List Char) : List Char :=
  (scanFrom p [] 0 s).flatMap (Sum.elim (fun c => [c]) fun out => out)

end Pattern

end Worksheet.Text
