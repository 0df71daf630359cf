import Worksheet.Arithmetic
import Worksheet.Display.Number
import Worksheet.Text.Quoted

/-!
# Values for the reader

The natural text of a value. Inside a sequence texts are quoted, so that items stay apart.
-/

namespace Worksheet.Display

open Worksheet.Text

mutual
/-- The natural text of a value. -/
def render (style : Style) : Value → List Char
  | .nothing => []
  | .bool true => ['T', 'R', 'U', 'E']
  | .bool false => ['F', 'A', 'L', 'S', 'E']
  | .int n => showInt n.toInt
  | .real x => number style x
  | .rational f => f.text
  | .date d => d.text
  | .dateTime t => t.text
  | .duration d => d.brief
  | .period p => p.text
  | .text s => s.toList
  | .sequence items => '[' :: renderItems style items
  | .function f => "<function ".toList ++ f.closure.name.toList ++ ['>']
  | .quantity q => number style q.shown ++ ' ' :: q.unitText.toList

/-- The items of a sequence, parted by commas, and the closing bracket. -/
def renderItems (style : Style) : List Value → List Char
  | [] => [']']
  | [v] => renderItem style v ++ [']']
  | v :: w :: rest => renderItem style v ++ ',' :: ' ' :: renderItems style (w :: rest)

/-- An item of a sequence. -/
def renderItem (style : Style) : Value → List Char
  | .text s => quoted s.toList
  | v => render style v
end

end Worksheet.Display
