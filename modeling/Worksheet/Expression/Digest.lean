import Worksheet.Expression.Syntax

/-!
# Names for functions without a name

A function that is written as an expression is called by a number that is computed from its
parameters and its body, so that the same function has the same name wherever it stands.

Main definition: `functionName`.
-/

namespace Worksheet

namespace Digest

/-- A digest with one more number in it. -/
def add (h n : UInt64) : UInt64 := (h ^^^ n) * 0x100000001b3

/-- The digest of nothing. -/
def start : UInt64 := 0xcbf29ce484222325

/-- A digest with a text in it. -/
def addText (h : UInt64) (s : String) : UInt64 :=
  s.toList.foldl (fun h c => add h c.val.toUInt64) (add h s.length.toUInt64)

/-- A digest with names in it. -/
def addNames (h : UInt64) (names : List String) : UInt64 :=
  names.foldl addText (add h names.length.toUInt64)

mutual
/-- A digest with an expression in it. -/
def addExpr (h : UInt64) : Expr → UInt64
  | .unit => add h 1
  | .bool b => add (add h 2) (if b then 1 else 0)
  | .int n => add (add h 3) n.toUInt64
  | .real x => add (add h 4) x.toBits
  | .char c => add (add h 5) c.val.toUInt64
  | .text s => addText (add h 6) s
  | .template parts => addExprs (add h 7) parts
  | .variable name => addText (add h 8) name
  | .array items => addExprs (add h 9) items
  | .call name args => addExprs (addText (add h 10) name) args
  | .select base selectors => addSelectors (addExpr (add h 11) base) selectors
  | .and left right => addExpr (addExpr (add h 12) left) right
  | .or left right => addExpr (addExpr (add h 13) left) right
  | .coalesce left right => addExpr (addExpr (add h 14) left) right
  | .conditional condition yes no => addExpr (addExpr (addExpr (add h 15) condition) yes) no
  | .block steps => addExprs (add h 16) steps
  | .assign name value => addExpr (addText (add h 17) name) value
  | .closure params body => addExpr (addNames (add h 18) params) body

/-- A digest with expressions in it. -/
def addExprs (h : UInt64) : List Expr → UInt64
  | [] => add h 0
  | e :: rest => addExprs (addExpr h e) rest

/-- A digest with a selector in it. -/
def addSelector (h : UInt64) : Selector → UInt64
  | .property name => addText (add h 19) name
  | .method name args => addExprs (addText (add h 20) name) args
  | .index position => addExpr (add h 21) position

/-- A digest with selectors in it. -/
def addSelectors (h : UInt64) : List Selector → UInt64
  | [] => add h 0
  | s :: rest => addSelectors (addSelector h s) rest
end

/-- A number in hexadecimal, with all sixteen digits. -/
def hexadecimal (n : UInt64) : List Char :=
  let digits := Nat.toDigits 16 n.toNat
  List.replicate (16 - digits.length) '0' ++ digits

end Digest

/-- The name by which messages call a function with these parameters and this body. -/
def functionName (params : List String) (body : Expr) : String :=
  "anon$" ++ String.ofList
    (Digest.hexadecimal (Digest.addExpr (Digest.addNames Digest.start params) body))

end Worksheet
