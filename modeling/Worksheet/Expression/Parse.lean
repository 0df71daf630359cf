import Worksheet.Expression.Syntax
import Worksheet.Expression.Token
import Worksheet.Number.Real

/-!
# From tokens to expressions

Binary operators, loosest first: `||` `|` `^`; `&&` `&`; `==` `!=`; `in`; `<` `<=` `>` `>=`; `??`;
`..`; `+` `-`; `*` `/` `%`; `**`; `<<` `>>`. Only `**` associates to the right. Signs and `!` in
front of an operand bind tighter than all of these, selectors behind it tighter still.

How deep an expression may nest is limited, and in the body of a function more strictly.

Main definition: `Expr.parse?`.
-/

namespace Worksheet.Expression

/-- How deep a place in an expression is nested, and how deep it may be. -/
structure Depth where
  /-- The levels around the place. -/
  level : Nat
  /-- The most levels there may be. -/
  limit : Nat

namespace Depth

/-- The depth of a whole expression. -/
def start : Depth := ⟨0, 64⟩

/-- One level deeper, if that is allowed. -/
def deeper? (d : Depth) : Option Depth :=
  if d.level + 1 > d.limit then none else some { d with level := d.level + 1 }

/-- One level deeper, in the body of a function. -/
def inFunction? (d : Depth) : Option Depth := deeper? { d with limit := 32 }

end Depth

/-! ## Words -/

/-- Words that are no names. -/
def reservedWords : List String :=
  ["true", "false", "if", "else", "in", "let", "const", "fn", "import", "export", "return", "throw",
   "try", "catch", "eval", "while", "until", "loop", "for", "do", "switch", "continue", "break",
   "private", "as", "this", "is", "var", "static", "shared", "goto", "exit", "match", "case",
   "public", "protected", "new", "use", "with", "module", "package", "super", "thread", "spawn",
   "go", "await", "async", "sync", "yield", "default", "void", "null", "nil", "print", "debug",
   "type_of", "call", "curry", "Fn", "is_shared", "is_def_var", "is_def_fn"]

/-- Reserved words that may stand in front of arguments. -/
def callableWords : List String := ["type_of", "call"]

/-- Can the word name a variable or a parameter? -/
def isVariableName (w : String) : Bool := !reservedWords.contains w

/-- Can the word name a function or a method? -/
def isFunctionName (w : String) : Bool := isVariableName w || callableWords.contains w

/-! ## Operators -/

/-- How tight a binary operator binds; zero for a token that is none. -/
def precedence : Token → Nat
  | .symbol s =>
    if s == "||" || s == "|" || s == "^" then 30
    else if s == "&&" || s == "&" then 60
    else if s == "==" || s == "!=" then 90
    else if s == "!in" then 110
    else if s == "<" || s == "<=" || s == ">" || s == ">=" then 130
    else if s == "??" then 135
    else if s == ".." || s == "..=" then 140
    else if s == "+" || s == "-" then 150
    else if s == "*" || s == "/" || s == "%" then 180
    else if s == "**" then 190
    else if s == "<<" || s == ">>" then 210
    else 0
  | .word s => if s == "in" then 110 else 0
  | _ => 0

/-- Does an operator bind to the right among its like? -/
def bindsRight : Token → Bool
  | .symbol s => s == "**"
  | _ => false

/-- The precedence of the token that comes next. -/
def nextPrecedence : List Token → Nat
  | [] => 0
  | t :: _ => precedence t

/-- The conjunction of two operands. A literal operand leaves the other one as it is. -/
def conjunction (left right : Expr) : Expr :=
  match left, right with
  | .bool true, e => e
  | .bool false, _ => .bool false
  | e, .bool true => e
  | a, b => .and a b

/-- The disjunction of two operands. A literal operand leaves the other one as it is. -/
def disjunction (left right : Expr) : Expr :=
  match left, right with
  | .bool false, e => e
  | .bool true, _ => .bool true
  | e, .bool false => e
  | a, b => .or a b

/-- The expression that a binary operator makes of its operands, unless they can never fit it. -/
def binary? (op : Token) (left right : Expr) : Option Expr :=
  let truthValues := !left.isNonBoolLiteral && !right.isNonBoolLiteral
  match op with
  | .symbol "&&" => if truthValues then some (conjunction left right) else none
  | .symbol "||" => if truthValues then some (disjunction left right) else none
  | .symbol "??" => some (.coalesce left right)
  | .symbol "!in" => some (.call "!" [.call "contains" [right, left]])
  | .symbol s => some (.call s [left, right])
  | .word _ => some (.call "contains" [right, left])
  | _ => none

/-- The negative of an expression; the sign goes into a literal. -/
def negative : Expr → Expr
  | .int n =>
    match word? (-n.toInt) with
    | some m => .int m
    | none => .real (-Real.ofWord n)
  | .real x => .real (-x)
  | e => .call "-" [e]

/-- An expression behind a plus sign, which changes no literal. -/
def positive : Expr → Expr
  | .int n => .int n
  | .real x => .real x
  | e => .call "+" [e]

/-- Expressions in turn. -/
def inTurn : List Expr → Expr
  | [] => .unit
  | [e] => e
  | es => .block es

/-- Assignments that combine the old value with another one: an operator and an equals sign. -/
def combiningAssignments : List String :=
  ["+=", "-=", "*=", "/=", "%=", "**=", "<<=", ">>=", "&=", "|=", "^="]

/-- The operator in an assignment that combines the old value with another one. -/
def combining? : Token → Option String
  | .symbol s =>
    if combiningAssignments.contains s then some (String.ofList s.toList.dropLast) else none
  | _ => none

/-- The parameters of a function behind its opening bar, and the tokens behind the closing one. -/
def parameters? : List Token → Option (List String × List Token)
  | .symbol "|" :: rest => some ([], rest)
  | .word p :: .symbol "|" :: rest => if isVariableName p then some ([p], rest) else none
  | .word p :: .symbol "," :: .word q :: rest =>
    if isVariableName p then
      (parameters? (.word q :: rest)).bind fun (ps, rest) =>
        if ps.contains p then none else some (p :: ps, rest)
    else none
  | _ => none

/-! ## The grammar -/

mutual
/-- Steps separated by semicolons up to a closing brace, the end of an expression in a text, or the
end; a step that ends with a brace needs no semicolon. -/
def steps (fuel : Nat) (d : Depth) (ts : List Token) : Option (List Expr × List Token) :=
  match fuel with
  | 0 => none
  | fuel + 1 =>
    match ts with
    | [] | .symbol "\x7d" :: _ | .templateNext _ :: _ | .templateClose _ :: _ => some ([], ts)
    | .symbol ";" :: rest => steps fuel d rest
    | _ => do
      let ((e, closed), rest) ← step fuel d ts
      match rest with
      | .symbol ";" :: rest' =>
        let (es, rest') ← steps fuel d rest'
        some (e :: es, rest')
      | [] | .symbol "\x7d" :: _ | .templateNext _ :: _ | .templateClose _ :: _ => some ([e], rest)
      | _ =>
        if closed then do
          let (es, rest') ← steps fuel d rest
          some (e :: es, rest')
        else none

/-- One step, and whether it ends with a brace. -/
def step (fuel : Nat) (d : Depth) (ts : List Token) : Option ((Expr × Bool) × List Token) :=
  match fuel with
  | 0 => none
  | fuel + 1 =>
    match ts with
    | .symbol "\x7b" :: rest => do
      let (e, rest) ← block fuel d rest
      some ((e, true), rest)
    | .word "if" :: rest => do
      let (e, rest) ← conditional fuel d rest
      some ((e, true), rest)
    | _ => do
      let (e, rest) ← expression fuel d ts
      match e, rest with
      | .variable name, .symbol "=" :: rest => do
        let (value, rest) ← expression fuel d rest
        some ((.assign name value, false), rest)
      | .variable name, t :: rest' =>
        match combining? t with
        | some op => do
          let (value, rest) ← expression fuel d rest'
          some ((.assign name (.call op [.variable name, value]), false), rest)
        | none => some ((e, false), rest)
      | _, _ => some ((e, false), rest)

/-- The steps of a block behind its opening brace. -/
def block (fuel : Nat) (d : Depth) (ts : List Token) : Option (Expr × List Token) :=
  match fuel with
  | 0 => none
  | fuel + 1 => do
    let d ← d.deeper?
    let (es, rest) ← steps fuel d ts
    match rest with
    | .symbol "\x7d" :: rest => some (inTurn es, rest)
    | _ => none

/-- A condition and the branches, behind the word that begins them. -/
def conditional (fuel : Nat) (d : Depth) (ts : List Token) : Option (Expr × List Token) :=
  match fuel with
  | 0 => none
  | fuel + 1 => do
    let d ← d.deeper?
    let (c, rest) ← expression fuel d ts
    if c.isNonBoolLiteral then none
    else
      match rest with
      | .symbol "\x7b" :: rest => do
        let (yes, rest) ← block fuel d rest
        match rest with
        | .word "else" :: .word "if" :: rest => do
          let (no, rest) ← conditional fuel d rest
          some (.conditional c yes no, rest)
        | .word "else" :: .symbol "\x7b" :: rest => do
          let (no, rest) ← block fuel d rest
          some (.conditional c yes no, rest)
        | .word "else" :: _ => none
        | _ => some (.conditional c yes .unit, rest)
      | _ => none

/-- An operand and the operators behind it. -/
def expression (fuel : Nat) (d : Depth) (ts : List Token) : Option (Expr × List Token) :=
  match fuel with
  | 0 => none
  | fuel + 1 => do
    let (left, rest) ← operand fuel (← d.deeper?) ts
    operators fuel d 0 left rest

/-- The operators behind a left operand that bind tighter than `parent`. -/
def operators (fuel : Nat) (d : Depth) (parent : Nat) (left : Expr) (ts : List Token) :
    Option (Expr × List Token) :=
  match fuel with
  | 0 => none
  | fuel + 1 =>
    match ts with
    | [] => some (left, [])
    | op :: rest =>
      let p := precedence op
      if p < parent || (p == parent && !bindsRight op) then some (left, ts)
      else do
        let d ← d.deeper?
        let (right, rest) ← operand fuel d rest
        let next := nextPrecedence rest
        let (right, rest) ←
          if p < next || (p == next && bindsRight op) then operators fuel d p right rest
          else some (right, rest)
        operators fuel d parent (← binary? op left right) rest

/-- A term, which signs may stand in front of. -/
def operand (fuel : Nat) (d : Depth) (ts : List Token) : Option (Expr × List Token) :=
  match fuel with
  | 0 => none
  | fuel + 1 =>
    match ts with
    | .symbol "-" :: rest => do
      let (e, rest) ← operand fuel (← d.deeper?) rest
      some (negative e, rest)
    | .symbol "+" :: rest => do
      let (e, rest) ← operand fuel (← d.deeper?) rest
      some (positive e, rest)
    | .symbol "!" :: rest => do
      let (e, rest) ← operand fuel (← d.deeper?) rest
      some (.call "!" [e], rest)
    | _ => do
      let (e, rest) ← term fuel d ts
      let (ss, rest) ← selectors fuel d rest
      some (if ss.isEmpty then e else .select e ss, rest)

/-- A term without the selectors behind it. -/
def term (fuel : Nat) (d : Depth) (ts : List Token) : Option (Expr × List Token) :=
  match fuel with
  | 0 => none
  | fuel + 1 =>
    match ts with
    | .int n :: rest => some (.int n, rest)
    | .real x :: rest => some (.real x, rest)
    | .char c :: rest => some (.char c, rest)
    | .text s :: rest => some (.text s, rest)
    | .templateOpen s :: rest => do
      let (parts, rest) ← templateParts fuel (← d.deeper?) rest
      some (.template (.text s :: parts), rest)
    | .word "true" :: rest => some (.bool true, rest)
    | .word "false" :: rest => some (.bool false, rest)
    | .word "if" :: rest => conditional fuel d rest
    | .word w :: .symbol "(" :: rest =>
      if isFunctionName w then do
        let (args, rest) ← items fuel (← d.deeper?) ")" rest
        some (.call w args, rest)
      else none
    | .word w :: rest => if isVariableName w then some (.variable w, rest) else none
    | .symbol "(" :: .symbol ")" :: rest => some (.unit, rest)
    | .symbol "(" :: rest => do
      let (e, rest) ← expression fuel (← d.deeper?) rest
      match rest with
      | .symbol ")" :: rest => some (e, rest)
      | _ => none
    | .symbol "[" :: rest => do
      let (es, rest) ← items fuel (← d.deeper?) "]" rest
      some (.array es, rest)
    | .symbol "||" :: rest => do
      let ((body, _), rest) ← step fuel (← d.inFunction?) rest
      some (.closure [] body, rest)
    | .symbol "|" :: rest => do
      let (params, rest) ← parameters? rest
      let ((body, _), rest) ← step fuel (← d.inFunction?) rest
      some (.closure params body, rest)
    | _ => none

/-- The selectors behind a term. -/
def selectors (fuel : Nat) (d : Depth) (ts : List Token) : Option (List Selector × List Token) :=
  match fuel with
  | 0 => none
  | fuel + 1 =>
    match ts with
    | .symbol "." :: .word w :: .symbol "(" :: rest =>
      if isFunctionName w then do
        let (args, rest) ← items fuel (← d.deeper?) ")" rest
        let (ss, rest) ← selectors fuel d rest
        some (.method w args :: ss, rest)
      else none
    | .symbol "." :: .word w :: rest =>
      if isVariableName w then do
        let (ss, rest) ← selectors fuel d rest
        some (.property w :: ss, rest)
      else none
    | .symbol "." :: _ => none
    | .symbol "[" :: rest => do
      let (e, rest) ← expression fuel (← d.deeper?) rest
      match rest with
      | .symbol "]" :: rest =>
        let (ss, rest) ← selectors fuel d rest
        some (.index e :: ss, rest)
      | _ => none
    | _ => some ([], ts)

/-- Expressions separated by commas, up to the mark that closes them; a comma may stand in front of
it. -/
def items (fuel : Nat) (d : Depth) (close : String) (ts : List Token) :
    Option (List Expr × List Token) :=
  match fuel with
  | 0 => none
  | fuel + 1 =>
    match ts with
    | .symbol s :: rest =>
      if s == close then some ([], rest) else item fuel d close ts
    | _ => item fuel d close ts

/-- At least one expression, and then as `items`. -/
def item (fuel : Nat) (d : Depth) (close : String) (ts : List Token) :
    Option (List Expr × List Token) :=
  match fuel with
  | 0 => none
  | fuel + 1 => do
    let (e, rest) ← expression fuel d ts
    match rest with
    | .symbol s :: rest =>
      if s == close then some ([e], rest)
      else if s == "," then do
        let (es, rest) ← items fuel d close rest
        some (e :: es, rest)
      else none
    | _ => none

/-- The expressions in a text and the stretches behind each of them. -/
def templateParts (fuel : Nat) (d : Depth) (ts : List Token) : Option (List Expr × List Token) :=
  match fuel with
  | 0 => none
  | fuel + 1 => do
    let (es, rest) ← steps fuel d ts
    match rest with
    | .templateClose s :: rest => some ([inTurn es, .text s], rest)
    | .templateNext s :: rest => do
      let (parts, rest) ← templateParts fuel d rest
      some (inTurn es :: .text s :: parts, rest)
    | _ => none
end

/-- More steps than reading so many tokens can take: between two tokens at most six rules are
entered. -/
def fuelFor (ts : List Token) : Nat := 8 * ts.length + 8

/-- The expression that tokens make. -/
def parseTokens? (ts : List Token) : Option Expr :=
  match steps (fuelFor ts) .start ts with
  | some (es, []) => some (inTurn es)
  | _ => none

end Worksheet.Expression

/-- The expression that a text denotes, if it is one. -/
def Worksheet.Expr.parse? (s : List Char) : Option Worksheet.Expr :=
  (Worksheet.Expression.tokens? s).bind Worksheet.Expression.parseTokens?
