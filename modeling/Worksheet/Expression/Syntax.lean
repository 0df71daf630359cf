/-!
# Expressions

The syntax tree of a worksheet expression. Operators are calls of functions named by their symbol,
so an operator and a function are looked up in the same way; only what decides by itself whether an
operand is evaluated has a constructor of its own.

Main definition: `Expr.freeNames`, the outer variables that an expression mentions, in the order of
their first mention. They are what a closure captures.
-/

namespace Worksheet

mutual
/-- An expression. -/
inductive Expr where
  /-- The absent value `()`. -/
  | unit
  /-- `true` or `false`. -/
  | bool (b : Bool)
  /-- An integer literal. -/
  | int (n : Int64)
  /-- A real literal. -/
  | real (x : Float)
  /-- A character literal. -/
  | char (c : Char)
  /-- A text literal. -/
  | text (s : String)
  /-- A text with embedded expressions, whose values are written out and joined. -/
  | template (parts : List Expr)
  /-- A variable. -/
  | variable (name : String)
  /-- A sequence literal. -/
  | array (items : List Expr)
  /-- A function or operator applied to arguments. -/
  | call (name : String) (args : List Expr)
  /-- What selectors make, one after the other, of a value. -/
  | select (base : Expr) (selectors : List Selector)
  /-- The right operand counts only if the left one is true. -/
  | and (left right : Expr)
  /-- The right operand counts only if the left one is false. -/
  | or (left right : Expr)
  /-- The right operand counts only if the left one is absent. -/
  | coalesce (left right : Expr)
  /-- One of two branches. -/
  | conditional (condition yes no : Expr)
  /-- Expressions in turn; the value is the last one's. -/
  | block (steps : List Expr)
  /-- Gives a variable in scope a new value. -/
  | assign (name : String) (value : Expr)
  /-- A function of the parameters. -/
  | closure (params : List String) (body : Expr)

/-- What may follow a value. -/
inductive Selector where
  /-- A property of it. -/
  | property (name : String)
  /-- A function with it as the first argument. -/
  | method (name : String) (args : List Expr)
  /-- An element of it. -/
  | index (position : Expr)
end

namespace Expr

/-! ## Equality -/

mutual
/-- Are two expressions the same? -/
def same : Expr → Expr → Bool
  | .unit, .unit => true
  | .bool a, .bool b => a == b
  | .int a, .int b => a == b
  | .real a, .real b => a.toBits == b.toBits
  | .char a, .char b => a == b
  | .text a, .text b => a == b
  | .template a, .template b => sameAll a b
  | .variable a, .variable b => a == b
  | .array a, .array b => sameAll a b
  | .call f a, .call g b => f == g && sameAll a b
  | .select a s, .select b t => same a b && sameSelectors s t
  | .and a b, .and c d | .or a b, .or c d | .coalesce a b, .coalesce c d => same a c && same b d
  | .conditional a b c, .conditional d e f => same a d && same b e && same c f
  | .block a, .block b => sameAll a b
  | .assign n a, .assign m b => n == m && same a b
  | .closure p a, .closure q b => p == q && same a b
  | _, _ => false

/-- `same` item by item. -/
def sameAll : List Expr → List Expr → Bool
  | [], [] => true
  | a :: as, b :: bs => same a b && sameAll as bs
  | _, _ => false

/-- Are two selectors the same? -/
def sameSelector : Selector → Selector → Bool
  | .property a, .property b => a == b
  | .method f a, .method g b => f == g && sameAll a b
  | .index a, .index b => same a b
  | _, _ => false

/-- `sameSelector` item by item. -/
def sameSelectors : List Selector → List Selector → Bool
  | [], [] => true
  | a :: as, b :: bs => sameSelector a b && sameSelectors as bs
  | _, _ => false
end

/-! ## Variables -/

/-- The names of `seen`, and behind them those of `new` that are not there yet, each once. -/
def addNames (seen new : List String) : List String :=
  new.foldl (fun acc n => if acc.contains n then acc else acc ++ [n]) seen

mutual
/-- The variables an expression mentions and does not bind, in the order of first mention. -/
def freeNames : Expr → List String
  | .unit | .bool _ | .int _ | .real _ | .char _ | .text _ => []
  | .template parts => freeNamesAll parts
  | .variable name => [name]
  | .array items => freeNamesAll items
  | .call _ args => freeNamesAll args
  | .select base selectors => addNames (freeNames base) (selectorNamesAll selectors)
  | .and left right | .or left right | .coalesce left right =>
    addNames (freeNames left) (freeNames right)
  | .conditional condition yes no =>
    addNames (addNames (freeNames condition) (freeNames yes)) (freeNames no)
  | .block steps => freeNamesAll steps
  | .assign name value => addNames [name] (freeNames value)
  | .closure params body => (freeNames body).filter fun n => !params.contains n

/-- The free names of several expressions in turn. -/
def freeNamesAll : List Expr → List String
  | [] => []
  | e :: rest => addNames (freeNames e) (freeNamesAll rest)

/-- The free names of a selector. -/
def selectorNames : Selector → List String
  | .property _ => []
  | .method _ args => freeNamesAll args
  | .index position => freeNames position

/-- The free names of several selectors in turn. -/
def selectorNamesAll : List Selector → List String
  | [] => []
  | s :: rest => addNames (selectorNames s) (selectorNamesAll rest)
end

/-! ## Functions inside an expression -/

mutual
/-- The functions that an expression makes, each with its parameters and body, inner ones
included. -/
def closures : Expr → List (List String × Expr)
  | .unit | .bool _ | .int _ | .real _ | .char _ | .text _ | .variable _ => []
  | .template parts => closuresAll parts
  | .array items => closuresAll items
  | .call _ args => closuresAll args
  | .select base selectors => closures base ++ selectorClosures selectors
  | .and left right | .or left right | .coalesce left right => closures left ++ closures right
  | .conditional condition yes no => closures condition ++ closures yes ++ closures no
  | .block steps => closuresAll steps
  | .assign _ value => closures value
  | .closure params body => (params, body) :: closures body

/-- The functions that several expressions make. -/
def closuresAll : List Expr → List (List String × Expr)
  | [] => []
  | e :: rest => closures e ++ closuresAll rest

/-- The functions that selectors make. -/
def selectorClosures : List Selector → List (List String × Expr)
  | [] => []
  | .property _ :: rest => selectorClosures rest
  | .method _ args :: rest => closuresAll args ++ selectorClosures rest
  | .index position :: rest => closures position ++ selectorClosures rest
end

/-- A literal that can never be a truth value. -/
def isNonBoolLiteral : Expr → Bool
  | .unit | .int _ | .real _ | .char _ | .text _ | .template _ | .array _ | .closure _ _ => true
  | _ => false

end Expr

end Worksheet
