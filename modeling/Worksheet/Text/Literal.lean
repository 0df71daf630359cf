/-!
# Text literals inside a line

A double-quoted literal is opaque to everything that looks at a line: to the notation, to the search
for an assignment and to the search for a remark. Inside a literal a backslash takes away the
meaning of the character behind it. A literal that is not closed runs to the end of the line.

Main definitions: `pieces` cuts a text at its literals; `mapPlain` rewrites what stands outside of
them; `cutPlain?` cuts a text at the first separator outside of them.

Main statements: `text_pieces`, the pieces are the text; `mapPlain_id`.
-/

namespace Worksheet.Text

/-- A stretch of a line. -/
inductive Piece where
  /-- Text outside literals. -/
  | plain (s : List Char)
  /-- A literal with its quotes. -/
  | literal (s : List Char)
deriving DecidableEq

namespace Piece

/-- The characters of a piece. -/
def text : Piece → List Char
  | plain s => s
  | literal s => s

/-- Changes what is not a literal. -/
def map (f : List Char → List Char) : Piece → Piece
  | plain s => plain (f s)
  | literal s => literal s

end Piece

/-- Behind an opening quote: what still belongs to the literal, its closing quote included, and the
text after it. -/
def closeLiteral : List Char → List Char × List Char
  | [] => ([], [])
  | '"' :: r => (['"'], r)
  | '\\' :: c :: r => ('\\' :: c :: (closeLiteral r).1, (closeLiteral r).2)
  | c :: r => (c :: (closeLiteral r).1, (closeLiteral r).2)

theorem closeLiteral_append (s : List Char) : (closeLiteral s).1 ++ (closeLiteral s).2 = s := by
  fun_induction closeLiteral s with
  | case1 => rfl
  | case2 r => rfl
  | case3 c r ih => simp [ih]
  | case4 c r _ _ ih => simp [ih]

theorem length_closeLiteral_le (s : List Char) : (closeLiteral s).2.length ≤ s.length := by
  have h := congrArg List.length (closeLiteral_append s)
  simp only [List.length_append] at h
  omega

/-- The text up to the first quote, and the text from it on. -/
def untilQuote (s : List Char) : List Char × List Char :=
  (s.takeWhile (· != '"'), s.dropWhile (· != '"'))

theorem untilQuote_append (s : List Char) : (untilQuote s).1 ++ (untilQuote s).2 = s :=
  List.takeWhile_append_dropWhile

/-- Cuts a text at its literals. Plain text, which may be empty, and literals alternate, beginning
with plain text. -/
def pieces (s : List Char) : List Piece :=
  match _h : (untilQuote s).2 with
  | [] => [.plain (untilQuote s).1]
  | q :: r =>
    .plain (untilQuote s).1 :: .literal (q :: (closeLiteral r).1) :: pieces (closeLiteral r).2
termination_by s.length
decreasing_by
  have h1 := congrArg List.length (untilQuote_append s)
  have h2 := length_closeLiteral_le r
  simp only [List.length_append, _h, List.length_cons] at h1
  omega

/-- Put together again, the pieces are the text. -/
theorem text_pieces (s : List Char) : (pieces s).flatMap Piece.text = s := by
  fun_induction pieces s with
  | case1 s h =>
    have h1 := untilQuote_append s
    rw [h, List.append_nil] at h1
    simpa [Piece.text] using h1
  | case2 s q r h ih =>
    have h1 := untilQuote_append s
    have h2 := closeLiteral_append r
    rw [h] at h1
    simp only [List.flatMap_cons, Piece.text, ih, List.cons_append, h2]
    exact h1

/-- Rewrites every stretch outside literals. -/
def mapPlain (f : List Char → List Char) (s : List Char) : List Char :=
  (pieces s).flatMap fun p => (p.map f).text

theorem mapPlain_id (s : List Char) : mapPlain (fun r => r) s = s := by
  have h : (fun p : Piece => (p.map fun r => r).text) = Piece.text := by
    funext p; cases p <;> rfl
  rw [mapPlain, h, text_pieces]

/-! ## Separators -/

/-- Where a character stands. -/
inductive Place where
  /-- Outside literals. -/
  | outside
  /-- Inside a literal. -/
  | inside
  /-- Inside a literal, behind a backslash that takes away its meaning. -/
  | escaped
deriving DecidableEq

/-- The place of the character behind `c`. -/
def Place.next : Place → Char → Place
  | outside, c => if c == '"' then inside else outside
  | inside, c => if c == '"' then outside else if c == '\\' then escaped else inside
  | escaped, _ => inside

/--
A separator looks at the character before a place and at the text from the place on; where it
stands, it gives the text behind it.
-/
abbrev Separator := Option Char → List Char → Option (List Char)

/-- Cuts a text, whose first character stands at `place` behind `before`, at the first separator
outside literals. The separator belongs to neither part. -/
def cutFrom? (sep : Separator) (place : Place) (before : Option Char) :
    List Char → Option (List Char × List Char)
  | [] => none
  | c :: r =>
    match (if place = .outside then sep before (c :: r) else none) with
    | some rest => some ([], rest)
    | none => (cutFrom? sep (place.next c) (some c) r).map fun p => (c :: p.1, p.2)

/-- Cuts a text at the first separator outside literals. -/
def cutPlain? (sep : Separator) (s : List Char) : Option (List Char × List Char) :=
  cutFrom? sep .outside none s

end Worksheet.Text
