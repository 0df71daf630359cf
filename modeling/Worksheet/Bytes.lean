import Worksheet.Text.Class

/-!
# Lines as bytes

A line is stored in UTF-8, and three loops look for the literals in it byte by byte: the search for
a remark, the search for an assignment, and the rewriting of notation. None of them knows where a
character begins. Each has its own way with a backslash inside of a literal: the first one leaves
out the byte behind it, the second one goes on two bytes further, and the third one counts.

Main definitions: `utf8`, `slice?`; `Scanner` and `Scanner.run`, a loop over bytes; `remarkScanner`,
`assignmentScanner` and `copyScanner`; `splitRemark?`, `cutAssignment?` and `mapOutside?`, what is
made of a line with them.
-/

namespace Worksheet.Bytes

open Text

/-! ## Texts and their bytes -/

/-- A text in UTF-8. -/
def utf8 (s : List Char) : List UInt8 := s.flatMap String.utf8EncodeChar

/-- Cuts a text in front of a byte, unless there is no such byte or it is inside of a character. -/
def cutBytes? : Nat → List Char → Option (List Char × List Char)
  | 0, s => some ([], s)
  | _ + 1, [] => none
  | n + 1, c :: r =>
    if c.utf8Size ≤ n + 1 then
      (cutBytes? (n + 1 - c.utf8Size) r).map fun p => (c :: p.1, p.2)
    else none

/-- The text from one byte up to another one. There is none if one of them is inside of a character,
and a program that asks for it comes to its end. -/
def slice? (s : List Char) (start stop : Nat) : Option (List Char) := do
  let (front, _) ← cutBytes? stop s
  let (_, middle) ← cutBytes? start front
  return middle

/-! ## Loops -/

/-- Where a loop stands, and whether that is inside of a literal. -/
structure Cursor where
  /-- The number of the next byte. -/
  position : Nat
  /-- Has a literal been opened and not been closed? -/
  inString : Bool
deriving DecidableEq

/-- What a round of a loop leads to. -/
inductive Round (σ α : Type) where
  /-- The loop goes on. -/
  | on (s : σ)
  /-- The loop stops, and this is what it has found. -/
  | stop (a : α)

/-- A loop over bytes. -/
structure Scanner (σ α : Type) where
  /-- Where the loop begins. -/
  start : σ
  /-- The part of the state that every loop has. -/
  cursor : σ → Cursor
  /-- A round, which sees all bytes and the next one. -/
  step : List UInt8 → UInt8 → σ → Round σ α
  /-- A round leaves the byte behind. -/
  advances {bytes : List UInt8} {b : UInt8} {s s' : σ} :
    step bytes b s = .on s' → (cursor s).position < (cursor s').position

namespace Scanner

variable {σ α : Type}

/-- Goes on as long as there are bytes and the loop does not stop. The last state, and what has been
found. -/
def runFrom (S : Scanner σ α) (bytes : List UInt8) (s : σ) : σ × Option α :=
  match _hbyte : bytes[(S.cursor s).position]? with
  | none => (s, none)
  | some b =>
    match _hstep : S.step bytes b s with
    | .on s' => S.runFrom bytes s'
    | .stop a => (s, some a)
termination_by bytes.length - (S.cursor s).position
decreasing_by
  have hlt := (List.getElem?_eq_some_iff.mp _hbyte).1
  have hadvances := S.advances _hstep
  omega

/-- The whole loop. -/
def run (S : Scanner σ α) (bytes : List UInt8) : σ × Option α := S.runFrom bytes S.start

end Scanner

/-! ## Remarks -/

/-- Does the byte set off a remark? -/
def isMark (b : UInt8) : Bool :=
  b == ';'.toUInt8 || b == '#'.toUInt8 || b == '\x27'.toUInt8

/-- Looks for the byte that sets off a remark. -/
def remarkScanner : Scanner Cursor Nat where
  start := ⟨0, false⟩
  cursor := id
  step _ b c :=
    if b == '\\'.toUInt8 && c.inString then .on ⟨c.position + 2, true⟩
    else if b == '"'.toUInt8 then .on ⟨c.position + 1, !c.inString⟩
    else if isMark b && !c.inString then .stop c.position
    else .on ⟨c.position + 1, c.inString⟩
  advances h := by
    split at h
    · cases h; exact Nat.lt_add_of_pos_right (by decide)
    · split at h
      · cases h; exact Nat.lt_succ_self _
      · split at h
        · cases h
        · cases h; exact Nat.lt_succ_self _

/-- An expression and the remark behind it. -/
def splitRemark? (line : List Char) : Option (List Char × List Char) :=
  match (remarkScanner.run (utf8 line)).2 with
  | some i => do
    let expr ← slice? line 0 i
    let remark ← slice? line (i + 1) (utf8 line).length
    return (trim expr, trim remark)
  | none => some (trim line, [])

/-! ## Assignments -/

/-- The byte in front. -/
def previous? (bytes : List UInt8) (i : Nat) : Option UInt8 :=
  if i = 0 then none else bytes[i - 1]?

/-- Does an equals sign behind this byte belong to a comparison? -/
def endsComparison (b : UInt8) : Bool :=
  b == '='.toUInt8 || b == '!'.toUInt8 || b == '<'.toUInt8 || b == '>'.toUInt8

/-- Looks for an assignment: where it begins, and where it ends. -/
def assignmentScanner : Scanner Cursor (Nat × Nat) where
  start := ⟨0, false⟩
  cursor := id
  step bytes b c :=
    let i := c.position
    let equals := bytes[i + 1]? == some '='.toUInt8
    if c.inString then
      if b == '\\'.toUInt8 then .on ⟨i + 2, true⟩ else .on ⟨i + 1, b != '"'.toUInt8⟩
    else if b == '"'.toUInt8 then .on ⟨i + 1, true⟩
    else if b == ':'.toUInt8 && equals then .stop (i, i + 2)
    else if b == '='.toUInt8 then
      if (previous? bytes i).any endsComparison || equals then
        .on ⟨if equals then i + 2 else i + 1, false⟩
      else .stop (i, i + 1)
    else .on ⟨i + 1, false⟩
  advances {bytes b s s'} h := by
    dsimp only at h
    split at h
    · split at h <;> cases h <;> simp
    · split at h
      · cases h; simp
      · split at h
        · cases h
        · split at h
          · split at h
            · cases h
              simp only [id]
              split <;> omega
            · cases h
          · cases h; simp

/-- The two sides of the assignment, if there is one. -/
def cutAssignment? (text : List Char) : Option (Option (List Char × List Char)) :=
  match (assignmentScanner.run (utf8 text)).2 with
  | some (i, j) => do
    let left ← slice? text 0 i
    let right ← slice? text j (utf8 text).length
    return some (left, right)
  | none => some none

/-! ## Rewriting -/

/-- A part of a line. -/
structure Segment where
  /-- The number of the first byte. -/
  start : Nat
  /-- The number of the byte behind the last one. -/
  stop : Nat
  /-- Does the part stay as it is? -/
  verbatim : Bool
deriving DecidableEq

/-- The state of the loop that cuts a line into parts. -/
structure Copier extends Cursor where
  /-- Where the part begins that has not ended yet. -/
  segmentStart : Nat
  /-- The number of backslashes in front of the next byte, inside of a literal. -/
  backslashes : Nat
  /-- The parts that have ended. -/
  segments : List Segment

/-- The state behind the byte. A quote ends a literal if the number of backslashes in front of it is
even. -/
def Copier.next (b : UInt8) (s : Copier) : Copier :=
  let i := s.position
  if s.inString then
    if b == '\\'.toUInt8 then { s with position := i + 1, backslashes := s.backslashes + 1 }
    else if b == '"'.toUInt8 && s.backslashes % 2 == 0 then
      ⟨⟨i + 1, false⟩, i + 1, 0, s.segments ++ [⟨s.segmentStart, i + 1, true⟩]⟩
    else { s with position := i + 1, backslashes := 0 }
  else if b == '"'.toUInt8 then
    ⟨⟨i + 1, true⟩, i, 0, s.segments ++ [⟨s.segmentStart, i, false⟩]⟩
  else { s with position := i + 1 }

theorem Copier.position_next (b : UInt8) (s : Copier) : (s.next b).position = s.position + 1 := by
  unfold next
  dsimp only
  split
  · split
    · rfl
    · split <;> rfl
  · split <;> rfl

/-- Cuts a line at its literals. -/
def copyScanner : Scanner Copier Empty where
  start := ⟨⟨0, false⟩, 0, 0, []⟩
  cursor := Copier.toCursor
  step _ b s := .on (s.next b)
  advances {bytes b s s'} h := by
    cases h
    rw [Copier.position_next]
    exact Nat.lt_succ_self _

/-- The parts at the end of the loop. The last one is there if any byte is in it. -/
def Copier.finish (bytes : List UInt8) (s : Copier) : List Segment :=
  if s.segmentStart < bytes.length then
    s.segments ++ [⟨s.segmentStart, bytes.length, s.inString⟩]
  else s.segments

/-- The parts of a line. -/
def segments (bytes : List UInt8) : List Segment := (copyScanner.run bytes).1.finish bytes

/-- What a part of a line becomes. -/
def Segment.copy? (f : List Char → List Char) (line : List Char) (seg : Segment) :
    Option (List Char) :=
  (slice? line seg.start seg.stop).map fun t => if seg.verbatim then t else f t

/-- What parts of a line become. -/
def copy? (f : List Char → List Char) (line : List Char) : List Segment → Option (List Char)
  | [] => some []
  | seg :: segs => do
    let t ← seg.copy? f line
    let rest ← copy? f line segs
    return t ++ rest

/-- Rewrites what is not in a literal. -/
def mapOutside? (f : List Char → List Char) (line : List Char) : Option (List Char) :=
  copy? f line (segments (utf8 line))

end Worksheet.Bytes
