import Worksheet.Proofs.Display.Composition
import Worksheet.Proofs.Display.Groups
import Worksheet.Proofs.Expression.Numeral
import Worksheet.Proofs.Text.Class

/-!
# Specifications of integers as they are written

A specification of an integer has parts that may each be left out, and all of them are read as they
were written: no part can be taken for a part of another one.

* **`Form`** — the parts; **`Form.text`** — how they are written.
* **`Form.read_text`** — they are read again, unless the width is none of a machine word.
* **`Align.place`** — a signed text in a field.
* **`Form.formatValue_text`** — an integer is shown as these parts say.
-/

namespace Worksheet.Display

open Text

/-! ## Parts -/

/-- Which numbers show a sign besides the negative ones. -/
inductive SignFlag where
  /-- Positive numbers have a plus. -/
  | plus
  /-- None. -/
  | minus
  /-- Positive numbers have a space. -/
  | space

/-- How the flag is written. -/
def SignFlag.char : SignFlag → Char
  | plus => '+'
  | minus => '-'
  | space => ' '

/-- What stands between groups of digits. -/
inductive Separator where
  /-- A comma. -/
  | comma
  /-- An underscore. -/
  | underscore

/-- The separator itself, which is also how it is asked for. -/
def Separator.char : Separator → Char
  | comma => ','
  | underscore => '_'

/-- The notation of an integer. -/
inductive Radix where
  /-- Base ten. -/
  | decimal
  /-- Base sixteen. -/
  | hexadecimal
  /-- Base sixteen in capitals. -/
  | capitals
  /-- Base eight. -/
  | octal
  /-- Base two. -/
  | binary

namespace Radix

/-- The letter for it. -/
def letter : Radix → Char
  | decimal => 'd'
  | hexadecimal => 'x'
  | capitals => 'X'
  | octal => 'o'
  | binary => 'b'

/-- The base. -/
def base : Radix → Nat
  | decimal => 10
  | hexadecimal | capitals => 16
  | octal => 8
  | binary => 2

/-- What the alternate form shows in front of the digits. -/
def mark : Radix → List Char
  | decimal => []
  | hexadecimal => ['0', 'x']
  | capitals => ['0', 'X']
  | octal => ['0', 'o']
  | binary => ['0', 'b']

/-- Are the digits beyond nine capitals? -/
def hasCapitals : Radix → Bool
  | capitals => true
  | _ => false

/-- The number of digits in a group. -/
def groupLength : Radix → Nat
  | decimal => 3
  | _ => 4

theorem baseOf_letter (r : Radix) : Spec.baseOf r.letter = (r.base, r.mark, r.hasCapitals) := by
  cases r <;> rfl

theorem base_bounds (r : Radix) : 1 < r.base ∧ r.base ≤ 16 := by cases r <;> decide

theorem groupLength_eq (r : Radix) : r.groupLength = 3 ∨ r.groupLength = 4 := by cases r <;> decide

end Radix

/-- How an alignment is written. -/
def Align.char : Align → Char
  | left => '<'
  | right => '>'
  | center => '^'
  | inner => '='

theorem Align.ofChar?_char (a : Align) : ofChar? a.char = some a := by cases a <;> rfl

/-- A specification of an integer in parts. -/
structure Form where
  /-- The alignment, with a fill character in front of it or without. -/
  alignment : Option (Option Char × Align)
  /-- The sign flag. -/
  sign : Option SignFlag
  /-- Is there a mark of the alternate form? -/
  alternate : Bool
  /-- Is there a zero flag? -/
  zero : Bool
  /-- The digits of the width. -/
  width : List Char
  /-- What stands between groups of digits. -/
  grouping : Option Separator
  /-- The notation. -/
  radix : Radix
  width_digits : ∀ c ∈ width, isDigit c = true
  /-- A zero in front of the width is the flag. -/
  width_head : zero = false → width.head? ≠ some '0'

namespace Form

/-- The alignment as it is written. -/
def alignmentText : Option (Option Char × Align) → List Char
  | none => []
  | some (fill, a) => fill.toList ++ [a.char]

/-- The separator, if there is one. -/
def separator (f : Form) : Option Char := f.grouping.map Separator.char

/-- The parts behind the width. -/
def ending (f : Form) : List Char := f.separator.toList ++ [f.radix.letter]

/-- The parts behind the sign flag. -/
def body (f : Form) : List Char :=
  (if f.alternate then some '#' else none).toList ++
    ((if f.zero then some '0' else none).toList ++ (f.width ++ f.ending))

/-- The parts as they are written. -/
def text (f : Form) : List Char :=
  alignmentText f.alignment ++ ((f.sign.map SignFlag.char).toList ++ f.body)

/-- The width that is asked for. -/
def minWidth (f : Form) : Nat := readDigits f.width

/-- The specification with these parts. -/
def spec (f : Form) : Spec where
  fill := (f.alignment.bind Prod.fst).getD ' '
  align := f.alignment.map Prod.snd
  sign := (f.sign.map SignFlag.char).getD '-'
  alternate := f.alternate
  zero := f.zero
  width := f.minWidth
  grouping := f.separator
  precision := none
  type := some f.radix.letter

end Form

/-! ## Reading -/

namespace Spec

theorem takeOne_append {choices s : List Char} {o : Option Char} (ho : ∀ c ∈ o, c ∈ choices)
    (hs : o = none → ∀ c ∈ s.head?, c ∉ choices) : takeOne choices (o.toList ++ s) = (o, s) := by
  cases o with
  | none =>
    cases s with
    | nil => rfl
    | cons c s => simp [takeOne, hs rfl c rfl]
  | some c => simp [takeOne, ho c rfl]

/-- An alignment is read off the front of a text that has none itself. -/
theorem takeAlign_append (alignment : Option (Option Char × Align)) {s : List Char}
    (hs : ∀ c ∈ s, Align.ofChar? c = none) :
    takeAlign (Form.alignmentText alignment ++ s)
      = ((alignment.bind Prod.fst).getD ' ', alignment.map Prod.snd, s) := by
  have hsecond : ∀ a : Align, takeAlign (a.char :: s) = (' ', some a, s) := by
    intro a
    cases s with
    | nil => simp [takeAlign, a.ofChar?_char]
    | cons c s => simp [takeAlign, a.ofChar?_char, hs c List.mem_cons_self]
  rcases alignment with _ | ⟨_ | fill, a⟩
  · cases s with
    | nil => rfl
    | cons c s =>
      have hc := hs c List.mem_cons_self
      cases s with
      | nil => simp [takeAlign, Form.alignmentText, hc]
      | cons d s => simp [takeAlign, Form.alignmentText, hc, hs d (by simp)]
  · exact hsecond a
  · simp [takeAlign, Form.alignmentText, a.ofChar?_char]

end Spec

namespace Form

variable {f : Form}

theorem mem_ending {c : Char} (h : c ∈ f.ending) : c ∈ [',', '_', 'd', 'x', 'X', 'o', 'b'] := by
  rcases List.mem_append.mp h with h | h
  · obtain ⟨separator, -, rfl⟩ := Option.map_eq_some_iff.mp (Option.mem_toList.mp h)
    cases separator <;> decide
  · rw [List.mem_singleton.mp h]
    cases f.radix <;> decide

theorem isDigit_of_mem_ending {c : Char} (h : c ∈ f.ending) : isDigit c = false := by
  have hall : ∀ c ∈ [',', '_', 'd', 'x', 'X', 'o', 'b'], isDigit c = false := by decide
  exact hall c (mem_ending h)

/-- What stands behind the mark of the alternate form is a digit, a separator or a letter. -/
theorem isDigit_or_mem_ending {c : Char}
    (h : c ∈ (if f.zero then some '0' else none).toList ++ (f.width ++ f.ending)) :
    isDigit c = true ∨ c ∈ f.ending := by
  rcases List.mem_append.mp h with h | h
  · split at h
    · rw [List.mem_singleton.mp h]
      exact Or.inl (by decide)
    · cases h
  · rcases List.mem_append.mp h with h | h
    · exact Or.inl (f.width_digits c h)
    · exact Or.inr h

/-- What stands behind the sign flag is no sign flag and no alignment. -/
theorem of_mem_body {c : Char} (h : c ∈ f.body) : c ∉ ['+', '-', ' '] ∧ Align.ofChar? c = none := by
  rcases List.mem_append.mp h with h | h
  · split at h
    · rw [List.mem_singleton.mp h]
      decide
    · cases h
  · rcases isDigit_or_mem_ending h with hc | hc
    · have hne : ∀ d, isDigit d = false → c ≠ d := fun d => ne_of_isDigit hc
      refine ⟨by simp [hne '+' rfl, hne '-' rfl, hne ' ' rfl], ?_⟩
      unfold Align.ofChar?
      split <;> first
        | rfl
        | exact absurd hc (by decide)
    · have hall : ∀ c ∈ [',', '_', 'd', 'x', 'X', 'o', 'b'],
          c ∉ ['+', '-', ' '] ∧ Align.ofChar? c = none := by decide
      exact hall c (mem_ending hc)

/-! The parts are taken one after the other, each in front of the rest of the text. -/

theorem takeAlign_text (f : Form) : Spec.takeAlign f.text =
    ((f.alignment.bind Prod.fst).getD ' ', f.alignment.map Prod.snd,
      (f.sign.map SignFlag.char).toList ++ f.body) := by
  refine Spec.takeAlign_append f.alignment fun c hc => ?_
  rcases List.mem_append.mp hc with hc | hc
  · obtain ⟨flag, -, rfl⟩ := Option.map_eq_some_iff.mp (Option.mem_toList.mp hc)
    cases flag <;> decide
  · exact (of_mem_body hc).2

theorem takeOne_sign (f : Form) :
    Spec.takeOne ['+', '-', ' '] ((f.sign.map SignFlag.char).toList ++ f.body)
      = (f.sign.map SignFlag.char, f.body) := by
  refine Spec.takeOne_append (fun c hc => ?_) fun _ c hc => (of_mem_body (List.mem_of_mem_head? hc)).1
  obtain ⟨flag, -, rfl⟩ := Option.map_eq_some_iff.mp hc
  cases flag <;> decide

theorem takeOne_alternate (f : Form) : Spec.takeOne ['#'] f.body =
    (if f.alternate then some '#' else none,
      (if f.zero then some '0' else none).toList ++ (f.width ++ f.ending)) := by
  refine Spec.takeOne_append (fun c hc => ?_) fun _ c hc hmark => ?_
  · split at hc <;> cases hc
    decide
  · rw [List.mem_singleton.mp hmark] at hc
    rcases isDigit_or_mem_ending (List.mem_of_mem_head? hc) with hc | hc
    · exact absurd hc (by decide)
    · exact absurd (mem_ending hc) (by decide)

theorem takeOne_zero (f : Form) :
    Spec.takeOne ['0'] ((if f.zero then some '0' else none).toList ++ (f.width ++ f.ending))
      = (if f.zero then some '0' else none, f.width ++ f.ending) := by
  refine Spec.takeOne_append (fun c hc => ?_) fun hnone c hc hmark => ?_
  · split at hc <;> cases hc
    decide
  · -- without the flag neither the width nor what follows it begins with a zero
    have hflag : f.zero = false := by
      split at hnone
      · cases hnone
      · exact Bool.eq_false_iff.mpr ‹_›
    rw [List.mem_singleton.mp hmark, Option.mem_def] at hc
    cases hwidth : f.width with
    | nil =>
      rw [hwidth] at hc
      exact absurd (mem_ending (List.mem_of_mem_head? hc)) (by decide)
    | cons d width =>
      rw [hwidth] at hc
      exact f.width_head hflag (by rw [hwidth]; exact hc)

theorem takeWhile_width (f : Form) : (f.width ++ f.ending).takeWhile isDigit = f.width :=
  takeWhile_run f.width_digits fun _ hc => isDigit_of_mem_ending (List.mem_of_mem_head? hc)

theorem dropWhile_width (f : Form) : (f.width ++ f.ending).dropWhile isDigit = f.ending :=
  dropWhile_run f.width_digits fun _ hc => isDigit_of_mem_ending (List.mem_of_mem_head? hc)

theorem takeOne_grouping (f : Form) :
    Spec.takeOne [',', '_'] f.ending = (f.separator, [f.radix.letter]) := by
  refine Spec.takeOne_append (fun c hc => ?_) fun _ c hc => ?_
  · obtain ⟨separator, -, rfl⟩ := Option.map_eq_some_iff.mp hc
    cases separator <;> decide
  · obtain rfl : f.radix.letter = c := Option.some.inj hc
    cases f.radix <;> decide

/-- **What is written is read**, unless the width is none of a machine word. -/
theorem read_text (f : Form) :
    Spec.read f.text = if f.minWidth < 0x10000000000000000 then .ok f.spec
      else .error (.invalidSpec (String.ofList f.text)) := by
  have hprecision : Spec.takePrecision f.text [f.radix.letter] = .ok (none, [f.radix.letter]) := by
    cases f.radix <;> rfl
  have hflag : ∀ (b : Bool) (c : Char), (if b then some c else none).isSome = b := by
    intro b c
    cases b <;> rfl
  rw [Spec.read, takeAlign_text]
  dsimp only
  rw [takeOne_sign]
  dsimp only
  rw [takeOne_alternate]
  dsimp only
  rw [takeOne_zero]
  dsimp only
  rw [takeWhile_width, dropWhile_width, takeOne_grouping]
  dsimp only
  rw [hprecision, hflag, hflag, Spec.readSize, ← minWidth]
  split <;> rfl

end Form

/-! ## Carrying out -/

/-- A signed text in a field, filled up to a width on the side that is free. -/
def Align.place (a : Align) (fill : Char) (width : Nat) (sign body : List Char) : List Char :=
  let gap := width - (sign.length + body.length)
  match a with
  | left => sign ++ body ++ List.replicate gap fill
  | right => List.replicate gap fill ++ sign ++ body
  | center => List.replicate (gap / 2) fill ++ sign ++ body ++ List.replicate (gap - gap / 2) fill
  | inner => sign ++ List.replicate gap fill ++ body

theorem Align.length_place (a : Align) (fill : Char) (width : Nat) (sign body : List Char) :
    (a.place fill width sign body).length = max width (sign.length + body.length) := by
  cases a <;> simp only [place, List.length_append, List.length_replicate] <;> omega

theorem Align.place_of_le (a : Align) (fill : Char) {width : Nat} {sign body : List Char}
    (h : width ≤ sign.length + body.length) : a.place fill width sign body = sign ++ body := by
  have hgap : width - (sign.length + body.length) = 0 := by omega
  cases a <;> simp [place, hgap]

namespace Form

/-- The sign that an integer shows. -/
def signText (f : Form) (n : Int) : List Char :=
  if n < 0 then ['-']
  else match f.sign with
    | some .plus => ['+']
    | some .space => [' ']
    | some .minus | none => []

/-- What stands in front of the digits: the sign, and the mark of the base in the alternate form. -/
def lead (f : Form) (n : Int) : List Char :=
  f.signText n ++ if f.alternate then f.radix.mark else []

/-- The digits of an integer. -/
def digits (f : Form) (n : Int) : List Char :=
  Expression.showBase f.radix.base f.radix.hasCapitals n.natAbs

/-- The digits with their separators. -/
def grouped (f : Form) (n : Int) : List Char :=
  match f.separator with
  | none => f.digits n
  | some sep => Spec.groupDigits sep f.radix.groupLength (f.digits n)

/-- Where the integer stands in its field. -/
def placement (f : Form) : Align :=
  match f.alignment with
  | some (_, a) => a
  | none => if f.zero then .inner else .right

/-- What the field is filled with. -/
def filling (f : Form) : Char :=
  match f.alignment with
  | some (fill, _) => fill.getD ' '
  | none => if f.zero then '0' else ' '

/-- An integer as these parts show it. -/
def shown (f : Form) (n : Int) : List Char :=
  f.placement.place f.filling f.minWidth (f.lead n) (f.grouped n)

/-! ## Digits -/

section Digits

variable {f : Form} {n : Int}

theorem digits_ne_nil : f.digits n ≠ [] := Expression.showBase_ne_nil

theorem isSome_of_mem_digits {c : Char} (h : c ∈ f.digits n) :
    (Expression.digitOf? f.radix.base c).isSome :=
  Expression.digitOf?_of_mem_showBase f.radix.base_bounds.1 f.radix.base_bounds.2 h

/-- Neither spaces nor signs nor separators are digits. -/
theorem not_mem_digits {c : Char} (hc : Expression.digitOf? 16 c = none) : c ∉ f.digits n := by
  intro h
  have hsome := isSome_of_mem_digits h
  rw [Expression.digitOf?_eq_filter f.radix.base_bounds.2, hc] at hsome
  cases hsome

theorem separator_cases {sep : Char} (h : f.separator = some sep) : sep = ',' ∨ sep = '_' := by
  obtain ⟨separator, -, rfl⟩ := Option.map_eq_some_iff.mp h
  cases separator
  · exact Or.inl rfl
  · exact Or.inr rfl

theorem separator_not_mem_digits {sep : Char} (h : f.separator = some sep) : sep ∉ f.digits n := by
  rcases separator_cases h with rfl | rfl <;> exact not_mem_digits (by decide)

theorem grouped_of_none (h : f.separator = none) : f.grouped n = f.digits n := by
  rw [grouped, h]

theorem grouped_of_some {sep : Char} (h : f.separator = some sep) :
    f.grouped n = Spec.groupDigits sep f.radix.groupLength (f.digits n) := by
  rw [grouped, h]

theorem mem_grouped {c : Char} (h : c ∈ f.grouped n) : f.separator = some c ∨ c ∈ f.digits n := by
  unfold grouped at h
  split at h
  · exact Or.inr h
  · next sep hsep =>
    rcases Spec.mem_groupDigits h with rfl | h
    · exact Or.inl hsep
    · exact Or.inr h

end Digits

/-! ## Values -/

theorem signText_spec (f : Form) (n : Int) : f.spec.signText (n < 0) = f.signText n := by
  unfold Spec.signText signText spec
  dsimp only
  by_cases hn : n < 0
  · simp [hn]
  · rcases hsign : f.sign with _ | _ | _ | _ <;> simp [hn, SignFlag.char]

theorem integerDigits_spec (f : Form) (n : Int) :
    f.spec.integerDigits f.radix.letter n.natAbs = f.grouped n := by
  have hdigits : (if f.radix.hasCapitals then (Nat.toDigits f.radix.base n.natAbs).map upper
      else Nat.toDigits f.radix.base n.natAbs) = f.digits n := by
    unfold digits Expression.showBase
    cases f.radix.hasCapitals <;> simp
  have hlength : (if f.radix.base = 10 then 3 else 4) = f.radix.groupLength := by
    cases f.radix <;> rfl
  unfold Spec.integerDigits
  rw [Radix.baseOf_letter]
  dsimp only
  rw [hdigits, hlength]
  rfl

theorem integer_spec (f : Form) (n : Int) : f.spec.integer f.radix.letter n = f.shown n := by
  unfold Spec.integer
  rw [signText_spec, integerDigits_spec, Radix.baseOf_letter]
  show f.spec.pad (f.lead n) (f.grouped n) .right = _
  unfold Spec.pad shown placement filling
  obtain ⟨alignment, sign, alternate, zero, width, grouping, radix, hdigits, hhead⟩ := f
  rcases alignment with _ | ⟨fill, a⟩
  · cases zero <;> rfl
  · cases a <;> rfl

/-- **An integer is shown as the parts say**, unless the width is none of a machine word. -/
theorem formatValue_text (style : Style) (n : Int64) (f : Form) :
    formatValue style f.text (.int n) = if f.minWidth < 0x10000000000000000 then .ok (f.shown n.toInt)
      else .error (.invalidSpec (String.ofList f.text)) := by
  have hne : f.text.isEmpty = false := by simp [text, body, ending]
  have hcarried : formatBySpec style f.spec (.int n) = .ok (f.shown n.toInt) := by
    rw [← integer_spec]
    obtain ⟨alignment, sign, alternate, zero, width, grouping, radix, hdigits, hhead⟩ := f
    cases radix <;> rfl
  unfold formatValue
  rw [hne]
  show (Spec.read f.text >>= fun spec => formatBySpec style spec (.int n)) = _
  rw [read_text]
  split
  · exact hcarried
  · rfl

/-- The only brace in a specification is one to fill up with. -/
theorem brace_not_mem_text {f : Form} (hfill : ∀ a, f.alignment ≠ some (some '\x7d', a)) :
    '\x7d' ∉ f.text := by
  intro h
  simp only [text, body, List.mem_append] at h
  rcases h with h | h | h | h
  · rcases halignment : f.alignment with _ | ⟨_ | fill, a⟩
    · rw [halignment] at h
      cases h
    · rw [halignment] at h
      cases a <;> exact absurd h (by decide)
    · rw [halignment] at h
      rcases List.mem_cons.mp h with rfl | h
      · exact hfill a halignment
      · cases a <;> exact absurd h (by decide)
  · obtain ⟨flag, -, hflag⟩ := Option.map_eq_some_iff.mp (Option.mem_toList.mp h)
    cases flag <;> cases hflag
  · split at h
    · exact absurd h (by decide)
    · cases h
  · rw [← List.mem_append, ← List.mem_append] at h
    rcases isDigit_or_mem_ending h with h | h
    · exact absurd h (by decide)
    · exact absurd (mem_ending h) (by decide)

end Form

end Worksheet.Display
