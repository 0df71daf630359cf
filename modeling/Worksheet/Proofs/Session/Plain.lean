import Worksheet.Proofs.Library.Constructors
import Worksheet.Proofs.Line.Kinds
import Worksheet.Proofs.Session.Ending
import Worksheet.Proofs.Text.Parts

/-!
# Lines that are nothing but an expression

A line with none of the signs that a worksheet looks for is an expression without a remark that declares
nothing. What comes of it depends on the expression only, unless its value is a function, which is
shown as it is written.

* **`PlainLine.ofLine`**, **`PlainLine.splitRemark`**, **`PlainLine.read`** — how the line is read.
* **`Session.run_congr`** — two such lines that are the same expression.
-/

namespace Worksheet

open Text

/-- Without the signs that a separator begins with there is nothing to cut at. -/
theorem Text.cutPlain?_of_not_mem {sep : Separator} {signs s : List Char}
    (hsep : ∀ before c r, c ∉ signs → sep before (c :: r) = none) (hs : ∀ c ∈ s, c ∉ signs) :
    cutPlain? sep s = none := by
  have hfrom : ∀ place before, cutFrom? sep place before s = none := by
    induction s with
    | nil => exact fun _ _ => rfl
    | cons c r ih =>
      intro place before
      have hrest := ih (fun d hd => hs d (List.mem_cons_of_mem c hd)) (place.next c) (some c)
      have hhere : (if place = .outside then sep before (c :: r) else none) = none := by
        rw [hsep before c r (hs c List.mem_cons_self), ite_self]
      rw [cutFrom?, hhere]
      dsimp only
      rw [hrest]
      rfl
  exact hfrom _ _

theorem remarkMark_of_not_mem (before : Option Char) {c : Char} (r : List Char)
    (hc : c ∉ [';', '#', '\x27']) : remarkMark before (c :: r) = none := by
  unfold remarkMark
  split
  · next heq => exact absurd (by simp [(List.cons.inj heq).1]) hc
  · next heq => exact absurd (by simp [(List.cons.inj heq).1]) hc
  · next heq => exact absurd (by simp [(List.cons.inj heq).1]) hc
  · rfl

theorem assignment_of_not_mem (before : Option Char) {c : Char} (r : List Char)
    (hc : c ∉ [':', '=']) : Declaration.assignment before (c :: r) = none := by
  unfold Declaration.assignment
  split
  · next heq => exact absurd (by simp [(List.cons.inj heq).1]) hc
  · next heq => exact absurd (by simp [(List.cons.inj heq).1]) hc
  · rfl

/-- The signs that a worksheet looks for in a line. -/
def lineSigns : List Char := [';', '#', '\x27', ':', '=', '?', '|', '@', '!']

/-- A line with none of them, and with no blanks at its ends. -/
structure PlainLine (line : List Char) : Prop where
  nonempty : line ≠ []
  trimmed : trim line = line
  signs : ∀ c ∈ line, c ∉ lineSigns

namespace PlainLine

variable {line : List Char} (h : PlainLine line)

include h

theorem isNote : isNote line = false := by
  have hsub : trimStart line ⊆ line := trimStart_subset line
  rw [Worksheet.isNote, Bool.or_eq_false_iff]
  constructor
  · split
    · next r hr =>
      refine beq_false_of_ne fun hhead => h.signs '=' (hsub ?_) (by decide)
      rw [strip?_eq_some_iff.mp hr]
      exact List.mem_append_right _ (trimStart_subset r (List.mem_of_mem_head? hhead))
    · rfl
  · rw [Option.isSome_eq_false_iff, Option.isNone_iff_eq_none]
    cases hr : strip? "Function:".toList (trimStart line) with
    | none => rfl
    | some r =>
      refine absurd (by decide) (h.signs ':' (hsub ?_))
      rw [strip?_eq_some_iff.mp hr]
      exact List.mem_append_left _ (by decide)

theorem ofLine : LineKind.ofLine line = .expression line := by
  have hfirst : ∀ c r, line = c :: r → c ∉ lineSigns := by
    rintro c r rfl
    exact h.signs c List.mem_cons_self
  unfold LineKind.ofLine LineKind.ofText
  rw [h.trimmed, h.isNote, if_neg Bool.false_ne_true]
  split
  · exact absurd rfl h.nonempty
  all_goals first
    | rfl
    | next r => exact absurd (by decide) (hfirst _ r rfl)

theorem splitRemark : splitRemark line = (line, []) := by
  have hnone : cutPlain? remarkMark line = none :=
    cutPlain?_of_not_mem (fun before c r => remarkMark_of_not_mem before r) fun c hc hmem =>
      h.signs c hc (List.mem_append_left [':', '=', '?', '|', '@', '!'] hmem)
  rw [Worksheet.splitRemark, hnone, h.trimmed]

theorem read : Declaration.read line = .ok ⟨.anonymous, String.ofList line⟩ := by
  have hsub : [':', '='] ⊆ lineSigns := by decide
  have hnone : cutPlain? Declaration.assignment line = none :=
    cutPlain?_of_not_mem (fun before c r => assignment_of_not_mem before r) fun c hc hmem =>
      h.signs c hc (hsub hmem)
  unfold Declaration.read
  rw [h.trimmed]
  dsimp only
  rw [hnone]

end PlainLine

namespace Session

variable {s : Session} {line line' : List Char}

theorem run_eq_expressionEnding (h : PlainLine line) : s.run line = ended (s.expressionEnding line [] true) := by
  rw [run_eq_ending, h.ofLine, ending, h.splitRemark]

theorem valueOf_of_none {d : Declaration} (h : s.expression? d = none) : s.valueOf d = .error .malformed := by
  unfold valueOf
  rw [h]

/-- A line that is no expression changes nothing. -/
theorem run_malformed (h : PlainLine line) (hexpr : s.expression? ⟨.anonymous, String.ofList line⟩ = none) :
    s.run line = (.error (.evaluation .malformed), s) := by
  have hvalue := valueOf_of_none hexpr
  rw [run_eq_expressionEnding h, expressionEnding, if_neg h.nonempty, h.read]
  dsimp only
  rw [hvalue]
  rfl

theorem isCallable_valueOf {d : Declaration} {e : Expr} {v : Value} {c : Context} (he : s.expression? d = some e)
    (hdata : IsData (e.value s.context.scope)) (hvalue : s.valueOf d = .ok (v, c)) : v.isCallable = false := by
  unfold valueOf at hvalue
  rw [he] at hvalue
  dsimp only at hvalue
  cases hresult : e.value s.context.scope with
  | error cause =>
    rw [hresult] at hvalue
    cases hvalue
  | ok x =>
    rw [hresult] at hvalue hdata
    cases x with
    | function f => exact absurd rfl (hdata f)
    | _ =>
      cases hvalue
      rfl

/-- Two lines with the same value, which is no function, have the same result. -/
theorem run_congr_of_valueOf (h : PlainLine line) (h' : PlainLine line')
    (hsame : s.valueOf ⟨.anonymous, String.ofList line⟩ = s.valueOf ⟨.anonymous, String.ofList line'⟩)
    (hdata : ∀ v c, s.valueOf ⟨.anonymous, String.ofList line'⟩ = .ok (v, c) → v.isCallable = false) :
    s.run line = s.run line' := by
  rw [run_eq_expressionEnding h, run_eq_expressionEnding h', expressionEnding, expressionEnding,
    if_neg h.nonempty, if_neg h'.nonempty, h.read, h'.read]
  dsimp only
  rw [hsame]
  cases hvalue : s.valueOf ⟨.anonymous, String.ofList line'⟩ with
  | error cause => rfl
  | ok p =>
    obtain ⟨v, c⟩ := p
    have hcallable := hdata v c hvalue
    have hnote : ∀ template, s.noteOf line template v = s.noteOf line' template v := by
      intro template
      unfold noteOf
      rw [hcallable]
      rfl
    dsimp only
    rw [hnote]
    rfl

/-- **Two lines that are the same expression** have the same result, and leave the same session behind. -/
theorem run_congr (h : PlainLine line) (h' : PlainLine line') {e : Expr}
    (he : s.expression? ⟨.anonymous, String.ofList line⟩ = some e)
    (he' : s.expression? ⟨.anonymous, String.ofList line'⟩ = some e)
    (hdata : IsData (e.value s.context.scope)) : s.run line = s.run line' := by
  have hsame : s.valueOf ⟨.anonymous, String.ofList line⟩ = s.valueOf ⟨.anonymous, String.ofList line'⟩ := by
    unfold valueOf
    rw [he, he']
  exact run_congr_of_valueOf h h' hsame fun v c => isCallable_valueOf he' hdata

end Session

end Worksheet
