import Worksheet.Proofs.Context.SingleLine
import Worksheet.Proofs.Session.Stored

/-!
# A worksheet of single lines

A session that has run lines without line feeds keeps none: `Step.singleLine` is one line,
`singleLine_runLines` a run of them.
-/

namespace Worksheet.Session

open Text

variable {s : Session}

theorem singleLine_of_valueOf {d : Declaration} {v : Value} {c : Context}
    (hs : s.context.SingleLine) (hvalue : s.valueOf d = .ok (v, c)) : c.SingleLine := by
  rcases valueOf_context hvalue with rfl | ⟨e, rfl⟩
  · exact hs
  · exact hs.define e

/-- What a line stores is named by the line, and has its remark and template from it. -/
theorem singleLine_itemOf {c : Context} {d : Declaration} {v : Value} {text remark : List Char}
    (hc : c.SingleLine) (hread : Declaration.read text = .ok d) (hremark : '\n' ∉ remark) :
    (itemOf c d v remark).SingleLine := by
  obtain ⟨hrest, htemplate⟩ := splitTemplate_subset remark
  refine hc.item v (fun n hn hmem => ?_) ?_ ?_
  · have hchar := isNameChar_of_mem_identifier (isIdentifier_of_read hread hn) _ hmem
    exact absurd hchar (by decide)
  · rw [String.toList_ofList]
    exact fun hmem => hremark (hrest hmem)
  · rw [String.toList_ofList]
    exact fun hmem => hremark (htemplate hmem)

theorem ExpressionStep.singleLine {expr remark : List Char} {isAnswer : Bool} {r : Ended}
    (h : ExpressionStep s expr remark isAnswer r) (hs : s.context.SingleLine)
    (hremark : '\n' ∉ remark) : (ended r).2.context.SingleLine := by
  cases h with
  | stored hne hread hvalue hnote =>
    have hc := singleLine_of_valueOf hs hvalue
    exact hc.store (singleLine_itemOf hc hread hremark) isAnswer
  | _ => exact hs

theorem Step.singleLine {kind : LineKind} {r : Ended} (h : Step s kind r)
    (hs : s.context.SingleLine) (hparts : ∀ part ∈ kind.parts, '\n' ∉ part) :
    (ended r).2.context.SingleLine := by
  have hremark : ∀ {text : List Char}, '\n' ∉ text → '\n' ∉ (splitRemark text).2 :=
    fun {text} htext hmem => htext ((splitRemark_subset text).2 hmem)
  cases h with
  | heading name => exact hs.startSection _
  | stack name remark =>
    refine hs.startStack _ _ ?_
    rw [String.toList_ofList]
    exact fun hmem => hparts remark (by simp [LineKind.parts]) ((splitTemplate_subset remark).2 hmem)
  | silent h => exact h.singleLine hs (hremark (hparts _ (by simp [LineKind.parts])))
  | expression h => exact h.singleLine hs (hremark (hparts _ (by simp [LineKind.parts])))
  | _ => exact hs

theorem singleLine_run (hs : s.context.SingleLine) {line : List Char} (hline : '\n' ∉ line) :
    (s.run line).2.context.SingleLine := by
  rw [run_eq_ended]
  exact (step_process s line).singleLine hs
    fun part hpart hmem => hline (LineKind.subset_of_mem_parts hpart hmem)

theorem singleLine_runLines (hs : s.context.SingleLine) {lines : List (List Char)}
    (hlines : ∀ line ∈ lines, '\n' ∉ line) : (s.runLines lines).2.context.SingleLine :=
  runLines_invariant (P := fun s => s.context.SingleLine)
    (fun line hline _ hs => singleLine_run hs (hlines line hline)) hs

end Worksheet.Session
