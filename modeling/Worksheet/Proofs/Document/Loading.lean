import Worksheet.Proofs.Document.Grouping

/-!
# What reading a worksheet keeps

Reading cuts a text into lines and puts what looks like a result below the line above it. The tests it
uses are its own; said with the kinds of lines they come to this:

* **`Entry.readable_iff`** — below a line stands one note, or the lines of a table if the line is a
  directive.
* **`Entry.absorb?_eq_none_iff`** — what a line must not be, to begin an entry of its own.
* **`Document.entries_ofText_eq_iff`** — the headline: the entries of a text are the one way to put
  all of its lines, in order and each once, into entries of this kind that leave no result to the
  next entry.
-/

namespace Worksheet

open Text

namespace Entry

/-- Only results stand below the line: one note below a line that is not blank, or the lines of a
table below a directive. -/
def OnlyResults (e : Entry) : Prop :=
  (∀ line ∈ e.note, LineKind.ofLine line = .note ∧ trim e.text ≠ [] ∧ e.table = []) ∧
  (∀ line ∈ e.table, LineKind.ofLine line = .tableLine ∧
    (LineKind.ofLine e.text).isDirective = true ∧ e.note = none)

/-- If the line is a note or a line of a table, it could not stand below the entry. -/
def Refuses (e : Entry) (line : List Char) : Prop :=
  (LineKind.ofLine line = .note → trim e.text = [] ∨ e.note ≠ none ∨ e.table ≠ []) ∧
  (LineKind.ofLine line = .tableLine →
    (LineKind.ofLine e.text).isDirective = false ∨ e.note ≠ none)

theorem readable_iff {e : Entry} : e.Readable ↔ e.OnlyResults := by
  constructor
  · intro h
    cases h with
    | bare line => exact ⟨by simp [ofLine], by simp [ofLine]⟩
    | noted hline hnote =>
      refine ⟨fun line hmem => ?_, by simp⟩
      obtain rfl := Option.some.inj hmem
      exact ⟨LineKind.ofLine_eq_note_iff.mpr hnote, hline, rfl⟩
    | tabled hline htable =>
      refine ⟨by simp, fun line hmem => ?_⟩
      exact ⟨LineKind.ofLine_eq_tableLine_iff.mpr (htable line hmem),
        LineKind.isDirective_ofLine_iff.mpr hline, rfl⟩
  · rintro ⟨hnotes, htables⟩
    obtain ⟨text, note, table⟩ := e
    cases note with
    | some line =>
      obtain ⟨hnote, htext, rfl⟩ := hnotes line rfl
      exact .noted htext (LineKind.ofLine_eq_note_iff.mp hnote)
    | none =>
      cases table with
      | nil => exact .bare text
      | cons line table =>
        -- any line of the table shows that the line above is a directive
        have hdirective := (htables line List.mem_cons_self).2.1
        exact .tabled (LineKind.isDirective_ofLine_iff.mp hdirective) fun l hl =>
          LineKind.ofLine_eq_tableLine_iff.mp (htables l hl).1

theorem absorb?_eq_none_iff {e : Entry} {line : List Char} :
    e.absorb? line = none ↔ e.Refuses line := by
  have hnote : (isNote line && e.acceptsNote) = false ↔
      (LineKind.ofLine line = .note → trim e.text = [] ∨ e.note ≠ none ∨ e.table ≠ []) := by
    rw [Bool.and_eq_false_imp, ← LineKind.ofLine_eq_note_iff, ← Bool.not_eq_true, acceptsNote_iff]
    tauto
  have htable : ((trimStart line).head? == some '|' && e.acceptsTableLine) = false ↔
      (LineKind.ofLine line = .tableLine →
        (LineKind.ofLine e.text).isDirective = false ∨ e.note ≠ none) := by
    rw [Bool.and_eq_false_imp, beq_iff_eq, ← LineKind.ofLine_eq_tableLine_iff, ← Bool.not_eq_true,
      acceptsTableLine_iff, ← LineKind.isDirective_ofLine_iff, ← Bool.not_eq_true]
    tauto
  rw [Refuses, ← hnote, ← htable, absorb?]
  split_ifs <;> simp [*]

end Entry

namespace Document

/-- **Reading a worksheet loses nothing and groups results only.** The entries of a text, their lines
put in a row, are the lines of the text; only results stand below a line of an entry; and a result
begins an entry of its own only if the entry in front of it could not take it. No other entries are
like this. -/
theorem entries_ofText_eq_iff {s : List Char} {es : List Entry} :
    (ofText s).entries = es ↔
      es.flatMap Entry.lines = Text.lines s ∧ (∀ e ∈ es, e.OnlyResults) ∧
      es.IsChain fun e e' => e.Refuses e'.text := by
  have hchain : es.IsChain (fun e e' => e.Refuses e'.text) ↔ Apart es := by
    simp only [Apart, Entry.absorb?_eq_none_iff]
  simp only [ofText, group_eq_iff, Entry.readable_iff, hchain]

/-- A note below a line, a table below a directive, and a note that nothing can take. -/
example : (ofText "1\n\tAnswer = 1\n!x\n| x |\n\nAnswer = 3\n".toList).entries
    = [⟨['1'], some "\tAnswer = 1".toList, []⟩, ⟨"!x".toList, none, ["| x |".toList]⟩,
      ⟨[], none, []⟩, ⟨"Answer = 3".toList, none, []⟩] := by decide +kernel

end Document

end Worksheet
