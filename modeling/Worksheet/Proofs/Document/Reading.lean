import Worksheet.Proofs.Document.Grouping
import Worksheet.Proofs.Text.Lines

/-!
# Documents that are read as they were written

A document is written with the results below its lines. Whether it is the same when it is read again
depends on its lines only.

* **`Document.text_eq_joinWith`** — the text of a document as joined lines.
* **`Document.Legible`** — what a reader needs: lines that are not cut, tables told by their bars,
  and entries that keep apart.
* **`Document.ofText_text`** — the headline: such a document is read as it was written.
-/

namespace Worksheet

open Text

namespace Document

/-! ## Texts that are read as they were written -/

/-- A reader can tell the lines of the document and their results apart. -/
structure Legible (d : Document) : Prop where
  plain : ∀ line ∈ d.entries.flatMap Entry.lines, Plain line
  bars : ∀ e ∈ d.entries, ∀ line ∈ e.table, (trimStart line).head? = some '|'
  apart : Apart d.entries

instance (d : Document) : Decidable d.Legible :=
  decidable_of_iff
    ((∀ line ∈ d.entries.flatMap Entry.lines, Plain line) ∧
      (∀ e ∈ d.entries, ∀ line ∈ e.table, (trimStart line).head? = some '|') ∧ Apart d.entries)
    ⟨fun h => ⟨h.1, h.2.1, h.2.2⟩, fun h => ⟨h.plain, h.bars, h.apart⟩⟩

/-- The lines of the text of a document, with an empty one behind a line feed at the end. -/
def textLines (d : Document) : List (List Char) :=
  let ls := d.entries.flatMap Entry.lines
  if ls = [] ∨ ls = [[]] then [[]] else if d.endsWithLineFeed then ls ++ [[]] else ls

theorem textLines_ne_nil (d : Document) : d.textLines ≠ [] := by
  unfold textLines
  dsimp only
  split
  · simp
  · next h =>
    split
    · simp
    · exact fun hnil => h (Or.inl hnil)

theorem text_eq_joinWith (d : Document) : d.text = joinWith ['\n'] d.textLines := by
  unfold text textLines
  generalize d.entries.flatMap Entry.lines = ls
  dsimp only
  by_cases hnil : ls = [] ∨ ls = [[]]
  · have hempty := (joinWith_eq_nil_iff '\n').mpr hnil
    rw [if_pos hnil, hempty]
    simp [joinWith]
  · have hne : joinWith ['\n'] ls ≠ [] := fun h => hnil ((joinWith_eq_nil_iff '\n').mp h)
    rw [if_neg hnil]
    cases d.endsWithLineFeed with
    | false => rfl
    | true =>
      rw [if_pos rfl, joinWith_concat '\n' (fun h => hnil (Or.inl h)), if_pos (by simp [hne])]

/-- The lines are read as they are, and so is their end unless the last line is an empty one. -/
theorem lines_text {d : Document} (hplain : ∀ l ∈ d.entries.flatMap Entry.lines, Plain l)
    (hlast : (d.entries.flatMap Entry.lines).getLast? = some [] → d.endsWithLineFeed = true)
    (hne : d.textLines ≠ [[]]) :
    lines d.text = d.entries.flatMap Entry.lines ∧
      Text.endsWithLineFeed d.text = d.endsWithLineFeed := by
  rw [text_eq_joinWith]
  unfold textLines at hne ⊢
  generalize d.entries.flatMap Entry.lines = ls at hplain hlast hne ⊢
  dsimp only at hne ⊢
  split at hne
  · exact absurd rfl hne
  next hnil =>
  rw [if_neg hnil]
  have hls : ls ≠ [] := fun h => hnil (Or.inl h)
  cases hend : d.endsWithLineFeed with
  | true =>
    -- the empty line behind the last line feed is none
    rw [if_pos rfl, lines_joinWith hplain, endsWithLineFeed_joinWith hls]
    exact ⟨List.append_nil ls, rfl⟩
  | false =>
    -- the last line has no end, which only an empty line would hide
    obtain ⟨init, last, rfl⟩ : ∃ init last, ls = init ++ [last] :=
      ⟨ls.dropLast, ls.getLast hls, (List.dropLast_append_getLast hls).symm⟩
    have hlastne : last ≠ [] := by
      rintro rfl
      rw [hlast (by simp)] at hend
      cases hend
    have hlf : '\n' ∉ last := (hplain last (by simp)).1
    have hopen : Text.endsWithLineFeed last = false := by
      rw [Text.endsWithLineFeed, beq_eq_false_iff_ne]
      exact fun h => hlf (List.mem_of_getLast? h)
    rw [if_neg (by simp), lines_joinWith fun l hl => hplain l (List.mem_append_left _ hl),
      lines_of_not_mem hlf, if_neg hlastne]
    refine ⟨rfl, ?_⟩
    by_cases hinit : init = []
    · subst hinit
      exact hopen
    · rw [endsWithLineFeed_joinWith hinit, hopen]
      simpa using hlastne

theorem ofText_text {d : Document} (hlegible : d.Legible) (hreadable : ∀ e ∈ d.entries, e.Readable)
    (hlast : (d.entries.flatMap Entry.lines).getLast? = some [] → d.endsWithLineFeed = true)
    (hne : d.textLines ≠ [[]]) : ofText d.text = d.clearErrors := by
  obtain ⟨hlines, hend⟩ := lines_text hlegible.plain hlast hne
  rw [ofText, hlines, hend, group_eq_iff.mpr ⟨rfl, hreadable, hlegible.apart⟩]
  rfl

end Document

end Worksheet
