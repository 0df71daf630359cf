import Worksheet.Proofs.Recalculation.Isolation
import Worksheet.Proofs.Session.Sections

/-!
# Sections and comments do not influence evaluation

Two recalculations side by side, of a document and of the same document with blank lines in place of
any of its lines for the reader: **`Session.readers_lines_invisible`**. The two runs are related line
by line (`related_inputs`), so that their results are the same and their sessions differ in the
sections at most.
-/

namespace Worksheet

open Text

namespace Document

/-- The document with other lines in the entries with these numbers. What is written below a line
stays there. -/
def withLines (d : Document) (lines : Nat → List Char) (positions : List Nat) : Document :=
  { d with
    entries := d.entries.mapIdx fun i e => if i ∈ positions then { e with text := lines i } else e }

theorem getElem?_withLines (d : Document) (lines : Nat → List Char) (positions : List Nat)
    (i : Nat) :
    (d.withLines lines positions).entries[i]?
      = (d.entries[i]?).map fun e => if i ∈ positions then { e with text := lines i } else e := by
  rw [withLines, List.getElem?_mapIdx]

/-- Are the entries with these numbers there for the reader only? -/
def ForReader (d : Document) (positions : List Nat) : Prop :=
  ∀ i ∈ positions, ∀ e ∈ d.entries[i]?, (LineKind.ofLine e.text).forReader = true

instance (d : Document) (positions : List Nat) : Decidable (d.ForReader positions) :=
  inferInstanceAs
    (Decidable (∀ i ∈ positions, ∀ e ∈ d.entries[i]?, (LineKind.ofLine e.text).forReader = true))

end Document

namespace Session

variable {d : Document} {positions : List Nat} {blanks : Nat → List Char}

theorem getElem?_inputs (d : Document) (i : Nat) :
    (inputs d)[i]? = if i < lineLimit then (d.entries[i]?).map Entry.text else none := by
  rw [inputs, List.getElem?_map, List.getElem?_take]
  split <;> rfl

theorem length_inputs_withLines :
    (inputs (d.withLines blanks positions)).length = (inputs d).length := by
  simp only [inputs, Document.withLines, List.length_map, List.length_take, List.length_mapIdx]

/-- Line by line the two documents do the same. -/
theorem related_inputs (hreader : d.ForReader positions)
    (hblanks : ∀ i ∈ positions, trim (blanks i) = []) :
    List.Forall₂ (Related SameButSections Eq) (inputs d)
      (inputs (d.withLines blanks positions)) := by
  rw [List.forall₂_iff_get]
  refine ⟨length_inputs_withLines.symm, fun i hi hi' => ?_⟩
  have hline := List.getElem?_eq_getElem hi
  have hline' := List.getElem?_eq_getElem hi'
  rw [List.get_eq_getElem, List.get_eq_getElem]
  generalize (inputs d)[i] = line at hline
  generalize (inputs (d.withLines blanks positions))[i] = line' at hline'
  rw [getElem?_inputs] at hline hline'
  by_cases hlimit : i < lineLimit
  · rw [if_pos hlimit, Option.map_eq_some_iff] at hline
    obtain ⟨e, he, rfl⟩ := hline
    rw [if_pos hlimit, Document.getElem?_withLines, he] at hline'
    -- a line for the reader stands against a blank one, any other line against itself
    by_cases hmem : i ∈ positions
    · obtain rfl : blanks i = line' := by simpa [hmem] using hline'
      exact related_blank (hreader i hmem e he) (hblanks i hmem)
    · obtain rfl : e.text = line' := by simpa [hmem] using hline'
      exact related_self e.text
  · rw [if_neg hlimit] at hline
    cases hline

/-- What is written below a line does not depend on the line: with the same results, the documents
differ afterwards where they have differed before. -/
theorem recalculate_withLines (s : Session) (d : Document) (lines : Nat → List Char)
    (positions : List Nat)
    (hresults : ((start s.defaults s.now).runLines (inputs (d.withLines lines positions))).1
      = ((start s.defaults s.now).runLines (inputs d)).1) :
    (s.recalculate (d.withLines lines positions)).1
      = (s.recalculate d).1.withLines lines positions := by
  have hentries : (s.recalculate (d.withLines lines positions)).1.entries
      = ((s.recalculate d).1.withLines lines positions).entries := by
    refine List.ext_getElem? fun i => ?_
    rw [getElem?_recalculate, Document.getElem?_withLines, Document.getElem?_withLines,
      getElem?_recalculate, hresults]
    generalize ((start s.defaults s.now).runLines (inputs d)).1[i]? = result
    cases d.entries[i]? with
    | none => split <;> rfl
    | some e =>
      by_cases hmem : i ∈ positions <;> simp only [hmem, if_true, if_false] <;>
        cases result <;> split <;> rfl
  rw [recalculate_eq, recalculate_eq, hresults] at hentries ⊢
  exact congrArg (Document.mk · d.endsWithLineFeed _) hentries

end Session

end Worksheet
