import Mathlib.Data.List.Chain
import Worksheet.Document
import Worksheet.Proofs.Line.Kinds

/-!
# How lines are grouped

When a worksheet is read, a line that looks like the result of the line above it goes to the entry
of that line. This module says which entries come out of it:

* **`Entry.Readable`** — an entry whose lines would be grouped as they are: a line, a line with a
  note, or a directive with the lines of a table.
* **`Entry.Readable.of_absorb?`** — the step lemma: an entry that takes in a line stays readable and
  has this line behind its own.
* **`Document.group_eq_iff`** — the headline: `group` gives the one sequence of readable entries
  with these lines in which no entry would take in the line of the next one.
-/

namespace Worksheet

open Text

/-! ## Lines that look like results -/

theorem ne_nil_of_isNote {line : List Char} (h : isNote line = true) : line ≠ [] := by
  rintro rfl
  exact absurd h (by decide)

namespace Entry

theorem isNote_indent (a : Note) : isNote (indent ++ a.text) = true := by
  cases a <;> rfl

/-! ## Entries that are read as they are -/

/-- An entry whose lines, read again, make the same entry. -/
inductive Readable : Entry → Prop where
  | bare (line : List Char) : Readable (.ofLine line)
  | noted {line note : List Char} (hline : trim line ≠ []) (hnote : isNote note = true) :
      Readable ⟨line, some note, []⟩
  | tabled {line : List Char} {table : List (List Char)}
      (hline : (trimStart line).head? = some '!')
      (htable : ∀ l ∈ table, (trimStart l).head? = some '|') :
      Readable ⟨line, none, table⟩

theorem acceptsNote_iff {e : Entry} :
    e.acceptsNote = true ↔ trim e.text ≠ [] ∧ e.note = none ∧ e.table = [] := by
  simp [acceptsNote, and_assoc]

theorem acceptsTableLine_iff {e : Entry} :
    e.acceptsTableLine = true ↔ (trimStart e.text).head? = some '!' ∧ e.note = none := by
  simp [acceptsTableLine]

theorem Readable.of_absorb? {e e' : Entry} {line : List Char} (h : e.Readable)
    (habsorb : e.absorb? line = some e') :
    e'.Readable ∧ e'.text = e.text ∧ e'.lines = e.lines ++ [line] := by
  unfold absorb? at habsorb
  split at habsorb
  · -- a note, which only a line with nothing below it takes in
    next hnote =>
    rw [Bool.and_eq_true, acceptsNote_iff] at hnote
    obtain ⟨hline, htext, hnone, hnil⟩ := hnote
    obtain ⟨text, note, table⟩ := e
    obtain ⟨rfl, rfl⟩ : note = none ∧ table = [] := ⟨hnone, hnil⟩
    cases habsorb
    exact ⟨.noted htext hline, rfl, rfl⟩
  · split at habsorb
    · -- a line of a table, which goes below those that the directive has
      next htable =>
      rw [Bool.and_eq_true, acceptsTableLine_iff, beq_iff_eq] at htable
      obtain ⟨hline, hdirective, hnone⟩ := htable
      cases habsorb
      have hbars : ∀ l ∈ e.table, (trimStart l).head? = some '|' := by
        cases h with
        | bare text => simp [ofLine]
        | noted htext hnote => cases hnone
        | tabled hline htable => exact htable
      obtain ⟨text, note, table⟩ := e
      obtain rfl : note = none := hnone
      refine ⟨.tabled hdirective fun l hl => ?_, rfl, ?_⟩
      · rcases List.mem_append.mp hl with hl | hl
        · exact hbars l hl
        · rw [List.mem_singleton.mp hl]
          exact hline
      · simp [lines]
    · cases habsorb

/-- A readable entry ends with an empty line only if it is one. -/
theorem Readable.getLast?_lines_iff {e : Entry} (h : e.Readable) :
    e.lines.getLast? = some [] ↔ e.text = [] := by
  cases h with
  | bare line => simp [lines, ofLine]
  | @noted line note hline hnote =>
    constructor
    · intro hlast
      exact absurd (by simpa [lines] using hlast) (ne_nil_of_isNote hnote)
    · rintro rfl
      exact absurd (by decide) hline
  | @tabled line table hline htable =>
    constructor
    · intro hlast
      rcases List.eq_nil_or_concat table with rfl | ⟨init, last, rfl⟩
      · simpa [lines] using hlast
      · have hbar := htable last (by simp)
        have hlines : lines ⟨line, none, init.concat last⟩ = (line :: init) ++ [last] := by
          simp [lines]
        rw [hlines, List.getLast?_concat] at hlast
        cases hlast
        cases hbar
    · rintro rfl
      cases hline

theorem getLast?_flatMap_lines_iff {es : List Entry} (h : ∀ e ∈ es, e.Readable) :
    (es.flatMap lines).getLast? = some [] ↔ (es.map text).getLast? = some [] := by
  rcases List.eq_nil_or_concat es with rfl | ⟨init, e, rfl⟩
  · rfl
  · have hne : e.lines ≠ [] := by simp [lines]
    rw [List.concat_eq_append, List.flatMap_append, List.flatMap_singleton,
      List.getLast?_append_of_ne_nil _ hne, (h e (by simp)).getLast?_lines_iff, List.map_append,
      List.map_singleton, List.getLast?_concat, Option.some.injEq]

end Entry

namespace Document

open Entry

/-! ## Grouping -/

/-- The lines of a table go to their directive. -/
theorem groupFrom_table {line : List Char} (hline : (trimStart line).head? = some '!')
    {table : List (List Char)} (htable : ∀ l ∈ table, (trimStart l).head? = some '|')
    (before rest : List (List Char)) :
    groupFrom ⟨line, none, before⟩ (table ++ rest)
      = groupFrom ⟨line, none, before ++ table⟩ rest := by
  induction table generalizing before with
  | nil => rw [List.nil_append, List.append_nil]
  | cons l table ih =>
    have hbar := htable l List.mem_cons_self
    have habsorb : (⟨line, none, before⟩ : Entry).absorb? l = some ⟨line, none, before ++ [l]⟩ := by
      simp [absorb?, isNote_of_bar hbar, hbar, acceptsTableLine, hline]
    rw [List.cons_append, groupFrom, habsorb]
    dsimp only
    rw [ih (fun l' hl' => htable l' (List.mem_cons_of_mem l hl')), List.append_assoc]
    rfl

/-- The lines of a readable entry are grouped to this entry. -/
theorem groupFrom_of_readable {e : Entry} (h : e.Readable) (rest : List (List Char)) :
    groupFrom (.ofLine e.text) (e.note.toList ++ e.table ++ rest) = groupFrom e rest := by
  cases h with
  | bare line => rfl
  | @noted line note hline hnote =>
    have habsorb : (Entry.ofLine line).absorb? note = some ⟨line, some note, []⟩ := by
      simp [absorb?, hnote, acceptsNote, ofLine, hline]
    show groupFrom (Entry.ofLine line) (note :: rest) = _
    rw [groupFrom, habsorb]
  | tabled hline htable => exact groupFrom_table hline htable [] rest

/-- No entry would take in the line of the next one. -/
def Apart (es : List Entry) : Prop := es.IsChain fun e e' => e.absorb? e'.text = none

instance (es : List Entry) : Decidable (Apart es) := by unfold Apart; infer_instance

theorem groupFrom_flatMap_lines {e : Entry} {es : List Entry} (hreadable : ∀ e' ∈ es, e'.Readable)
    (happart : Apart (e :: es)) : groupFrom e (es.flatMap Entry.lines) = e :: es := by
  induction es generalizing e with
  | nil => rfl
  | cons e' es ih =>
    obtain ⟨hnext, hrest⟩ := List.isChain_cons_cons.mp happart
    rw [List.flatMap_cons, Entry.lines, List.cons_append, List.cons_append, groupFrom, hnext]
    dsimp only
    rw [groupFrom_of_readable (hreadable e' List.mem_cons_self),
      ih (fun e'' he'' => hreadable e'' (List.mem_cons_of_mem e' he'')) hrest]

theorem groupFrom_spec {e : Entry} (h : e.Readable) (ls : List (List Char)) :
    (groupFrom e ls).flatMap Entry.lines = e.lines ++ ls ∧
    (∀ e' ∈ groupFrom e ls, e'.Readable) ∧ Apart (groupFrom e ls) ∧
    (groupFrom e ls).head?.map Entry.text = some e.text := by
  induction ls generalizing e with
  | nil =>
    refine ⟨by simp [groupFrom], fun e' he' => ?_, List.isChain_singleton e, rfl⟩
    rw [groupFrom, List.mem_singleton] at he'
    rw [he']
    exact h
  | cons line ls ih =>
    rw [groupFrom]
    cases habsorb : e.absorb? line with
    | some e' =>
      obtain ⟨hreadable, htext, hlines⟩ := h.of_absorb? habsorb
      obtain ⟨hall, hreadables, happart, hhead⟩ := ih hreadable
      -- the entry goes on with one line more
      refine ⟨?_, hreadables, happart, by rw [hhead, htext]⟩
      rw [hall, hlines, List.append_assoc]
      rfl
    | none =>
      -- the entry ends here and the line begins another one
      obtain ⟨hall, hreadables, happart, hhead⟩ := ih (.bare line)
      refine ⟨?_, ?_, ?_, rfl⟩
      · rw [List.flatMap_cons, hall]
        rfl
      · intro e' he'
        rcases List.mem_cons.mp he' with rfl | he'
        · exact h
        · exact hreadables e' he'
      · refine List.isChain_cons.mpr ⟨fun next hnext => ?_, happart⟩
        -- the next entry begins with the line that was not taken in
        have htext : next.text = line := by
          rw [Option.mem_def.mp hnext] at hhead
          exact Option.some.inj hhead
        rw [htext]
        exact habsorb

/-- **What grouping is.** The entries of lines are the readable entries, apart from each other,
that have these lines. -/
theorem group_eq_iff {ls : List (List Char)} {es : List Entry} :
    group ls = es ↔ es.flatMap Entry.lines = ls ∧ (∀ e ∈ es, e.Readable) ∧ Apart es := by
  constructor
  · rintro rfl
    cases ls with
    | nil => exact ⟨rfl, fun e he => absurd he List.not_mem_nil, List.isChain_nil⟩
    | cons line ls =>
      obtain ⟨hall, hreadables, happart, -⟩ := groupFrom_spec (.bare line) ls
      exact ⟨hall, hreadables, happart⟩
  · rintro ⟨rfl, hreadables, happart⟩
    cases es with
    | nil => rfl
    | cons e es =>
      rw [List.flatMap_cons, Entry.lines, List.cons_append, List.cons_append, group,
        groupFrom_of_readable (hreadables e List.mem_cons_self)]
      exact groupFrom_flatMap_lines
        (fun e' he' => hreadables e' (List.mem_cons_of_mem e he')) happart

end Document

end Worksheet
