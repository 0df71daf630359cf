import Worksheet.Proofs.Document.Saving
import Worksheet.Proofs.Document.Reading

/-!
# The numbers of lines

The number of the line of an entry is counted by the heights of the entries in front of it, while the
text is written by joining their lines. Both agree, whatever has been written below the lines and
taken away again.

* **`Edit`**, **`Document.edit`** — what is written below a line, or taken away.
* **`Document.Unbroken`** — documents whose lines hold no line feed; **`Unbroken.edit`** is the step
  lemma, **`Unbroken.foldl_edit`** what follows for a run.
* **`Unbroken.splitAt_text`** — the lines of such a document are found in its text.
* **`Document.lineNumber_spec`** — the headline: the numbered line is the one of the entry.
-/

namespace Worksheet

open Text

/-! ## Edits -/

/-- A change of what stands below the line of an entry. -/
inductive Edit where
  /-- Another note. -/
  | writeNote (position : Nat) (a : Note)
  /-- No note. -/
  | eraseNote (position : Nat)
  /-- Another table. -/
  | writeTable (position : Nat) (table : List Char)
  /-- No table. -/
  | eraseTable (position : Nat)

/-- Is a note that is written one line? Tables are cut into lines in any case. -/
def Edit.SingleLine : Edit → Prop
  | writeNote _ a => '\n' ∉ a.text
  | eraseNote _ | writeTable _ _ | eraseTable _ => True

instance (edit : Edit) : Decidable edit.SingleLine := by
  cases edit <;> unfold Edit.SingleLine <;> infer_instance

namespace Entry

@[simp] theorem length_lines (e : Entry) : e.lines.length = e.height := by
  unfold lines height
  cases e.note <;> simp <;> omega

/-- No line of the entry holds a line feed. -/
def Unbroken (e : Entry) : Prop := ∀ line ∈ e.lines, '\n' ∉ line

theorem unbroken_iff {e : Entry} : e.Unbroken ↔
    '\n' ∉ e.text ∧ (∀ line ∈ e.note, '\n' ∉ line) ∧ ∀ line ∈ e.table, '\n' ∉ line := by
  simp [Unbroken, lines, or_imp, forall_and]

namespace Unbroken

variable {e : Entry}

theorem writeNote (h : e.Unbroken) {a : Note} (ha : '\n' ∉ a.text) : (e.writeNote a).Unbroken := by
  obtain ⟨htext, -, htable⟩ := unbroken_iff.mp h
  refine unbroken_iff.mpr ⟨htext, fun line hline => ?_, htable⟩
  obtain rfl : indent ++ a.text = line := Option.some.inj hline
  simpa [indent] using ha

theorem eraseNote (h : e.Unbroken) : e.eraseNote.Unbroken := by
  obtain ⟨htext, -, htable⟩ := unbroken_iff.mp h
  exact unbroken_iff.mpr ⟨htext, nofun, htable⟩

theorem writeTable (h : e.Unbroken) (table : List Char) : (e.writeTable table).Unbroken := by
  obtain ⟨htext, hnote, -⟩ := unbroken_iff.mp h
  exact unbroken_iff.mpr ⟨htext, hnote, fun line hline => not_mem_of_mem_lines hline⟩

theorem eraseTable (h : e.Unbroken) : e.eraseTable.Unbroken := by
  obtain ⟨htext, hnote, -⟩ := unbroken_iff.mp h
  exact unbroken_iff.mpr ⟨htext, hnote, nofun⟩

end Unbroken

end Entry

namespace Document

/-- Carries an edit out; there may be no entry at its position. -/
def edit (d : Document) : Edit → Document
  | .writeNote position a => d.change position (·.writeNote a)
  | .eraseNote position => d.change position (·.eraseNote)
  | .writeTable position table => d.change position (·.writeTable table)
  | .eraseTable position => d.change position (·.eraseTable)

/-! ## What edits keep -/

/-- No line of the document holds a line feed. -/
def Unbroken (d : Document) : Prop := ∀ e ∈ d.entries, e.Unbroken

theorem unbroken_ofText (s : List Char) : (ofText s).Unbroken := by
  intro e he line hline
  have hlines : (ofText s).entries.flatMap Entry.lines = lines s := (group_eq_iff.mp rfl).1
  exact not_mem_of_mem_lines (hlines ▸ List.mem_flatMap.mpr ⟨e, he, hline⟩)

theorem Unbroken.change {d : Document} (h : d.Unbroken) (position : Nat) {f : Entry → Entry}
    (hf : ∀ e : Entry, e.Unbroken → (f e).Unbroken) : (d.change position f).Unbroken := by
  intro e he
  obtain ⟨i, hi⟩ := List.mem_iff_getElem?.mp he
  rw [Document.change, List.getElem?_modify] at hi
  obtain ⟨e', he', rfl⟩ := Option.map_eq_some_iff.mp hi
  have hkept := h e' (List.mem_of_getElem? he')
  split
  · exact hf e' hkept
  · exact hkept

theorem Unbroken.edit {d : Document} (h : d.Unbroken) {edit : Edit} (hedit : edit.SingleLine) :
    (d.edit edit).Unbroken := by
  cases edit with
  | writeNote position a => exact h.change position fun e he => he.writeNote hedit
  | eraseNote position => exact h.change position fun e he => he.eraseNote
  | writeTable position table => exact h.change position fun e he => he.writeTable table
  | eraseTable position => exact h.change position fun e he => he.eraseTable

theorem Unbroken.foldl_edit {d : Document} (h : d.Unbroken) {edits : List Edit}
    (hedits : ∀ edit ∈ edits, edit.SingleLine) : (edits.foldl Document.edit d).Unbroken := by
  induction edits generalizing d with
  | nil => exact h
  | cons edit edits ih =>
    exact ih (h.edit (hedits edit List.mem_cons_self))
      fun edit' hedit' => hedits edit' (List.mem_cons_of_mem edit hedit')

theorem map_text_change (d : Document) (position : Nat) {f : Entry → Entry}
    (hf : ∀ e : Entry, (f e).text = e.text) :
    (d.change position f).entries.map Entry.text = d.entries.map Entry.text := by
  refine List.ext_getElem? fun i => ?_
  rw [change, List.getElem?_map, List.getElem?_map, List.getElem?_modify]
  cases d.entries[i]? with
  | none => rfl
  | some e =>
    simp only [Option.map_eq_map, Option.map_some]
    split
    · rw [hf e]
    · rfl

/-- What is written below a line leaves the line itself alone. -/
theorem map_text_edit (d : Document) (edit : Edit) :
    (d.edit edit).entries.map Entry.text = d.entries.map Entry.text := by
  cases edit <;> exact d.map_text_change _ fun _ => rfl

theorem map_text_foldl_edit (d : Document) (edits : List Edit) :
    (edits.foldl edit d).entries.map Entry.text = d.entries.map Entry.text := by
  induction edits generalizing d with
  | nil => rfl
  | cons edit edits ih => rw [List.foldl_cons, ih, map_text_edit]

/-! ## Lines of the text -/

theorem lineNumber_eq (d : Document) (position : Nat) :
    d.lineNumber position = ((d.entries.take position).flatMap Entry.lines).length + 1 := by
  have hcount : ∀ (es : List Entry) (n : Nat),
      es.foldl (fun n e => n + e.height) n = n + (es.flatMap Entry.lines).length := by
    intro es
    induction es with
    | nil => exact fun n => rfl
    | cons e es ih =>
      intro n
      rw [List.foldl_cons, ih, List.flatMap_cons, List.length_append, Entry.length_lines, Nat.add_assoc]
  rw [lineNumber, hcount, Nat.add_comm]

/-- Between its line feeds the text of a document has the lines of the entries, and behind them at
most the empty one that a line feed at the end leaves. -/
theorem Unbroken.splitAt_text {d : Document} (h : d.Unbroken) (hne : d.entries ≠ []) :
    ∃ rest, splitAt (· == '\n') d.text = d.entries.flatMap Entry.lines ++ rest ∧
      (rest = [] ∨ rest = [[]]) := by
  have hunbroken : ∀ line ∈ d.entries.flatMap Entry.lines, '\n' ∉ line := by
    intro line hline
    obtain ⟨e, he, hline⟩ := List.mem_flatMap.mp hline
    exact h e he line hline
  have hlines : d.entries.flatMap Entry.lines ≠ [] := by
    intro hnil
    obtain ⟨e, he⟩ := List.exists_mem_of_ne_nil _ hne
    have hempty := List.flatMap_eq_nil_iff.mp hnil e he
    cases hempty
  rw [text_eq_joinWith, splitAt_joinWith _ d.textLines_ne_nil]
  unfold textLines
  generalize d.entries.flatMap Entry.lines = ls at hunbroken hlines ⊢
  dsimp only
  split
  · next hblank =>
    -- one empty line is written as nothing, and nothing is one empty line
    rw [hblank.resolve_left hlines]
    exact ⟨[], rfl, Or.inl rfl⟩
  · split
    · rw [List.flatMap_append, flatMap_splitAt_of_not_mem hunbroken]
      exact ⟨[[]], rfl, Or.inr rfl⟩
    · rw [flatMap_splitAt_of_not_mem hunbroken]
      exact ⟨[], (List.append_nil ls).symm, Or.inl rfl⟩

/-- **The numbers of lines are right.** Whatever has been written below the lines of a text and taken
away again, the number of an entry is the place of its own line in the text: the lines in front
of that line are those of the entries in front of this one. And the line is the one that was read. -/
theorem lineNumber_spec {s : List Char} {edits : List Edit}
    (hedits : ∀ edit ∈ edits, edit.SingleLine) {position : Nat} {e : Entry}
    (he : (edits.foldl edit (ofText s)).entries[position]? = some e) :
    let d := edits.foldl edit (ofText s)
    (∃ before after, splitAt (· == '\n') d.text = before ++ e.text :: after ∧
      before = (d.entries.take position).flatMap Entry.lines ∧
      d.lineNumber position = before.length + 1) ∧
    ((ofText s).entries.map Entry.text)[position]? = some e.text := by
  intro d
  have hunbroken : d.Unbroken := (unbroken_ofText s).foldl_edit hedits
  obtain ⟨hlt, hget⟩ : ∃ hlt : position < d.entries.length, d.entries[position] = e :=
    List.getElem?_eq_some_iff.mp he
  have hne : d.entries ≠ [] := List.ne_nil_of_length_pos (by omega)
  -- the lines of the entry stand between those of its neighbours
  have hlines : d.entries.flatMap Entry.lines = (d.entries.take position).flatMap Entry.lines ++
      e.text :: (e.note.toList ++ e.table ++ (d.entries.drop (position + 1)).flatMap Entry.lines) := by
    nth_rewrite 1 [← List.take_append_drop position d.entries]
    rw [List.drop_eq_getElem_cons hlt, hget, List.flatMap_append, List.flatMap_cons]
    simp [Entry.lines]
  obtain ⟨rest, hsplit, -⟩ := hunbroken.splitAt_text hne
  rw [hlines, List.append_assoc, List.cons_append] at hsplit
  refine ⟨⟨_, _, hsplit, rfl, d.lineNumber_eq position⟩, ?_⟩
  rw [← map_text_foldl_edit (ofText s) edits, List.getElem?_map, he]
  rfl

/-- Tables and notes that come and go, below lines that look alike. -/
theorem lineNumber_spec_replaced :
    let s := "!t\n| old |\nx\n\nx".toList
    let edits := [Edit.writeTable 0 "| a |\r\n| b |".toList, .writeNote 1 (.answer ['1']),
      .writeTable 1 "| c |".toList, .eraseTable 0, .writeTable 0 "| d |\n| e |\n".toList, .eraseNote 2]
    let d := edits.foldl edit (ofText s)
    (∀ edit ∈ edits, edit.SingleLine) ∧ d.entries[3]? = some (.ofLine ['x']) ∧
      d.text = "!t\n| d |\n| e |\nx\n\t\t\tAnswer = 1\n| c |\n\nx".toList ∧ d.lineNumber 3 = 8 ∧
      ∃ before after, splitAt (· == '\n') d.text = before ++ ['x'] :: after ∧ before.length = 7 := by
  intro s edits d
  have hedits : ∀ edit ∈ edits, edit.SingleLine := by decide
  have he : d.entries[3]? = some (.ofLine ['x']) := by decide
  have hplace : d.lineNumber 3 = 8 := by decide
  obtain ⟨⟨before, after, hsplit, -, hnumber⟩, -⟩ := lineNumber_spec hedits he
  exact ⟨hedits, he, by decide, hplace, before, after, hsplit, Nat.succ.inj (hnumber.symm.trans hplace)⟩

end Document

end Worksheet
