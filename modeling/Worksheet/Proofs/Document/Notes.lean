import Worksheet.Proofs.Document.Reading

/-!
# Notes that are read as they were written

A note that is written below a line is one line more, or one in the place of another. To whatever entry the lines behind
it go, they go there without it as well: an entry with a note takes in no further line, and the entry without one has
taken in what it could.

* **`Document.Apart.replace`** — entries keep apart if one of them is replaced by one with the same line that takes in
  nothing.
* **`Document.legible_writeNote`** — a reader can tell the lines of the document with the note apart.
* **`Document.ofText_text_writeNote`** — the headline: the document with the note is read as it was written, and of
  several notes the last one counts.
-/

namespace Worksheet

open Text

namespace Entry

variable {e : Entry}

/-- Only directives have a table. -/
theorem Readable.table_eq_nil (h : e.Readable) (hline : (trimStart e.text).head? ≠ some '!') : e.table = [] := by
  cases h with
  | bare line => rfl
  | noted htext hnote => rfl
  | tabled hdirective htable => exact absurd hdirective hline

theorem readable_writeNote (h : e.Readable) (hline : trim e.text ≠ [])
    (hdirective : (trimStart e.text).head? ≠ some '!') (a : Note) : (e.writeNote a).Readable := by
  have htable := h.table_eq_nil hdirective
  obtain ⟨text, note, table⟩ := e
  obtain rfl : table = [] := htable
  exact .noted hline (isNote_indent a)

/-- An entry with a note is complete. -/
theorem absorb?_writeNote (a : Note) (line : List Char) : (e.writeNote a).absorb? line = none := by
  have hnote : (e.writeNote a).acceptsNote = false := by simp [acceptsNote, writeNote]
  have htable : (e.writeNote a).acceptsTableLine = false := by simp [acceptsTableLine, writeNote]
  rw [absorb?, hnote, htable, Bool.and_false, Bool.and_false]
  rfl

theorem plain_indent {a : Note} (h : Plain a.text) : Plain (indent ++ a.text) := by
  have hne : a.text ≠ [] := by
    cases a <;> exact List.append_ne_nil_of_left_ne_nil (by decide) _
  refine ⟨?_, ?_⟩
  · simpa [indent] using h.1
  · rw [List.getLast?_append_of_ne_nil _ hne]
    exact h.2

end Entry

namespace Document

open Entry

/-! ## One entry in the place of another -/

theorem Apart.replace {before after : List Entry} {e e' : Entry} (h : Apart (before ++ e :: after))
    (htext : e'.text = e.text) (hcomplete : ∀ line, e'.absorb? line = none) : Apart (before ++ e' :: after) := by
  unfold Apart at h ⊢
  rw [List.isChain_append, List.isChain_cons] at h ⊢
  obtain ⟨hbefore, ⟨-, hafter⟩, hborder⟩ := h
  refine ⟨hbefore, ⟨fun next _ => hcomplete next.text, hafter⟩, fun last hlast first hfirst => ?_⟩
  -- the entry in front sees the line only
  cases hfirst
  rw [htext]
  exact hborder last hlast e rfl

theorem mem_replace {before after : List Entry} {e e' x : Entry} (h : x ∈ before ++ e' :: after) :
    x = e' ∨ x ∈ before ++ e :: after := by
  simp only [List.mem_append, List.mem_cons] at h ⊢
  tauto

theorem map_text_replace {before after : List Entry} {e e' : Entry} (htext : e'.text = e.text) :
    (before ++ e' :: after).map Entry.text = (before ++ e :: after).map Entry.text := by
  simp [htext]

/-- Of several notes the last one counts. -/
theorem foldl_writeNote (d : Document) (position : Nat) (earlier : List Note) (a : Note) :
    (earlier ++ [a]).foldl (fun d b => d.change position (·.writeNote b)) d = d.change position (·.writeNote a) := by
  induction earlier generalizing d with
  | nil => rfl
  | cons b earlier ih =>
    rw [List.cons_append, List.foldl_cons, ih, change, change, List.modify_modify_eq]
    rfl

/-- A line that is not empty is one of the text. -/
theorem textLines_ne_of_mem {d : Document} {line : List Char} (hmem : line ∈ d.entries.flatMap Entry.lines)
    (hne : line ≠ []) : d.textLines ≠ [[]] := by
  unfold textLines
  generalize d.entries.flatMap Entry.lines = ls at hmem
  have hls : ¬(ls = [] ∨ ls = [[]]) := by
    rintro (rfl | rfl)
    · cases hmem
    · exact hne (List.mem_singleton.mp hmem)
  dsimp only
  rw [if_neg hls]
  split
  · intro h
    exact hls (Or.inl (List.append_left_eq_self.mp h))
  · exact fun h => hls (Or.inr h)

/-! ## Documents with a note more -/

section WriteNote

variable {s : List Char} {before after : List Entry} {e : Entry} {a : Note}

/-- The document with another note below the line of an entry. -/
theorem change_writeNote {d : Document} {position : Nat} (he : d.entries[position]? = some e) (a : Note) :
    ∃ before after, d.entries = before ++ e :: after ∧
      d.change position (·.writeNote a) = { d with entries := before ++ e.writeNote a :: after } := by
  obtain ⟨hlt, he⟩ := List.getElem?_eq_some_iff.mp he
  obtain ⟨before, e', after, hsplit, hlength, hmodify⟩ := List.exists_of_modify (·.writeNote a) hlt
  obtain rfl : e' = e := by
    rw [← he]
    simp [hsplit, ← hlength]
  exact ⟨before, after, hsplit, by rw [change, hmodify]⟩

theorem legible_writeNote (hs : '\r' ∉ s) (hsplit : (ofText s).entries = before ++ e :: after)
    (ha : Plain a.text) : Legible { ofText s with entries := before ++ e.writeNote a :: after } := by
  obtain ⟨hlines, hreadable, happart⟩ := group_eq_iff.mp hsplit
  have hplain : ∀ e' ∈ before ++ e :: after, ∀ line ∈ e'.lines, Plain line := fun e' he' line hline =>
    plain_of_mem_lines hs (hlines ▸ List.mem_flatMap.mpr ⟨e', he', hline⟩)
  have hbars : ∀ e' ∈ before ++ e :: after, ∀ line ∈ e'.table, (trimStart line).head? = some '|' := by
    intro e' he' line hline
    cases hreadable e' he' with
    | bare => cases hline
    | noted => cases hline
    | tabled _ htable => exact htable line hline
  refine ⟨fun line hline => ?_, fun e' he' => ?_, happart.replace rfl (absorb?_writeNote a)⟩
  · obtain ⟨e', he', hline⟩ := List.mem_flatMap.mp hline
    rcases mem_replace he' with rfl | he'
    · -- of its lines only the note is new
      have hold : ∀ line ∈ e.lines, Plain line := hplain e (by simp)
      have hline : line = e.text ∨ line = indent ++ a.text ∨ line ∈ e.table := by
        simpa [Entry.lines, writeNote] using hline
      rcases hline with rfl | rfl | hline
      · exact hold _ List.mem_cons_self
      · exact plain_indent ha
      · exact hold line (List.mem_append_right _ hline)
    · exact hplain e' he' line hline
  · rcases mem_replace he' with rfl | he'
    · exact hbars e (by simp)
    · exact hbars e' he'

/-- **A note is read as it was written**, below whatever line it stands that can have one, and nothing else is read
differently: neither the entries in front nor those behind it, whatever their lines look like. A note takes the place of
the ones that were written below the line before. -/
theorem ofText_text_writeNote {position : Nat} (hs : '\r' ∉ s) (he : (ofText s).entries[position]? = some e)
    (hline : trim e.text ≠ []) (hdirective : (trimStart e.text).head? ≠ some '!') (ha : Plain a.text)
    (earlier : List Note) :
    let d := (ofText s).change position (·.writeNote a)
    ofText d.text = d ∧
      ((earlier ++ [a]).foldl (fun d b => d.change position (·.writeNote b)) (ofText s)).text = d.text := by
  intro d
  obtain ⟨before, after, hsplit, hd⟩ := change_writeNote he a
  obtain ⟨hlines, hreadable, -⟩ := group_eq_iff.mp hsplit
  have hreadable' : ∀ e' ∈ before ++ e.writeNote a :: after, e'.Readable := by
    intro e' he'
    rcases mem_replace he' with rfl | he'
    · exact readable_writeNote (hreadable e (by simp)) hline hdirective a
    · exact hreadable e' he'
  refine ⟨?_, ?_⟩
  · rw [show d = _ from hd]
    refine ofText_text (legible_writeNote hs hsplit ha) hreadable' (fun hlast => ?_) ?_
    · -- the last line is the one it was, or the note, which is not empty
      have htext : (e.writeNote a).text = e.text := rfl
      rw [getLast?_flatMap_lines_iff hreadable', map_text_replace htext, ← getLast?_flatMap_lines_iff hreadable,
        hlines] at hlast
      exact endsWithLineFeed_of_getLast?_lines hlast
    · have hmem : e.text ∈ (before ++ e.writeNote a :: after).flatMap Entry.lines :=
        List.mem_flatMap.mpr ⟨e.writeNote a, by simp, List.mem_cons_self⟩
      refine textLines_ne_of_mem hmem fun hnil => ?_
      rw [hnil] at hline
      exact hline rfl
  · rw [foldl_writeNote]

end WriteNote

/-- A note in the place of another one, between lines that look like notes. -/
theorem ofText_text_writeNote_stray :
    let s := "Answer = 1\nAnswer = 2\nAnswer = 3\n| x |".toList
    let a := Note.answer ['4']
    let d := (ofText s).change 0 (·.writeNote a)
    '\r' ∉ s ∧ Plain a.text ∧
      (ofText s).entries = [⟨"Answer = 1".toList, some "Answer = 2".toList, []⟩,
        ⟨"Answer = 3".toList, none, []⟩, ⟨"| x |".toList, none, []⟩] ∧
      d.text = "Answer = 1\n\t\t\tAnswer = 4\nAnswer = 3\n| x |".toList ∧ ofText d.text = d := by
  intro s a d
  have hs : '\r' ∉ s := by decide
  have ha : Plain a.text := by decide
  have hentries : (ofText s).entries = [⟨"Answer = 1".toList, some "Answer = 2".toList, []⟩,
      ⟨"Answer = 3".toList, none, []⟩, ⟨"| x |".toList, none, []⟩] := by decide +kernel
  have hfirst : (ofText s).entries[0]? = some ⟨"Answer = 1".toList, some "Answer = 2".toList, []⟩ := by
    rw [hentries]
    rfl
  obtain ⟨hread, -⟩ := ofText_text_writeNote hs hfirst (by decide) (by decide) ha [.function ['f']]
  exact ⟨hs, ha, hentries, by decide +kernel, hread⟩

end Document

end Worksheet
