import Worksheet.Proofs.Recalculation.Saved
import Worksheet.Proofs.Session.SingleLine
import Worksheet.Proofs.Table.Report

/-!
# Results that are not run

What a recalculation writes is read again with the worksheet, and should not be taken for a line to
run. It is not as long as every result stands on lines of its own: a note is told by its first word,
a line of a table by its bar. A line feed inside a result breaks off a line that has neither.

* **`Entry.forall_inert_iff`** — the results below a line are told as such exactly if what is broken
  off of them is.
* **`Session.Breaks`** — a line that shows a value on more than one line.
* **`Session.breaks_of_brokenOff`** — nothing is broken off but by such a value.
* **`Session.results_inert`** — the headline, for the results below all lines of a recalculation.
* **`Session.results_not_inert`** — an answer whose second line is an expression.
-/

namespace Worksheet

open Text

/-! ## Lines that are not run -/

/-- A line that is taken for a note or for a line of a table. -/
def Inert (line : List Char) : Prop :=
  LineKind.ofLine line = .note ∨ LineKind.ofLine line = .tableLine

instance (line : List Char) : Decidable (Inert line) := by unfold Inert; infer_instance

/-- A bar in front makes a line one of a table. -/
theorem inert_of_bar {line : List Char} (h : line.head? = some '|') : Inert line := by
  obtain ⟨rest, rfl⟩ := List.head?_eq_some_iff.mp h
  exact Or.inr (LineKind.ofLine_eq_tableLine_iff.mpr rfl)

/-- The word in front makes a line a note, whatever is left of the note. -/
theorem inert_of_word {word : List Char}
    (hword : word = "Answer = ".toList ∨ word = "Function: ".toList) (rest : List Char) :
    Inert (Entry.indent ++ (word ++ rest)) := by
  left
  rw [LineKind.ofLine_eq_note_iff]
  rcases hword with rfl | rfl <;> rfl

/-! ## The lines of results -/

/-- The lines that are broken off inside of a result: those of a note behind its first one, and those
of a table without a bar in front. -/
def brokenOff : Except LineError Outcome → List (List Char)
  | .ok (.noted a) => (splitAt (· == '\n') a.text).tail
  | .ok (.table text) => (Text.lines text).filter fun l => l.head? != some '|'
  | .ok .skipped | .error _ => []

namespace Entry

/-- The lines that stand below a line in the text. -/
def resultLines (e : Entry) : List (List Char) :=
  (e.note.toList ++ e.table).flatMap (splitAt (· == '\n'))

/-- The text of a document has the lines of its entries, each with its result lines below. -/
theorem flatMap_splitAt_lines {es : List Entry} (h : ∀ e ∈ es, '\n' ∉ e.text) :
    (es.flatMap lines).flatMap (splitAt (· == '\n'))
      = es.flatMap fun e => e.text :: e.resultLines := by
  induction es with
  | nil => rfl
  | cons e es ih =>
    rw [List.flatMap_cons, List.flatMap_append, ih fun e' he' => h e' (List.mem_cons_of_mem e he'),
      List.flatMap_cons, lines, List.cons_append, List.flatMap_cons,
      splitAt_of_not_mem (h e List.mem_cons_self)]
    rfl

/-- **The results below a line are told as such** exactly if what is broken off of them is. -/
theorem forall_inert_iff (e : Entry) (result : Except LineError Outcome) :
    (∀ l ∈ (e.withResult result).resultLines, Inert l) ↔ ∀ l ∈ brokenOff result, Inert l := by
  have hnote : ∀ {word text : List Char}, '\n' ∉ word →
      (∀ rest, Inert (indent ++ (word ++ rest))) →
      ((∀ l ∈ splitAt (· == '\n') (indent ++ (word ++ text)), Inert l) ↔
        ∀ l ∈ (splitAt (· == '\n') (word ++ text)).tail, Inert l) := by
    intro word text hword hinert
    have hfront : '\n' ∉ indent ++ word := by
      rw [List.mem_append, not_or]
      exact ⟨by decide, hword⟩
    obtain ⟨first, hparts⟩ := splitAt_append_of_not_mem hfront text
    obtain ⟨first', hparts'⟩ := splitAt_append_of_not_mem hword text
    rw [← List.append_assoc, hparts, hparts', List.forall_mem_cons, List.append_assoc]
    exact and_iff_right (hinert first)
  rcases result with err | outcome
  · exact Iff.rfl
  · cases outcome with
    | skipped => exact Iff.rfl
    | noted a =>
      have hlines : (e.withResult (.ok (.noted a))).resultLines
          = splitAt (· == '\n') (indent ++ a.text) := by
        simp [resultLines, withResult, noteFor, tableFor]
      rw [hlines]
      cases a with
      | answer text => exact hnote (by decide) (inert_of_word (Or.inl rfl))
      | function declaration => exact hnote (by decide) (inert_of_word (Or.inr rfl))
    | table text =>
      have hlines : (e.withResult (.ok (.table text))).resultLines = Text.lines text :=
        flatMap_splitAt_of_not_mem fun l hl => not_mem_of_mem_lines hl
      rw [hlines]
      -- the lines with a bar are told by it
      refine ⟨fun h l hl => h l (List.mem_filter.mp hl).1, fun h l hl => ?_⟩
      by_cases hbar : l.head? = some '|'
      · exact inert_of_bar hbar
      · exact h l (List.mem_filter.mpr ⟨hl, by simpa using hbar⟩)

end Entry

/-- The text of a document is cut into its lines and their result lines, and maybe the empty line
behind a line feed at the end. -/
theorem Document.splitAt_text {d : Document} (h : ∀ e ∈ d.entries, '\n' ∉ e.text) :
    ∃ last, (last = [] ∨ last = [[]]) ∧
      splitAt (· == '\n') d.text
        = d.entries.flatMap (fun e => e.text :: e.resultLines) ++ last := by
  rw [text_eq_joinWith, splitAt_joinWith _ d.textLines_ne_nil, ← Entry.flatMap_splitAt_lines h]
  unfold textLines
  generalize d.entries.flatMap Entry.lines = ls
  dsimp only
  split
  · next hls =>
    rcases hls with rfl | rfl
    · exact ⟨[[]], Or.inr rfl, rfl⟩
    · exact ⟨[], Or.inl rfl, rfl⟩
  · split
    · exact ⟨[[]], Or.inr rfl, List.flatMap_append⟩
    · exact ⟨[], Or.inl rfl, (List.append_nil _).symm⟩

namespace Session

/-! ## What breaks lines -/

/-- A line that shows a value on more than one line, as its answer or in a cell of its table. -/
inductive Breaks (s : Session) (line : List Char) : Prop where
  | answer {text : List Char} {d : Declaration} {v : Value} {c : Context}
      (hkind : LineKind.ofLine line = .silent text ∨ LineKind.ofLine line = .expression text)
      (hread : Declaration.read (splitRemark text).1 = .ok d) (hvalue : s.valueOf d = .ok (v, c))
      (hbreaks : Display.BreaksLine s.settings.style
        (itemOf c d v (splitRemark text).2).template.toList v)
  | cell {spec : List Char} {t : Table} {row : Row} {c : List Char} {template : String} {v : Value}
      (hkind : LineKind.ofLine line = .table spec)
      (htable : TableReport.table ⟨s.context, s.settings⟩ spec = .ok t) (hrow : row ∈ t.rows)
      (hcell : c ∈ row) (hshown : Display.present s.settings.style template v = .ok c)
      (hbreaks : Display.BreaksLine s.settings.style template.toList v)

/-- A note with a line feed is an answer that breaks its line. -/
theorem breaksLine_of_noteOf {s : Session} {expr : List Char} {template : String} {v : Value}
    {a : Note} (h : s.noteOf expr template v = .ok a) (hexpr : '\n' ∉ expr)
    (htemplate : '\n' ∉ template.toList) (ha : '\n' ∈ a.text) :
    Display.BreaksLine s.settings.style template.toList v := by
  unfold noteOf at h
  split at h
  · cases h
    rcases List.mem_append.mp ha with ha | ha
    · exact absurd ha (by decide)
    · exact absurd ha hexpr
  · split at h
    · next text hpresent =>
      cases h
      refine Display.breaksLine_of_present hpresent htemplate ?_
      rcases List.mem_append.mp ha with ha | ha
      · exact absurd ha (by decide)
      · exact ha
    · cases h

theorem outcomeOf_eq_noted {a a' : Note} (h : outcomeOf a = .noted a') : a = a' := by
  unfold outcomeOf at h
  split at h
  · cases h
  · exact Outcome.noted.inj h

theorem ExpressionStep.breaksLine {s s' : Session} {expr remark : List Char} {isAnswer : Bool}
    {a : Note} (h : ExpressionStep s expr remark isAnswer (.ok (.noted a) s'))
    (hs : s.context.SingleLine) (hexpr : '\n' ∉ expr) (hremark : '\n' ∉ remark)
    (ha : '\n' ∈ a.text) :
    ∃ d v c, Declaration.read expr = .ok d ∧ s.valueOf d = .ok (v, c) ∧
      Display.BreaksLine s.settings.style (itemOf c d v remark).template.toList v := by
  generalize hr : EStateM.Result.ok (Outcome.noted a) s' = r at h
  cases h with
  | @stored d v c a' hne hread hvalue hnote =>
    have ha' : a' = a := outcomeOf_eq_noted (EStateM.Result.ok.inj hr).1.symm
    subst ha'
    have hitem := singleLine_itemOf (v := v) (singleLine_of_valueOf hs hvalue) hread hremark
    exact ⟨d, v, c, hread, hvalue, breaksLine_of_noteOf hnote hexpr hitem.template ha⟩
  | _ => cases hr

theorem breaks_of_noted {s : Session} {line : List Char} {a : Note}
    (h : (s.run line).1 = .ok (.noted a)) (hs : s.context.SingleLine) (hline : '\n' ∉ line)
    (ha : '\n' ∈ a.text) : Breaks s line := by
  have hstep := step_of_run h
  have hparts : ∀ {text : List Char}, text ∈ (LineKind.ofLine line).parts →
      '\n' ∉ (splitRemark text).1 ∧ '\n' ∉ (splitRemark text).2 := by
    intro text htext
    have hsubset := LineKind.subset_of_mem_parts htext
    obtain ⟨hexpr, hremark⟩ := splitRemark_subset text
    exact ⟨fun hmem => hline (hsubset (hexpr hmem)), fun hmem => hline (hsubset (hremark hmem))⟩
  generalize hkind : LineKind.ofLine line = kind at hstep hparts
  cases hstep with
  | silent hstep =>
    obtain ⟨hexpr, hremark⟩ := hparts (List.mem_singleton.mpr rfl)
    obtain ⟨d, v, c, hread, hvalue, hbreaks⟩ := hstep.breaksLine hs hexpr hremark ha
    exact .answer (Or.inl hkind) hread hvalue hbreaks
  | expression hstep =>
    obtain ⟨hexpr, hremark⟩ := hparts (List.mem_singleton.mpr rfl)
    obtain ⟨d, v, c, hread, hvalue, hbreaks⟩ := hstep.breaksLine hs hexpr hremark ha
    exact .answer (Or.inr hkind) hread hvalue hbreaks

theorem breaks_of_table {s : Session} {line text l : List Char}
    (h : (s.run line).1 = .ok (.table text)) (hs : s.context.SingleLine) (hline : '\n' ∉ line)
    (hl : l ∈ Text.lines text) (hbar : l.head? ≠ some '|') : Breaks s line := by
  have hstep := step_of_run h
  obtain ⟨spec, hkind⟩ := hstep.kind_eq_table
  rw [hkind] at hstep
  generalize (s.run line).2 = s' at hstep
  cases hstep with
  | table hne htable =>
    have hspec : '\n' ∉ spec := fun hmem =>
      hline (LineKind.subset_of_mem_parts (by simp [hkind, LineKind.parts]) hmem)
    have hfine := TableReport.fine_table htable hs hspec
    -- some cell holds a line feed, or every line would begin with a bar
    by_contra hbreaks
    refine hbar (Table.head?_of_mem_lines_text ⟨fun row hrow c hc hmem => ?_, hfine.titles⟩ hl)
    obtain ⟨template, v, hshown, hvalue⟩ := hfine.cells row hrow c hc hmem
    exact hbreaks (.cell hkind htable hrow hc hshown hvalue)

/-- **Nothing is broken off but by a value.** -/
theorem breaks_of_brokenOff {s : Session} {line : List Char} (hs : s.context.SingleLine)
    (hline : '\n' ∉ line) (h : brokenOff (s.run line).1 ≠ []) : Breaks s line := by
  cases hresult : (s.run line).1 with
  | error e =>
    rw [hresult] at h
    exact absurd rfl h
  | ok outcome =>
    rw [hresult] at h
    cases outcome with
    | skipped => exact absurd rfl h
    | noted a =>
      refine breaks_of_noted hresult hs hline (Classical.not_not.mp fun ha => h ?_)
      rw [brokenOff, splitAt_of_not_mem ha]
      rfl
    | table text =>
      obtain ⟨l, hl⟩ := List.exists_mem_of_ne_nil _ h
      obtain ⟨hl, hbar⟩ := List.mem_filter.mp hl
      exact breaks_of_table hresult hs hline hl (by simpa using hbar)

/-! ## Recalculation -/

theorem forall_inert_zipWith_iff {es : List Entry} {results : List (Except LineError Outcome)}
    (h : results.length = es.length) :
    (∀ e ∈ List.zipWith Entry.withResult es results, ∀ l ∈ e.resultLines, Inert l) ↔
      ∀ result ∈ results, ∀ l ∈ brokenOff result, Inert l := by
  induction es generalizing results with
  | nil =>
    rw [List.length_eq_zero_iff.mp h]
    simp
  | cons e es ih =>
    cases results with
    | nil => cases h
    | cons result results =>
      rw [List.zipWith_cons_cons, List.forall_mem_cons, List.forall_mem_cons,
        Entry.forall_inert_iff, ih (Nat.succ.inj h)]

theorem inert_recalculate_iff (s : Session) (d : Document) :
    (∀ e ∈ (s.recalculate d).1.entries.take lineLimit, ∀ l ∈ e.resultLines, Inert l) ↔
      ∀ result ∈ ((start s.defaults s.now).runLines (inputs d)).1,
        ∀ l ∈ brokenOff result, Inert l := by
  have hlength := length_runLines_inputs (start s.defaults s.now) d
  rw [recalculate_eq, take_written hlength]
  exact forall_inert_zipWith_iff hlength

/-- Every result is the one of a line behind the lines before it. -/
theorem exists_of_mem_runLines {s : Session} {lines : List (List Char)}
    {result : Except LineError Outcome} (h : result ∈ (s.runLines lines).1) :
    ∃ before line after, lines = before ++ line :: after ∧
      result = ((s.runLines before).2.run line).1 := by
  induction lines generalizing s with
  | nil => cases h
  | cons line rest ih =>
    rcases List.mem_cons.mp h with rfl | h
    · exact ⟨[], line, rest, rfl, rfl⟩
    · obtain ⟨before, line', after, rfl, rfl⟩ := ih h
      exact ⟨line :: before, line', after, rfl, rfl⟩

/-- **When nothing that is written is run again.** The text behind a recalculation is made of the
lines of its entries and their result lines. These are told as results exactly if those are that the
results break off. Where no line shows a value on more than one line, nothing is broken off and all
of them are. -/
theorem results_inert (s : Session) (d : Document) (hlines : ∀ e ∈ d.entries, '\n' ∉ e.text) :
    (∃ last, (last = [] ∨ last = [[]]) ∧
      splitAt (· == '\n') (s.recalculate d).1.text
        = (s.recalculate d).1.entries.flatMap (fun e => e.text :: e.resultLines) ++ last) ∧
    ((∀ e ∈ (s.recalculate d).1.entries.take lineLimit, ∀ l ∈ e.resultLines, Inert l) ↔
      ∀ result ∈ ((start s.defaults s.now).runLines (inputs d)).1,
        ∀ l ∈ brokenOff result, Inert l) ∧
    ((∀ before line after, inputs d = before ++ line :: after →
        ¬ Breaks ((start s.defaults s.now).runLines before).2 line) →
      ∀ e ∈ (s.recalculate d).1.entries.take lineLimit, ∀ l ∈ e.resultLines, Inert l) := by
  have hiff := inert_recalculate_iff s d
  refine ⟨Document.splitAt_text fun e he => ?_, hiff,
    fun hbreaks => hiff.mpr fun result hresult l hl => ?_⟩
  · -- a recalculation leaves the lines as they are
    have htext : e.text ∈ d.entries.map Entry.text := by
      rw [← map_text_recalculate s d]
      exact List.mem_map_of_mem he
    obtain ⟨e', he', heq⟩ := List.mem_map.mp htext
    rw [← heq]
    exact hlines e' he'
  · obtain ⟨before, line, after, hinputs, rfl⟩ := exists_of_mem_runLines hresult
    have hfree : ∀ line' ∈ inputs d, '\n' ∉ line' := by
      intro line' hline'
      obtain ⟨e, he, rfl⟩ := List.mem_map.mp hline'
      exact hlines e (List.mem_of_mem_take he)
    rw [hinputs] at hfree
    have hcontext := singleLine_runLines (s := start s.defaults s.now) Context.singleLine_empty
      fun line' hline' => hfree line' (List.mem_append_left _ hline')
    have hbroken := breaks_of_brokenOff hcontext (hfree line (by simp)) (List.ne_nil_of_mem hl)
    exact absurd hbroken (hbreaks before line after hinputs)

/-- A literal without a line feed breaks no line. -/
theorem not_breaks_literal {s : Session} {line : List Char} {d : Declaration} {t : String}
    (hkind : LineKind.ofLine line = .expression line) (hsplit : splitRemark line = (line, []))
    (hread : Declaration.read line = .ok d) (hexpr : literal? (s.expression? d) = some t)
    (ht : '\n' ∉ t.toList) : ¬ Breaks s line := by
  intro h
  cases h with
  | @answer text d' v c hkind' hread' hvalue hbreaks =>
    obtain rfl : text = line := by
      rw [hkind] at hkind'
      rcases hkind' with h | h
      · cases h
      · exact (LineKind.expression.inj h).symm
    rw [hsplit] at hread'
    obtain rfl : d' = d := Except.ok.inj (hread'.symm.trans hread)
    obtain ⟨rfl, rfl⟩ := Prod.mk.inj (Except.ok.inj (hvalue.symm.trans (valueOf_literal hexpr)))
    -- only dates take a pattern for a template
    rcases hbreaks with h | ⟨⟨date, h⟩ | ⟨time, h⟩, -⟩
    · rw [Display.render] at h
      exact ht h
    · cases h
    · cases h
  | cell hkind' =>
    rw [hkind] at hkind'
    cases hkind'

theorem results_inert_literal :
    let d := Document.ofText "\"ab\"\n".toList
    (∀ e ∈ d.entries, '\n' ∉ e.text) ∧
    (∀ before line after, inputs d = before ++ line :: after →
      ¬ Breaks ((start {} noon).runLines before).2 line) ∧
    ∀ e ∈ ((start {} noon).recalculate d).1.entries.take lineLimit,
      ∀ l ∈ e.resultLines, Inert l := by
  intro d
  have hinputs : inputs d = ["\"ab\"".toList] := by decide +kernel
  have hlines : ∀ e ∈ d.entries, '\n' ∉ e.text := by decide +kernel
  have hbreaks : ∀ before line after, inputs d = before ++ line :: after →
      ¬ Breaks ((start {} noon).runLines before).2 line := by
    intro before line after h
    rw [hinputs] at h
    obtain ⟨rfl, h⟩ | ⟨-, h⟩ := List.append_eq_singleton_iff.mp h.symm
    · cases h
      exact not_breaks_literal (d := ⟨.anonymous, "\"ab\""⟩) (t := "ab") (by decide +kernel)
        (by decide +kernel) (by decide +kernel) (by decide +kernel) (by decide)
    · cases h
  exact ⟨hlines, hbreaks, (results_inert (start {} noon) d hlines).2.2 hbreaks⟩

/-- **An answer whose second line is run.** -/
theorem results_not_inert :
    let d := Document.ofText "\"a\\n1 + 1\"\n".toList
    ¬ ∀ e ∈ ((start {} noon).recalculate d).1.entries.take lineLimit,
      ∀ l ∈ e.resultLines, Inert l := by
  intro d
  have hrun : ((start {} noon).run "\"a\\n1 + 1\"".toList).1
      = .ok (.noted (.answer "a\n1 + 1".toList)) :=
    run_literal (d := ⟨.anonymous, "\"a\\n1 + 1\""⟩) (t := "a\n1 + 1") (by decide +kernel)
      (by decide +kernel) (by decide) (by decide +kernel) (by decide +kernel) (by decide +kernel)
  have hinputs : inputs d = ["\"a\\n1 + 1\"".toList] := by decide +kernel
  rw [inert_recalculate_iff, hinputs]
  intro h
  have hinert : Inert "1 + 1".toList := by
    refine h _ List.mem_cons_self _ ?_
    show _ ∈ brokenOff ((start {} noon).run "\"a\\n1 + 1\"".toList).1
    rw [hrun]
    decide
  exact absurd hinert (by decide)

end Session

end Worksheet
