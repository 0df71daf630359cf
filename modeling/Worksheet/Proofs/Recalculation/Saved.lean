import Worksheet.Proofs.Document.Reading
import Worksheet.Proofs.Recalculation.Written

/-!
# Recalculating what a recalculation has saved

A worksheet is saved with its results and recalculated again when it is opened the next time. The
second recalculation changes nothing if it is one of the same lines, and only then.

* **`Session.annotated`** — the lines of a text with the results below those that are run.
* **`Session.annotated_injective`** — the first line and the session decide the result, so that two
  texts with the same lines and results have the same lines.
* **`Session.recalculated_eq_iff`** — two texts are recalculated to the same one exactly if they are
  the same without results.
* **`Session.recalculated_twice`** — the headline: when a second recalculation changes nothing.
* **`Session.recalculated_twice_ne`** — an answer of two lines grows by a line each time.
-/

namespace Worksheet

open Text

namespace Document

/-- The document without the results of the lines that a recalculation runs. -/
def bare (d : Document) : Document :=
  { d with
    entries := (d.entries.take lineLimit).map (fun e => .ofLine e.text)
      ++ d.entries.drop lineLimit }

theorem flatMap_lines_bare (d : Document) :
    d.bare.entries.flatMap Entry.lines
      = (d.entries.take lineLimit).map Entry.text
        ++ (d.entries.drop lineLimit).flatMap Entry.lines := by
  rw [bare, List.flatMap_append, List.flatMap_map]
  congr 1
  induction d.entries.take lineLimit with
  | nil => rfl
  | cons e es ih =>
    rw [List.flatMap_cons, ih]
    rfl

end Document

namespace Session

/-! ## Lines with their results -/

/-- The lines of a text in which the first `n` lines have been run and have their results below. -/
def annotated (s : Session) : Nat → List (List Char) → List (List Char)
  | 0, ls => ls
  | _ + 1, [] => []
  | n + 1, line :: rest =>
    ((Entry.ofLine line).withResult (s.run line).1).lines ++ annotated (s.run line).2 n rest

theorem flatMap_lines_written (s : Session) (n : Nat) (es : List Entry) :
    (List.zipWith Entry.withResult (es.take n) (s.runLines ((es.take n).map Entry.text)).1
        ++ es.drop n).flatMap Entry.lines
      = s.annotated n ((es.take n).map Entry.text ++ (es.drop n).flatMap Entry.lines) := by
  induction n generalizing s es with
  | zero => rfl
  | succ n ih =>
    cases es with
    | nil => rfl
    | cons e es =>
      simp only [List.take_succ_cons, List.drop_succ_cons, List.map_cons, runLines,
        List.zipWith_cons_cons, List.cons_append, List.flatMap_cons, annotated]
      rw [ih]
      rfl

/-- An empty line at the end has no result, whether it is run or not. -/
theorem annotated_concat_nil (s : Session) (n : Nat) (ls : List (List Char)) :
    s.annotated n (ls ++ [[]]) = s.annotated n ls ++ [[]] := by
  induction n generalizing s ls with
  | zero => rfl
  | succ n ih =>
    cases ls with
    | nil =>
      have hrun : s.run [] = (.ok .skipped, s) := run_blank (by decide) s
      have hnil : s.annotated n [] = [] := by cases n <;> rfl
      show ((Entry.ofLine []).withResult (s.run []).1).lines ++ (s.run []).2.annotated n [] = [[]]
      rw [hrun, hnil]
      rfl
    | cons line ls => rw [List.cons_append, annotated, annotated, ih, List.append_assoc]

theorem annotated_eq_nil_iff {s : Session} {n : Nat} {ls : List (List Char)} :
    s.annotated n ls = [] ↔ ls = [] := by
  cases n <;> cases ls <;> simp [annotated, Entry.lines]

theorem annotated_eq_singleton_nil_iff {s : Session} {n : Nat} {ls : List (List Char)} :
    s.annotated n ls = [[]] ↔ ls = [[]] := by
  constructor
  · intro h
    cases n with
    | zero => exact h
    | succ n =>
      cases ls with
      | nil => cases h
      | cons line ls =>
        simp only [annotated, Entry.lines, List.cons_append, List.cons.injEq,
          List.append_eq_nil_iff, annotated_eq_nil_iff] at h
        obtain ⟨hline, -, hrest⟩ := h
        rw [hrest]
        exact congrArg (fun l => [l]) hline
  · rintro rfl
    have happend := annotated_concat_nil s n []
    rw [List.nil_append] at happend
    rw [happend, annotated_eq_nil_iff.mpr rfl]
    rfl

/-- **The lines can be told from their results.** -/
theorem annotated_injective {s : Session} {n : Nat} {ls ls' : List (List Char)}
    (hls : ∀ l ∈ ls, '\n' ∉ l) (hls' : ∀ l ∈ ls', '\n' ∉ l)
    (h : (s.annotated n ls).flatMap (splitAt (· == '\n'))
      = (s.annotated n ls').flatMap (splitAt (· == '\n'))) : ls = ls' := by
  induction n generalizing s ls ls' with
  | zero =>
    rwa [annotated, annotated, flatMap_splitAt_of_not_mem hls,
      flatMap_splitAt_of_not_mem hls'] at h
  | succ n ih =>
    -- every line has at least itself as a part, so that the shorter text shows
    have hparts : ∀ (line : List Char) (rest : List (List Char)),
        (s.annotated (n + 1) (line :: rest)).flatMap (splitAt (· == '\n')) ≠ [] := by
      intro line rest hnil
      rw [List.flatMap_eq_nil_iff] at hnil
      exact splitAt_ne_nil _ _ (hnil line (by simp [annotated, Entry.lines, Entry.ofLine]))
    cases ls with
    | nil =>
      cases ls' with
      | nil => rfl
      | cons line' rest' => exact absurd h.symm (hparts line' rest')
    | cons line rest =>
      cases ls' with
      | nil => exact absurd h (hparts line rest)
      | cons line' rest' =>
        simp only [annotated, Entry.lines, Entry.text_withResult, Entry.ofLine, List.cons_append,
          List.flatMap_cons, List.flatMap_append,
          splitAt_of_not_mem (hls line List.mem_cons_self),
          splitAt_of_not_mem (hls' line' List.mem_cons_self), List.cons.injEq,
          List.nil_append] at h
        obtain ⟨rfl, hbelow⟩ := h
        -- the line and the session decide its result, so that the rest of the lines is compared
        have hrest := List.append_cancel_left hbelow
        rw [ih (fun l hl => hls l (List.mem_cons_of_mem line hl))
          (fun l hl => hls' l (List.mem_cons_of_mem line hl)) hrest]

/-! ## The text behind a recalculation -/

theorem textLines_recalculate (s : Session) (d : Document) :
    (s.recalculate d).1.textLines
      = (start s.defaults s.now).annotated lineLimit d.bare.textLines := by
  have hlines : (s.recalculate d).1.entries.flatMap Entry.lines
      = (start s.defaults s.now).annotated lineLimit (d.bare.entries.flatMap Entry.lines) := by
    rw [d.flatMap_lines_bare, recalculate_eq]
    exact flatMap_lines_written _ lineLimit d.entries
  have hflag : (s.recalculate d).1.endsWithLineFeed = d.bare.endsWithLineFeed := by
    rw [recalculate_eq]
    rfl
  unfold Document.textLines
  rw [hlines, hflag]
  -- the empty line at the end may stand above or below the limit
  generalize d.bare.entries.flatMap Entry.lines = ls
  dsimp only
  simp only [annotated_eq_nil_iff, annotated_eq_singleton_nil_iff]
  split
  · exact (annotated_eq_singleton_nil_iff.mpr rfl).symm
  · split
    · exact (annotated_concat_nil _ _ _).symm
    · rfl

/-- The text that a recalculation in a fresh session makes of a text. -/
def recalculated (defaults : Settings) (now : DateTime) (text : List Char) : List Char :=
  ((start defaults now).recalculate (.ofText text)).1.text

theorem recalculated_eq_joinWith (defaults : Settings) (now : DateTime) (text : List Char) :
    recalculated defaults now text
      = joinWith ['\n']
          ((start defaults now).annotated lineLimit (Document.ofText text).bare.textLines) := by
  rw [recalculated, Document.text_eq_joinWith, textLines_recalculate]
  rfl

/-- A line of a text holds no line feed, with or without its results. -/
theorem not_mem_of_mem_textLines_ofText {text line : List Char}
    (h : line ∈ (Document.ofText text).bare.textLines) : '\n' ∉ line := by
  have hlines : (Document.group (lines text)).flatMap Entry.lines = lines text :=
    (Document.group_eq_iff.mp rfl).1
  have hbare : ∀ l ∈ (Document.ofText text).bare.entries.flatMap Entry.lines, '\n' ∉ l := by
    intro l hl
    refine not_mem_of_mem_lines (s := text) ?_
    rw [← hlines]
    rw [Document.flatMap_lines_bare, List.mem_append, List.mem_map, List.mem_flatMap] at hl
    rw [List.mem_flatMap]
    rcases hl with ⟨e, he, rfl⟩ | ⟨e, he, hl⟩
    · exact ⟨e, List.mem_of_mem_take he, by simp [Entry.lines]⟩
    · exact ⟨e, List.mem_of_mem_drop he, hl⟩
  unfold Document.textLines at h
  dsimp only at h
  split at h
  · rw [List.mem_singleton.mp h]
    exact List.not_mem_nil
  · split at h
    · rcases List.mem_append.mp h with h | h
      · exact hbare line h
      · rw [List.mem_singleton.mp h]
        exact List.not_mem_nil
    · exact hbare line h

/-- **What a recalculation keeps.** Two texts are recalculated to the same one exactly if they are
the same without results. -/
theorem recalculated_eq_iff (defaults : Settings) (now : DateTime) (text text' : List Char) :
    recalculated defaults now text = recalculated defaults now text' ↔
      (Document.ofText text).bare.text = (Document.ofText text').bare.text := by
  have hbare := fun t => (Document.ofText t).bare.text_eq_joinWith
  have hplain := fun t (l : List Char) => @not_mem_of_mem_textLines_ofText t l
  have hread := fun t => (Document.ofText t).bare.textLines_ne_nil
  have hwritten : ∀ t, (start defaults now).annotated lineLimit (Document.ofText t).bare.textLines
      ≠ [] := fun t hnil => hread t (annotated_eq_nil_iff.mp hnil)
  rw [recalculated_eq_joinWith, recalculated_eq_joinWith, hbare, hbare]
  constructor
  · intro h
    -- cut at every line feed, as a result may hold some
    have hparts := congrArg (splitAt (· == '\n')) h
    rw [splitAt_joinWith _ (hwritten text), splitAt_joinWith _ (hwritten text')] at hparts
    rw [annotated_injective (hplain text) (hplain text') hparts]
  · intro h
    have hparts := congrArg (splitAt (· == '\n')) h
    rw [splitAt_joinWith _ (hread text), splitAt_joinWith _ (hread text'),
      flatMap_splitAt_of_not_mem (hplain text), flatMap_splitAt_of_not_mem (hplain text')]
      at hparts
    rw [hparts]

/-! ## A second recalculation -/

/-- A recalculation writes results only. -/
theorem text_bare_recalculate (s : Session) (d : Document) :
    (s.recalculate d).1.bare.text = d.bare.text := by
  have hlength := length_runLines_inputs (start s.defaults s.now) d
  have hentries : (s.recalculate d).1.bare.entries.flatMap Entry.lines
      = d.bare.entries.flatMap Entry.lines := by
    rw [Document.flatMap_lines_bare, Document.flatMap_lines_bare, recalculate_eq]
    show ((written d.entries _).take lineLimit).map Entry.text
      ++ ((written d.entries _).drop lineLimit).flatMap Entry.lines = _
    rw [take_written hlength, drop_written hlength, map_text_zipWith hlength]
  have hflag : (s.recalculate d).1.bare.endsWithLineFeed = d.bare.endsWithLineFeed := by
    rw [recalculate_eq]
    rfl
  rw [Document.text, Document.text, hentries, hflag]

/-- A document behind a recalculation that is legible is read as it was written. -/
theorem ofText_text_recalculate (s : Session) (text : List Char)
    (hlegible : (s.recalculate (.ofText text)).1.Legible)
    (hne : (s.recalculate (.ofText text)).1.textLines ≠ [[]]) :
    Document.ofText (s.recalculate (.ofText text)).1.text
      = (s.recalculate (.ofText text)).1.clearErrors := by
  have hgroup : (Document.ofText text).entries.flatMap Entry.lines = lines text ∧
      (∀ e ∈ (Document.ofText text).entries, e.Readable) ∧ _ := Document.group_eq_iff.mp rfl
  obtain ⟨hlines, hreadable, -⟩ := hgroup
  have hreadable' := readable_recalculate s hreadable hlegible.bars
  refine Document.ofText_text hlegible hreadable' ?_ hne
  -- an empty line at the end has been there before
  intro hlast
  rw [Entry.getLast?_flatMap_lines_iff hreadable', map_text_recalculate,
    ← Entry.getLast?_flatMap_lines_iff hreadable, hlines] at hlast
  rw [recalculate_eq]
  exact endsWithLineFeed_of_getLast?_lines hlast

/-- A moment to recalculate at. -/
def noon : DateTime := ⟨⟨2024, 1, 31, by decide⟩, 43200000000000, by decide⟩

/-- **When a second recalculation changes nothing.** Exactly if the lines of the first one are the
lines that are read from what it has saved. They are if every line and every result is a line of its
own, the lines of tables begin with bars, and no line looks like a result of the one before. -/
theorem recalculated_twice (defaults : Settings) (now : DateTime) (text : List Char) :
    (recalculated defaults now (recalculated defaults now text) = recalculated defaults now text ↔
      (Document.ofText (recalculated defaults now text)).bare.text
        = (Document.ofText text).bare.text) ∧
    (((start defaults now).recalculate (.ofText text)).1.Legible →
      recalculated defaults now (recalculated defaults now text)
        = recalculated defaults now text) := by
  refine ⟨recalculated_eq_iff defaults now _ text, fun hlegible => ?_⟩
  rw [recalculated_eq_iff]
  have hbare := text_bare_recalculate (start defaults now) (.ofText text)
  by_cases hempty : ((start defaults now).recalculate (.ofText text)).1.textLines = [[]]
  · -- nothing is saved of a text without lines, nor of one empty line
    have hsaved : recalculated defaults now text = [] := by
      rw [recalculated, Document.text_eq_joinWith, hempty]
      rfl
    have hlines : (Document.ofText text).bare.textLines = [[]] := by
      rw [textLines_recalculate] at hempty
      exact annotated_eq_singleton_nil_iff.mp hempty
    rw [hsaved, Document.text_eq_joinWith (Document.ofText text).bare, hlines]
    rfl
  · rw [← hbare, recalculated, ofText_text_recalculate _ text hlegible hempty]
    rfl

theorem recalculated_twice_comments :
    ((start {} noon).recalculate (.ofText "; a\nAnswer = 1\n; b".toList)).1.Legible ∧
    recalculated {} noon (recalculated {} noon "; a\nAnswer = 1\n; b".toList)
      = recalculated {} noon "; a\nAnswer = 1\n; b".toList := by
  have hlegible :
      ((start {} noon).recalculate (.ofText "; a\nAnswer = 1\n; b".toList)).1.Legible := by
    decide +kernel
  exact ⟨hlegible, (recalculated_twice {} noon _).2 hlegible⟩

/-- Of notes in a row each recalculation takes one away. -/
example :
    recalculated {} noon "; a\nAnswer = 1\nAnswer = 2\n".toList = "; a\nAnswer = 2\n".toList ∧
    recalculated {} noon "; a\nAnswer = 2\n".toList = "; a\n".toList := by
  decide +kernel

/-! ## An answer of two lines -/

/-- A literal whose value has two lines, of which the second one is a comment. -/
def twoLines : List Char := "\"a\\n;\"".toList

/-- The text of an expression that is a literal. -/
def literal? : Option Expr → Option String
  | some (.text t) => some t
  | _ => none

theorem eq_of_literal? {e? : Option Expr} {t : String} (h : literal? e? = some t) :
    e? = some (.text t) := by
  unfold literal? at h
  split at h
  · cases h
    rfl
  · cases h

theorem valueOf_literal {s : Session} {d : Declaration} {t : String}
    (h : literal? (s.expression? d) = some t) : s.valueOf d = .ok (.text t, s.context) := by
  rw [valueOf, eq_of_literal? h]
  rfl

/-- A literal answers with its value, if the line is nothing else. -/
theorem run_literal {s : Session} {line : List Char} {d : Declaration} {t : String}
    (hkind : LineKind.ofLine line = .expression line) (hsplit : splitRemark line = (line, []))
    (hne : line ≠ []) (hread : Declaration.read line = .ok d)
    (hexpr : literal? (s.expression? d) = some t)
    (htemplate : (itemOf s.context d (.text t) []).template = "") :
    (s.run line).1 = .ok (outcomeOf (.answer t.toList)) := by
  have hnote : s.noteOf line (itemOf s.context d (.text t) []).template (.text t)
      = .ok (.answer t.toList) := by
    rw [htemplate]
    simp [noteOf, Display.present, Display.render, Value.isCallable]
  rw [run_eq_of_expression hkind hsplit hne hread (valueOf_literal hexpr) hnote]

theorem run_twoLines :
    ((start {} noon).run twoLines).1 = .ok (.noted (.answer ['a', '\n', ';'])) :=
  run_literal (d := ⟨.anonymous, "\"a\\n;\""⟩) (t := "a\n;") (by decide +kernel)
    (by decide +kernel) (by decide) (by decide +kernel) (by decide +kernel) (by decide +kernel)

theorem run_comment (s : Session) : s.run [';'] = (.ok .skipped, s) := by
  unfold run process
  rw [show LineKind.ofLine [';'] = .comment by decide]
  rfl

/-- **An answer of two lines grows.** Its second line is taken for a line of the worksheet, and the
next recalculation writes it once more. -/
theorem recalculated_twice_ne :
    recalculated {} noon (recalculated {} noon (twoLines ++ ['\n']))
      ≠ recalculated {} noon (twoLines ++ ['\n']) := by
  have hempty : ∀ (s : Session) (n : Nat), s.annotated n [[]] = [[]] := fun s n =>
    annotated_eq_singleton_nil_iff.mpr rfl
  have hlimit : lineLimit = 9998 + 1 + 1 := rfl
  have honce : recalculated {} noon (twoLines ++ ['\n'])
      = twoLines ++ "\n\t\t\tAnswer = a\n;\n".toList := by
    have hread : (Document.ofText (twoLines ++ ['\n'])).bare.textLines = [twoLines, []] := by
      decide +kernel
    rw [recalculated_eq_joinWith, hread, hlimit, annotated, run_twoLines, hempty]
    decide +kernel
  have htwice : recalculated {} noon (twoLines ++ "\n\t\t\tAnswer = a\n;\n".toList)
      = twoLines ++ "\n\t\t\tAnswer = a\n;\n;\n".toList := by
    have hread : (Document.ofText (twoLines ++ "\n\t\t\tAnswer = a\n;\n".toList)).bare.textLines
        = [twoLines, [';'], []] := by
      decide +kernel
    rw [recalculated_eq_joinWith, hread, hlimit, annotated, annotated, run_twoLines, run_comment,
      hempty]
    decide +kernel
  rw [honce, htwice]
  decide +kernel

end Session

end Worksheet
