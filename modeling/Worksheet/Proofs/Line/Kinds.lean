import Worksheet.Line
import Worksheet.Proofs.Text.Class

/-!
# What tells the kind of a line

The kind of a line is looked up in its trimmed text, while whoever reads a document looks at the line
as it stands. For notes, lines of tables and directives the two are the same test:

* **`LineKind.ofLine_eq_note_iff`** — a note is told by its first word.
* **`LineKind.ofLine_eq_tableLine_iff`** — a line of a table by the bar behind its blanks.
* **`LineKind.isDirective_ofLine_iff`** — a directive by the exclamation mark behind its blanks.
-/

namespace Worksheet

open Text

/-! ## Notes -/

/-- A word that ends with no blank is found in front of a text with the blanks at its end and
without them. -/
theorem strip?_trimEnd {lead : List Char} {c : Char} (hlast : lead.getLast? = some c)
    (hc : isBlank c = false) (s : List Char) :
    strip? lead (trimEnd s) = (strip? lead s).map trimEnd := by
  cases hs : strip? lead s with
  | some r =>
    rw [strip?_eq_some_iff] at hs
    rw [hs, trimEnd_append hlast hc, Option.map_some, strip?_eq_some_iff]
  | none =>
    cases ht : strip? lead (trimEnd s) with
    | none => rfl
    | some r =>
      -- the word would stand in front of the whole text as well
      obtain ⟨rest, hrest⟩ := trimEnd_isPrefix s
      rw [strip?_eq_some_iff] at ht
      have hwhole : strip? lead s = some (r ++ rest) := by
        rw [strip?_eq_some_iff, ← hrest, ht, List.append_assoc]
      rw [hs] at hwhole
      cases hwhole

theorem isNote_trim (line : List Char) : isNote (trim line) = isNote line := by
  have hword (lead : List Char) {c : Char} (hlast : lead.getLast? = some c)
      (hc : isBlank c = false) :
      strip? lead (trimStart (trim line)) = (strip? lead (trimStart line)).map trimEnd := by
    rw [trimStart_trim, trim, strip?_trimEnd hlast hc]
  have hsign (r : List Char) : (trimStart (trimEnd r)).head? = (trimStart r).head? := by
    rw [trimStart_trimEnd, head?_trim]
  unfold isNote
  dsimp only
  rw [hword "Answer".toList rfl (by decide), hword "Function:".toList rfl (by decide),
    Option.isSome_map]
  cases strip? "Answer".toList (trimStart line) with
  | none => rfl
  | some r =>
    dsimp only [Option.map_some]
    rw [hsign]

/-- A line of a table does not look like a note. -/
theorem isNote_of_bar {line : List Char} (h : (trimStart line).head? = some '|') :
    isNote line = false := by
  obtain ⟨text, htext⟩ : ∃ text, trimStart line = '|' :: text := by
    cases hline : trimStart line with
    | nil =>
      rw [hline] at h
      cases h
    | cons c text =>
      rw [hline] at h
      cases h
      exact ⟨text, rfl⟩
  rw [isNote, htext]
  rfl

namespace LineKind

/-! ## Kinds -/

/-- Does a line of the kind ask for something by an exclamation mark? -/
def isDirective : LineKind → Bool
  | setting _ | table _ => true
  | _ => false

theorem ofText_eq_note_iff {text : List Char} : ofText text = .note ↔ isNote text = true := by
  constructor
  · intro h
    unfold ofText at h
    split at h
    · assumption
    · split at h
      case h_6 => split at h <;> cases h
      case h_7 => split at h <;> cases h
      all_goals cases h
  · intro h
    unfold ofText
    rw [if_pos h]

theorem ofText_eq_tableLine_iff {text : List Char} :
    ofText text = .tableLine ↔ text.head? = some '|' := by
  constructor
  · intro h
    unfold ofText at h
    split at h
    · cases h
    · split at h
      case h_5 => rfl
      case h_6 => split at h <;> cases h
      case h_7 => split at h <;> cases h
      all_goals cases h
  · intro h
    obtain ⟨r, rfl⟩ := List.head?_eq_some_iff.mp h
    rfl

theorem isDirective_ofText_iff {text : List Char} :
    (ofText text).isDirective = true ↔ text.head? = some '!' := by
  constructor
  · intro h
    unfold ofText at h
    split at h
    · cases h
    · split at h
      case h_6 => split at h <;> cases h
      case h_7 => rfl
      all_goals cases h
  · intro h
    obtain ⟨r, rfl⟩ := List.head?_eq_some_iff.mp h
    have hnote : isNote ('!' :: r) = false := rfl
    unfold ofText
    rw [hnote, if_neg Bool.false_ne_true]
    cases directive? ('!' :: r) <;> rfl

theorem ofLine_eq_note_iff {line : List Char} : ofLine line = .note ↔ isNote line = true := by
  rw [ofLine, ofText_eq_note_iff, isNote_trim]

theorem ofLine_eq_tableLine_iff {line : List Char} :
    ofLine line = .tableLine ↔ (trimStart line).head? = some '|' := by
  rw [ofLine, ofText_eq_tableLine_iff, head?_trim]

theorem isDirective_ofLine_iff {line : List Char} :
    (ofLine line).isDirective = true ↔ (trimStart line).head? = some '!' := by
  rw [ofLine, isDirective_ofText_iff, head?_trim]

theorem trim_ne_nil_of_ofLine_ne_blank {line : List Char} (h : ofLine line ≠ .blank) :
    trim line ≠ [] := by
  intro hnil
  rw [ofLine, hnil] at h
  exact h (by decide)

end LineKind

end Worksheet
