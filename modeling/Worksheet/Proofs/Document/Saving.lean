import Worksheet.Proofs.Document.Grouping
import Worksheet.Proofs.Text.Lines

/-!
# What saving keeps

A text that is read is cut into lines, and these are put into entries. Written again, the lines are joined with line
feeds and the last one gets its end back.

* **`withLineFeeds`** — the text in which carriage returns in front of line feeds are left out.
* **`joinWith_lines`** — the lines of a text, joined, are this text but for the end of the last line.
* **`Document.text_ofText`** — the headline: what is written is this text, unless it is one empty line.
-/

namespace Worksheet

open Text

namespace Text

/-! ## Ends of lines -/

/-- The text with line feeds as the ends of its lines: a carriage return in front of a line feed is left out. -/
def withLineFeeds : List Char → List Char
  | [] => []
  | '\r' :: '\n' :: r => '\n' :: withLineFeeds r
  | c :: r => c :: withLineFeeds r

theorem withLineFeeds_eq_nil_iff {s : List Char} : withLineFeeds s = [] ↔ s = [] := by
  fun_cases withLineFeeds s <;> simp

/-- Only an empty line is a line feed and nothing else. -/
theorem withLineFeeds_eq_newline_iff {s : List Char} :
    withLineFeeds s = ['\n'] ↔ s = ['\n'] ∨ s = ['\r', '\n'] := by
  fun_cases withLineFeeds s with
  | case1 => simp
  | case2 r => simp [withLineFeeds_eq_nil_iff]
  | case3 c r hcr =>
    have hne : ¬(c = '\r' ∧ r = ['\n']) := by
      rintro ⟨rfl, rfl⟩
      exact hcr [] rfl rfl
    simp [withLineFeeds_eq_nil_iff, hne]

/-- The end of the last line, if it has one. -/
def lastEnd (s : List Char) : List Char := if endsWithLineFeed s then ['\n'] else []

theorem lastEnd_cons (c : Char) {r : List Char} (hr : r ≠ []) : lastEnd (c :: r) = lastEnd r := by
  rw [lastEnd, lastEnd, endsWithLineFeed, endsWithLineFeed, List.getLast?_cons_of_ne_nil hr]

/-- The lines of a text, joined again. -/
theorem joinWith_lines (s : List Char) : joinWith ['\n'] (lines s) ++ lastEnd s = withLineFeeds s := by
  -- an empty line in front is a line feed more
  have hblank : ∀ r, joinWith ['\n'] (lines r) ++ lastEnd r = withLineFeeds r →
      joinWith ['\n'] ([] :: lines r) ++ lastEnd ('\n' :: r) = '\n' :: withLineFeeds r := by
    intro r ih
    cases r with
    | nil => rfl
    | cons c r =>
      rw [joinWith_cons '\n' [] lines_ne_nil, lastEnd_cons _ (List.cons_ne_nil c r), ← ih]
      rfl
  fun_induction lines s with
  | case1 => rfl
  | case2 r ih => rw [withLineFeeds, lastEnd_cons _ (List.cons_ne_nil '\n' r), hblank r ih]
  | case3 r ih =>
    rw [withLineFeeds, hblank r ih]
    exact fun _ hcr => absurd hcr (by decide)
  | case4 c r hcr hlf hr ih =>
    -- the last line, of one character
    cases r with
    | nil =>
      have hne : c ≠ '\n' := hlf
      simp [joinWith, lastEnd, endsWithLineFeed, hne, withLineFeeds]
    | cons d r => exact absurd hr lines_ne_nil
  | case5 c r hcr hlf line rest hr ih =>
    have hne : r ≠ [] := by
      rintro rfl
      cases hr
    have hjoin : joinWith ['\n'] ((c :: line) :: rest) = c :: joinWith ['\n'] (line :: rest) := by
      cases rest <;> rfl
    rw [hjoin, lastEnd_cons c hne, List.cons_append, ← hr, ih, withLineFeeds]
    exact hcr

end Text

namespace Document

/-- **What is read is written again**, with line feeds as the ends of the lines. Only of an empty line by itself nothing
is left. -/
theorem text_ofText (s : List Char) :
    (ofText s).text = if s = ['\n'] ∨ s = ['\r', '\n'] then [] else withLineFeeds s := by
  by_cases hblank : s = ['\n'] ∨ s = ['\r', '\n']
  · rw [if_pos hblank]
    rcases hblank with rfl | rfl <;> rfl
  · have hne : withLineFeeds s ≠ ['\n'] := fun h => hblank (withLineFeeds_eq_newline_iff.mp h)
    have hlines : (ofText s).entries.flatMap Entry.lines = lines s := (group_eq_iff.mp rfl).1
    have hend : (ofText s).endsWithLineFeed = Text.endsWithLineFeed s := rfl
    rw [if_neg hblank, text, hlines, hend]
    rw [← joinWith_lines, lastEnd] at hne ⊢
    cases hlast : Text.endsWithLineFeed s with
    | false => simp
    | true =>
      -- the lines are not empty, or the text would be one line feed
      have hjoined : joinWith ['\n'] (lines s) ≠ [] := fun h => hne (by rw [h, hlast]; rfl)
      simp [hjoined]

/-- **One empty line is lost.** -/
theorem text_ofText_ne : (ofText ['\n']).text ≠ withLineFeeds ['\n'] := by decide

end Document

end Worksheet
