/-!
# Lines of a text

Lines end with a line feed, which may have a carriage return before it; the last one may have no
end.

Main statement: `flatMap_lines`, the lines of a text without carriage returns, each with a line feed
behind, are the text with a line feed behind where it has none.
-/

namespace Worksheet.Text

/-- The lines of a text. -/
def lines : List Char → List (List Char)
  | [] => []
  | '\r' :: '\n' :: r => [] :: lines r
  | '\n' :: r => [] :: lines r
  | c :: r =>
    match lines r with
    | [] => [[c]]
    | line :: rest => (c :: line) :: rest

/-- Does a text end with a line feed? -/
def endsWithLineFeed (s : List Char) : Bool := s.getLast? == some '\n'

theorem lines_ne_nil {c : Char} {s : List Char} : lines (c :: s) ≠ [] := by
  unfold lines
  split
  · next h => cases h
  · simp
  · simp
  · split <;> simp

theorem flatMap_lines {s : List Char} (h : '\r' ∉ s) :
    (lines s).flatMap (fun line => line ++ ['\n']) =
      if s.isEmpty || endsWithLineFeed s then s else s ++ ['\n'] := by
  fun_induction lines s with
  | case1 => rfl
  | case2 r ih => simp at h
  | case3 r ih =>
    have ih := ih fun hr => h (List.mem_cons_of_mem _ hr)
    rw [List.flatMap_cons, ih]
    cases r with
    | nil => rfl
    | cons c r => simp [endsWithLineFeed]; split <;> simp
  | case4 c r hc hn hl ih =>
    cases r with
    | nil =>
      have : c ≠ '\n' := fun hc' => hn hc'
      simp [endsWithLineFeed, this]
    | cons d r => exact absurd hl lines_ne_nil
  | case5 c r hc hn line rest hl ih =>
    have ih := ih fun hr => h (List.mem_cons_of_mem _ hr)
    cases r with
    | nil => simp [lines] at hl
    | cons d r =>
      rw [hl] at ih
      simp only [List.flatMap_cons, List.cons_append] at ih ⊢
      rw [ih]
      simp [endsWithLineFeed]
      split <;> simp

end Worksheet.Text
