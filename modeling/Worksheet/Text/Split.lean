/-!
# Lists in a text

Cutting a text at separators, and putting the parts together again.

Main statement: `joinWith_splitAt`, the parts with the separator between them are the text.
-/

namespace Worksheet.Text

/-- The parts between the characters that are separators. There is always at least one part. -/
def splitAt (isSeparator : Char → Bool) : List Char → List (List Char)
  | [] => [[]]
  | c :: r =>
    if isSeparator c then [] :: splitAt isSeparator r
    else
      match splitAt isSeparator r with
      | [] => [[c]]
      | part :: parts => (c :: part) :: parts

/-- The parts with a separator between any two of them. -/
def joinWith (separator : List Char) : List (List Char) → List Char
  | [] => []
  | [part] => part
  | part :: parts => part ++ separator ++ joinWith separator parts

theorem splitAt_ne_nil (f : Char → Bool) (s : List Char) : splitAt f s ≠ [] := by
  cases s with
  | nil => simp [splitAt]
  | cons c r =>
    unfold splitAt
    split
    · simp
    · split <;> simp

theorem joinWith_splitAt (c : Char) (s : List Char) : joinWith [c] (splitAt (· == c) s) = s := by
  induction s with
  | nil => rfl
  | cons x r ih =>
    unfold splitAt
    split
    · next h =>
      have hx : x = c := by simpa using h
      subst hx
      cases hs : splitAt (· == x) r with
      | nil => exact absurd hs (splitAt_ne_nil _ _)
      | cons p ps => rw [hs] at ih; simp [joinWith, ih]
    · split
      · next hs => exact absurd hs (splitAt_ne_nil _ _)
      · next p ps hs =>
        rw [hs] at ih
        cases ps with
        | nil => simpa [joinWith] using ih
        | cons q qs => simpa [joinWith] using ih

/-- The parts between the separators, at most `limit + 1` of them: the last one keeps the rest. -/
def splitAtMost (isSeparator : Char → Bool) (limit : Nat) (s : List Char) : List (List Char) :=
  match limit with
  | 0 => [s]
  | n + 1 =>
    match s.dropWhile fun c => !isSeparator c with
    | [] => [s]
    | _ :: rest => s.takeWhile (fun c => !isSeparator c) :: splitAtMost isSeparator n rest

end Worksheet.Text
