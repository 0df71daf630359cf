import Worksheet.Number.Word
import Worksheet.Text.Class

/-!
# Numerals

Writing a natural number in a base and reading one back, over lists of characters.
-/

namespace Worksheet.Text

/-- The value of an ASCII digit; a character that is none counts as zero. -/
def digitValue (c : Char) : Nat := if isDigit c then c.toNat - '0'.toNat else 0

/-- The number that a run of decimal digits denotes. -/
def readDigits (s : List Char) : Nat := s.foldl (fun n c => 10 * n + digitValue c) 0

/-- The decimal digits of a natural number, without leading zeros. -/
def showNat (n : Nat) : List Char := Nat.toDigits 10 n

/-- An integer in decimal, with a minus in front if it is negative. -/
def showInt (n : Int) : List Char :=
  if n < 0 then '-' :: showNat n.natAbs else showNat n.natAbs

/-- A natural number in decimal, filled with zeros in front to `width` digits. -/
def showPadded (width n : Nat) : List Char :=
  let s := showNat n
  List.replicate (width - s.length) '0' ++ s

/-- A decimal integer with an optional sign, read exactly; none if there is no digit or a stray
character. -/
def readInt? (s : List Char) : Option Int :=
  let unsigned (r : List Char) : Option Nat :=
    if r.isEmpty || !r.all isDigit then none else some (readDigits r)
  match s with
  | '-' :: r => (unsigned r).map fun n => -(n : Int)
  | '+' :: r => (unsigned r).map fun n => (n : Int)
  | r => (unsigned r).map fun n => (n : Int)

/-- As `readInt?`, none also if the value does not fit in a word. -/
def readWord? (s : List Char) : Option Int64 := (readInt? s).bind word?

/-- Cuts a text at the first occurrence of `c`, which belongs to neither part. -/
def cutAt? (c : Char) (s : List Char) : Option (List Char × List Char) :=
  match s with
  | [] => none
  | x :: r => if x == c then some ([], r) else (cutAt? c r).map fun p => (x :: p.1, p.2)

theorem cutAt?_eq_some {c : Char} {s a b : List Char} (h : cutAt? c s = some (a, b)) :
    s = a ++ c :: b ∧ c ∉ a := by
  induction s generalizing a b with
  | nil => simp [cutAt?] at h
  | cons x r ih =>
    unfold cutAt? at h
    split at h
    · next hx =>
      have : x = c := by simpa using hx
      simp only [Option.some.injEq, Prod.mk.injEq] at h
      obtain ⟨rfl, rfl⟩ := h
      simp [this]
    · next hx =>
      obtain ⟨p, hp, he⟩ := Option.map_eq_some_iff.1 h
      simp only [Prod.mk.injEq] at he
      obtain ⟨rfl, rfl⟩ := he
      obtain ⟨h1, h2⟩ := ih (a := p.1) (b := p.2) (by simpa using hp)
      have hne : x ≠ c := by simpa using hx
      exact ⟨by rw [h1]; rfl, by simp [h2, Ne.symm hne]⟩

end Worksheet.Text
