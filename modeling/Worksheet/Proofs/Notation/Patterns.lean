import Worksheet.Notation.Basic
import Worksheet.Proofs.Text.Digits
import Worksheet.Proofs.Text.Literal
import Worksheet.Proofs.Text.Pattern

/-!
# What the patterns of the notation write

Every pattern of the notation is told in two ways: what it writes in place of plain text leaves no
literal open, and where it writes nothing begins with the mark of a function.

* **`Pattern.Quoteless`**, **`Pattern.Closing`** — a pattern that writes no quote, and one that
  writes quotes in whole literals; `Pattern.Quoteless.substitute` and `Pattern.Closing.substitute`
  carry this over to texts.
* **`Pattern.Unmarked`** — a pattern that neither fits at the mark of a function nor writes one in
  front; `Pattern.Unmarked.substitute`.
* One lemma for each pattern and property, by what the pattern reads.
-/

namespace Worksheet

open Text

namespace Text.Pattern

variable {p : Pattern (List Char)}

/-! ## Quotes -/

/-- In place of text without quotes the pattern writes text without quotes. -/
def Quoteless (p : Pattern (List Char)) : Prop :=
  ∀ ⦃before after out rest⦄, p before after = some (out, rest) → '"' ∉ after → '"' ∉ out

/-- In place of text without quotes the pattern writes text that leaves no literal open. -/
def Closing (p : Pattern (List Char)) : Prop :=
  ∀ ⦃before after out rest⦄, p before after = some (out, rest) → '"' ∉ after → Closed out

theorem Quoteless.closing (hp : p.Quoteless) : p.Closing :=
  fun _ _ _ _ h hafter => closed_of_not_mem (hp h hafter)

theorem Quoteless.substitute (hp : p.Quoteless) {s : List Char} (hs : '"' ∉ s) :
    '"' ∉ p.substitute s := by
  refine substitute_of_pieces (P := fun t => '"' ∉ t) List.not_mem_nil List.not_mem_append ?_ ?_
  · exact fun c hc hmem => hs (List.mem_singleton.mp hmem ▸ hc)
  · exact fun hsuffix h => hp h fun hmem => hs (hsuffix.subset hmem)

theorem Closing.substitute (hp : p.Closing) {s : List Char} (hs : '"' ∉ s) :
    Closed (p.substitute s) := by
  refine substitute_of_pieces (P := Closed) (closed_of_not_mem List.not_mem_nil) Closed.append ?_ ?_
  · exact fun c hc => closed_of_not_mem fun hmem => hs (List.mem_singleton.mp hmem ▸ hc)
  · exact fun hsuffix h => hp h fun hmem => hs (hsuffix.subset hmem)

theorem quoteless_foldl {ps : List (Pattern (List Char))} (h : ∀ p ∈ ps, p.Quoteless)
    {s : List Char} (hs : '"' ∉ s) : '"' ∉ ps.foldl (fun s p => p.substitute s) s := by
  induction ps generalizing s with
  | nil => exact hs
  | cons p ps ih =>
    exact ih (fun q hq => h q (List.mem_cons_of_mem p hq))
      ((h p List.mem_cons_self).substitute hs)

end Text.Pattern

namespace Notation

/-! ## The mark of a function -/

/-- Are the texts empty together, and do they begin with the mark of a function together? -/
def SameMark (s t : List Char) : Prop :=
  (s = [] ↔ t = []) ∧ (s.head? = some functionMark ↔ t.head? = some functionMark)

theorem SameMark.refl (s : List Char) : SameMark s s := ⟨Iff.rfl, Iff.rfl⟩

theorem SameMark.trans {s t u : List Char} (h : SameMark s t) (h' : SameMark t u) : SameMark s u :=
  ⟨h.1.trans h'.1, h.2.trans h'.2⟩

/-- Does a text begin with a character other than the mark of a function? -/
def BeginsUnmarked (s : List Char) : Prop := ∃ c r, s = c :: r ∧ c ≠ functionMark

theorem BeginsUnmarked.sameMark {s t : List Char} (hs : BeginsUnmarked s) (ht : BeginsUnmarked t) :
    SameMark s t := by
  obtain ⟨c, r, rfl, hc⟩ := hs
  obtain ⟨d, u, rfl, hd⟩ := ht
  simp [SameMark, hc, hd]

theorem BeginsUnmarked.append {s : List Char} (hs : BeginsUnmarked s) (t : List Char) :
    BeginsUnmarked (s ++ t) := by
  obtain ⟨c, r, rfl, hc⟩ := hs
  exact ⟨c, r ++ t, rfl, hc⟩

/-- The pattern neither fits at the mark of a function nor writes one in front. -/
def Unmarked (p : Pattern (List Char)) : Prop :=
  ∀ ⦃before after out rest⦄, p before after = some (out, rest) →
    BeginsUnmarked after ∧ BeginsUnmarked out

theorem Unmarked.substitute {p : Pattern (List Char)} (hp : Unmarked p) (s : List Char) :
    SameMark (p.substitute s) s := by
  cases s with
  | nil => exact .refl []
  | cons c r =>
    unfold Pattern.substitute Pattern.scanFrom
    cases hmatch : p [] (c :: r) with
    | none => simp [SameMark]
    | some m =>
      obtain ⟨out, rest⟩ := m
      obtain ⟨hafter, hout⟩ := hp hmatch
      exact (hout.append _).sameMark hafter

theorem sameMark_foldl {ps : List (Pattern (List Char))} (h : ∀ p ∈ ps, Unmarked p)
    (s : List Char) : SameMark (ps.foldl (fun s p => p.substitute s) s) s := by
  induction ps generalizing s with
  | nil => exact .refl s
  | cons p ps ih =>
    have hrest := ih (fun q hq => h q (List.mem_cons_of_mem p hq)) (p.substitute s)
    exact hrest.trans ((h p List.mem_cons_self).substitute s)

theorem sameMark_mapPlain {f : List Char → List Char} (h : ∀ p, '"' ∉ p → SameMark (f p) p)
    (s : List Char) : SameMark (mapPlain f s) s := by
  rcases plain_or_quote s with hs | ⟨p, r, hp, rfl⟩
  · rw [mapPlain_of_not_mem f hs]
    exact h s hs
  · rw [mapPlain_append_quote f hp]
    obtain ⟨hnil, hmark⟩ := h p hp
    -- what stands in front of the quote decides, or the quote if that is nothing
    cases p with
    | nil =>
      rw [hnil.mpr rfl]
      exact BeginsUnmarked.sameMark ⟨_, _, rfl, by decide⟩ ⟨_, _, rfl, by decide⟩
    | cons c p =>
      cases hf : f (c :: p) with
      | nil => exact absurd (hnil.mp hf) (by simp)
      | cons d q =>
        rw [hf] at hmark
        simpa [SameMark] using hmark

/-! ## Runs of characters -/

theorem not_mem_takeWhile {c : Char} {s : List Char} (h : c ∉ s) (f : Char → Bool) :
    c ∉ s.takeWhile f := fun hc => h (List.takeWhile_subset f hc)

theorem not_mem_dropWhile {c : Char} {s : List Char} (h : c ∉ s) (f : Char → Bool) :
    c ∉ s.dropWhile f := fun hc => h (List.dropWhile_subset f hc)

/-- A text with a run of characters at its beginning that the mark of a function is none of. -/
theorem beginsUnmarked_of_takeWhile {f : Char → Bool} (hf : f functionMark = false)
    {s : List Char} (h : (s.takeWhile f).isEmpty = false) :
    BeginsUnmarked s ∧ BeginsUnmarked (s.takeWhile f) := by
  cases s with
  | nil => cases h
  | cons c r =>
    by_cases hc : f c = true
    · have hne : c ≠ functionMark := by
        rintro rfl
        rw [hf] at hc
        cases hc
      rw [List.takeWhile_cons_of_pos hc]
      exact ⟨⟨c, r, rfl, hne⟩, ⟨c, _, rfl, hne⟩⟩
    · rw [List.takeWhile_cons_of_neg hc] at h
      cases h

/-! ## Operators -/

theorem factorial_quoteless : Pattern.Quoteless factorial := by
  intro before after out rest h hafter
  have hoperand := not_mem_takeWhile hafter isNameChar
  unfold factorial at h
  dsimp only at h
  split at h
  · cases h
    simp [hoperand]
  · cases h
    simp [hoperand]
  · cases h

theorem factorial_unmarked : Unmarked factorial := by
  intro before after out rest h
  unfold factorial at h
  dsimp only at h
  split at h
  · next hne _ =>
    cases h
    obtain ⟨hafter, hoperand⟩ := beginsUnmarked_of_takeWhile (by decide) hne
    exact ⟨hafter, hoperand.append _⟩
  · next hne _ =>
    cases h
    obtain ⟨hafter, -⟩ := beginsUnmarked_of_takeWhile (by decide) hne
    exact ⟨hafter, ⟨'f', _, rfl, by decide⟩⟩
  · cases h

theorem not_mem_superscriptDigits (s : List Char) : '"' ∉ (superscriptDigits s).1 := by
  induction s with
  | nil => exact List.not_mem_nil
  | cons c r ih =>
    unfold superscriptDigits
    split
    · next d hd =>
      have hquote : '"' ≠ d := by
        rintro rfl
        unfold superscriptDigit? at hd
        split at hd <;> cases hd
      exact List.not_mem_cons_of_ne_of_not_mem hquote ih
    · exact List.not_mem_nil

theorem signs_quoteless : Pattern.Quoteless signs := by
  intro before after out rest h hafter
  unfold signs at h
  split at h
  · cases h
  · next c r =>
    split at h
    · cases h
      decide
    · split at h
      · cases h
        decide
      · split at h
        · have hdigits := not_mem_superscriptDigits r
          split at h
          · cases h
          · next hread =>
            cases h
            rw [hread] at hdigits
            simp [hdigits]
        · have hdigits := not_mem_superscriptDigits (c :: r)
          split at h
          · cases h
          · next hread =>
            cases h
            rw [hread] at hdigits
            simp [hdigits]

theorem signs_unmarked : Unmarked signs := by
  intro before after out rest h
  unfold signs at h
  split at h
  · cases h
  · next c r =>
    have hc : c ≠ functionMark := by
      rintro rfl
      exact absurd h (by simp [functionMark, superscriptDigits, superscriptDigit?])
    refine ⟨⟨c, r, rfl, hc⟩, ?_⟩
    split at h
    · cases h
      exact ⟨'/', _, rfl, by decide⟩
    · split at h
      · cases h
        exact ⟨'*', _, rfl, by decide⟩
      · split at h
        · split at h
          · cases h
          · cases h
            exact ⟨'*', _, rfl, by decide⟩
        · split at h
          · cases h
          · cases h
            exact ⟨'*', _, rfl, by decide⟩

theorem eq_of_closeParen? {depth : Nat} {s inside rest : List Char}
    (h : closeParen? depth s = some (inside, rest)) : ∃ t, s = inside ++ t := by
  induction s generalizing depth inside rest with
  | nil => cases h
  | cons c r ih =>
    -- whatever the depth behind it, the character is the first one of the inside
    have hdeeper : ∀ d, (closeParen? d r).map (fun p => (c :: p.1, p.2)) = some (inside, rest) →
        ∃ t, c :: r = inside ++ t := by
      intro d hd
      obtain ⟨⟨i, u⟩, hi, hpair⟩ := Option.map_eq_some_iff.mp hd
      cases hpair
      obtain ⟨t, rfl⟩ := ih hi
      exact ⟨t, rfl⟩
    unfold closeParen? at h
    dsimp only at h
    split at h
    · exact hdeeper _ h
    · split at h
      · split at h
        · cases h
          exact ⟨c :: r, rfl⟩
        · exact hdeeper _ h
      · exact hdeeper _ h

theorem not_mem_rootOperand? {s operand rest : List Char}
    (h : rootOperand? s = some (operand, rest)) (hs : '"' ∉ s) : '"' ∉ operand := by
  unfold rootOperand? at h
  split at h
  · next r =>
    obtain ⟨t, rfl⟩ := eq_of_closeParen? h
    intro hmem
    exact hs (List.mem_cons_of_mem _ (List.mem_append_left t hmem))
  · split at h
    · cases h
    · cases h
      exact not_mem_takeWhile hs _

theorem roots_quoteless : Pattern.Quoteless roots := by
  intro before after out rest h hafter
  unfold roots at h
  split at h
  · cases h
  · next c r =>
    split at h
    · next degree operand u hdegree hoperand =>
      cases h
      have hinside := not_mem_rootOperand? hoperand (List.not_mem_of_not_mem_cons hafter)
      have hquote : '"' ≠ degree := by
        rintro rfl
        unfold rootDegree? at hdegree
        split at hdegree <;> cases hdegree
      simp [hinside, hquote]
    · cases h

theorem roots_unmarked : Unmarked roots := by
  intro before after out rest h
  unfold roots at h
  split at h
  · cases h
  · next c r =>
    split at h
    · next degree operand u hdegree hoperand =>
      cases h
      have hc : c ≠ functionMark := by
        rintro rfl
        cases hdegree
      exact ⟨⟨c, r, rfl, hc⟩, ⟨'(', _, rfl, by decide⟩⟩
    · cases h

theorem percentage?_eq_some {signs s operand rest : List Char} {sign : Char}
    (h : percentage? signs s = some (sign, operand, rest)) :
    (∃ r, s = sign :: r) ∧ sign ∈ signs ∧ ('"' ∉ s → '"' ∉ operand) := by
  unfold percentage? at h
  split at h
  · cases h
  · next c r =>
    dsimp only at h
    split at h
    · next hsign hne hrest =>
      cases h
      refine ⟨⟨r, rfl⟩, List.contains_iff_mem.mp hsign, fun hs => ?_⟩
      exact not_mem_takeWhile (not_mem_dropWhile (List.not_mem_of_not_mem_cons hs) _) _
    · cases h

/-- The sign of a percentage is no mark of a function. -/
theorem sign_of_percentage? {signs s operand rest : List Char} {sign : Char} (hsigns : functionMark ∉ signs)
    (h : percentage? signs s = some (sign, operand, rest)) : ∃ r, s = sign :: r ∧ sign ≠ functionMark := by
  obtain ⟨⟨r, hr⟩, hsign, -⟩ := percentage?_eq_some h
  exact ⟨r, hr, fun hmark => hsigns (hmark ▸ hsign)⟩

theorem percentOf_quoteless : Pattern.Quoteless percentOf := by
  intro before after out rest h hafter
  obtain ⟨⟨sign, operand, u⟩, hread, hpair⟩ := Option.map_eq_some_iff.mp h
  cases hpair
  obtain ⟨⟨r, rfl⟩, -, hoperand⟩ := percentage?_eq_some hread
  simp [hoperand hafter, List.ne_of_not_mem_cons hafter]

theorem percentOf_unmarked : Unmarked percentOf := by
  intro before after out rest h
  obtain ⟨⟨sign, operand, u⟩, hread, hpair⟩ := Option.map_eq_some_iff.mp h
  cases hpair
  obtain ⟨r, rfl, hne⟩ := sign_of_percentage? (by decide) hread
  exact ⟨⟨sign, r, rfl, hne⟩, ⟨sign, _, rfl, hne⟩⟩

theorem percentStep_quoteless : Pattern.Quoteless percentStep := by
  intro before after out rest h hafter
  obtain ⟨⟨sign, operand, u⟩, hread, hpair⟩ := Option.map_eq_some_iff.mp h
  cases hpair
  obtain ⟨⟨r, rfl⟩, -, hoperand⟩ := percentage?_eq_some hread
  have hsign : '"' ≠ sign := List.ne_of_not_mem_cons hafter
  split <;> simp [hoperand hafter, hsign]

theorem percentStep_unmarked : Unmarked percentStep := by
  intro before after out rest h
  obtain ⟨⟨sign, operand, u⟩, hread, hpair⟩ := Option.map_eq_some_iff.mp h
  cases hpair
  obtain ⟨r, rfl, hne⟩ := sign_of_percentage? (by decide) hread
  refine ⟨⟨sign, r, rfl, hne⟩, ?_⟩
  split
  · exact ⟨'(', _, rfl, by decide⟩
  · exact ⟨'*', _, rfl, by decide⟩

/-! ## Numerals -/

theorem eq_append_of_digits? {s d rest : List Char} (h : digits? s = some (d, rest)) :
    s = d ++ rest ∧ (s.takeWhile isDecimal).isEmpty = false := by
  unfold digits? at h
  split at h
  · cases h
  · next hne =>
    cases h
    exact ⟨List.takeWhile_append_dropWhile.symm, by simpa using hne⟩

theorem beginsUnmarked_of_digits? {s d rest : List Char} (h : digits? s = some (d, rest)) :
    BeginsUnmarked s :=
  (beginsUnmarked_of_takeWhile (by decide) (eq_append_of_digits? h).2).1

theorem eq_append_of_extend {s : List Char} {numeral : List Char × List Char}
    {part : List Char → Option (List Char × List Char)} (hs : s = numeral.1 ++ numeral.2)
    (hpart : ∀ {t d rest}, part t = some (d, rest) → t = d ++ rest) :
    s = (extend numeral part).1 ++ (extend numeral part).2 := by
  unfold extend
  split
  · next more rest h =>
    rw [hs, hpart h]
    simp
  · exact hs

theorem eq_append_of_fractionPart? {s d rest : List Char}
    (h : fractionPart? s = some (d, rest)) : s = d ++ rest := by
  unfold fractionPart? at h
  split at h
  · obtain ⟨⟨d', u⟩, hd, hpair⟩ := Option.map_eq_some_iff.mp h
    cases hpair
    rw [(eq_append_of_digits? hd).1]
    rfl
  · cases h

theorem eq_append_of_exponentPart? {s d rest : List Char}
    (h : exponentPart? s = some (d, rest)) : s = d ++ rest := by
  unfold exponentPart? at h
  split at h
  · cases h
  · split at h
    · split at h
      · cases h
      · -- with a sign the digits stand behind it
        split at h
        · obtain ⟨⟨d', u⟩, hd, hpair⟩ := Option.map_eq_some_iff.mp h
          cases hpair
          rw [(eq_append_of_digits? hd).1]
          rfl
        · obtain ⟨⟨d', u⟩, hd, hpair⟩ := Option.map_eq_some_iff.mp h
          cases hpair
          rw [(eq_append_of_digits? hd).1]
          rfl
    · cases h

/-! ## Ratios and decimal fractions -/

theorem ratio_eq_some {before after out rest : List Char}
    (h : ratio before after = some (out, rest)) :
    ∃ a b r, digits? after = some (a, ':' :: r) ∧ digits? r = some (b, rest) ∧
      out = "Fraction(".toList ++ a ++ [',', ' '] ++ b ++ [')'] := by
  unfold ratio at h
  split at h
  · split at h
    · next a r hfirst =>
      split at h
      · next b u hsecond =>
        split at h
        · cases h
          exact ⟨a, b, r, hfirst, hsecond, rfl⟩
        · cases h
      · cases h
    · cases h
  · cases h

theorem ratio_quoteless : Pattern.Quoteless ratio := by
  intro before after out rest h hafter
  obtain ⟨a, b, r, hfirst, hsecond, rfl⟩ := ratio_eq_some h
  rw [(eq_append_of_digits? hfirst).1, (eq_append_of_digits? hsecond).1] at hafter
  simp only [List.mem_append, List.mem_cons, not_or] at hafter
  simp [hafter]

theorem ratio_unmarked : Unmarked ratio := by
  intro before after out rest h
  obtain ⟨a, b, r, hfirst, hsecond, rfl⟩ := ratio_eq_some h
  exact ⟨beginsUnmarked_of_digits? hfirst, ⟨'F', _, rfl, by decide⟩⟩

theorem colonDecimal?_eq_some {colons s d rest : List Char}
    (h : colonDecimal? (':' :: colons) s = some (d, rest)) :
    BeginsUnmarked s ∧ ∀ c ∈ d, isDigit c = true ∨ c = '.' := by
  obtain ⟨r, hr, hbody⟩ := Option.bind_eq_some_iff.mp h
  rw [strip?_eq_some_iff] at hr
  refine ⟨⟨':', _, hr, by decide⟩, ?_⟩
  dsimp only at hbody
  split at hbody
  · cases hbody
  · cases hbody
    intro c hc
    simpa using List.mem_takeWhile_imp hc

/-- A text in quotes is a literal if it holds neither a quote nor a backslash. -/
theorem isLiteral_inQuotes {s : List Char} (hquote : '"' ∉ s) (hescape : '\\' ∉ s) :
    IsLiteral (inQuotes s) := by
  have hbody : LiteralBody s := by
    induction s with
    | nil => exact .nil
    | cons c s ih =>
      simp only [List.mem_cons, not_or] at hquote hescape
      exact .char (Ne.symm hquote.1) (Ne.symm hescape.1) (ih hquote.2 hescape.2)
  exact ⟨s, hbody, by simp [inQuotes]⟩

theorem isLiteral_inQuotes_decimal {d : List Char} (h : ∀ c ∈ d, isDigit c = true ∨ c = '.') :
    IsLiteral (inQuotes d) := by
  refine isLiteral_inQuotes ?_ ?_ <;> intro hmem <;> exact absurd (h _ hmem) (by decide)

/-- A decimal behind colons, in quotes between two texts. Both rules for decimals have this form. -/
def quotedDecimal (colons lead tail : List Char) : Pattern (List Char) := fun _ after =>
  (colonDecimal? colons after).map fun (d, rest) => (lead ++ inQuotes d ++ tail, rest)

theorem exactDecimal_eq :
    exactDecimal = quotedDecimal [':', ':', ':'] "Fraction(".toList [')'] := rfl

theorem nearDecimal_eq :
    nearDecimal = quotedDecimal [':', ':'] "approximate(Fraction(".toList [')', ')'] := rfl

section QuotedDecimal

variable {colons lead tail : List Char}

theorem quotedDecimal_closing (hlead : Closed lead) (htail : Closed tail) :
    Pattern.Closing (quotedDecimal (':' :: colons) lead tail) := by
  intro before after out rest h _
  obtain ⟨⟨d, u⟩, hread, hpair⟩ := Option.map_eq_some_iff.mp h
  cases hpair
  obtain ⟨-, hd⟩ := colonDecimal?_eq_some hread
  exact (hlead.append ((isLiteral_inQuotes_decimal hd).closed)).append htail

theorem quotedDecimal_unmarked (hlead : BeginsUnmarked lead) :
    Unmarked (quotedDecimal (':' :: colons) lead tail) := by
  intro before after out rest h
  obtain ⟨⟨d, u⟩, hread, hpair⟩ := Option.map_eq_some_iff.mp h
  cases hpair
  exact ⟨(colonDecimal?_eq_some hread).1, (hlead.append _).append tail⟩

end QuotedDecimal

theorem exactDecimal_closing : Pattern.Closing exactDecimal :=
  exactDecimal_eq ▸ quotedDecimal_closing (by decide) (by decide)

theorem exactDecimal_unmarked : Unmarked exactDecimal :=
  exactDecimal_eq ▸ quotedDecimal_unmarked ⟨'F', _, rfl, by decide⟩

theorem nearDecimal_closing : Pattern.Closing nearDecimal :=
  nearDecimal_eq ▸ quotedDecimal_closing (by decide) (by decide)

theorem nearDecimal_unmarked : Unmarked nearDecimal :=
  nearDecimal_eq ▸ quotedDecimal_unmarked ⟨'a', _, rfl, by decide⟩

/-! ## The clock -/

theorem clockWord_eq_some {word text before after out rest : List Char}
    (h : clockWord word text before after = some (out, rest)) :
    out = text ∧ stripKeyword? word after = some rest := by
  unfold clockWord at h
  split at h
  · split at h
    · next hr =>
      split at h
      · cases h
        exact ⟨rfl, hr⟩
      · cases h
    · cases h
  · cases h

theorem clockWord_quoteless (word : List Char) {text : List Char} (htext : '"' ∉ text) :
    Pattern.Quoteless (clockWord word text) := by
  intro before after out rest h _
  rw [(clockWord_eq_some h).1]
  exact htext

theorem clockWord_unmarked {k : Char} {word text : List Char}
    (hk : matchesLetter k functionMark = false) (htext : BeginsUnmarked text) :
    Unmarked (clockWord (k :: word) text) := by
  intro before after out rest h
  obtain ⟨rfl, hr⟩ := clockWord_eq_some h
  refine ⟨?_, htext⟩
  cases after with
  | nil => cases hr
  | cons c after =>
    refine ⟨c, after, rfl, ?_⟩
    rintro rfl
    rw [stripKeyword?, hk] at hr
    cases hr

theorem not_mem_intercalate {c : Char} {sep : List Char} (hsep : c ∉ sep)
    {parts : List (List Char)} (hparts : ∀ part ∈ parts, c ∉ part) :
    c ∉ List.intercalate sep parts := by
  induction parts with
  | nil => simp [List.intercalate]
  | cons part parts ih =>
    have hrest := ih fun q hq => hparts q (List.mem_cons_of_mem part hq)
    have hpart := hparts part List.mem_cons_self
    cases parts with
    | nil => simpa [List.intercalate] using hpart
    | cons q parts =>
      rw [List.intercalate_cons_of_ne_nil (List.cons_ne_nil q parts)]
      exact List.not_mem_append (List.not_mem_append hpart hsep) hrest

theorem not_mem_numericCall {name : String} (hname : '"' ∉ name.toList) (args : List Int) :
    '"' ∉ numericCall name args := by
  have hargs : '"' ∉ List.intercalate [',', ' '] (args.map showInt) := by
    refine not_mem_intercalate (by decide) fun part hpart => ?_
    obtain ⟨n, -, rfl⟩ := List.mem_map.mp hpart
    exact not_mem_showInt (by decide) (by decide) n
  unfold numericCall
  simp [hname, hargs]

/-! ## Spans of time -/

theorem span_eq_some {w : SpanWords} {before after out rest : List Char}
    (h : span w before after = some (out, rest)) :
    ∃ count r, BeginsUnmarked after ∧ after = count ++ r ∧
      out = w.constructor.toList ++ ['('] ++ count ++ [')'] := by
  unfold span at h
  split at h
  · obtain ⟨⟨d, r⟩, hdigits, h⟩ := Option.bind_eq_some_iff.mp h
    have hwhole := (eq_append_of_digits? hdigits).1
    have hfraction : after = (extend (d, r) fractionPart?).1 ++ (extend (d, r) fractionPart?).2 :=
      eq_append_of_extend hwhole eq_append_of_fractionPart?
    obtain ⟨u, -, hpair⟩ := Option.map_eq_some_iff.mp h
    cases hpair
    split
    · exact ⟨_, _, beginsUnmarked_of_digits? hdigits, hfraction, rfl⟩
    · exact ⟨_, _, beginsUnmarked_of_digits? hdigits, hwhole, rfl⟩
  · cases h

theorem span_quoteless {w : SpanWords} (hw : '"' ∉ w.constructor.toList) :
    Pattern.Quoteless (span w) := by
  intro before after out rest h hafter
  obtain ⟨count, r, -, rfl, rfl⟩ := span_eq_some h
  simp only [List.mem_append, not_or] at hafter
  simp [hw, hafter]

theorem span_unmarked {w : SpanWords} (hw : BeginsUnmarked w.constructor.toList) :
    Unmarked (span w) := by
  intro before after out rest h
  obtain ⟨count, r, hafter, -, rfl⟩ := span_eq_some h
  exact ⟨hafter, ((hw.append _).append _).append _⟩

/-! ## Quantities -/

theorem eq_symbol_of_stripUnit? {s symbol rest : List Char}
    (h : stripUnit? s = some (symbol, rest)) :
    s = symbol ++ rest ∧ ∃ u ∈ MeasureUnit.table, u.symbol.toList = symbol := by
  obtain ⟨u, hu, h⟩ := List.exists_of_findSome?_eq_some h
  obtain ⟨r, hr, h⟩ := Option.bind_eq_some_iff.mp h
  rw [strip?_eq_some_iff] at hr
  split at h
  · cases h
    exact ⟨hr, u, hu, rfl⟩
  · cases h

theorem wordEnd_of_stripUnit? {s symbol rest : List Char}
    (h : stripUnit? s = some (symbol, rest)) : wordEnd rest = true := by
  obtain ⟨u, -, h⟩ := List.exists_of_findSome?_eq_some h
  obtain ⟨r, -, h⟩ := Option.bind_eq_some_iff.mp h
  split at h
  · next hend =>
    cases h
    exact hend
  · cases h

/-- The symbols of units have no characters that mean something in a literal. -/
theorem isLiteral_symbol {u : MeasureUnit} (hu : u ∈ MeasureUnit.table) :
    IsLiteral (inQuotes u.symbol.toList) := by
  have hplain : ∀ u ∈ MeasureUnit.table.map fun u => u.symbol.toList,
      '"' ∉ u ∧ '\\' ∉ u := by
    decide
  obtain ⟨hquote, hescape⟩ := hplain _ (List.mem_map_of_mem hu)
  exact isLiteral_inQuotes hquote hescape

theorem closed_unitCall {symbol : List Char}
    (h : ∃ u ∈ MeasureUnit.table, u.symbol.toList = symbol) : Closed (unitCall symbol) := by
  obtain ⟨u, hu, rfl⟩ := h
  have hname : Closed "unit(".toList := by decide
  exact (hname.append (isLiteral_symbol hu).closed).append (by decide)

theorem quantity_closing : Pattern.Closing quantity := by
  intro before after out rest h hafter
  obtain ⟨⟨⟨number, symbol⟩, u⟩, hread, hpair⟩ := Option.map_eq_some_iff.mp h
  unfold quantityLiteral at hread
  split at hread
  · obtain ⟨⟨d, r⟩, hdigits, hread⟩ := Option.bind_eq_some_iff.mp hread
    obtain ⟨⟨symbol', u'⟩, hunit, hnumber⟩ := Option.map_eq_some_iff.mp hread
    cases hnumber
    have hwhole : after = (d, r).1 ++ (d, r).2 := (eq_append_of_digits? hdigits).1
    have hparts := eq_append_of_extend (eq_append_of_extend hwhole eq_append_of_fractionPart?)
      eq_append_of_exponentPart?
    dsimp only at hpair
    split at hpair
    · cases hpair
      exact closed_of_not_mem fun hmem => hafter (List.mem_of_mem_take hmem)
    · cases hpair
      have hnumeral : '"' ∉ (extend (extend (d, r) fractionPart?) exponentPart?).1 := by
        rw [hparts] at hafter
        exact fun hmem => hafter (List.mem_append_left _ hmem)
      have hcall := closed_unitCall (eq_symbol_of_stripUnit? hunit).2
      have hopen : Closed ['('] := by decide
      have htimes : Closed [' ', '*', ' '] := by decide
      exact (((hopen.append (closed_of_not_mem hnumeral)).append htimes).append hcall).append
        (by decide)
  · cases hread

theorem bareUnit_closing : Pattern.Closing bareUnit := by
  intro before after out rest h hafter
  obtain ⟨⟨symbol, u⟩, hread, hpair⟩ := Option.map_eq_some_iff.mp h
  unfold unitToken at hread
  split at hread
  · obtain ⟨hsplit, hsymbol⟩ := eq_symbol_of_stripUnit? hread
    dsimp only at hpair
    split at hpair
    · cases hpair
      rw [hsplit] at hafter
      exact closed_of_not_mem fun hmem => hafter (List.mem_append_left _ hmem)
    · cases hpair
      have hsign : ∀ factor adjacent : Bool,
          Closed (if !factor then [] else if adjacent then [' ', '*', ' '] else ['*', ' ']) := by
        decide
      exact (hsign _ _).append (closed_unitCall hsymbol)
  · cases hread

/-! ## The stack -/

theorem stackElement_quoteless : Pattern.Quoteless stackElement := by
  intro before after out rest h _
  unfold stackElement at h
  split at h
  · obtain ⟨⟨d, u⟩, -, hpair⟩ := Option.map_eq_some_iff.mp h
    cases hpair
    have hposition : '"' ∉ showInt (stackPosition d) := not_mem_showInt (by decide) (by decide) _
    have hname : '"' ∉ stackName.toList := by decide
    simp [hposition, hname]
  · cases h

theorem wholeStack_quoteless : Pattern.Quoteless wholeStack := by
  intro before after out rest h _
  unfold wholeStack at h
  split at h
  · cases h
    decide
  · cases h

theorem lastAnswer_quoteless : Pattern.Quoteless lastAnswer := by
  intro before after out rest h _
  unfold lastAnswer at h
  split at h
  · cases h
    decide
  · cases h

end Notation

end Worksheet
