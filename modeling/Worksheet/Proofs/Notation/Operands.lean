import Worksheet.Proofs.Notation.Formula
import Worksheet.Proofs.Notation.Kept

/-!
# Operands that are whole tokens

A rule that rewrites an operand finds its end, but it looks for its beginning in a class of characters of its
own. A point or the sign of an exponent belongs to a number and to none of these classes, so that the rule may
begin in the middle of a number.

* **`Reaches`** — the places of a text that the scan of a pattern comes to; `substitute_eq_self_of_takes`.
* **`IsPart`** — an operand that is a part of a longer number or name.
* **`CutNumber`** — an operand with the beginning of a number directly in front, up to its point or up to the
  sign of its exponent; `isPart_iff_cutNumber`.
* **`operands_whole`** — for every rule that rewrites an operand, when that is a part of something longer.
-/

namespace Worksheet.Notation

open Text Expression

/-! ## The places that a scan comes to -/

/-- The scan of a pattern over a text comes to the place between `front` and what stands behind it. -/
inductive Reaches (p : Pattern (List Char)) (s : List Char) : List Char → List Char → Prop where
  | start : Reaches p s [] s
  | pass {front r : List Char} {c : Char} (h : Reaches p s front (c :: r))
      (hnone : p front.reverse (c :: r) = none) : Reaches p s (front ++ [c]) r
  | fit {front covered rest out : List Char} (h : Reaches p s front (covered ++ rest)) (hne : covered ≠ [])
      (hfit : p front.reverse (covered ++ rest) = some (out, rest)) : Reaches p s (front ++ covered) rest

/-- The scan of a pattern rewrites what `after` begins with, up to `rest`, to `out`. -/
structure Takes (p : Pattern (List Char)) (s front after out rest : List Char) : Prop where
  reaches : Reaches p s front after
  fits : p front.reverse after = some (out, rest)

section Reaches

variable {p : Pattern (List Char)} {s front after : List Char}

theorem Reaches.split (h : Reaches p s front after) : s = front ++ after := by
  induction h with
  | start => rfl
  | pass _ _ ih => rw [ih, List.append_assoc, List.singleton_append]
  | fit _ _ _ ih => rw [ih, List.append_assoc]

/-- A text stays as it is if at every place that the scan comes to what is covered is written again. -/
theorem substitute_eq_self_of_takes
    (h : ∀ ⦃front after out rest⦄, Takes p s front after out rest → out ≠ [] ∧ after = out ++ rest) :
    p.substitute s = s := by
  have hfrom : ∀ n, ∀ {front after}, after.length = n → Reaches p s front after →
      substituteFrom p front.reverse after = after := by
    -- on what is left of the text
    intro n
    induction n using Nat.strongRecOn with
    | ind n ih =>
      intro front after hn hreach
      cases after with
      | nil => rfl
      | cons c r =>
        cases hmatch : p front.reverse (c :: r) with
        | none =>
          have hrest := ih r.length (by simp at hn; omega) rfl (hreach.pass hmatch)
          rw [List.reverse_append] at hrest
          rw [substituteFrom_of_none hmatch]
          exact congrArg (c :: ·) hrest
        | some m =>
          obtain ⟨hne, hsplit⟩ := h ⟨hreach, hmatch⟩
          rw [hsplit] at hreach hmatch ⊢
          have hlength : m.2.length < n := by
            have hpos := List.length_pos_iff.mpr hne
            rw [← hn, hsplit, List.length_append]
            omega
          have hrest := ih m.2.length hlength rfl (hreach.fit hne hmatch)
          rw [List.reverse_append] at hrest
          rw [substituteFrom_of_fit hne hmatch, hrest]
  exact hfrom s.length rfl .start

end Reaches

/-! ## Parts of numbers and names -/

/-- A name as expressions have it. -/
def IsNameText (s : List Char) : Prop := (∀ c ∈ s.head?, isNameStart c = true) ∧ IsRun isNameChar s

/-- Is an operand a part of a longer number or name that begins at the edge of a word? -/
def IsPart (front operand behind : List Char) : Prop :=
  ∃ lead a b trail, front = lead ++ a ∧ behind = b ++ trail ∧ a ++ b ≠ [] ∧
    (∀ c ∈ lead.getLast?, isNameChar c = false) ∧
      ((∃ n : Number, n.text = a ++ (operand ++ b)) ∨ IsNameText (a ++ (operand ++ b)))

/-- Does the beginning of a number, up to its point or the sign of its exponent, stand directly in front of an
operand that goes on with the number? -/
def CutNumber (front operand : List Char) : Prop :=
  ∃ lead a c, front = lead ++ (a ++ [c]) ∧ c ∈ ['.', '+', '-'] ∧
    (∀ d ∈ lead.getLast?, isNameChar d = false) ∧ ∃ n : Number, n.text = a ++ c :: operand

section Parts

variable {front operand behind : List Char}

theorem CutNumber.isPart (h : CutNumber front operand) (behind : List Char) : IsPart front operand behind := by
  obtain ⟨lead, a, c, rfl, -, hedge, n, hn⟩ := h
  exact ⟨lead, a ++ [c], [], behind, rfl, rfl, by simp, hedge, .inl ⟨n, by simp [hn]⟩⟩

theorem mem_of_number {n : Number} {c : Char} (hc : c ∈ n.text) (hname : isNameChar c = false) :
    c ∈ ['.', '+', '-'] := by
  rcases n.mem_text hc with hdigit | hsign
  · rw [isNameChar_of_isDigit hdigit] at hname
    cases hname
  · have hsigns : ∀ d ∈ ".e+-".toList, isNameChar d = false → d ∈ ['.', '+', '-'] := by decide
    exact hsigns c hsign hname

/-- Where no name goes on into the operand, either the beginning of a number stands in front, or a number or
name goes on behind. -/
theorem IsPart.cases (hleft : ∀ c ∈ front.getLast?, isNameChar c = false) (h : IsPart front operand behind) :
    CutNumber front operand ∨ ∃ a b trail, behind = b ++ trail ∧ b ≠ [] ∧
      ((∃ n : Number, n.text = a ++ (operand ++ b) ∧ ∀ c ∈ a.getLast?, c ∈ front.getLast?) ∨ IsNameText (operand ++ b)) := by
  obtain ⟨lead, a, b, trail, rfl, hbehind, hne, hedge, htoken⟩ := h
  have hlast : ∀ c ∈ a.getLast?, c ∈ (lead ++ a).getLast? := by
    intro c hc
    rw [List.getLast?_append, Option.mem_def.mp hc]
    rfl
  rcases htoken with ⟨n, hn⟩ | hname
  · by_cases hb : b = []
    · subst hb
      rw [List.append_nil] at hne hn
      obtain ⟨a, c, rfl⟩ := (List.eq_nil_or_concat' a).resolve_left hne
      have hc := mem_of_number (n := n) (by rw [hn]; simp) (hleft c (hlast c List.getLast?_concat))
      refine .inl ⟨lead, a, c, rfl, hc, hedge, n, ?_⟩
      rw [hn, List.append_assoc]
      rfl
    · exact .inr ⟨a, b, trail, hbehind, hb, .inl ⟨n, hn, hlast⟩⟩
  · -- a name does not begin in front of the operand
    have ha : a = [] := by
      by_contra hne
      obtain ⟨a, c, rfl⟩ := (List.eq_nil_or_concat' a).resolve_left hne
      have hc := hleft c (hlast c List.getLast?_concat)
      rw [hname.2.all c (by simp)] at hc
      cases hc
    subst ha
    exact .inr ⟨[], b, trail, hbehind, hne, .inr hname⟩

/-- A character that no number goes on with. -/
def EndsNumber (behind : List Char) : Prop := ∀ c ∈ behind.head?, isDigit c = false ∧ c ∉ ".e+-".toList

theorem isPart_iff_cutNumber (hleft : ∀ c ∈ front.getLast?, isNameChar c = false) (hnumber : EndsNumber behind)
    (hname : (∀ c ∈ behind.head?, isNameChar c = false) ∨ ∃ c r, operand = c :: r ∧ isNameStart c = false) :
    IsPart front operand behind ↔ CutNumber front operand := by
  refine ⟨fun h => (h.cases hleft).resolve_right ?_, fun h => h.isPart behind⟩
  rintro ⟨a, b, trail, rfl, hb, htoken⟩
  obtain ⟨d, b, rfl⟩ := List.exists_cons_of_ne_nil hb
  rcases htoken with ⟨n, hn, -⟩ | ⟨hstart, hrun⟩
  · obtain ⟨hdigit, hsign⟩ := hnumber d rfl
    rcases n.mem_text (c := d) (by rw [hn]; simp) with h | h
    · rw [h] at hdigit
      cases hdigit
    · exact hsign h
  · rcases hname with hbehind | ⟨c, r, rfl, hc⟩
    · have hchar := hrun.all d (by simp)
      rw [hbehind d rfl] at hchar
      cases hchar
    · rw [hstart c rfl] at hc
      cases hc

end Parts

/-! ## Factorials -/

theorem factorial_ne_none {operand rest : List Char} (hoperand : IsRun isNameChar operand) (before : List Char) :
    factorial before (operand ++ '!' :: rest) ≠ none := by
  obtain ⟨htake, hdrop⟩ := hoperand.reads (c := '!') (by decide) rest
  unfold factorial
  dsimp only
  rw [htake, hdrop, hoperand.isEmpty]
  split
  · simp
  · simp
  · next hother => exact absurd rfl (hother rest rfl)

/-- The scan does not begin a factorial inside a word of the letters and digits that names have. -/
theorem edge_of_factorial {s front after : List Char} (h : Reaches factorial s front after)
    (hfit : factorial front.reverse after ≠ none) : ∀ c ∈ front.getLast?, isNameChar c = false := by
  obtain ⟨⟨out, rest⟩, hmatch⟩ := Option.ne_none_iff_exists'.mp hfit
  obtain ⟨operand, hoperand, rfl, -⟩ := covered_factorial hmatch
  intro c hc
  cases h with
  | start => cases hc
  | @pass front r d _ hnone =>
    rw [List.getLast?_concat] at hc
    cases hc
    rw [Bool.eq_false_iff]
    intro hname
    have hlonger : IsRun isNameChar (c :: operand) := ⟨by simp, List.forall_mem_cons.mpr ⟨hname, hoperand.all⟩⟩
    exact factorial_ne_none hlonger _ hnone
  | @fit front covered _ out' _ hne hfit' =>
    -- the match in front has ended with its mark
    obtain ⟨operand', -, hcovered, -⟩ := covered_factorial hfit'
    have hmark : covered = operand' ++ ['!'] := by
      rw [← List.append_cancel_right_eq _ (operand ++ '!' :: rest), hcovered, List.append_assoc]
      rfl
    rw [hmark, ← List.append_assoc, List.getLast?_concat] at hc
    cases hc
    decide

theorem Takes.factorial {s front after out rest : List Char} (h : Takes factorial s front after out rest) :
    ∃ operand, after = operand ++ '!' :: rest ∧
      (out = operand ++ ['!'] ∨ out = "factorial(".toList ++ operand ++ [')']) ∧
        (IsPart front operand ('!' :: rest) ↔ CutNumber front operand) := by
  obtain ⟨operand, hoperand, rfl, hout⟩ := covered_factorial h.fits
  refine ⟨operand, rfl, hout.imp And.right And.right, isPart_iff_cutNumber ?_ ?_ (.inl ?_)⟩
  · exact edge_of_factorial h.reaches (factorial_ne_none hoperand _)
  · rintro c ⟨⟩
    decide
  · rintro c ⟨⟩
    decide

/-! ## Percentages -/

section Percentages

variable {signs s front after out rest : List Char} {p : Pattern (List Char)}

/-- The sign or a blank stands in front of the operand of a percentage. -/
theorem LooksFor.isPart_iff (hp : LooksFor signs p) (hsigns : ∀ c ∈ signs, isNameChar c = false)
    (hfit : p front.reverse after = some (out, rest)) :
    ∃ sign blanks operand lead, sign ∈ signs ∧ after = sign :: (blanks ++ (operand ++ '%' :: rest)) ∧
      (∀ c ∈ (front ++ sign :: blanks).getLast?, c = sign ∧ blanks = [] ∨ isBlank c = true) ∧
        out = lead ++ operand ++ "/100)".toList ∧
          (IsPart (front ++ sign :: blanks) operand ('%' :: rest) ↔ CutNumber (front ++ sign :: blanks) operand) := by
  obtain ⟨sign, operand, hread, lead, -, rfl⟩ := hp.out hfit
  obtain ⟨hsign, hoperand, blanks, hblanks, rfl⟩ := percentage?_eq_some_iff.mp hread
  have hlast : ∀ c ∈ (front ++ sign :: blanks).getLast?, c = sign ∧ blanks = [] ∨ isBlank c = true := by
    intro c hc
    rw [List.getLast?_append_of_ne_nil _ (by simp)] at hc
    rcases List.eq_nil_or_concat' blanks with rfl | ⟨u, d, rfl⟩
    · cases hc
      exact .inl ⟨rfl, rfl⟩
    · rw [← List.cons_append, List.getLast?_concat] at hc
      cases hc
      exact .inr (hblanks c (by simp))
  refine ⟨sign, blanks, operand, lead, hsign, rfl, hlast, rfl, isPart_iff_cutNumber (fun c hc => ?_) ?_ (.inl ?_)⟩
  · rcases hlast c hc with ⟨rfl, -⟩ | hblank
    · exact hsigns c hsign
    · exact isNameChar_of_isBlank hblank
  · rintro c ⟨⟩
    decide
  · rintro c ⟨⟩
    decide

/-- The last character in front of an operand that is cut out of a number. -/
theorem CutNumber.last {front operand : List Char} (h : CutNumber front operand) :
    ∃ c ∈ front.getLast?, c ∈ ['.', '+', '-'] := by
  obtain ⟨lead, a, c, rfl, hc, -⟩ := h
  exact ⟨c, by rw [← List.append_assoc]; exact List.getLast?_concat, hc⟩

theorem isBlank_of_numberSign {c : Char} (hc : c ∈ ['.', '+', '-']) : isBlank c = false := by
  have hall : ∀ d ∈ ['.', '+', '-'], isBlank d = false := by decide
  exact hall c hc

theorem Takes.percentOf (h : Takes percentOf s front after out rest) :
    ∃ sign blanks operand lead, after = sign :: (blanks ++ (operand ++ '%' :: rest)) ∧
      out = lead ++ operand ++ "/100)".toList ∧ ¬ IsPart (front ++ sign :: blanks) operand ('%' :: rest) := by
  obtain ⟨sign, blanks, operand, lead, hsign, hafter, hlast, hout, hpart⟩ :=
    looksFor_percentOf.isPart_iff (by decide) h.fits
  refine ⟨sign, blanks, operand, lead, hafter, hout, fun hcut => ?_⟩
  obtain ⟨c, hc, hmem⟩ := (hpart.mp hcut).last
  rcases hlast c hc with ⟨rfl, -⟩ | hblank
  · have hapart : ∀ d ∈ ['*', '/'], d ∉ ['.', '+', '-'] := by decide
    exact hapart c hsign hmem
  · rw [isBlank_of_numberSign hmem] at hblank
    cases hblank

theorem Takes.percentStep (h : Takes percentStep s front after out rest) :
    ∃ sign blanks operand lead, after = sign :: (blanks ++ (operand ++ '%' :: rest)) ∧
      out = lead ++ operand ++ "/100)".toList ∧
        (IsPart (front ++ sign :: blanks) operand ('%' :: rest) ↔ blanks = [] ∧ CutNumber (front ++ [sign]) operand) := by
  obtain ⟨sign, blanks, operand, lead, hsign, hafter, hlast, hout, hpart⟩ :=
    looksFor_percentStep.isPart_iff (by decide) h.fits
  refine ⟨sign, blanks, operand, lead, hafter, hout, hpart.trans ⟨fun hcut => ?_, ?_⟩⟩
  · obtain ⟨c, hc, hmem⟩ := hcut.last
    rcases hlast c hc with ⟨-, rfl⟩ | hblank
    · exact ⟨rfl, hcut⟩
    · rw [isBlank_of_numberSign hmem] at hblank
      cases hblank
  · rintro ⟨rfl, hcut⟩
    exact hcut

end Percentages

/-! ## Ratios and spans of time -/

section Numerals

/-- Behind the point of a number stands a digit. -/
theorem digit_behind_point {n : Number} {u v : List Char} (h : n.text = u ++ '.' :: v) :
    ∃ d r, v = d :: r ∧ isDigit d = true := by
  have hdigits : ∀ {s : List Char}, IsDigits s → '.' ∉ s := fun hs hmem =>
    ne_of_isDigit (hs.digits _ hmem) (by decide) rfl
  have hexponent : '.' ∉ exponentText n.exponent := by
    cases he : n.exponent with
    | none => exact List.not_mem_nil
    | some e =>
      obtain ⟨hletter, hrun⟩ := n.exponent_digits e he
      have hsign : '.' ∉ e.sign.toList := by
        intro hmem
        rcases e.sign_eq '.' (Option.mem_toList.mp hmem) with hplus | hminus
        · exact absurd hplus (by decide)
        · exact absurd hminus (by decide)
      simp [exponentText, Exponent.text, hletter, hsign, hdigits hrun]
  unfold Numeral.text at h
  obtain ⟨a, b, hfraction, rfl⟩ := exists_of_split h (hdigits n.whole_digits) hexponent
  rw [hfraction, List.append_assoc, List.append_assoc, List.append_cancel_left_eq, List.append_cancel_left_eq] at h
  cases hf : n.fraction with
  | none =>
    rw [hf] at hfraction
    simp [fractionText] at hfraction
  | some f =>
    have hrun := n.fraction_digits f hf
    rw [hf, fractionText] at hfraction
    cases a with
    | nil =>
      -- the digits of the fraction
      obtain ⟨d, r, hdr⟩ := List.exists_cons_of_ne_nil hrun.nonempty
      obtain ⟨-, rfl⟩ := List.cons.inj hfraction
      refine ⟨d, r ++ exponentText n.exponent, ?_, hrun.digits d (by simp [hdr])⟩
      rw [← (List.cons.inj h).2, hdr]
      rfl
    | cons x a =>
      refine absurd ?_ (hdigits hrun)
      rw [(List.cons.inj hfraction).2]
      simp

/-- In front of the sign in a number stands the letter of its exponent. -/
theorem letter_in_front_of_sign {n : Number} {u v : List Char} {c x : Char} (hc : c ∈ ['+', '-'])
    (h : n.text = u ++ x :: c :: v) : x = 'e' := by
  have hsigns : ∀ d ∈ ['+', '-'], isDigit d = false ∧ d ≠ '.' ∧ d ≠ 'e' := by decide
  obtain ⟨hdigit, hpoint, hletter⟩ := hsigns c hc
  have hdigits : ∀ {s : List Char}, IsDigits s → c ∉ s := fun hs hmem =>
    ne_of_isDigit (hs.digits _ hmem) hdigit rfl
  have hfraction : c ∉ fractionText n.fraction := by
    cases hf : n.fraction with
    | none => exact List.not_mem_nil
    | some f => simp [fractionText, hpoint, hdigits (n.fraction_digits f hf)]
  cases he : n.exponent with
  | none =>
    have hmem : c ∈ n.text := by simp [h]
    simp [Numeral.text, he, exponentText, hdigits n.whole_digits, hfraction] at hmem
  | some e =>
    obtain ⟨heq, hrun⟩ := n.exponent_digits e he
    have hsplit : (n.whole.chars ++ (fractionText n.fraction ++ ['e'])) ++ (e.sign.toList ++ e.digits.chars)
        = (u ++ [x]) ++ c :: v := by
      rw [List.append_assoc u, List.singleton_append, ← h, Numeral.text, he, exponentText, Exponent.text, heq]
      simp
    -- the sign is in neither of the two runs of digits, so it is the one of the exponent
    have hfront : c ∉ n.whole.chars ++ (fractionText n.fraction ++ ['e']) := by
      simp [hdigits n.whole_digits, hfraction, hletter]
    obtain ⟨a, b, hsign, hlast⟩ := exists_of_split hsplit hfront (hdigits hrun)
    have ha : a = [] := by
      cases hs : e.sign with
      | none =>
        rw [hs] at hsign
        simp at hsign
      | some d =>
        rw [hs] at hsign
        cases a with
        | nil => rfl
        | cons y a => simp at hsign
    have hends := congrArg List.getLast? hlast
    rw [ha, List.append_nil, ← List.append_assoc, List.getLast?_concat, List.getLast?_concat] at hends
    exact Option.some.inj hends

variable {s front after out rest : List Char}

theorem name_edge_of_wordStart {c : Char} {r : List Char} (hc : isDecimal c = true)
    (h : wordStart front.reverse (c :: r) = true) : ∀ d ∈ front.getLast?, isNameChar d = false := by
  intro d hd
  exact isNameChar_of_not_isWordChar (edge_of_wordStart h (isWordChar_of_isDecimal hc) d hd)

/-- A number that goes on behind digits, but not with a character of a word, goes on with its fraction. -/
theorem fraction_behind_digits {n : Number} {b v : List Char} {d : Char} (hn : n.text = b ++ d :: v)
    (hb : IsRun isDecimal b) (hd : isWordChar d = false) :
    IsDigits b ∧ d = '.' ∧ ∃ e r, v = e :: r ∧ isDigit e = true := by
  have hdigits : IsDigits b := by
    refine ⟨hb.nonempty, fun e he => (n.mem_text (by rw [hn]; simp [he])).resolve_right fun hsign => ?_⟩
    have hall : ∀ m ∈ ".e+-".toList, isDecimal m = false := by decide
    have hdecimal := hb.all e he
    rw [hall e hsign] at hdecimal
    cases hdecimal
  have hmark : d ∈ ['.', '+', '-'] := mem_of_number (n := n) (by rw [hn]; simp) (isNameChar_of_not_isWordChar hd)
  rcases List.mem_cons.mp hmark with rfl | hsign
  · exact ⟨hdigits, rfl, digit_behind_point hn⟩
  · -- a sign would stand behind the letter of an exponent
    obtain ⟨u, x, rfl⟩ := (List.eq_nil_or_concat' b).resolve_left hb.nonempty
    rw [List.append_assoc, List.singleton_append] at hn
    have hx := hdigits.digits x (by simp)
    rw [letter_in_front_of_sign hsign hn] at hx
    exact absurd hx (by decide)

/-- Digits in front of a point and a digit are a part of a number. -/
theorem isPart_of_point {b r : List Char} {d : Char} (hb : IsRun isDecimal b) (hdigits : IsDigits b)
    (hd : isDigit d = true) (hedge : ∀ c ∈ front.getLast?, isNameChar c = false) : IsPart front b ('.' :: d :: r) := by
  let n : Number :=
    { whole := ⟨b, hb.nonempty, hb.all⟩
      fraction := some ⟨[d], by simp, by simpa using isDecimal_of_isDigit hd⟩
      exponent := none
      whole_digits := hdigits
      fraction_digits := by
        rintro f ⟨⟩
        exact ⟨by simp, by simpa using hd⟩
      exponent_digits := by simp }
  have hn : n.text = b ++ ['.', d] := by simp [n, Numeral.text, fractionText, exponentText]
  exact ⟨front, [], ['.', d], r, by simp, rfl, by simp, hedge, .inl ⟨n, by simpa using hn⟩⟩

/-- The second number of a ratio is read up to a point. -/
theorem isPart_behind_colon {a b : List Char} {c : Char} {r : List Char} (hb : IsRun isDecimal b) (hcons : b = c :: r)
    (hname : isNameStart c = false) (hend : wordEnd rest = true) :
    IsPart (front ++ (a ++ [':'])) b rest ↔ IsDigits b ∧ ∃ d r, rest = '.' :: d :: r ∧ isDigit d = true := by
  have hlast : (front ++ (a ++ [':'])).getLast? = some ':' := by
    rw [← List.append_assoc, List.getLast?_concat]
  have hedge : ∀ d ∈ (front ++ (a ++ [':'])).getLast?, isNameChar d = false := by
    rw [hlast]
    rintro d ⟨⟩
    decide
  constructor
  · intro hpart
    rcases hpart.cases hedge with hcut | ⟨lead, more, trail, rfl, hmore, htoken⟩
    · obtain ⟨d, hd, hmem⟩ := hcut.last
      rw [hlast] at hd
      cases hd
      exact absurd hmem (by decide)
    rcases htoken with ⟨n, hn, hcolon⟩ | ⟨hstart, -⟩
    · obtain ⟨d, more, rfl⟩ := List.exists_cons_of_ne_nil hmore
      -- a number that began in front of the colon would have the colon in it
      have hlead : lead = [] := by
        by_contra hne
        obtain ⟨u, x, rfl⟩ := (List.eq_nil_or_concat' lead).resolve_left hne
        have hx := hcolon x List.getLast?_concat
        rw [hlast] at hx
        cases hx
        rcases n.mem_text (c := ':') (by rw [hn]; simp) with hdigit | hsign
        · exact absurd hdigit (by decide)
        · exact absurd hsign (by decide)
      rw [hlead, List.nil_append] at hn
      have hword : isWordChar d = false := by simpa [wordEnd] using hend
      obtain ⟨hdigits, rfl, e, r, rfl, he⟩ := fraction_behind_digits hn hb hword
      exact ⟨hdigits, e, r ++ trail, rfl, he⟩
    · rw [hcons] at hstart
      rw [hstart c rfl] at hname
      cases hname
  · rintro ⟨hdigits, d, r, rfl, hd⟩
    exact isPart_of_point hb hdigits hd hedge

theorem Takes.ratio (h : Takes ratio s front after out rest) :
    ∃ a b, after = a ++ ':' :: (b ++ rest) ∧ out = "Fraction(".toList ++ a ++ [',', ' '] ++ b ++ [')'] ∧
      (IsPart front a (':' :: (b ++ rest)) ↔ CutNumber front a) ∧
        (IsPart (front ++ (a ++ [':'])) b rest ↔ IsDigits b ∧ ∃ d r, rest = '.' :: d :: r ∧ isDigit d = true) := by
  obtain ⟨a, b, ha, hb, rfl, hstart, hend, rfl⟩ := covered_ratio h.fits
  have hstartless : ∀ {s}, IsRun isDecimal s → ∃ c r, s = c :: r ∧ isDecimal c = true ∧ isNameStart c = false := by
    intro s hs
    obtain ⟨c, r, rfl⟩ := List.exists_cons_of_ne_nil hs.nonempty
    have hc := hs.all c List.mem_cons_self
    exact ⟨c, r, rfl, hc, isNameStart_of_isDecimal hc⟩
  refine ⟨a, b, rfl, rfl, ?_, ?_⟩
  · obtain ⟨c, r, rfl, hc, hname⟩ := hstartless ha
    refine isPart_iff_cutNumber (name_edge_of_wordStart hc hstart) ?_ (.inr ⟨c, r, rfl, hname⟩)
    rintro d ⟨⟩
    decide
  · obtain ⟨c, r, rfl, hc, hname⟩ := hstartless hb
    exact isPart_behind_colon hb rfl hname hend

/-- Behind the count of a span of time stands a blank or the first letter of a word. -/
theorem endsNumber_behind_count {w : SpanWords} (hw : w ∈ spanTable) {blanks v : List Char} {k : String}
    (hblanks : ∀ c ∈ blanks, isBlank c = true) (hk : k ∈ w.words) (hv : v.map fold = k.toList) (rest : List Char) :
    EndsNumber (blanks ++ (v ++ rest)) := by
  have hmarks : ∀ m ∈ ".e+-".toList, isBlank m = false ∧ (isSmall (fold m) = true → fold m = 'e') := by decide
  -- no word for a span begins with the letter of an exponent
  have hfirst : ∀ w ∈ spanTable, ∀ k ∈ w.words, k.toList.head? ≠ some 'e' := by decide
  intro d hd
  cases blanks with
  | cons c blanks =>
    cases hd
    have hblank := hblanks d List.mem_cons_self
    constructor
    · rw [Bool.eq_false_iff]
      intro hdigit
      rw [isBlank_of_isDecimal (isDecimal_of_isDigit hdigit)] at hblank
      cases hblank
    · intro hmem
      rw [(hmarks d hmem).1] at hblank
      cases hblank
  | nil =>
    have hkeyword := isKeyword_words.2.2 w hw k hk
    obtain ⟨x, v, rfl⟩ : ∃ x v', v = x :: v' := by
      refine List.exists_cons_of_ne_nil ?_
      rintro rfl
      exact hkeyword.nonempty hv.symm
    cases hd
    have hsmall : isSmall (fold d) = true := hkeyword.small _ (by rw [← hv]; exact List.mem_cons_self)
    constructor
    · rw [Bool.eq_false_iff]
      intro hdigit
      rw [isSmall_fold_of_isDecimal (isDecimal_of_isDigit hdigit)] at hsmall
      cases hsmall
    · intro hmem
      refine hfirst w hw k hk ?_
      rw [← hv, List.map_cons, List.head?_cons, (hmarks d hmem).2 hsmall]

theorem Takes.span {w : SpanWords} (hw : w ∈ spanTable) (h : Takes (span w) s front after out rest) :
    ∃ count behind, after = count ++ behind ∧ out = w.constructor.toList ++ ['('] ++ count ++ [')'] ∧
      (IsPart front count behind ↔ CutNumber front count) := by
  obtain ⟨count, blanks, v, hcount, -, hblanks, ⟨k, hk, hv⟩, rfl, hstart, -, rfl⟩ := covered_span hw h.fits
  refine ⟨count, blanks ++ (v ++ rest), rfl, rfl, ?_⟩
  obtain ⟨c, r, rfl, hc⟩ : ∃ c r, count = c :: r ∧ isDecimal c = true := by
    obtain ⟨whole, more, hwhole, rfl, -⟩ := hcount.digits
    obtain ⟨c, r, rfl⟩ := List.exists_cons_of_ne_nil hwhole.nonempty
    exact ⟨c, r ++ more, rfl, hwhole.all c List.mem_cons_self⟩
  refine isPart_iff_cutNumber (name_edge_of_wordStart hc hstart) ?_ (.inr ⟨c, r, rfl, ?_⟩)
  · exact endsNumber_behind_count hw hblanks hk hv rest
  · exact isNameStart_of_isDecimal hc

end Numerals

/-! ## Factorials of numbers -/

theorem isRun_of_isDigits {x : List Char} (hx : IsDigits x) : IsRun isNameChar x :=
  ⟨hx.nonempty, fun c hc => isNameChar_of_isDigit (hx.digits c hc)⟩

theorem factorial_mark {operand : List Char} (hoperand : IsRun isNameChar operand) (before : List Char) :
    factorial before (operand ++ ['!']) = some ("factorial(".toList ++ operand ++ [')'], []) := by
  obtain ⟨htake, hdrop⟩ := hoperand.reads (c := '!') (by decide) []
  unfold factorial
  dsimp only
  rw [htake, hdrop, hoperand.isEmpty]
  rfl

/-- The factorial of an integer. -/
theorem expand_integer_factorial (o : Options) {x : List Char} (hx : IsDigits x) :
    expand o (x ++ ['!']) = "factorial(".toList ++ x ++ [')'] := by
  rw [expand_factorial o hx.nonempty hx.digits, numberCall]
  simp

/-- Of a number with a fraction the rule for factorials takes the fraction. -/
theorem substitute_decimal_factorial {whole fraction : List Char} (hwhole : IsDigits whole)
    (hfraction : IsDigits fraction) :
    Notation.factorial.substitute (whole ++ '.' :: (fraction ++ ['!']))
      = whole ++ '.' :: ("factorial(".toList ++ fraction ++ [')']) := by
  have hpoint : ∀ (before a : List Char), (∀ c ∈ a, isDigit c = true) → ∀ r,
      Notation.factorial before (a ++ '.' :: r) = none := by
    intro before a ha r
    have hstop : ∀ c ∈ ('.' :: r).head?, isNameChar c = false := by
      rintro c ⟨⟩
      decide
    have hchars : ∀ c ∈ a, isNameChar c = true := fun c hc => isNameChar_of_isDigit (ha c hc)
    unfold Notation.factorial
    dsimp only
    rw [takeWhile_run hchars hstop, dropWhile_run hchars hstop]
    split <;> first | rfl | (next heq => exact absurd (List.cons.inj heq).1 (by decide))
  have hsplit := Pattern.substitute_of_behind (p := Notation.factorial) (a := whole ++ ['.']) (t := fraction ++ ['!'])
    (by simp) (fun pre c r hcut => ?_) (factorial_mark (isRun_of_isDigits hfraction) _)
  · simpa using hsplit
  · -- up to its point the number has no mark behind it
    obtain ⟨a, ha, hsuffix⟩ : ∃ a, (∀ c ∈ a, isDigit c = true) ∧ c :: r = a ++ ['.'] := by
      rcases List.append_eq_append_iff.mp hcut with ⟨a, rfl, ha⟩ | ⟨a, rfl, ha⟩
      · cases a with
        | nil => exact ⟨[], by simp, ha.symm⟩
        | cons d a => simp at ha
      · exact ⟨a, fun c hc => hwhole.digits c (by simp [hc]), ha⟩
    rw [hsuffix, List.append_assoc]
    exact hpoint _ a ha _

/-- **When a rule rewrites a part of something longer.** Wherever the scan of a rule that rewrites an operand
comes to, the operand is a part of a longer number or name exactly if it is cut out of a number behind its point
or the sign of its exponent; factors that are percentages never are, a step of so many percent only if its sign
belongs to an exponent, and the second number of a ratio if a point and a digit follow. The factorial of an
integer is taken as a whole, and never that of a number with a fraction. -/
theorem operands_whole (s front after out rest : List Char) :
    (Takes Notation.factorial s front after out rest → ∃ operand, after = operand ++ '!' :: rest ∧
      (out = operand ++ ['!'] ∨ out = "factorial(".toList ++ operand ++ [')']) ∧
        (IsPart front operand ('!' :: rest) ↔ CutNumber front operand)) ∧
    (Takes Notation.percentOf s front after out rest → ∃ sign blanks operand lead,
      after = sign :: (blanks ++ (operand ++ '%' :: rest)) ∧ out = lead ++ operand ++ "/100)".toList ∧
        ¬ IsPart (front ++ sign :: blanks) operand ('%' :: rest)) ∧
    (Takes Notation.percentStep s front after out rest → ∃ sign blanks operand lead,
      after = sign :: (blanks ++ (operand ++ '%' :: rest)) ∧ out = lead ++ operand ++ "/100)".toList ∧
        (IsPart (front ++ sign :: blanks) operand ('%' :: rest) ↔ blanks = [] ∧ CutNumber (front ++ [sign]) operand)) ∧
    (Takes Notation.ratio s front after out rest → ∃ a b, after = a ++ ':' :: (b ++ rest) ∧
      out = "Fraction(".toList ++ a ++ [',', ' '] ++ b ++ [')'] ∧
        (IsPart front a (':' :: (b ++ rest)) ↔ CutNumber front a) ∧
        (IsPart (front ++ (a ++ [':'])) b rest ↔ IsDigits b ∧ ∃ d r, rest = '.' :: d :: r ∧ isDigit d = true)) ∧
    (∀ w ∈ spanTable, Takes (Notation.span w) s front after out rest → ∃ count behind, after = count ++ behind ∧
      out = w.constructor.toList ++ ['('] ++ count ++ [')'] ∧ (IsPart front count behind ↔ CutNumber front count)) ∧
    (∀ o x, IsDigits x → expand o (x ++ ['!']) = "factorial(".toList ++ x ++ [')']) ∧
    ∀ whole fraction, IsDigits whole → IsDigits fraction →
      Notation.factorial.substitute (whole ++ '.' :: (fraction ++ ['!']))
        = whole ++ '.' :: ("factorial(".toList ++ fraction ++ [')']) :=
  ⟨Takes.factorial, Takes.percentOf, Takes.percentStep, Takes.ratio, fun _ hw => Takes.span hw,
    fun o _ hx => expand_integer_factorial o hx, fun _ _ => substitute_decimal_factorial⟩

/-- An integer behind a minus sign is whole, an integer behind a point is not. -/
theorem operands_whole_difference :
    Takes Notation.factorial "a-5!".toList "a-".toList "5!".toList "factorial(5)".toList [] ∧
      ¬ IsPart "a-".toList ['5'] ['!'] ∧ IsPart "2.".toList ['5'] ['!'] := by
  have htakes : Takes Notation.factorial "a-5!".toList "a-".toList "5!".toList "factorial(5)".toList [] :=
    ⟨.pass (.pass .start rfl) rfl, rfl⟩
  have hcut : CutNumber "2.".toList ['5'] := by
    refine ⟨[], ['2'], '.', rfl, by decide, by simp, ?_⟩
    exact ⟨{ whole := ⟨['2'], by decide, by decide⟩
             fraction := some ⟨['5'], by decide, by decide⟩
             exponent := none
             whole_digits := ⟨by decide, by decide⟩
             fraction_digits := by
               rintro f ⟨⟩
               exact ⟨by decide, by decide⟩
             exponent_digits := by simp }, rfl⟩
  refine ⟨htakes, fun hpart => ?_, hcut.isPart _⟩
  obtain ⟨operand, hafter, -, hiff⟩ := (operands_whole _ _ _ _ _).1 htakes
  obtain rfl : ['5'] = operand := (List.append_cancel_right_eq ['5'] ['!'] operand).mp hafter
  -- the sign would be that of an exponent, and a letter would stand in front of it
  obtain ⟨lead, a, c, hfront, -, -, n, hn⟩ := hiff.mp hpart
  rw [← List.append_assoc] at hfront
  have hends : ['a'] ++ ['-'] = (lead ++ a) ++ [c] := hfront
  obtain ⟨hlead, hc⟩ := List.append_inj' hends rfl
  cases hc
  rcases List.eq_nil_or_concat' a with rfl | ⟨u, x, rfl⟩
  · obtain ⟨d, r, hwhole⟩ := List.exists_cons_of_ne_nil n.whole_digits.nonempty
    have hd := n.whole_digits.digits d (by simp [hwhole])
    rw [Numeral.text, hwhole] at hn
    rw [(List.cons.inj hn).1] at hd
    exact absurd hd (by decide)
  · rw [List.append_assoc, List.singleton_append] at hn
    have hletter : [] ++ ['a'] = (lead ++ u) ++ ['e'] := by
      rw [List.append_assoc, ← letter_in_front_of_sign (by decide) hn]
      exact hlead
    exact absurd (List.append_inj' hletter rfl).2 (by decide)

/-- Of the factorial of 2.5 the fraction is taken. -/
theorem expand_decimal_factorial :
    let o : Options := ⟨.midnight ⟨2024, 1, 31, by decide⟩, false⟩
    expand o "2.5!".toList = "2.factorial(5)".toList := by
  decide +kernel

end Worksheet.Notation
