import Worksheet.Proofs.Declaration.Reading
import Worksheet.Proofs.Expression.Token
import Worksheet.Proofs.Notation.Progress
import Worksheet.Proofs.Notation.Skeleton
import Worksheet.Proofs.Session.Ending

/-!
# Texts in back quotes

An expression may be a text in back quotes, but a line looks for literals in double quotes only. What stands
between back quotes is read like the rest of a line: a remark may begin there, an assignment may stand there, and
the notation is expanded. The back quotes themselves stay where they are, so that a line of one text is a line of
one text again, if it is not cut in two.

* **`IsVerbatim`** — what may stand between back quotes for all of it to be the text.
* **`exists_backquoted`** — from the skeleton of a text in back quotes to the text.
* **`parse?_backquoted`**, **`parse?_unclosed`** — a back quote and a text, with the closing back quote and without.
* **`Session.run_backquoted`** — what a line of a text in back quotes comes to.
* **`Session.backquoted_factorial`** — an exclamation mark between back quotes.
-/

namespace Worksheet

open Text Expression Notation

/-! ## What stands between back quotes -/

/-- A text without back quotes and line breaks in which no expression begins. -/
structure IsVerbatim (w : List Char) : Prop where
  quote : '\x60' ∉ w
  line : '\n' ∉ w ∧ '\r' ∉ w
  expression : ¬ ['$', '\x7b'] <:+: w

/-- A text between back quotes. -/
def backquoted (w : List Char) : List Char := '\x60' :: (w ++ ['\x60'])

/-- The characters that would end a text in back quotes, or not be part of it. -/
def templateMarks : List Char := ['\x60', '$', '\x7b', '\n', '\r']

/-- Is it one of them? -/
def isTemplateMark (c : Char) : Bool := templateMarks.contains c

theorem isNotationChar_of_isTemplateMark {c : Char} (hc : isTemplateMark c = true) : isNotationChar c = false := by
  have hmarks : ∀ m ∈ templateMarks, isNotationChar m = false := by decide
  exact hmarks c (List.contains_iff_mem.mp hc)

namespace IsVerbatim

variable {u w : List Char} (hw : IsVerbatim w)

include hw

theorem of_infix (hu : u <:+: w) : IsVerbatim u where
  quote hmem := hw.quote (hu.subset hmem)
  line := ⟨fun hmem => hw.line.1 (hu.subset hmem), fun hmem => hw.line.2 (hu.subset hmem)⟩
  expression hpart := hw.expression (hpart.trans hu)

theorem of_skeleton (h : skeleton isTemplateMark u = skeleton isTemplateMark w) : IsVerbatim u where
  quote hmem := hw.quote (mem_of_skeleton_eq h (by decide) hmem)
  line := ⟨fun hmem => hw.line.1 (mem_of_skeleton_eq h (by decide) hmem),
    fun hmem => hw.line.2 (mem_of_skeleton_eq h (by decide) hmem)⟩
  expression hpart := hw.expression (infix_of_skeleton_eq h (by decide) (by decide) hpart)

/-- No blank in it is a mark. -/
theorem blanks : ∀ c ∈ w, isBlank c = true → isTemplateMark c = false := by
  intro c hc hblank
  rw [Bool.eq_false_iff]
  intro hmark
  have hmarks : ∀ m ∈ templateMarks, isBlank m = true → m = '\n' ∨ m = '\r' := by decide
  rcases hmarks c (List.contains_iff_mem.mp hmark) hblank with rfl | rfl
  · exact hw.line.1 hc
  · exact hw.line.2 hc

end IsVerbatim

section Skeleton

variable {t u w : List Char}

/-- A text with the skeleton of a verbatim text behind a back quote is one. -/
theorem exists_unclosed (hu : IsVerbatim u) (h : skeleton isTemplateMark t = skeleton isTemplateMark ('\x60' :: u)) :
    ∃ u', t = '\x60' :: u' ∧ IsVerbatim u' := by
  have hquote : isTemplateMark '\x60' = true := by decide
  have hsplit := h.trans (skeleton_append_cons hquote [] u)
  obtain ⟨a, u', rfl, -, ha, hrest⟩ := exists_of_skeleton hsplit
  rw [eq_nil_of_skeleton ha]
  exact ⟨u', rfl, hu.of_skeleton hrest⟩

/-- A text with the skeleton of a verbatim text between back quotes is one. -/
theorem exists_backquoted (hw : IsVerbatim w)
    (h : skeleton isTemplateMark t = skeleton isTemplateMark (backquoted w)) : ∃ w', t = backquoted w' ∧ IsVerbatim w' := by
  have hquote : isTemplateMark '\x60' = true := by decide
  have hsplit := h.trans (skeleton_append_cons hquote [] (w ++ ['\x60']))
  rw [skeleton_append_cons hquote w []] at hsplit
  obtain ⟨a, r, rfl, -, ha, hr⟩ := exists_of_skeleton hsplit
  obtain ⟨w', b, rfl, -, hw', hb⟩ := exists_of_skeleton hr
  rw [eq_nil_of_skeleton ha, eq_nil_of_skeleton hb]
  exact ⟨w', rfl, hw.of_skeleton hw'⟩

end Skeleton

/-! ## As tokens -/

section Tokens

variable {u w : List Char}

/-- A verbatim text in front belongs to the stretch. -/
theorem IsVerbatim.readTemplate? (hw : IsVerbatim w) {rest : List Char} (hrest : rest.head? ≠ some '\x7b') :
    Expression.readTemplate? (w ++ rest) = (Expression.readTemplate? rest).map fun p => (w ++ p.1, p.2) := by
  induction w with
  | nil => simp
  | cons c r ih =>
    have hr := hw.of_infix (List.suffix_cons c r).isInfix
    rw [List.cons_append, Expression.readTemplate?.eq_def]
    split
    · next heq => cases heq
    · next behind heq =>
      obtain ⟨rfl, hbehind⟩ := List.cons.inj heq
      cases r with
      | nil =>
        rw [List.nil_append] at hbehind
        exact absurd (by rw [hbehind]; rfl) hrest
      | cons d r =>
        obtain ⟨rfl, -⟩ := List.cons.inj hbehind
        exact absurd ⟨[], r, rfl⟩ hw.expression
    · next heq => exact absurd (by rw [(List.cons.inj heq).1]; exact List.mem_cons_self) hw.quote
    · next heq => exact absurd (by rw [(List.cons.inj heq).1]; exact List.mem_cons_self) hw.quote
    · next heq =>
      obtain ⟨rfl, rfl⟩ := List.cons.inj heq
      rw [ih hr, Option.map_map]
      rfl

/-- Behind a back quote a stretch of a text is read, unless a line break stands there. -/
theorem readToken?_backquote {r : List Char} (hr : '\n' ∉ r ∧ '\r' ∉ r) :
    readToken? .start ('\x60' :: r) = (Expression.readTemplate? r).map fun p =>
      (some (templateToken .start true p.1 p.2.1).1, (templateToken .start true p.1 p.2.1).2, p.2.2) := by
  show Option.map _ (Expression.readTemplate? _) = _
  split
  · exact absurd List.mem_cons_self hr.2
  · exact absurd List.mem_cons_self hr.2
  · exact absurd List.mem_cons_self hr.1
  · rfl

theorem parse?_backquoted (hw : IsVerbatim w) : Expr.parse? (backquoted w) = some (.text (String.ofList w)) := by
  have hbreaks : '\n' ∉ w ++ ['\x60'] ∧ '\r' ∉ w ++ ['\x60'] := by simp [hw.line.1, hw.line.2]
  have hread : readToken? .start ('\x60' :: ((w ++ ['\x60']) ++ []))
      = some (some (.text (String.ofList w)), ⟨true, []⟩, []) := by
    rw [List.append_nil, readToken?_backquote hbreaks, hw.readTemplate? (by decide)]
    simp [Expression.readTemplate?, templateToken, Mode.start]
  have htokens := tokensFrom?_of_read hread
  rw [List.append_nil] at htokens
  unfold Expr.parse? tokens? backquoted
  rw [htokens]
  rfl

/-- Without its closing back quote a text is no expression. -/
theorem parse?_unclosed (hu : IsVerbatim u) : Expr.parse? ('\x60' :: u) = none := by
  have hread : readToken? .start ('\x60' :: u) = none := by
    have hend : ([] : List Char).head? ≠ some '\x7b' := by simp
    have htemplate := hu.readTemplate? hend
    rw [List.append_nil] at htemplate
    rw [readToken?_backquote hu.line, htemplate]
    rfl
  unfold Expr.parse? tokens?
  rw [tokensFrom?_of_read_none hread]
  rfl

end Tokens

/-! ## As a line -/

section Lines

variable {r u w : List Char}

theorem trim_backquoted (w : List Char) : trim (backquoted w) = backquoted w := by
  refine trim_eq_self_of_ends (fun c hc => ?_) fun c hc => ?_
  · cases hc
    decide
  · have hlast : ('\x60' :: w ++ ['\x60']).getLast? = some '\x60' := List.getLast?_concat
    rw [backquoted, ← List.cons_append, hlast] at hc
    cases hc
    decide

theorem ofLine_backquote (htrim : trim ('\x60' :: r) = '\x60' :: r) :
    LineKind.ofLine ('\x60' :: r) = .expression ('\x60' :: r) := by
  have hnote : isNote ('\x60' :: r) = false := rfl
  unfold LineKind.ofLine LineKind.ofText
  rw [htrim, hnote]
  rfl

theorem exists_trim_unclosed (u : List Char) : ∃ v, trim ('\x60' :: u) = '\x60' :: v ∧ v <+: u := by
  have hstart : trimStart ('\x60' :: u) = '\x60' :: u := rfl
  have htrim := trimEnd_cons (c := '\x60') (by decide) u
  exact ⟨trimEnd u, by rw [trim, hstart, htrim], trimEnd_isPrefix u⟩

/-- A separator that does not begin with a back quote cuts behind it, and in front of the last character. -/
theorem exists_of_cut {sep : Separator} (hsep : ∀ before r, sep before ('\x60' :: r) = none) {left right : List Char}
    (h : cutPlain? sep ('\x60' :: u) = some (left, right)) : ∃ v, left = '\x60' :: v ∧ v <+: u ∧ v ≠ u := by
  obtain ⟨⟨t, hsplit, hne, -, hcut⟩, -⟩ := cutPlain?_eq_some_iff.mp h
  cases left with
  | nil =>
    rw [List.nil_append] at hsplit
    rw [← hsplit, hsep] at hcut
    cases hcut
  | cons c v =>
    obtain ⟨rfl, rfl⟩ := List.cons.inj hsplit
    exact ⟨v, rfl, List.prefix_append v t, by simpa using hne⟩

theorem remarkMark_backquote (before : Option Char) (r : List Char) : remarkMark before ('\x60' :: r) = none := rfl

theorem assignment_backquote (before : Option Char) (r : List Char) :
    Declaration.assignment before ('\x60' :: r) = none := rfl

/-- What begins with a back quote declares nothing. -/
theorem read_backquote (htrim : trim ('\x60' :: u) = '\x60' :: u) :
    (cutPlain? Declaration.assignment ('\x60' :: u) = none ∧
      Declaration.read ('\x60' :: u) = .ok ⟨.anonymous, String.ofList ('\x60' :: u)⟩) ∨
    cutPlain? Declaration.assignment ('\x60' :: u) ≠ none ∧ ∃ e, Declaration.read ('\x60' :: u) = .error e := by
  unfold Declaration.read
  rw [htrim]
  dsimp only
  cases hcut : cutPlain? Declaration.assignment ('\x60' :: u) with
  | none => exact .inl ⟨rfl, rfl⟩
  | some parts =>
    obtain ⟨left, right⟩ := parts
    obtain ⟨v, rfl, -⟩ := exists_of_cut assignment_backquote hcut
    obtain ⟨v', hleft, -⟩ := exists_trim_unclosed v
    refine .inr ⟨by simp, ?_⟩
    dsimp only
    rw [hleft]
    have hhead : Declaration.functionHead? ('\x60' :: v') = none := rfl
    have hname : isIdentifier ('\x60' :: v') = false := rfl
    rw [hhead, hname]
    split
    · exact ⟨_, rfl⟩
    · exact ⟨_, rfl⟩

end Lines

namespace Session

variable (s : Session)

/-- What a session makes of the notation in a text, and of the calls of its functions. -/
def expanded (text : List Char) : List Char :=
  bindCalls (fun name => (s.context.function? name).isSome) (expand ⟨s.now, s.settings.naturalUnits⟩ text)

/-- The line is an expression without a remark that declares nothing and has this value. -/
structure HasValue (line : List Char) (v : Value) : Prop where
  kind : LineKind.ofLine line = .expression line
  remark : splitRemark line = (line, [])
  declaration : Declaration.read line = .ok ⟨.anonymous, String.ofList line⟩
  value : s.valueOf ⟨.anonymous, String.ofList line⟩ = .ok (v, s.context)

variable {s} {t u w : List Char}

theorem skeleton_expanded (htrim : trim t = t) (ht : ∀ c ∈ t, isBlank c = true → isTemplateMark c = false) :
    skeleton isTemplateMark (s.expanded t) = skeleton isTemplateMark t := by
  have hforeign := fun c => isNotationChar_of_isTemplateMark (c := c)
  have hexpand := skeleton_expand hforeign ⟨s.now, s.settings.naturalUnits⟩ ht
  rw [htrim] at hexpand
  refine (skeleton_bindCalls hforeign _ fun c hc hblank => ?_).trans hexpand
  rw [Bool.eq_false_iff]
  intro hmark
  have hkept := ht c (mem_of_skeleton_eq hexpand hmark hc) hblank
  rw [hmark] at hkept
  cases hkept

/-- A verbatim text between back quotes is expanded to one. -/
theorem expanded_backquoted (s : Session) (hw : IsVerbatim w) :
    ∃ w', s.expanded (backquoted w) = backquoted w' ∧ IsVerbatim w' := by
  have hquote : isBlank '\x60' = true → isTemplateMark '\x60' = false := by decide
  refine exists_backquoted hw (skeleton_expanded (trim_backquoted w) ?_)
  exact List.forall_mem_cons.mpr ⟨hquote, List.forall_mem_append.mpr ⟨hw.blanks, List.forall_mem_singleton.mpr hquote⟩⟩

theorem expression?_eq (t : List Char) : s.expression? ⟨.anonymous, String.ofList t⟩ = Expr.parse? (s.expanded t) :=
  s.expression?_ofList .anonymous t

theorem valueOf_backquoted (hw : IsVerbatim w) (h : s.expanded t = backquoted w) :
    s.valueOf ⟨.anonymous, String.ofList t⟩ = .ok (.text (String.ofList w), s.context) := by
  unfold valueOf
  rw [expression?_eq, h, parse?_backquoted hw]
  rfl

theorem valueOf_unclosed (hu : IsVerbatim u) (htrim : trim ('\x60' :: u) = '\x60' :: u) :
    s.valueOf ⟨.anonymous, String.ofList ('\x60' :: u)⟩ = .error .malformed := by
  have hquote : isBlank '\x60' = true → isTemplateMark '\x60' = false := by decide
  obtain ⟨u', hexpanded, hu'⟩ :=
    exists_unclosed hu (skeleton_expanded (s := s) htrim (List.forall_mem_cons.mpr ⟨hquote, hu.blanks⟩))
  unfold valueOf
  rw [expression?_eq, hexpanded, parse?_unclosed hu']

/-- What stands in front of a remark that begins between the back quotes is no expression. -/
theorem expressionEnding_unclosed (hu : IsVerbatim u) (htrim : trim ('\x60' :: u) = '\x60' :: u) (remark : List Char) :
    ∃ e, s.expressionEnding ('\x60' :: u) remark true = .error e s := by
  rw [expressionEnding, if_neg (List.cons_ne_nil _ u)]
  rcases read_backquote htrim with ⟨-, hread⟩ | ⟨-, e, hread⟩
  · rw [hread]
    dsimp only
    rw [valueOf_unclosed hu htrim]
    exact ⟨_, rfl⟩
  · rw [hread]
    exact ⟨_, rfl⟩

/-- A remark or an assignment between the back quotes cuts the text in two. -/
theorem run_cut (s : Session) (hw : IsVerbatim w)
    (h : cutPlain? remarkMark (backquoted w) ≠ none ∨ cutPlain? Declaration.assignment (backquoted w) ≠ none) :
    ∃ e, s.run (backquoted w) = (.error e, s) := by
  have htrim := trim_backquoted w
  rw [run_eq_ending, backquoted, ofLine_backquote htrim, ending]
  cases hcut : cutPlain? remarkMark (backquoted w) with
  | some parts =>
    obtain ⟨left, right⟩ := parts
    obtain ⟨v, rfl, hshorter, hne⟩ := exists_of_cut remarkMark_backquote hcut
    obtain ⟨v', hleft, hshorter'⟩ := exists_trim_unclosed v
    have hv : v <+: w := (List.prefix_concat_iff.mp hshorter).resolve_left hne
    have hsplit : splitRemark ('\x60' :: (w ++ ['\x60'])) = ('\x60' :: v', trim right) := by
      rw [splitRemark, ← backquoted, hcut]
      dsimp only
      rw [hleft]
    have htrim' : trim ('\x60' :: v') = '\x60' :: v' := by rw [← hleft, trim_trim]
    obtain ⟨e, he⟩ := expressionEnding_unclosed (s := s) (hw.of_infix (hshorter'.trans hv).isInfix) htrim' (trim right)
    rw [hsplit, he]
    exact ⟨e, rfl⟩
  | none =>
    have hassigns := h.resolve_left fun hmark => hmark hcut
    have hsplit : splitRemark ('\x60' :: (w ++ ['\x60'])) = (backquoted w, []) := by
      rw [splitRemark, ← backquoted, hcut, htrim]
    obtain ⟨e, hread⟩ : ∃ e, Declaration.read (backquoted w) = .error e :=
      (read_backquote htrim).elim (fun hnone => absurd hnone.1 hassigns) And.right
    have hne : backquoted w ≠ [] := List.cons_ne_nil _ _
    rw [hsplit, expressionEnding, if_neg hne, hread]
    exact ⟨_, rfl⟩

/-- Without a remark there is nothing that a remark could begin at: what stands in front of it is shorter. -/
theorem remarkless_backquoted (h : splitRemark (backquoted w) = (backquoted w, [])) :
    cutPlain? remarkMark (backquoted w) = none := by
  cases hcut : cutPlain? remarkMark (backquoted w) with
  | none => rfl
  | some parts =>
    obtain ⟨left, right⟩ := parts
    obtain ⟨v, rfl, hshorter, hne⟩ := exists_of_cut remarkMark_backquote hcut
    obtain ⟨v', hleft, hshorter'⟩ := exists_trim_unclosed v
    rw [splitRemark, hcut] at h
    dsimp only at h
    rw [hleft] at h
    have hwhole : v' = w ++ ['\x60'] := (List.cons.inj (Prod.mk.inj h).1).2
    exact absurd (hshorter.eq_of_length_le (by rw [← hwhole]; exact hshorter'.length_le)) hne

/-- Otherwise the line is one text, of what the notation and the functions make of it. -/
theorem hasValue_backquoted {w' : List Char} (hw' : IsVerbatim w')
    (hexpanded : s.expanded (backquoted w) = backquoted w') (hremark : cutPlain? remarkMark (backquoted w) = none)
    (hassigns : cutPlain? Declaration.assignment (backquoted w) = none) :
    s.HasValue (backquoted w) (.text (String.ofList w')) where
  kind := ofLine_backquote (trim_backquoted w)
  remark := by rw [splitRemark, hremark, trim_backquoted]
  declaration := (read_backquote (trim_backquoted w)).elim And.right fun h => absurd hassigns h.1
  value := valueOf_backquoted hw' hexpanded

/-- **A text in back quotes.** If a remark or an assignment stands between the quotes, outside literals, the line
fails. Otherwise it is one text, but of what the notation and the functions make of it. So its value is the text as
it is written exactly if there is nothing to cut at, no rule of the notation changes the line, and binding calls does
not change it either. -/
theorem run_backquoted (s : Session) {w : List Char} (hw : IsVerbatim w) :
    let line := backquoted w
    LineKind.ofLine line = .expression line ∧
    (cutPlain? remarkMark line ≠ none ∨ cutPlain? Declaration.assignment line ≠ none →
      ∃ e, s.run line = (.error e, s)) ∧
    (cutPlain? remarkMark line = none → cutPlain? Declaration.assignment line = none →
      ∃ w', IsVerbatim w' ∧ s.expanded line = backquoted w' ∧ s.HasValue line (.text (String.ofList w'))) ∧
    (s.HasValue line (.text (String.ofList w)) ↔
      cutPlain? remarkMark line = none ∧ cutPlain? Declaration.assignment line = none ∧
        changes ⟨s.now, s.settings.naturalUnits⟩ Rule.all line = [] ∧
          bindCalls (fun name => (s.context.function? name).isSome) line = line) := by
  intro line
  have hself : s.expanded line = line ↔ _ := bound_expand_eq_self_iff _ _ (trim_backquoted w)
  obtain ⟨w', hexpanded, hw'⟩ := s.expanded_backquoted hw
  have hwhole := hasValue_backquoted hw' hexpanded
  refine ⟨ofLine_backquote (trim_backquoted w), s.run_cut hw, fun hremark hassigns =>
    ⟨w', hw', hexpanded, hwhole hremark hassigns⟩, ⟨fun h => ?_, ?_⟩⟩
  · have hremark := remarkless_backquoted h.remark
    have hassigns : cutPlain? Declaration.assignment line = none := by
      rcases read_backquote (trim_backquoted w) with ⟨hnone, -⟩ | ⟨-, e, hread⟩
      · exact hnone
      · have hok := h.declaration
        rw [show Declaration.read line = .error e from hread] at hok
        cases hok
    have hvalue := (hwhole hremark hassigns).value
    rw [h.value] at hvalue
    injection hvalue with hpair
    injection (Prod.mk.inj hpair).1 with htext
    obtain rfl : w = w' := String.ofList_injective htext
    exact ⟨hremark, hassigns, hself.mp hexpanded⟩
  · rintro ⟨hremark, hassigns, hsame⟩
    exact hasValue_backquoted hw (hself.mpr hsame) hremark hassigns

/-- Neither an apostrophe in a word of a literal nor a sign without an operand is anything else. -/
theorem run_backquoted_plain :
    let s := start {} (DateTime.midnight ⟨2024, 1, 31, by decide⟩)
    IsVerbatim "so \"it's 5!\" (a \\ b)".toList ∧
      s.HasValue "`so \"it's 5!\" (a \\ b)`".toList (.text "so \"it's 5!\" (a \\ b)") := by
  intro s
  have hw : IsVerbatim "so \"it's 5!\" (a \\ b)".toList := ⟨by decide, by decide, by decide⟩
  exact ⟨hw, (s.run_backquoted hw).2.2.2.mpr ⟨by decide, by decide, by decide +kernel, by decide +kernel⟩⟩

/-- **A factorial between back quotes** is expanded there, and what stands behind a semicolon is a remark. -/
theorem backquoted_factorial :
    let s := start {} (DateTime.midnight ⟨2024, 1, 31, by decide⟩)
    IsVerbatim "5!".toList ∧ IsVerbatim "a;b".toList ∧
      s.HasValue "`5!`".toList (.text "factorial(5)") ∧ ¬ s.HasValue "`5!`".toList (.text "5!") ∧
      splitRemark "`a;b`".toList = ("`a".toList, "b`".toList) := by
  intro s
  have hw : IsVerbatim "5!".toList := ⟨by decide, by decide, by decide⟩
  have hw' : IsVerbatim "factorial(5)".toList := ⟨by decide, by decide, by decide⟩
  have hexpanded : s.expanded (backquoted "5!".toList) = backquoted "factorial(5)".toList := by decide +kernel
  have hvalue : s.HasValue "`5!`".toList (.text "factorial(5)") :=
    hasValue_backquoted hw' hexpanded (by decide) (by decide)
  refine ⟨hw, ⟨by decide, by decide, by decide⟩, hvalue, fun h => ?_, by decide⟩
  have hsame := h.value.symm.trans hvalue.value
  injection hsame with hpair
  injection (Prod.mk.inj hpair).1 with htext
  revert htext
  decide

end Session

end Worksheet
