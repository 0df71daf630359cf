import Worksheet.Declaration
import Worksheet.Proofs.Text.Class
import Worksheet.Proofs.Text.Digits
import Worksheet.Proofs.Text.Lines
import Worksheet.Proofs.Text.Literal

/-!
# How a declaration is read

A line is cut at its first assignment, and what stands in front of it decides what is declared.

* **`Outside`** — texts whose literals have all ended, said without the scanner; `closed_iff_outside`.
* **`cutPlain?_eq_some_iff`**, **`cutPlain?_eq_none_iff`** — a text is cut at the first separator
  outside literals, whatever the separator is.
* **`Assigns`**, **`IsFunctionHead`**, **`Reads`** — the rules of declarations.
* **`read_exact`** — the headline: a text is read as the rules say, and as nothing else.
-/

namespace Worksheet

open Text

/-! ## Outside literals -/

namespace Text

/-- Plain text and literals, each of which is closed. -/
inductive Outside : List Char → Prop where
  | plain {p : List Char} (hp : '"' ∉ p) : Outside p
  | literal {p l t : List Char} (hp : '"' ∉ p) (hl : IsLiteral l) (ht : Outside t) :
      Outside (p ++ (l ++ t))

theorem closed_iff_outside {s : List Char} : Closed s ↔ Outside s := by
  constructor
  · intro h
    induction h using Closed.induction with
    | plain p hp => exact .plain hp
    | literal p l t hp hl _ ih => exact .literal hp hl ih
  · intro h
    induction h with
    | plain hp => exact closed_of_not_mem hp
    | literal hp hl _ ih => exact (closed_of_not_mem hp).append (hl.closed.append ih)

/-! ## The first separator -/

/-- Behind `left`, which ends outside literals, the separator stands in front of `right`. -/
def CutsAt (sep : Separator) (place : Place) (before : Option Char) (s left right : List Char) :
    Prop :=
  ∃ t, s = left ++ t ∧ t ≠ [] ∧ place.behind left = .outside ∧
    sep (left.getLast?.or before) t = some right

section Separators

variable {sep : Separator} {place : Place} {before : Option Char} {c : Char} {r : List Char}

theorem cutsAt_nil_iff {right : List Char} :
    CutsAt sep place before (c :: r) [] right ↔
      place = .outside ∧ sep before (c :: r) = some right := by
  constructor
  · rintro ⟨t, rfl, -, hplace, hsep⟩
    exact ⟨hplace, hsep⟩
  · rintro ⟨hplace, hsep⟩
    exact ⟨c :: r, rfl, List.cons_ne_nil c r, hplace, hsep⟩

theorem cutsAt_cons_iff {d : Char} {left right : List Char} :
    CutsAt sep place before (c :: r) (d :: left) right ↔
      c = d ∧ CutsAt sep (place.next c) (some c) r left right := by
  -- the character in front of the separator is the same, seen from the first or the second one
  have hlast : (d :: left).getLast?.or before = left.getLast?.or (some d) := by
    cases left <;> simp [List.getLast?_cons]
  constructor
  · rintro ⟨t, heq, hne, hplace, hsep⟩
    obtain ⟨rfl, rfl⟩ := List.cons.inj heq
    rw [hlast] at hsep
    exact ⟨rfl, t, rfl, hne, hplace, hsep⟩
  · rintro ⟨rfl, t, rfl, hne, hplace, hsep⟩
    rw [← hlast] at hsep
    exact ⟨t, rfl, hne, hplace, hsep⟩

theorem not_cutsAt_empty {left right : List Char} : ¬ CutsAt sep place before [] left right := by
  rintro ⟨t, heq, hne, -⟩
  exact hne (List.append_eq_nil_iff.mp heq.symm).2

/-- A cut is made at the first place where the separator stands. -/
theorem cutFrom?_eq_some_iff {s left right : List Char} :
    cutFrom? sep place before s = some (left, right) ↔
      CutsAt sep place before s left right ∧
        ∀ left' right', CutsAt sep place before s left' right' → left.length ≤ left'.length := by
  induction s generalizing place before left with
  | nil => simp [cutFrom?, not_cutsAt_empty]
  | cons c r ih =>
    rw [cutFrom?]
    cases hhere : (if place = .outside then sep before (c :: r) else none) with
    | some rest =>
      -- the separator stands here, and no cut leaves less in front of it than nothing
      obtain ⟨hplace, hsep⟩ : place = .outside ∧ sep before (c :: r) = some rest := by
        simpa using hhere
      have hfirst : CutsAt sep place before (c :: r) [] rest := cutsAt_nil_iff.mpr ⟨hplace, hsep⟩
      constructor
      · rintro ⟨⟩
        exact ⟨hfirst, fun _ _ _ => Nat.zero_le _⟩
      · rintro ⟨hcut, hmin⟩
        obtain rfl : left = [] := List.length_eq_zero_iff.mp (Nat.le_zero.mp (hmin _ _ hfirst))
        rw [(cutsAt_nil_iff.mp hcut).2] at hsep
        cases hsep
        rfl
    | none =>
      -- every cut has the character in front of it, and is one of the text behind the character
      have hnone : ∀ rest, ¬ CutsAt sep place before (c :: r) [] rest := by
        intro rest hcut
        obtain ⟨hplace, hsep⟩ := cutsAt_nil_iff.mp hcut
        simp [hplace, hsep] at hhere
      show (cutFrom? sep (place.next c) (some c) r).map (fun p => (c :: p.1, p.2)) = _ ↔ _
      rw [Option.map_eq_some_iff]
      constructor
      · rintro ⟨⟨left, right⟩, hrest, ⟨⟩⟩
        obtain ⟨hcut, hmin⟩ := ih.mp hrest
        refine ⟨cutsAt_cons_iff.mpr ⟨rfl, hcut⟩, fun left' right' hcut' => ?_⟩
        cases left' with
        | nil => exact absurd hcut' (hnone right')
        | cons d left' =>
          have hle := hmin _ _ (cutsAt_cons_iff.mp hcut').2
          exact Nat.succ_le_succ hle
      · rintro ⟨hcut, hmin⟩
        cases left with
        | nil => exact absurd hcut (hnone right)
        | cons d left =>
          obtain ⟨rfl, hrest⟩ := cutsAt_cons_iff.mp hcut
          refine ⟨(left, right), ih.mpr ⟨hrest, fun left' right' hcut' => ?_⟩, rfl⟩
          have hle := hmin (c :: left') right' (cutsAt_cons_iff.mpr ⟨rfl, hcut'⟩)
          exact Nat.le_of_succ_le_succ hle

theorem cutFrom?_eq_none_iff {s : List Char} :
    cutFrom? sep place before s = none ↔
      ∀ left right, ¬ CutsAt sep place before s left right := by
  induction s generalizing place before with
  | nil => simp [cutFrom?, not_cutsAt_empty]
  | cons c r ih =>
    constructor
    · intro hnone left right hcut
      rw [cutFrom?] at hnone
      cases hhere : (if place = .outside then sep before (c :: r) else none) with
      | some rest => simp [hhere] at hnone
      | none =>
        simp only [hhere, Option.map_eq_none_iff] at hnone
        cases left with
        | nil =>
          obtain ⟨hplace, hsep⟩ := cutsAt_nil_iff.mp hcut
          simp [hplace, hsep] at hhere
        | cons d left => exact ih.mp hnone left right (cutsAt_cons_iff.mp hcut).2
    · intro h
      cases hcut : cutFrom? sep place before (c :: r) with
      | none => rfl
      | some p => exact absurd (cutFrom?_eq_some_iff.mp hcut).1 (h p.1 p.2)

end Separators

theorem cutPlain?_eq_some_iff {sep : Separator} {s left right : List Char} :
    cutPlain? sep s = some (left, right) ↔
      CutsAt sep .outside none s left right ∧
        ∀ left' right', CutsAt sep .outside none s left' right' → left.length ≤ left'.length :=
  cutFrom?_eq_some_iff

theorem cutPlain?_eq_none_iff {sep : Separator} {s : List Char} :
    cutPlain? sep s = none ↔ ∀ left right, ¬ CutsAt sep .outside none s left right :=
  cutFrom?_eq_none_iff

end Text

namespace Declaration

/-! ## Assignments -/

/-- Between the two sides of the text stands an assignment. -/
inductive Assigns : (text left right : List Char) → Prop where
  | colon {left right : List Char} (houtside : Outside left) :
      Assigns (left ++ ':' :: '=' :: right) left right
  | equals {left right : List Char} (houtside : Outside left)
      (hbefore : ∀ c ∈ left.getLast?, c ∉ ['=', '!', '<', '>'])
      (hbehind : right.head? ≠ some '=') : Assigns (left ++ '=' :: right) left right

/-- No assignment stands further to the left. -/
def FirstAssigns (text left right : List Char) : Prop :=
  Assigns text left right ∧
    ∀ left' right', Assigns text left' right' → left.length ≤ left'.length

theorem assignment_equals (before : Option Char) {rest right : List Char} :
    assignment before ('=' :: rest) = some right ↔
      (∀ c ∈ before, c ∉ ['=', '!', '<', '>']) ∧ rest.head? ≠ some '=' ∧ rest = right := by
  cases before <;> simp [assignment, and_assoc]

/-- The separator of declarations is the assignment. -/
theorem cutsAt_assignment_iff {text left right : List Char} :
    CutsAt assignment .outside none text left right ↔ Assigns text left right := by
  constructor
  · rintro ⟨t, rfl, -, hplace, hsep⟩
    have houtside : Outside left := closed_iff_outside.mp hplace
    rw [Option.or_none] at hsep
    have hlaw := hsep
    unfold assignment at hsep
    split at hsep
    · cases hsep
      exact .colon houtside
    · obtain ⟨hbefore, hbehind, rfl⟩ := (assignment_equals _).mp hlaw
      exact .equals houtside hbefore hbehind
    · cases hsep
  · rintro (houtside | ⟨houtside, hbefore, hbehind⟩)
    · exact ⟨_, rfl, List.cons_ne_nil _ _, closed_iff_outside.mpr houtside, rfl⟩
    · refine ⟨_, rfl, List.cons_ne_nil _ _, closed_iff_outside.mpr houtside, ?_⟩
      rw [Option.or_none]
      exact (assignment_equals _).mpr ⟨hbefore, hbehind, rfl⟩

theorem cutPlain?_assignment_eq_some {text left right : List Char} :
    cutPlain? assignment text = some (left, right) ↔ FirstAssigns text left right := by
  simp only [cutPlain?_eq_some_iff, cutsAt_assignment_iff, FirstAssigns]

theorem cutPlain?_assignment_eq_none {text : List Char} :
    cutPlain? assignment text = none ↔ ∀ left right, ¬ Assigns text left right := by
  simp only [cutPlain?_eq_none_iff, cutsAt_assignment_iff]

/-! ## The side in front -/

/-- A name and, in parentheses, parameters with commas between them, of which there is at least one.
Blanks may stand in front of the parenthesis and around every parameter. -/
structure IsFunctionHead (head name : List Char) (params : List (List Char)) : Prop where
  validName : isIdentifier name = true
  validParams : ∀ p ∈ params, isIdentifier p = true
  text : ∃ blanks parts, (∀ c ∈ blanks, isBlank c = true) ∧ parts ≠ [] ∧ parts.map trim = params ∧
    head = name ++ (blanks ++ '(' :: (joinWith [','] parts ++ [')']))

/-- A sign that is neither a blank nor of names stands nowhere in a parameter and its blanks. -/
theorem not_mem_part {part : List Char} (h : isIdentifier (trim part) = true) {c : Char}
    (hblank : isBlank c = false) (hname : isNameChar c = false) : c ∉ part := by
  intro hc
  have hmem := isNameChar_of_mem_identifier h c (mem_trim_of_mem hc hblank)
  rw [hname] at hmem
  cases hmem

theorem mem_joinWith {separator : List Char} {parts : List (List Char)} {c : Char}
    (hc : c ∈ joinWith separator parts) : c ∈ separator ∨ ∃ part ∈ parts, c ∈ part := by
  fun_induction joinWith separator parts with
  | case1 => cases hc
  | case2 part => exact Or.inr ⟨part, List.mem_cons_self, hc⟩
  | case3 part parts _ ih =>
    rcases List.mem_append.mp hc with hc | hc
    · rcases List.mem_append.mp hc with hc | hc
      · exact Or.inr ⟨part, List.mem_cons_self, hc⟩
      · exact Or.inl hc
    · rcases ih hc with hc | ⟨p, hp, hc⟩
      · exact Or.inl hc
      · exact Or.inr ⟨p, List.mem_cons_of_mem part hp, hc⟩

theorem isFunctionHead_of_eq_some {head name : List Char} {params : List (List Char)}
    (h : functionHead? head = some (name, params)) : IsFunctionHead head name params := by
  unfold functionHead? at h
  dsimp only at h
  split at h
  · next r hparen =>
    split at h
    · next inside hcut =>
      split at h
      · next hident =>
        obtain ⟨rfl, rfl⟩ := Prod.mk.inj (Option.some.inj h)
        obtain ⟨hname, hparams⟩ := Bool.and_eq_true_iff.mp hident
        refine ⟨hname, List.all_eq_true.mp hparams, (head.dropWhile isNameChar).takeWhile isBlank,
          splitAt (· == ',') inside, ?_, splitAt_ne_nil _ _, rfl, ?_⟩
        · exact List.all_eq_true.mp List.all_takeWhile
        · rw [joinWith_splitAt, ← (cutAt?_eq_some hcut).1, ← hparen, trimStart,
            List.takeWhile_append_dropWhile, List.takeWhile_append_dropWhile]
      · cases h
    · cases h
  · cases h

theorem IsFunctionHead.eq_some {head name : List Char} {params : List (List Char)}
    (h : IsFunctionHead head name params) : functionHead? head = some (name, params) := by
  obtain ⟨hname, hparams, blanks, parts, hblanks, hne, rfl, rfl⟩ := h
  -- a parameter is an identifier between blanks, so no separator stands in one
  have hnot : ∀ {c : Char}, isBlank c = false → isNameChar c = false → ∀ part ∈ parts, c ∉ part :=
    fun hblank hchar part hpart =>
      not_mem_part (hparams _ (List.mem_map_of_mem hpart)) hblank hchar
  have hcomma : ∀ part ∈ parts, ',' ∉ part := hnot (by decide) (by decide)
  have hparen : ')' ∉ joinWith [','] parts := by
    intro hmem
    rcases mem_joinWith hmem with hmem | ⟨part, hpart, hmem⟩
    · exact absurd hmem (by decide)
    · exact hnot (by decide) (by decide) part hpart hmem
  have hedge : ∀ c ∈ (blanks ++ '(' :: (joinWith [','] parts ++ [')'])).head?,
      isNameChar c = false := by
    intro c hc
    cases blanks with
    | nil =>
      cases hc
      decide
    | cons d blanks =>
      cases hc
      exact isNameChar_of_isBlank (hblanks c List.mem_cons_self)
  have hall := isNameChar_of_mem_identifier hname
  have hrest : trimStart (blanks ++ '(' :: (joinWith [','] parts ++ [')']))
      = '(' :: (joinWith [','] parts ++ [')']) :=
    dropWhile_run hblanks (by rintro c ⟨⟩; decide)
  have hcut := cutAt?_append hparen []
  have hsplit : splitAt (· == ',') (joinWith [','] parts) = parts := by
    rw [splitAt_joinWith ',' hne, flatMap_splitAt_of_not_mem hcomma]
  simp only [functionHead?, takeWhile_run hall hedge, dropWhile_run hall hedge, hrest, hcut, hsplit,
    hname, List.all_eq_true.mpr hparams, Bool.and_self, if_true]

theorem functionHead?_eq_some_iff {head name : List Char} {params : List (List Char)} :
    functionHead? head = some (name, params) ↔ IsFunctionHead head name params :=
  ⟨isFunctionHead_of_eq_some, IsFunctionHead.eq_some⟩

theorem functionHead?_eq_none {head : List Char}
    (h : ∀ name params, ¬ IsFunctionHead head name params) : functionHead? head = none := by
  cases hhead : functionHead? head with
  | none => rfl
  | some p => exact absurd (isFunctionHead_of_eq_some hhead) (h p.1 p.2)

/-! ## Declarations -/

/-- What a trimmed text is read as. -/
inductive Reads (text : List Char) : Except DeclarationError Declaration → Prop where
  | value (h : ∀ left right, ¬ Assigns text left right) :
      Reads text (.ok ⟨.anonymous, String.ofList text⟩)
  | incomplete {left right : List Char} (h : FirstAssigns text left right)
      (hside : trim left = [] ∨ trim right = []) :
      Reads text (.error (.incomplete (String.ofList text)))
  | function {left right name : List Char} {params : List (List Char)}
      (h : FirstAssigns text left right) (hleft : IsFunctionHead (trim left) name params)
      (hright : trim right ≠ []) :
      Reads text (.ok ⟨.function (String.ofList name) (params.map String.ofList),
        String.ofList ('|' :: (joinWith [',', ' '] params ++ '|' :: ' ' :: trim right))⟩)
  | named {left right : List Char} (h : FirstAssigns text left right)
      (hleft : isIdentifier (trim left) = true) (hright : trim right ≠ []) :
      Reads text (.ok ⟨.variable (String.ofList (trim left)), String.ofList (trim right)⟩)
  | invalid {left right : List Char} (h : FirstAssigns text left right)
      (hleft : trim left ≠ []) (hright : trim right ≠ [])
      (hfunction : ∀ name params, ¬ IsFunctionHead (trim left) name params)
      (hvariable : isIdentifier (trim left) = false) :
      Reads text (.error (.invalid (String.ofList text)))

theorem IsFunctionHead.ne_nil {head name : List Char} {params : List (List Char)}
    (h : IsFunctionHead head name params) : head ≠ [] := by
  obtain ⟨-, -, blanks, parts, -, -, -, rfl⟩ := h
  simp

/-- No identifier is a function with its parameters. -/
theorem IsFunctionHead.isIdentifier_eq_false {head name : List Char} {params : List (List Char)}
    (h : IsFunctionHead head name params) : isIdentifier head = false := by
  obtain ⟨-, -, blanks, parts, -, -, -, rfl⟩ := h
  rw [Bool.eq_false_iff]
  intro hident
  have hparen := isNameChar_of_mem_identifier hident '(' (by simp)
  exact absurd hparen (by decide)

/-- What stands in front of an assignment is free of its signs, if it declares a function. -/
theorem IsFunctionHead.not_mem {head name : List Char} {params : List (List Char)}
    (h : IsFunctionHead head name params) : ∀ c ∈ head, c ∉ [':', '=', '"'] := by
  obtain ⟨hname, hparams, blanks, parts, hblanks, -, rfl, rfl⟩ := h
  intro c hc hsign
  have hno : ∀ d ∈ [':', '=', '"'], isBlank d = false ∧ isNameChar d = false ∧ d ∉ ['(', ',', ')'] := by
    decide
  obtain ⟨hblank, hchar, hother⟩ := hno c hsign
  simp only [List.mem_append, List.mem_cons, List.not_mem_nil, or_false] at hc hother
  rcases hc with hc | hc | hc | hc | hc
  · rw [isNameChar_of_mem_identifier hname c hc] at hchar
    cases hchar
  · rw [hblanks c hc] at hblank
    cases hblank
  · exact hother (Or.inl hc)
  · rcases mem_joinWith hc with hc | ⟨part, hpart, hc⟩
    · exact hother (Or.inr (Or.inl (List.mem_singleton.mp hc)))
    · exact not_mem_part (hparams _ (List.mem_map_of_mem hpart)) hblank hchar hc
  · exact hother (Or.inr (Or.inr hc))

theorem functionLiteral_eq (params : List (List Char)) (body : List Char) :
    functionLiteral params body = '|' :: (joinWith [',', ' '] params ++ '|' :: ' ' :: body) := by
  simp [functionLiteral, Notation.functionMark]

theorem reads_read (text : List Char) : Reads (trim text) (read text) := by
  unfold read
  dsimp only
  split
  · next hcut => exact .value (cutPlain?_assignment_eq_none.mp hcut)
  · next left right hcut =>
    have hfirst := cutPlain?_assignment_eq_some.mp hcut
    split
    · next hside =>
      rw [Bool.or_eq_true, List.isEmpty_iff, List.isEmpty_iff] at hside
      exact .incomplete hfirst hside
    · next hside =>
      rw [Bool.or_eq_true, List.isEmpty_iff, List.isEmpty_iff, not_or] at hside
      split
      · next name params hhead =>
        rw [functionLiteral_eq]
        exact .function hfirst (functionHead?_eq_some_iff.mp hhead) hside.2
      · next hhead =>
        split
        · next hident => exact .named hfirst hident hside.2
        · next hident =>
          refine .invalid hfirst hside.1 hside.2 (fun name params h => ?_) (by simpa using hident)
          rw [h.eq_some] at hhead
          cases hhead

theorem Reads.read_eq {text : List Char} {r : Except DeclarationError Declaration}
    (h : Reads (trim text) r) : read text = r := by
  unfold read
  dsimp only
  cases h with
  | value hnone => rw [cutPlain?_assignment_eq_none.mpr hnone]
  | incomplete hfirst hside =>
    rw [cutPlain?_assignment_eq_some.mpr hfirst]
    dsimp only
    rw [if_pos]
    simpa using hside
  | @function left right _ _ hfirst hleft hright =>
    have hempty : ¬ ((trim left).isEmpty || (trim right).isEmpty) = true := by
      simpa using ⟨hleft.ne_nil, hright⟩
    rw [cutPlain?_assignment_eq_some.mpr hfirst]
    dsimp only
    rw [if_neg hempty, hleft.eq_some]
    dsimp only
    rw [functionLiteral_eq]
  | @named left right hfirst hleft hright =>
    have hempty : ¬ ((trim left).isEmpty || (trim right).isEmpty) = true := by
      simpa using ⟨ne_nil_of_isIdentifier hleft, hright⟩
    rw [cutPlain?_assignment_eq_some.mpr hfirst]
    dsimp only
    rw [if_neg hempty, functionHead?_eq_none fun name params hhead => ?_, if_pos hleft]
    rw [hhead.isIdentifier_eq_false] at hleft
    cases hleft
  | @invalid left right hfirst hleft hright hfunction hvariable =>
    have hempty : ¬ ((trim left).isEmpty || (trim right).isEmpty) = true := by
      simpa using ⟨hleft, hright⟩
    rw [cutPlain?_assignment_eq_some.mpr hfirst]
    dsimp only
    rw [if_neg hempty, functionHead?_eq_none hfunction, if_neg (by simp [hvariable])]

/-! ## Written declarations -/

/-- In front of its last sign there is nothing that an assignment begins with. -/
theorem firstAssigns_equals {left right : List Char} (hleft : ∀ c ∈ left, c ∉ [':', '=', '"'])
    (hbefore : ∀ c ∈ left.getLast?, c ∉ ['=', '!', '<', '>']) (hbehind : right.head? ≠ some '=') :
    FirstAssigns (left ++ '=' :: right) left right := by
  have hquote : '"' ∉ left := fun hmem => hleft _ hmem (by decide)
  refine ⟨.equals (.plain hquote) hbefore hbehind, fun left' right' h => ?_⟩
  -- an assignment further to the left would begin inside of `left`
  have hsign : ∃ c rest, c ∈ [':', '=', '"'] ∧ left ++ '=' :: right = left' ++ c :: rest := by
    generalize htext : left ++ '=' :: right = text at h
    cases h with
    | colon => exact ⟨':', _, by decide, rfl⟩
    | equals => exact ⟨'=', _, by decide, rfl⟩
  obtain ⟨c, rest, hc, heq⟩ := hsign
  refine Nat.le_of_not_lt fun hlt => ?_
  rcases List.append_eq_append_iff.mp heq with ⟨mid, rfl, -⟩ | ⟨mid, rfl, hmid⟩
  · rw [List.length_append] at hlt
    omega
  · cases mid with
    | nil => simp at hlt
    | cons d mid =>
      obtain ⟨rfl, -⟩ := List.cons.inj hmid
      exact hleft c (by simp) hc

theorem isBlank_getLast_of_trim {s : List Char} (hs : trim s = s) {c : Char}
    (hc : c ∈ s.getLast?) : isBlank c = false := by
  have hhead := List.head?_dropWhile_not isBlank (trimStart s).reverse
  rw [← hs, trim, trimEnd, List.getLast?_reverse] at hc
  rw [Option.mem_def.mp hc] at hhead
  simpa using hhead

theorem trim_blank_cons {c : Char} (hc : isBlank c = true) (s : List Char) :
    trim (c :: s) = trim s := by
  rw [trim, trim, trimStart, List.dropWhile_cons_of_pos hc, ← trimStart]

section Written

variable {head body : List Char}

/-- What is written `head = body` is cut into the two again. -/
theorem firstAssigns_written (hne : head ≠ []) (hsigns : ∀ c ∈ head, c ∉ [':', '=', '"'])
    (hfirst : ∀ c ∈ head.head?, isBlank c = false) (hlast : ∀ c ∈ head.getLast?, isBlank c = false)
    (hbody : trim body = body) (hbodyne : body ≠ []) :
    ∃ left right, trim left = head ∧ trim right = body ∧
      FirstAssigns (trim (head ++ (" = ".toList ++ body))) left right := by
  obtain ⟨d, hd⟩ : ∃ d, head.getLast? = some d := ⟨_, List.getLast?_eq_some_getLast hne⟩
  have hstart : ∀ t, trimStart (head ++ t) = head ++ t := by
    intro t
    cases head with
    | nil => exact absurd rfl hne
    | cons c r => exact List.dropWhile_cons_of_neg (by simp [hfirst c rfl])
  refine ⟨head ++ [' '], ' ' :: body, ?_, ?_, ?_⟩
  · rw [trim, hstart, trimEnd_append hd (hlast d hd)]
    exact List.append_nil head
  · rw [trim_blank_cons (by decide), hbody]
  · have htext : head ++ (" = ".toList ++ body) = (head ++ [' ']) ++ '=' :: ' ' :: body := by simp
    have htrim : trim (head ++ (" = ".toList ++ body)) = head ++ (" = ".toList ++ body) := by
      refine trim_eq_self_of_ends (fun c hc => hfirst c ?_) fun c hc => ?_
      · rwa [List.head?_append, Option.or_of_isSome (by simpa using hne)] at hc
      · refine isBlank_getLast_of_trim hbody ?_
        rwa [← List.append_assoc, List.getLast?_append, Option.or_of_isSome (by simpa using hbodyne)]
          at hc
    rw [htrim, htext]
    refine firstAssigns_equals ?_ ?_ (by simp)
    · intro c hc
      rcases List.mem_append.mp hc with hc | hc
      · exact hsigns c hc
      · rw [List.mem_singleton.mp hc]
        decide
    · intro c hc
      rw [List.getLast?_concat] at hc
      cases hc
      decide

/-- Names written with commas between them are read as parameters. -/
theorem isFunctionHead_written {name : List Char} {params : List (List Char)}
    (hname : isIdentifier name = true) (hne : params ≠ [])
    (hparams : ∀ p ∈ params, isIdentifier p = true) :
    IsFunctionHead (name ++ '(' :: (joinWith [',', ' '] params ++ [')'])) name params := by
  -- the blank behind a comma belongs to the parameter that follows
  have hjoin : ∀ p ps, joinWith [',', ' '] (p :: ps) = joinWith [','] (p :: ps.map (' ' :: ·)) := by
    intro p ps
    induction ps generalizing p with
    | nil => rfl
    | cons q ps ih =>
      rw [List.map_cons, joinWith_cons ',' p (List.cons_ne_nil _ _)]
      show p ++ [',', ' '] ++ joinWith [',', ' '] (q :: ps) = _
      rw [ih q, List.append_assoc]
      cases ps <;> rfl
  have htrim : ∀ p ∈ params, trim p = p := by
    intro p hp
    exact trim_eq_self fun c hc =>
      isBlank_of_isNameChar (isNameChar_of_mem_identifier (hparams p hp) c hc)
  cases params with
  | nil => exact absurd rfl hne
  | cons p ps =>
    refine ⟨hname, hparams, [], p :: ps.map (' ' :: ·), by simp, List.cons_ne_nil _ _, ?_, ?_⟩
    · have hrest : ps.map (trim ∘ (' ' :: ·)) = ps := by
        refine (List.map_congr_left fun q hq => ?_).trans (List.map_id ps)
        show trim (' ' :: q) = q
        rw [trim_blank_cons (by decide), htrim q (List.mem_cons_of_mem p hq)]
      rw [List.map_cons, List.map_map, htrim p List.mem_cons_self, hrest]
    · rw [hjoin]
      rfl

theorem read_written_function {name : List Char} {params : List (List Char)}
    (hname : isIdentifier name = true) (hne : params ≠ [])
    (hparams : ∀ p ∈ params, isIdentifier p = true) (hbody : trim body = body)
    (hbodyne : body ≠ []) :
    read (name ++ ('(' :: (joinWith [',', ' '] params ++ ')' :: (" = ".toList ++ body))))
      = .ok ⟨.function (String.ofList name) (params.map String.ofList),
        String.ofList ('|' :: (joinWith [',', ' '] params ++ '|' :: ' ' :: body))⟩ := by
  have hhead := isFunctionHead_written hname hne hparams
  have htext : name ++ ('(' :: (joinWith [',', ' '] params ++ ')' :: (" = ".toList ++ body)))
      = (name ++ '(' :: (joinWith [',', ' '] params ++ [')'])) ++ (" = ".toList ++ body) := by
    simp
  have hfirst : ∀ c ∈ (name ++ '(' :: (joinWith [',', ' '] params ++ [')'])).head?,
      isBlank c = false := by
    intro c hc
    rw [List.head?_append, Option.or_of_isSome (by simpa using ne_nil_of_isIdentifier hname)] at hc
    exact isBlank_of_isNameChar (isNameChar_of_mem_identifier hname c (List.mem_of_mem_head? hc))
  have hlast : ∀ c ∈ (name ++ '(' :: (joinWith [',', ' '] params ++ [')'])).getLast?,
      isBlank c = false := by
    intro c hc
    rw [← List.cons_append, ← List.append_assoc, List.getLast?_concat] at hc
    cases hc
    decide
  obtain ⟨left, right, hleft, rfl, hcut⟩ :=
    firstAssigns_written hhead.ne_nil hhead.not_mem hfirst hlast hbody hbodyne
  rw [htext]
  rw [← hleft] at hhead
  exact (Reads.function hcut hhead hbodyne).read_eq

theorem read_written_named {name : List Char} (hname : isIdentifier name = true)
    (hbody : trim body = body) (hbodyne : body ≠ []) :
    read (name ++ (" = ".toList ++ body))
      = .ok ⟨.variable (String.ofList name), String.ofList body⟩ := by
  have hchar := isNameChar_of_mem_identifier hname
  have hsigns : ∀ c ∈ name, c ∉ [':', '=', '"'] := by
    intro c hc hsign
    have hno : ∀ d ∈ [':', '=', '"'], isNameChar d = false := by decide
    exact absurd (hchar c hc) (by simp [hno c hsign])
  obtain ⟨left, right, rfl, rfl, hcut⟩ := firstAssigns_written (ne_nil_of_isIdentifier hname) hsigns
    (fun c hc => isBlank_of_isNameChar (hchar c (List.mem_of_mem_head? hc)))
    (fun c hc => isBlank_of_isNameChar (hchar c (List.mem_of_getLast? hc))) hbody hbodyne
  exact (Reads.named hcut hname hbodyne).read_eq

end Written

/-- **Declarations are split exactly.** A text is read as the rules of declarations say, and what is
written as the declaration of a function or of a variable is read back. -/
theorem read_exact :
    (∀ text r, read text = r ↔ Reads (trim text) r) ∧
    ∀ name body, isIdentifier name = true → trim body = body → body ≠ [] →
      (∀ params, params ≠ [] → (∀ p ∈ params, isIdentifier p = true) →
        read (name ++ ('(' :: (joinWith [',', ' '] params ++ ')' :: (" = ".toList ++ body))))
          = .ok ⟨.function (String.ofList name) (params.map String.ofList),
            String.ofList ('|' :: (joinWith [',', ' '] params ++ '|' :: ' ' :: body))⟩) ∧
      read (name ++ (" = ".toList ++ body))
        = .ok ⟨.variable (String.ofList name), String.ofList body⟩ := by
  refine ⟨fun text r => ⟨?_, Reads.read_eq⟩, fun name body hname hbody hne => ⟨?_, ?_⟩⟩
  · rintro rfl
    exact reads_read text
  · exact fun params hparams hnames => read_written_function hname hparams hnames hbody hne
  · exact read_written_named hname hbody hne

/-- A body with a comparison, with an assignment in a literal and with one outside of it. -/
theorem read_exact_nested :
    isIdentifier "f".toList = true ∧ (∀ p ∈ ["x".toList, "y1".toList], isIdentifier p = true) ∧
    trim "if(x == y1, \"a := b\", |t| t := 2)".toList = "if(x == y1, \"a := b\", |t| t := 2)".toList ∧
    read "f(x, y1) = if(x == y1, \"a := b\", |t| t := 2)".toList
      = .ok ⟨.function "f" ["x", "y1"], "|x, y1| if(x == y1, \"a := b\", |t| t := 2)"⟩ ∧
    Reads "f(x) >= 1".toList (.ok ⟨.anonymous, "f(x) >= 1"⟩) := by
  have hname : isIdentifier "f".toList = true := by decide
  have hparams : ∀ p ∈ ["x".toList, "y1".toList], isIdentifier p = true := by decide
  have hbody : trim "if(x == y1, \"a := b\", |t| t := 2)".toList
      = "if(x == y1, \"a := b\", |t| t := 2)".toList := by decide
  refine ⟨hname, hparams, hbody, ?_, ?_⟩
  · exact (read_exact.2 _ _ hname hbody (by decide)).1 _ (by decide) hparams
  · exact (read_exact.1 "f(x) >= 1".toList _).mp (by decide)

end Declaration

end Worksheet
