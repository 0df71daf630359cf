import Worksheet.Proofs.Display.Template

/-!
# Templates are filled piece by piece

A template is filled from left to right, and what has been filled does not depend on what follows. So
a template either is filled to its end, or there is a place in it where it cannot go on.

* **`Filled`**, **`Filled.fill_append`** — pieces of a template that are filled whatever follows.
* **`Stuck`** — the places where a template cannot be filled: a brace by itself, a field for something
  else, and a field that the value has no text for.
* **`fill_eq_ok_iff`**, **`fill_eq_error_iff`** — a template is filled or comes to such a place.
* **`escape`**, **`field`**, **`fill_around_field`** — the headline: texts around a field are kept.
-/

namespace Worksheet.Display

open Text

/-- A text in a template: every brace is doubled. -/
def escape (s : List Char) : List Char :=
  s.flatMap fun c => if c = '\x7b' ∨ c = '\x7d' then [c, c] else [c]

/-- A field for the value with a specification. -/
def field (spec : List Char) : List Char := '\x7b' :: ':' :: spec ++ ['\x7d']

/-! ## Pieces -/

/-- A part of a template, and what the value makes of it. -/
inductive Filled (style : Style) (v : Value) : List Char → List Char → Prop where
  | nil : Filled style v [] []
  | char {c : Char} {s t : List Char} (hopen : c ≠ '\x7b') (hclose : c ≠ '\x7d')
      (h : Filled style v s t) : Filled style v (c :: s) (c :: t)
  | opening {s t : List Char} (h : Filled style v s t) :
      Filled style v ('\x7b' :: '\x7b' :: s) ('\x7b' :: t)
  | closing {s t : List Char} (h : Filled style v s t) :
      Filled style v ('\x7d' :: '\x7d' :: s) ('\x7d' :: t)
  | field {inside shown s t : List Char} (hsingle : inside.head? ≠ some '\x7b')
      (hinside : '\x7d' ∉ inside) (hshown : fillField style inside v = .ok shown)
      (h : Filled style v s t) : Filled style v ('\x7b' :: (inside ++ '\x7d' :: s)) (shown ++ t)

/-- A part of a template that cannot be filled, and why. -/
inductive Stuck (style : Style) (v : Value) : List Char → TemplateError → Prop where
  /-- A closing brace by itself. -/
  | strayClose {rest : List Char} (hsingle : rest.head? ≠ some '\x7d') :
      Stuck style v ('\x7d' :: rest) .strayClose
  /-- An opening brace by itself, with no closing one behind it. -/
  | strayOpen {rest : List Char} (hsingle : rest.head? ≠ some '\x7b') (hopen : '\x7d' ∉ rest) :
      Stuck style v ('\x7b' :: rest) .strayOpen
  /-- A field with a name that is not `0`. -/
  | unknownField {inside name spec rest : List Char} (hsingle : inside.head? ≠ some '\x7b')
      (hinside : '\x7d' ∉ inside) (hsplit : splitField inside = (name, spec))
      (hname : name ≠ []) (hzero : name ≠ ['0']) :
      Stuck style v ('\x7b' :: (inside ++ '\x7d' :: rest)) (.unknownField (String.ofList name))
  /-- A field for the value, which has no text with its specification. -/
  | value {inside name spec rest : List Char} {e : TemplateError}
      (hsingle : inside.head? ≠ some '\x7b') (hinside : '\x7d' ∉ inside)
      (hsplit : splitField inside = (name, spec)) (hname : name = [] ∨ name = ['0'])
      (herror : formatValue style spec v = .error e) :
      Stuck style v ('\x7b' :: (inside ++ '\x7d' :: rest)) e

/-- A template with a part in front that is filled and a part behind it that cannot be filled. -/
def Fails (style : Style) (v : Value) (template : List Char) (e : TemplateError) : Prop :=
  ∃ front shown rest, template = front ++ rest ∧ Filled style v front shown ∧ Stuck style v rest e

section Pieces

variable {style : Style} {v : Value} {s t rest : List Char} {e : TemplateError}

theorem fill_field {inside : List Char} (hsingle : inside.head? ≠ some '\x7b')
    (hinside : '\x7d' ∉ inside) (rest : List Char) :
    fill style v ('\x7b' :: (inside ++ '\x7d' :: rest))
      = (fillField style inside v).bind fun shown => (fill style v rest).map (shown ++ ·) := by
  -- the brace in front is not doubled
  have hfirst : (inside ++ '\x7d' :: rest).head? ≠ some '\x7b' := by
    cases inside with
    | nil => simp
    | cons c inside => exact hsingle
  exact fill_cut hfirst (cutAt?_append hinside rest)

/-- What has been filled does not depend on what follows. -/
theorem Filled.fill_append (h : Filled style v s t) (rest : List Char) :
    fill style v (s ++ rest) = (fill style v rest).map (t ++ ·) := by
  induction h with
  | nil => cases h : fill style v rest <;> exact h
  | char hopen hclose h ih =>
    rw [List.cons_append, fill_char hopen hclose, ih]
    cases fill style v rest <;> rfl
  | opening h ih =>
    rw [List.cons_append, List.cons_append, fill_opening, ih]
    cases fill style v rest <;> rfl
  | closing h ih =>
    rw [List.cons_append, List.cons_append, fill_closing, ih]
    cases fill style v rest <;> rfl
  | field hsingle hinside hshown h ih =>
    rw [List.cons_append, List.append_assoc, List.cons_append, fill_field hsingle hinside, hshown, ih]
    cases fill style v rest with
    | error e => rfl
    | ok filled => simp [Except.bind, Except.map]

theorem Filled.fill_eq (h : Filled style v s t) : fill style v s = .ok t := by
  have hfill := h.fill_append []
  rw [List.append_nil, fill] at hfill
  simpa [Except.map] using hfill

theorem Stuck.fill_eq (h : Stuck style v rest e) : fill style v rest = .error e := by
  cases h with
  | strayClose hsingle => exact fill_strayClose hsingle
  | strayOpen hsingle hopen => exact fill_strayOpen hsingle (cutAt?_of_not_mem hopen)
  | unknownField hsingle hinside hsplit hname hzero =>
    rw [fill_field hsingle hinside, fillField, hsplit]
    simp [hname, hzero, Except.bind]
  | value hsingle hinside hsplit hname herror =>
    rw [fill_field hsingle hinside, fillField, hsplit]
    simp [hname, herror, Except.bind]

/-- A field that is not filled is a place where the template cannot go on. -/
theorem Stuck.of_fillField {inside : List Char} (hsingle : inside.head? ≠ some '\x7b')
    (hinside : '\x7d' ∉ inside) (herror : fillField style inside v = .error e) (rest : List Char) :
    Stuck style v ('\x7b' :: (inside ++ '\x7d' :: rest)) e := by
  obtain ⟨⟨name, spec⟩, hsplit⟩ : ∃ parts, splitField inside = parts := ⟨_, rfl⟩
  rw [fillField, hsplit] at herror
  dsimp only at herror
  split at herror
  · next hname => exact .value hsingle hinside hsplit hname herror
  · next hname =>
    obtain ⟨hname, hzero⟩ := not_or.mp hname
    cases herror
    exact .unknownField hsingle hinside hsplit hname hzero

theorem Stuck.fails (h : Stuck style v rest e) : Fails style v rest e := ⟨[], [], rest, rfl, .nil, h⟩

/-- A piece in front that is filled does not change which of the two a template does. -/
theorem filled_or_fails_append (piece : List Char) {grow : List Char → List Char}
    (hgrow : ∀ {s t}, Filled style v s t → Filled style v (piece ++ s) (grow t))
    (h : (∃ t, Filled style v s t) ∨ ∃ e, Fails style v s e) :
    (∃ t, Filled style v (piece ++ s) t) ∨ ∃ e, Fails style v (piece ++ s) e := by
  rcases h with ⟨t, ht⟩ | ⟨e, front, t, rest, rfl, hfront, hrest⟩
  · exact Or.inl ⟨_, hgrow ht⟩
  · exact Or.inr ⟨e, _, _, rest, (List.append_assoc ..).symm, hgrow hfront, hrest⟩

/-- A template is filled to its end, or there is a place where it cannot go on. -/
theorem filled_or_fails (style : Style) (v : Value) (template : List Char) :
    (∃ t, Filled style v template t) ∨ ∃ e, Fails style v template e := by
  fun_induction fill style v template with
  | case1 => exact Or.inl ⟨[], .nil⟩
  | case2 r ih => exact filled_or_fails_append ['\x7b', '\x7b'] .opening ih
  | case3 r ih => exact filled_or_fails_append ['\x7d', '\x7d'] .closing ih
  | case4 r hclose => exact Or.inr ⟨_, (Stuck.strayClose (head?_ne_some hclose)).fails⟩
  | case5 r hopen hcut =>
    exact Or.inr ⟨_, (Stuck.strayOpen (head?_ne_some hopen) (cutAt?_eq_none_iff.mp hcut)).fails⟩
  | case6 r hopen inside rest hcut ih =>
    obtain ⟨rfl, hinside⟩ := cutAt?_eq_some hcut
    -- a brace that begins the field would be doubled
    have hsingle : inside.head? ≠ some '\x7b' := by
      intro hhead
      obtain ⟨r, rfl⟩ := List.head?_eq_some_iff.mp hhead
      exact hopen _ rfl
    cases hshown : fillField style inside v with
    | error e => exact Or.inr ⟨e, (Stuck.of_fillField hsingle hinside hshown rest).fails⟩
    | ok shown =>
      have hgrow : ∀ {s t}, Filled style v s t →
          Filled style v (('\x7b' :: inside ++ ['\x7d']) ++ s) (shown ++ t) := by
        intro s t h
        simpa using Filled.field hsingle hinside hshown h
      simpa using filled_or_fails_append _ hgrow ih
  | case7 c r hdouble hdouble' hclose hopen ih => exact filled_or_fails_append [c] (.char hopen hclose) ih

theorem Fails.fill_eq {template : List Char} (h : Fails style v template e) :
    fill style v template = .error e := by
  obtain ⟨front, shown, rest, rfl, hfront, hrest⟩ := h
  rw [hfront.fill_append, hrest.fill_eq]
  rfl

theorem fill_eq_ok_iff {template : List Char} :
    fill style v template = .ok t ↔ Filled style v template t := by
  refine ⟨fun h => ?_, Filled.fill_eq⟩
  rcases filled_or_fails style v template with ⟨t', ht'⟩ | ⟨e, he⟩
  · rw [ht'.fill_eq] at h
    cases h
    exact ht'
  · rw [he.fill_eq] at h
    cases h

theorem fill_eq_error_iff {template : List Char} :
    fill style v template = .error e ↔ Fails style v template e := by
  refine ⟨fun h => ?_, Fails.fill_eq⟩
  rcases filled_or_fails style v template with ⟨t, ht⟩ | ⟨e', he'⟩
  · rw [ht.fill_eq] at h
    cases h
  · rw [he'.fill_eq] at h
    cases h
    exact he'

/-! ## Texts and fields -/

theorem filled_escape (s : List Char) : Filled style v (escape s) s := by
  induction s with
  | nil => exact .nil
  | cons c s ih =>
    rw [escape, List.flatMap_cons]
    by_cases hopen : c = '\x7b'
    · subst hopen
      exact .opening ih
    · by_cases hclose : c = '\x7d'
      · subst hclose
        exact .closing ih
      · rw [if_neg (by simp [hopen, hclose])]
        exact .char hopen hclose ih

theorem fillField_spec (spec : List Char) :
    fillField style (':' :: spec) v = formatValue style spec v := by
  have hsplit : splitField (':' :: spec) = ([], spec) := rfl
  rw [fillField, hsplit]
  exact if_pos (Or.inl rfl)

/-- A field between two parts of a template, of which the first one is filled. -/
theorem fill_field_between (h : Filled style v s t) {spec : List Char} (hspec : '\x7d' ∉ spec)
    (rest : List Char) :
    fill style v (s ++ field spec ++ rest)
      = (formatValue style spec v).bind fun shown =>
          (fill style v rest).map (t ++ shown ++ ·) := by
  have hinside : '\x7d' ∉ ':' :: spec := by simp [hspec]
  have hfield : s ++ field spec ++ rest = s ++ '\x7b' :: ((':' :: spec) ++ '\x7d' :: rest) := by
    simp [field]
  rw [hfield, h.fill_append, fill_field (by simp) hinside, fillField_spec]
  cases formatValue style spec v with
  | error e => rfl
  | ok shown => cases fill style v rest <;> simp [Except.bind, Except.map]

/-- A field by itself shows the value as its specification says. -/
theorem fill_field_alone {spec : List Char} (hspec : '\x7d' ∉ spec) :
    fill style v (field spec) = formatValue style spec v := by
  have hfill := fill_field_between (Filled.nil : Filled style v [] []) hspec []
  rw [List.nil_append, List.append_nil, fill] at hfill
  rw [hfill]
  cases formatValue style spec v <;> simp [Except.bind, Except.map]

/-- **Templates compose.** A field with a specification shows the value as the specification says,
alone or between two texts, which are kept; a text by itself is kept. And a template that is not
filled has a brace by itself, a field with a name that is not `0`, or a field that the value has no
text for. -/
theorem fill_around_field (style : Style) (v : Value) :
    (∀ (a b spec : List Char), '\x7d' ∉ spec →
      fill style v (field spec) = formatValue style spec v ∧
      fill style v (escape a ++ field spec ++ escape b)
        = (fill style v (field spec)).map fun shown => a ++ shown ++ b) ∧
    (∀ a : List Char, fill style v (escape a) = .ok a) ∧
    ∀ (template : List Char) (e : TemplateError), fill style v template = .error e ↔
      ∃ front shown rest, template = front ++ rest ∧ Filled style v front shown ∧
        Stuck style v rest e := by
  refine ⟨fun a b spec hspec => ?_, fun a => (filled_escape a).fill_eq,
    fun template e => fill_eq_error_iff⟩
  refine ⟨fill_field_alone hspec, ?_⟩
  rw [fill_field_between (filled_escape a) hspec, (filled_escape b).fill_eq, fill_field_alone hspec]
  rfl

/-- A number between braces, filled up with zeros. -/
theorem fill_around_field_braces :
    '\x7d' ∉ "05d".toList ∧
      escape "x\x7d\x7b".toList ++ field "05d".toList ++ escape "\x7d".toList
        = "x\x7d\x7d\x7b\x7b\x7b:05d\x7d\x7d\x7d".toList ∧
      fill .plain (.int 42) "x\x7d\x7d\x7b\x7b\x7b:05d\x7d\x7d\x7d".toList
        = .ok "x\x7d\x7b00042\x7d".toList := by
  have hspec : '\x7d' ∉ "05d".toList := by decide
  have htemplate : escape "x\x7d\x7b".toList ++ field "05d".toList ++ escape "\x7d".toList
      = "x\x7d\x7d\x7b\x7b\x7b:05d\x7d\x7d\x7d".toList := by decide
  have hshown : formatValue .plain "05d".toList (.int 42) = .ok "00042".toList := by decide
  obtain ⟨halone, hbetween⟩ :=
    (fill_around_field .plain (.int 42)).1 "x\x7d\x7b".toList "\x7d".toList "05d".toList hspec
  refine ⟨hspec, htemplate, ?_⟩
  rw [← htemplate, hbetween, halone, hshown]
  rfl

end Pieces

end Worksheet.Display
