import Worksheet.Proofs.Display.Template
import Worksheet.Proofs.Failure.Alike

/-!
# What a style cannot change

A style changes how powers of ten look. A value that shows nothing shows nothing in any style, and a
template that cannot be filled cannot be filled in any style.

* **`EmptyAlike`** — are two texts both empty, or both not?
* **`present_alike`** — a value in a template, in two styles.
-/

namespace Worksheet.Display

open Text

/-- Are two texts both empty, or both not? -/
def EmptyAlike (s t : List Char) : Prop := s = [] ↔ t = []

theorem EmptyAlike.refl (s : List Char) : EmptyAlike s s := Iff.rfl

theorem EmptyAlike.append {s s' t t' : List Char} (hs : EmptyAlike s s') (ht : EmptyAlike t t') :
    EmptyAlike (s ++ t) (s' ++ t') := by
  unfold EmptyAlike at *
  rw [List.append_eq_nil_iff, List.append_eq_nil_iff, hs, ht]

theorem EmptyAlike.of_ne_nil {s t : List Char} (hs : s ≠ []) (ht : t ≠ []) : EmptyAlike s t :=
  iff_of_false hs ht

variable (style style' : Style)

/-! ## Natural texts -/

theorem withPower_ne_nil (mantissa : List Char) (exponent : Int) :
    withPower style mantissa exponent ≠ [] := by
  unfold withPower
  split <;> simp

theorem number_alike (x : Float) : EmptyAlike (number style x) (number style' x) := by
  unfold number
  -- only where a power of ten is shown does the style come in
  split_ifs
  all_goals first
    | exact EmptyAlike.refl _
    | exact .of_ne_nil (withPower_ne_nil _ _ _) (withPower_ne_nil _ _ _)

theorem render_alike (v : Value) : EmptyAlike (render style v) (render style' v) := by
  cases v with
  | bool b => cases b <;> (simp only [render]; exact EmptyAlike.refl _)
  | real x =>
    simp only [render]
    exact number_alike style style' x
  | sequence items =>
    simp only [render]
    exact .of_ne_nil (List.cons_ne_nil _ _) (List.cons_ne_nil _ _)
  | quantity q =>
    simp only [render]
    exact .append (number_alike style style' _) (EmptyAlike.refl _)
  | _ =>
    simp only [render]
    exact EmptyAlike.refl _

/-! ## Specifications -/

namespace Spec

variable {spec : Spec} {s s' sign sign' body body' : List Char}

theorem groupDigits_eq_nil_iff {separator : Char} {every : Nat} :
    groupDigits separator every s = [] ↔ s = [] := by
  fun_cases groupDigits separator every s <;> simp [*]

theorem groupLeading_eq_nil_iff {grouping : Option Char} :
    groupLeading grouping s = [] ↔ s = [] := by
  cases grouping with
  | none => exact Iff.rfl
  | some separator =>
    unfold groupLeading
    rw [List.append_eq_nil_iff, groupDigits_eq_nil_iff, ← List.append_eq_nil_iff,
      List.takeWhile_append_dropWhile]

theorem length_pad {default : Align} :
    (spec.pad sign body default).length = max spec.width (sign.length + body.length) := by
  unfold pad
  split
  next align fill _ =>
  cases align <;> simp only [List.length_append, List.length_replicate] <;> omega

/-- A field is empty if nothing is written in it and it has no width. -/
theorem pad_eq_nil_iff {default : Align} :
    spec.pad sign body default = [] ↔ spec.width = 0 ∧ sign = [] ∧ body = [] := by
  rw [← List.length_eq_zero_iff, length_pad, Nat.max_eq_zero_iff, Nat.add_eq_zero_iff,
    List.length_eq_zero_iff, List.length_eq_zero_iff]

/-- A natural text with its sign in front of the field and its leading digits in groups. -/
def natural (spec : Spec) (s : List Char) : List Char :=
  match s with
  | '-' :: body => spec.pad ['-'] (groupLeading spec.grouping body) .right
  | body => spec.pad (spec.signText false) (groupLeading spec.grouping body) .right

theorem natural_ne_nil (hs : s ≠ []) : spec.natural s ≠ [] := by
  unfold natural
  split
  · simp [pad_eq_nil_iff]
  · simp [pad_eq_nil_iff, groupLeading_eq_nil_iff, hs]

theorem natural_alike (h : EmptyAlike s s') : EmptyAlike (spec.natural s) (spec.natural s') := by
  by_cases hempty : s = []
  · rw [hempty, h.mp hempty]
    exact EmptyAlike.refl _
  · exact .of_ne_nil (natural_ne_nil hempty) (natural_ne_nil fun hs' => hempty (h.mpr hs'))

theorem text_alike (h : EmptyAlike s s') : EmptyAlike (spec.text s) (spec.text s') := by
  unfold EmptyAlike at *
  unfold text
  cases spec.precision with
  | none => simp only [pad_eq_nil_iff, h]
  | some p => simp only [pad_eq_nil_iff, List.take_eq_nil_iff, h]

end Spec

/-! ## Templates -/

theorem untypedNumber_alike (spec : Spec) (v : Value) :
    EmptyAlike (untypedNumber style spec v) (untypedNumber style' spec v) := by
  have hnatural : EmptyAlike (spec.natural (render style v)) (spec.natural (render style' v)) :=
    Spec.natural_alike (render_alike style style' v)
  unfold untypedNumber
  cases toInteger? v with
  | some n => exact EmptyAlike.refl _
  | none =>
    cases spec.precision with
    | none => exact hnatural
    | some p =>
      cases v.toReal? with
      | none => exact hnatural
      | some x => exact EmptyAlike.refl _

theorem formatBySpec_alike (spec : Spec) (v : Value) :
    FailAlike EmptyAlike (formatBySpec style spec v) (formatBySpec style' spec v) := by
  have htext : EmptyAlike (spec.text (render style v)) (spec.text (render style' v)) :=
    Spec.text_alike (render_alike style style' v)
  unfold formatBySpec
  cases spec.type with
  | none =>
    dsimp only
    split
    · exact .ok (untypedNumber_alike style style' spec v)
    · exact .ok htext
  | some code =>
    dsimp only
    -- a type letter other than that of texts asks for a number, which no style changes
    split_ifs
    all_goals first
      | exact .ok htext
      | exact .refl EmptyAlike.refl _

theorem formatValue_alike (spec : List Char) (v : Value) :
    FailAlike EmptyAlike (formatValue style spec v) (formatValue style' spec v) := by
  unfold formatValue
  split
  · exact .ok (render_alike style style' v)
  · cases v with
    | date d => exact .refl EmptyAlike.refl _
    | dateTime t => exact .refl EmptyAlike.refl _
    | _ =>
      refine FailAlike.bind (.refl (fun _ => rfl) _) ?_
      rintro spec _ rfl
      exact formatBySpec_alike style style' spec _

theorem fillField_alike (field : List Char) (v : Value) :
    FailAlike EmptyAlike (fillField style field v) (fillField style' field v) := by
  unfold fillField
  dsimp only
  split
  · exact formatValue_alike style style' _ v
  · exact .error _

theorem fill_alike (v : Value) (template : List Char) :
    FailAlike EmptyAlike (fill style v template) (fill style' v template) := by
  have hcons {c : Char} {r : List Char} (h : FailAlike EmptyAlike (fill style v r) (fill style' v r)) :
      FailAlike EmptyAlike ((fill style v r).map (c :: ·)) ((fill style' v r).map (c :: ·)) :=
    h.map fun _ _ _ => .of_ne_nil (List.cons_ne_nil _ _) (List.cons_ne_nil _ _)
  fun_induction fill style v template with
  | case1 =>
    rw [fill]
    exact .ok (EmptyAlike.refl [])
  | case2 r ih =>
    rw [fill_opening]
    exact hcons ih
  | case3 r ih =>
    rw [fill_closing]
    exact hcons ih
  | case4 r hclose =>
    rw [fill_strayClose (head?_ne_some hclose)]
    exact .error _
  | case5 r hopen hcut =>
    rw [fill_strayOpen (head?_ne_some hopen) hcut]
    exact .error _
  | case6 r hopen inside rest hcut ih =>
    rw [fill_cut (head?_ne_some hopen) hcut]
    exact (fillField_alike style style' inside v).bind fun _ _ hshown =>
      ih.map fun _ _ hfilled => hshown.append hfilled
  | case7 c r hdouble hdouble' hclose hopen ih =>
    rw [fill_char hopen hclose]
    exact hcons ih

/-- **A value in a template, in two styles.** Both fail or neither does, and both show something or
neither does. -/
theorem present_alike (template : String) (v : Value) :
    FailAlike EmptyAlike (present style template v) (present style' template v) := by
  unfold present
  split
  · exact .ok (render_alike style style' v)
  · exact fill_alike style style' v _

end Worksheet.Display
