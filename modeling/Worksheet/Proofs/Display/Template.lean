import Worksheet.Display.Template
import Worksheet.Proofs.Display.Groups
import Worksheet.Proofs.Display.SingleLine
import Worksheet.Failure

/-!
# The lines of a value in a template

A template is written in a line of the worksheet and holds no line feed itself. What it shows has one
only if the natural text of the value has one, or if a date is shown and its pattern asks for one.

* **`BreaksLine`** — these two reasons.
* **`breaksLine_of_present`** — there is no other.
-/

namespace Worksheet.Display

open Text

/-- A value whose text in a template is more than one line. -/
def BreaksLine (style : Style) (template : List Char) (v : Value) : Prop :=
  '\n' ∈ render style v ∨
    ((∃ d, v = .date d) ∨ ∃ t, v = .dateTime t) ∧ ['%', 'n'] <:+: template

/-! ## Specifications -/

namespace Spec

/-- Specifications that write no line feed of their own. -/
structure SingleLine (spec : Spec) : Prop where
  fill : spec.fill ≠ '\n'
  grouping : spec.grouping ≠ some '\n'

theorem fill_takeAlign {s : List Char} (h : '\n' ∉ s) : (takeAlign s).1 ≠ '\n' := by
  have hblank : ' ' ≠ '\n' := by decide
  unfold takeAlign
  dsimp only
  split
  · next f a r =>
    split
    · exact fun hf => h (hf ▸ List.mem_cons_self)
    · dsimp only
      split <;> exact hblank
  · split
    · split <;> exact hblank
    · exact hblank

theorem takeOne_mem {choices s : List Char} {c : Char} (h : (takeOne choices s).1 = some c) :
    c ∈ choices := by
  unfold takeOne at h
  split at h
  · split at h
    · next hc =>
      cases h
      exact List.contains_iff_mem.mp hc
    · cases h
  · cases h

theorem singleLine_of_read {s : List Char} {spec : Spec} (h : read s = .ok spec) (hs : '\n' ∉ s) :
    spec.SingleLine := by
  have hfill := fill_takeAlign hs
  have hgrouping : ∀ s, (takeOne [',', '_'] s).1 ≠ some '\n' := fun s h =>
    absurd (takeOne_mem h) (by decide)
  unfold read at h
  simp only [bind, Except.bind] at h
  split at h
  · cases h
  · split at h
    · cases h
    · split at h
      · cases h
        exact ⟨hfill, hgrouping _⟩
      · cases h
        exact ⟨hfill, hgrouping _⟩
      · cases h

section Parts

variable {spec : Spec} {s sign body : List Char}

theorem SingleLine.groupLeading (hspec : spec.SingleLine) (hs : '\n' ∉ s) :
    '\n' ∉ Spec.groupLeading spec.grouping s := by
  unfold Spec.groupLeading
  split
  · exact hs
  · next sep hsep =>
    have hne : sep ≠ '\n' := fun heq => hspec.grouping (heq ▸ hsep)
    intro h
    rcases List.mem_append.mp h with h | h
    · exact hs ((List.takeWhile_prefix _).subset ((Spec.mem_groupDigits h).resolve_left hne.symm))
    · exact hs ((List.dropWhile_suffix _).subset h)

theorem SingleLine.pad (hspec : spec.SingleLine) (hsign : '\n' ∉ sign) (hbody : '\n' ∉ body)
    (default : Align) : '\n' ∉ spec.pad sign body default := by
  have hfill := hspec.fill.symm
  unfold Spec.pad
  -- filled with the character of the specification or with zeros
  split
  next align fill heq =>
  have hne : '\n' ≠ fill := by
    split at heq
    · cases heq
      exact hfill
    · split at heq
      · cases heq
        decide
      · cases heq
        exact hfill
  cases align <;> simp [hsign, hbody, hne]

theorem newline_not_mem_signText (spec : Spec) (negative : Bool) :
    '\n' ∉ spec.signText negative := by
  unfold signText
  split
  · decide
  · split
    · decide
    · split <;> decide

theorem SingleLine.integer (hspec : spec.SingleLine) (code : Char) (n : Int) :
    '\n' ∉ spec.integer code n := by
  have hbase : ∀ code, 1 < (baseOf code).1 ∧ '\n' ∉ (baseOf code).2.1 := by
    intro code
    unfold baseOf
    split <;> decide
  have hdigits : '\n' ∉ spec.integerDigits code n.natAbs := by
    have hraw := newline_not_mem_toDigits (hbase code).1 n.natAbs
    have hcase : '\n' ∉ (if (baseOf code).2.2 = true
        then (Nat.toDigits (baseOf code).1 n.natAbs).map upper
        else Nat.toDigits (baseOf code).1 n.natAbs) := by
      split
      · rwa [newline_mem_map_upper]
      · exact hraw
    unfold integerDigits
    dsimp only
    split
    · exact hcase
    · next sep hsep =>
      have hne : sep ≠ '\n' := fun heq => hspec.grouping (heq ▸ hsep)
      exact fun h => hcase ((Spec.mem_groupDigits h).resolve_left hne.symm)
  refine hspec.pad ?_ hdigits .right
  intro h
  rcases List.mem_append.mp h with h | h
  · exact newline_not_mem_signText spec _ h
  · split at h
    · exact (hbase code).2 h
    · cases h

theorem newline_not_mem_scientific (precision : Nat) (x : Float) :
    '\n' ∉ (scientific precision x).1 ∧ '\n' ∉ (scientific precision x).2 := by
  unfold scientific
  dsimp only
  refine ⟨Decimal.newline_not_mem_scientificParts precision x, ?_⟩
  split <;> simp

theorem newline_not_mem_general (precision : Nat) (alternate : Bool) (x : Float) :
    '\n' ∉ general precision alternate x := by
  have htrim : ∀ {s : List Char}, '\n' ∉ s → '\n' ∉ (if alternate then s else trimFraction s) := by
    intro s hs
    split
    · exact hs
    · exact fun h => hs (trimFraction_subset s h)
  unfold general
  dsimp only
  split
  · decide
  · split
    · exact htrim (Decimal.newline_not_mem_fixed _ x)
    · obtain ⟨hmantissa, hexponent⟩ := newline_not_mem_scientific (max precision 1 - 1) x
      intro h
      rcases List.mem_append.mp h with h | h
      · exact htrim hmantissa h
      · exact hexponent h

theorem newline_not_mem_realBody (spec : Spec) (code : Char) (x : Float) :
    '\n' ∉ spec.realBody code x := by
  unfold realBody
  dsimp only
  split
  · decide
  · split
    · decide
    · split
      · exact Decimal.newline_not_mem_fixed _ x
      · split <;> simp
      · simp [newline_not_mem_scientific]
      · exact newline_not_mem_general _ _ x

theorem SingleLine.real (hspec : spec.SingleLine) (code : Char) (x : Float) :
    '\n' ∉ spec.real code x := by
  have hbody := newline_not_mem_realBody spec (lower code) x.abs
  unfold Spec.real
  dsimp only
  refine hspec.pad (newline_not_mem_signText spec _) (hspec.groupLeading ?_) .right
  split
  · exact hbody
  · rwa [newline_mem_map_upper]

theorem SingleLine.text (hspec : spec.SingleLine) (hs : '\n' ∉ s) : '\n' ∉ spec.text s := by
  unfold Spec.text
  dsimp only
  refine hspec.pad List.not_mem_nil ?_ .left
  split
  · exact fun h => hs (List.mem_of_mem_take h)
  · exact hs

end Parts

end Spec

/-! ## Date patterns -/

namespace PatternItem

theorem eq_of_ofLetter? {c : Char} {items : List PatternItem} (h : ofLetter? c = some items)
    (hmem : literal '\n' ∈ items) : c = 'n' := by
  unfold ofLetter? at h
  split at h
  all_goals first
    | rfl
    | cases h
  all_goals exact absurd hmem (by decide)

theorem pad?_literal {p : Padding} {items items' : List PatternItem} (h : pad? p items = some items')
    (c : Char) : literal c ∉ items' := by
  unfold pad? at h
  split at h
  · cases h
    simp
  · cases h

/-- A directive is read off the front, and only `n` is a line feed. -/
theorem directive?_spec {s rest : List Char} {items : List PatternItem}
    (h : directive? s = some (items, rest)) :
    rest <:+ s ∧ (literal '\n' ∈ items → ['n'] <+: s) := by
  have hletter : ∀ {c : Char} {r : List Char}, (ofLetter? c).map (fun items => (items, r))
      = some (items, rest) → rest <:+ c :: r ∧ (literal '\n' ∈ items → ['n'] <+: c :: r) := by
    intro c r hmap
    obtain ⟨items', hitems, heq⟩ := Option.map_eq_some_iff.mp hmap
    cases heq
    refine ⟨List.suffix_cons c rest, fun hmem => ?_⟩
    rw [eq_of_ofLetter? hitems hmem]
    exact List.prefix_append ['n'] rest
  have hplaces : ∀ {d : Char} {b : Bool} {r r' : List Char}, r' <:+ r →
      ((placesOf? d).map fun n => ([fixed (.places n b)], r')) = some (items, rest) →
      rest <:+ r ∧ (literal '\n' ∈ items → ['n'] <+: r) := by
    intro d b r r' hsuffix hmap
    obtain ⟨n, hn, heq⟩ := Option.map_eq_some_iff.mp hmap
    cases heq
    exact ⟨hsuffix, fun hmem => absurd hmem (by simp)⟩
  unfold directive? at h
  -- the zones by the number of their colons, the parts of a second, and then the single letters
  split at h
  · cases h
    exact ⟨⟨[':', ':', ':', 'z'], rfl⟩, fun hmem => absurd hmem (by decide)⟩
  · cases h
    exact ⟨⟨[':', ':', 'z'], rfl⟩, fun hmem => absurd hmem (by decide)⟩
  · cases h
    exact ⟨⟨[':', 'z'], rfl⟩, fun hmem => absurd hmem (by decide)⟩
  · cases h
    exact ⟨⟨['.', 'f'], rfl⟩, fun hmem => absurd hmem (by decide)⟩
  · exact hplaces ⟨['.', _, 'f'], rfl⟩ h
  · split at h
    · cases h
      exact ⟨⟨[_, 'f'], rfl⟩, fun hmem => absurd hmem (by simp)⟩
    · exact hletter h
  · exact hletter h
  · cases h

theorem afterPercent?_spec {s rest : List Char} {items : List PatternItem}
    (h : afterPercent? s = some (items, rest)) :
    rest <:+ s ∧ (literal '\n' ∈ items → ['n'] <+: s) := by
  -- what can be padded is a number
  have hpadded : ∀ {p : Padding} {c : Char} {r : List Char},
      ((directive? r).bind fun m => (pad? p m.1).map fun items => (items, m.2))
        = some (items, rest) → rest <:+ c :: r ∧ (literal '\n' ∈ items → ['n'] <+: c :: r) := by
    intro p c r hbind
    obtain ⟨⟨items', rest'⟩, hdirective, hmap⟩ := Option.bind_eq_some_iff.mp hbind
    obtain ⟨items'', hpad, heq⟩ := Option.map_eq_some_iff.mp hmap
    cases heq
    exact ⟨(directive?_spec hdirective).1.trans (List.suffix_cons c r),
      fun hmem => absurd hmem (pad?_literal hpad '\n')⟩
  unfold afterPercent? at h
  dsimp only at h
  split at h
  · exact hpadded h
  · exact hpadded h
  · exact hpadded h
  · cases h
    exact ⟨⟨['#', 'z'], rfl⟩, fun hmem => absurd hmem (by decide)⟩
  · cases h
  · exact directive?_spec h

/-- A line feed in a pattern is one that stands there, or one that is asked for. -/
theorem newline_of_readFuel {fuel : Nat} {s : List Char} {items : List PatternItem}
    (h : readFuel fuel s = some items) (hmem : literal '\n' ∈ items) :
    '\n' ∈ s ∨ ['%', 'n'] <:+: s := by
  induction fuel generalizing s items with
  | zero =>
    cases h
    cases hmem
  | succ fuel ih =>
    cases s with
    | nil =>
      cases h
      cases hmem
    | cons c r =>
      by_cases hc : c = '%'
      · -- a directive stands for the line feed, or the pattern behind it has one
        subst hc
        obtain ⟨⟨front, rest⟩, hfront, h⟩ := Option.bind_eq_some_iff.mp h
        obtain ⟨behind, hbehind, h⟩ := Option.bind_eq_some_iff.mp h
        cases h
        obtain ⟨hsuffix, hasked⟩ := afterPercent?_spec hfront
        rcases List.mem_append.mp hmem with hmem | hmem
        · exact Or.inr ((List.prefix_cons_inj '%').mpr (hasked hmem)).isInfix
        · rcases ih hbehind hmem with h | h
          · exact Or.inl (List.mem_cons_of_mem _ (hsuffix.subset h))
          · exact Or.inr (h.trans (hsuffix.trans (List.suffix_cons _ r)).isInfix)
      · -- any other character stands for itself
        have hread : (readFuel fuel r).map (.literal c :: ·) = some items := by
          rw [← h, readFuel]
          exact hc
        obtain ⟨behind, hbehind, heq⟩ := Option.map_eq_some_iff.mp hread
        cases heq
        rcases List.mem_cons.mp hmem with hmem | hmem
        · cases hmem
          exact Or.inl List.mem_cons_self
        · rcases ih hbehind hmem with h | h
          · exact Or.inl (List.mem_cons_of_mem c h)
          · exact Or.inr (h.trans (List.suffix_cons c r).isInfix)

end PatternItem

/-! ## Dates -/

theorem newline_not_mem_padNumber (p : Padding) (n : Int) (width : Nat) (signed : Bool) :
    '\n' ∉ padNumber p n width signed := by
  unfold padNumber
  dsimp only
  split <;> split <;> simp
  all_goals split <;> simp

theorem newline_not_mem_fixedField {d : Date} {t : Option DateTime} {f : FixedField}
    {s : List Char} (h : fixedField? d t f = some s) : '\n' ∉ s := by
  have hname : ∀ {names : List String} {i : Nat} {m : String}, (∀ m ∈ names, '\n' ∉ m.toList) →
      names[i]? = some m → '\n' ∉ m.toList := fun hnames hm => hnames _ (List.mem_of_getElem? hm)
  have hmonths : ∀ m ∈ monthNames, '\n' ∉ m.toList := by decide
  have hweekdays : ∀ m ∈ weekdayNames, '\n' ∉ m.toList := by decide
  cases f with
  | shortMonth =>
    obtain ⟨m, hm, rfl⟩ := Option.map_eq_some_iff.mp h
    exact fun hmem => hname hmonths hm (List.mem_of_mem_take hmem)
  | longMonth =>
    obtain ⟨m, hm, rfl⟩ := Option.map_eq_some_iff.mp h
    exact hname hmonths hm
  | shortWeekday =>
    obtain ⟨m, hm, rfl⟩ := Option.map_eq_some_iff.mp h
    exact fun hmem => hname hweekdays hm (List.mem_of_mem_take hmem)
  | longWeekday =>
    obtain ⟨m, hm, rfl⟩ := Option.map_eq_some_iff.mp h
    exact hname hweekdays hm
  | lowerHalf | upperHalf =>
    obtain ⟨t, -, rfl⟩ := Option.map_eq_some_iff.mp h
    split <;> decide
  | fraction =>
    obtain ⟨t, -, rfl⟩ := Option.map_eq_some_iff.mp h
    dsimp only
    split
    · exact List.not_mem_nil
    · split
      · simp
      · split <;> simp
  | places count point =>
    obtain ⟨t, -, rfl⟩ := Option.map_eq_some_iff.mp h
    split <;> simp
  | zone => cases h

theorem eq_of_newline_mem_patternItem? {d : Date} {t : Option DateTime} {item : PatternItem}
    {s : List Char} (h : patternItem? d t item = some s) (hs : '\n' ∈ s) :
    item = .literal '\n' := by
  cases item with
  | literal c =>
    cases h
    rw [List.mem_singleton.mp hs]
  | number field padding =>
    obtain ⟨m, -, rfl⟩ := Option.map_eq_some_iff.mp h
    exact absurd hs (newline_not_mem_padNumber _ _ _ _)
  | fixed field => exact absurd hs (newline_not_mem_fixedField h)

theorem newline_of_datePattern? {d : Date} {t : Option DateTime} {pattern s : List Char}
    (h : datePattern? d t pattern = some s) (hs : '\n' ∈ s) :
    '\n' ∈ pattern ∨ ['%', 'n'] <:+: pattern := by
  obtain ⟨items, hitems, h⟩ := Option.bind_eq_some_iff.mp h
  obtain ⟨parts, hparts, h⟩ := Option.bind_eq_some_iff.mp h
  cases h
  obtain ⟨part, hpart, hnewline⟩ := List.mem_flatten.mp hs
  obtain ⟨item, hitem, hshown⟩ := exists_of_mem_mapM_some hparts hpart
  rw [eq_of_newline_mem_patternItem? hshown hnewline] at hitem
  exact PatternItem.newline_of_readFuel hitems hitem

/-! ## Fields -/

section Fields

variable {style : Style} {v : Value}

theorem newline_not_mem_untypedNumber {spec : Spec} (hspec : spec.SingleLine)
    (hv : '\n' ∉ render style v) : '\n' ∉ untypedNumber style spec v := by
  unfold untypedNumber
  split
  · exact hspec.integer _ _
  · exact hspec.real _ _
  · split
    · next body hbody =>
      rw [hbody] at hv
      have hrest : '\n' ∉ body := fun h => hv (List.mem_cons_of_mem _ h)
      exact hspec.pad (by decide) (hspec.groupLeading hrest) _
    · exact hspec.pad (Spec.newline_not_mem_signText _ _) (hspec.groupLeading hv) _

theorem newline_not_mem_formatBySpec {spec : Spec} {s : List Char} (hspec : spec.SingleLine)
    (h : formatBySpec style spec v = .ok s) (hv : '\n' ∉ render style v) : '\n' ∉ s := by
  unfold formatBySpec at h
  dsimp only at h
  split at h
  · cases h
    split
    · exact newline_not_mem_untypedNumber hspec hv
    · exact hspec.text hv
  · split at h
    · split at h
      · cases h
      · cases h
        exact hspec.text hv
    · split at h
      · split at h
        · cases h
          exact hspec.integer _ _
        · cases h
      · split at h
        · split at h
          · cases h
            exact hspec.real _ _
          · cases h
        · cases h

theorem breaksLine_of_formatValue {spec s : List Char} (h : formatValue style spec v = .ok s)
    (hspec : '\n' ∉ spec) (hs : '\n' ∈ s) : BreaksLine style spec v := by
  have hpattern : ∀ {d : Date} {t : Option DateTime}, datePattern? d t spec = some s →
      ['%', 'n'] <:+: spec := fun hd => (newline_of_datePattern? hd hs).resolve_left hspec
  unfold formatValue at h
  dsimp only at h
  split at h
  · cases h
    exact Or.inl hs
  · split at h
    · split at h
      · next hd =>
        cases h
        exact Or.inr ⟨Or.inl ⟨_, rfl⟩, hpattern hd⟩
      · cases h
    · split at h
      · next ht =>
        cases h
        exact Or.inr ⟨Or.inr ⟨_, rfl⟩, hpattern ht⟩
      · cases h
    · by_contra hbreaks
      have hv : '\n' ∉ render style v := fun hmem => hbreaks (Or.inl hmem)
      cases hread : Spec.read spec with
      | error e =>
        rw [hread] at h
        cases h
      | ok read =>
        rw [hread] at h
        exact newline_not_mem_formatBySpec (Spec.singleLine_of_read hread hspec) h hv hs

theorem splitField_suffix (field : List Char) : (splitField field).2 <:+ field := by
  unfold splitField
  cases hcut : cutAt? ':' field with
  | none => exact List.nil_suffix
  | some parts =>
    obtain ⟨name, spec⟩ := parts
    rw [(cutAt?_eq_some hcut).1]
    exact (List.suffix_cons ':' spec).trans (List.suffix_append name _)

theorem BreaksLine.mono {template template' : List Char} (h : BreaksLine style template v)
    (hinside : template <:+: template') : BreaksLine style template' v :=
  h.imp_right fun ⟨hdate, hasked⟩ => ⟨hdate, hasked.trans hinside⟩

theorem breaksLine_of_fillField {field s : List Char} (h : fillField style field v = .ok s)
    (hfield : '\n' ∉ field) (hs : '\n' ∈ s) : BreaksLine style field v := by
  unfold fillField at h
  dsimp only at h
  split at h
  · have hsuffix := splitField_suffix field
    exact (breaksLine_of_formatValue h (fun hmem => hfield (hsuffix.subset hmem)) hs).mono
      hsuffix.isInfix
  · cases h

/-! ## Templates -/

theorem head?_ne_some {c : Char} {r : List Char} (h : ∀ r', r = c :: r' → False) : r.head? ≠ some c := by
  intro hhead
  obtain ⟨r', hr⟩ := List.head?_eq_some_iff.mp hhead
  exact h r' hr

section Clauses

variable {r : List Char}

theorem fill_char {c : Char} (hopen : c ≠ '\x7b') (hclose : c ≠ '\x7d') (r : List Char) :
    fill style v (c :: r) = (fill style v r).map (c :: ·) := by
  rw [fill.eq_def]
  split <;> simp_all

theorem fill_opening (r : List Char) :
    fill style v ('\x7b' :: '\x7b' :: r) = (fill style v r).map ('\x7b' :: ·) := by
  rw [fill]

theorem fill_closing (r : List Char) :
    fill style v ('\x7d' :: '\x7d' :: r) = (fill style v r).map ('\x7d' :: ·) := by
  rw [fill]

theorem fill_strayClose (hsingle : r.head? ≠ some '\x7d') :
    fill style v ('\x7d' :: r) = .error .strayClose := by
  rw [fill]
  rintro r rfl
  exact hsingle rfl

theorem fill_strayOpen (hsingle : r.head? ≠ some '\x7b') (hcut : cutAt? '\x7d' r = none) :
    fill style v ('\x7b' :: r) = .error .strayOpen := by
  rw [fill]
  · split
    · rfl
    · next hsome =>
      rw [hcut] at hsome
      cases hsome
  · rintro r rfl
    exact hsingle rfl

theorem fill_cut {inside rest : List Char} (hsingle : r.head? ≠ some '\x7b')
    (hcut : cutAt? '\x7d' r = some (inside, rest)) :
    fill style v ('\x7b' :: r)
      = (fillField style inside v).bind fun shown => (fill style v rest).map (shown ++ ·) := by
  rw [fill]
  · split
    · next hnone =>
      rw [hcut] at hnone
      cases hnone
    · next hsome =>
      rw [hcut] at hsome
      cases hsome
      cases fillField style inside v with
      | error e => rfl
      | ok shown => cases fill style v rest <;> rfl
  · rintro r rfl
    exact hsingle rfl

end Clauses

/-- A line feed in the filled template comes from the value. -/
def Blamed (style : Style) (v : Value) (template : List Char) : Prop :=
  ∀ {s}, fill style v template = .ok s → '\n' ∉ template → '\n' ∈ s → BreaksLine style template v

/-- A character that stands for itself is no line feed, so that the line feed comes from behind it. -/
theorem Blamed.breaksLine_of_map {c : Char} {r template s : List Char} (hr : Blamed style v r)
    (h : (fill style v r).map (c :: ·) = .ok s) (hc : c ≠ '\n') (hsuffix : r <:+ template)
    (htemplate : '\n' ∉ template) (hs : '\n' ∈ s) : BreaksLine style template v := by
  cases hfill : fill style v r with
  | error e =>
    rw [hfill] at h
    cases h
  | ok s' =>
    rw [hfill] at h
    cases h
    have hs' : '\n' ∈ s' := (List.mem_cons.mp hs).resolve_left hc.symm
    exact (hr hfill (fun hmem => htemplate (hsuffix.subset hmem)) hs').mono hsuffix.isInfix

/-- Around a closing brace, the line feed comes from the field or from behind it. -/
theorem Blamed.breaksLine_of_field {r field rest s : List Char} (hrest : Blamed style v rest)
    (hcut : cutAt? '\x7d' r = some (field, rest))
    (h : ((fillField style field v).bind fun shown => (fill style v rest).bind fun filled =>
      .ok (shown ++ filled)) = .ok s)
    (htemplate : '\n' ∉ '\x7b' :: r) (hs : '\n' ∈ s) : BreaksLine style ('\x7b' :: r) v := by
  have hr := (cutAt?_eq_some hcut).1
  have hinside : field <:+: '\x7b' :: r := ⟨['\x7b'], '\x7d' :: rest, by rw [hr]; simp⟩
  have hbehind : rest <:+ '\x7b' :: r := ⟨'\x7b' :: field ++ ['\x7d'], by rw [hr]; simp⟩
  obtain ⟨shown, hshown, h⟩ := bind_eq_ok h
  obtain ⟨filled, hfilled, h⟩ := bind_eq_ok h
  cases h
  rcases List.mem_append.mp hs with hs | hs
  · exact (breaksLine_of_fillField hshown (fun hmem => htemplate (hinside.subset hmem)) hs).mono
      hinside
  · exact (hrest hfilled (fun hmem => htemplate (hbehind.subset hmem)) hs).mono hbehind.isInfix

theorem breaksLine_of_fill {template s : List Char} (h : fill style v template = .ok s)
    (htemplate : '\n' ∉ template) (hs : '\n' ∈ s) : BreaksLine style template v := by
  fun_induction fill style v template generalizing s with
  | case1 =>
    cases h
    cases hs
  | case2 r ih =>
    exact Blamed.breaksLine_of_map ih h (by decide) ⟨['\x7b', '\x7b'], rfl⟩ htemplate hs
  | case3 r ih =>
    exact Blamed.breaksLine_of_map ih h (by decide) ⟨['\x7d', '\x7d'], rfl⟩ htemplate hs
  | case4 => cases h
  | case5 => cases h
  | case6 r hdouble field rest hcut ih =>
    exact Blamed.breaksLine_of_field ih hcut h htemplate hs
  | case7 c r hopen hclose hne hne' ih =>
    have hc : c ≠ '\n' := fun hc => htemplate (hc ▸ List.mem_cons_self)
    exact Blamed.breaksLine_of_map ih h hc (List.suffix_cons c r) htemplate hs

/-- **Why the text of a value is more than one line.** -/
theorem breaksLine_of_present {template : String} {s : List Char}
    (h : present style template v = .ok s) (htemplate : '\n' ∉ template.toList) (hs : '\n' ∈ s) :
    BreaksLine style template.toList v := by
  unfold present at h
  split at h
  · cases h
    exact Or.inl hs
  · exact breaksLine_of_fill h htemplate hs

end Fields

end Worksheet.Display
