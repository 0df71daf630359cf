import Worksheet.Proofs.Notation.Patterns

/-!
# Literals in the notation

The rules of the notation come one after the other, some of them write literals of their own, and
each of them cuts the whole text again. Nevertheless the literals of an expression come through
unchanged and in their places, and what is written between them does not depend on them.

* **`expandWithin`** — what the rules make of a part of an expression. The rule for units is told
  whether the expression is a function, as a part of it does not show that.
* **`Rule.local_within`** — every rule is local in the sense of `Text.Local`.
* **`expand_eq_expandWithin`** — on a whole expression this is `expand`, as no rule in front of the
  one for units moves the mark of a function.
* **`expand_weave`** — the headline.
-/

namespace Worksheet.Notation

open Text

/-! ## Rules on parts of a text -/

/-- The rule for units, when it is known whether the text belongs to a function. -/
def unitsWithin (inFunction : Bool) (o : Options) (s : List Char) : List Char :=
  if !o.naturalUnits || inFunction then s
  else mapPlain bareUnit.substitute (mapPlain quantity.substitute s)

theorem units_eq_unitsWithin (o : Options) (s : List Char) :
    units o s = unitsWithin (s.head? == some functionMark) o s := rfl

/-- The rule as it applies to a part of a text. -/
def Rule.within (inFunction : Bool) (r : Rule) : Rule :=
  if r.name = "units" then ⟨r.name, unitsWithin inFunction⟩ else r

/-- Expands the notation in a part of a text. -/
def expandWithin (o : Options) (inFunction : Bool) (s : List Char) : List Char :=
  Rule.all.foldl (fun s r => (r.within inFunction).apply o s) s

/-! ## Every rule is local -/

theorem local_substitute {p : Pattern (List Char)} (hp : p.Closing) :
    Local (mapPlain p.substitute) :=
  local_mapPlain rfl fun _ hs => hp.substitute hs

/-- Patterns substituted one after the other outside literals. -/
def substituteAll (ps : List (Pattern (List Char))) : List Char → List Char :=
  mapPlain fun s => ps.foldl (fun s p => p.substitute s) s

theorem local_substituteAll {ps : List (Pattern (List Char))} (h : ∀ p ∈ ps, p.Quoteless) :
    Local (substituteAll ps) := by
  refine local_mapPlain ?_ fun s hs => closed_of_not_mem (Pattern.quoteless_foldl h hs)
  clear h
  induction ps with
  | nil => rfl
  | cons p ps ih => exact ih

theorem local_ofPatterns {name : String} {patterns : Options → List (Pattern (List Char))}
    {o : Options} (h : ∀ p ∈ patterns o, p.Quoteless) :
    Local ((Rule.ofPatterns name patterns).apply o) :=
  local_substituteAll h

theorem local_decimals : Local decimals :=
  (local_substitute nearDecimal_closing).comp (local_substitute exactDecimal_closing)

theorem local_unitsWithin (inFunction : Bool) (o : Options) : Local (unitsWithin inFunction o) := by
  unfold unitsWithin
  cases !o.naturalUnits || inFunction with
  | true => exact local_id
  | false => exact (local_substitute bareUnit_closing).comp (local_substitute quantity_closing)

/-- The words for spans of time construct them with functions that have plain names. -/
theorem span_patterns {p : Pattern (List Char)} (h : p ∈ spanTable.map span) :
    p.Quoteless ∧ Unmarked p := by
  obtain ⟨w, hw, rfl⟩ := List.mem_map.mp h
  have hnames : ∀ w ∈ spanTable, '"' ∉ w.constructor.toList ∧
      w.constructor.toList ≠ [] ∧ w.constructor.toList.head? ≠ some functionMark := by
    decide
  obtain ⟨hquote, hne, hmark⟩ := hnames w hw
  refine ⟨span_quoteless hquote, span_unmarked ?_⟩
  cases hname : w.constructor.toList with
  | nil => exact absurd hname hne
  | cons c r =>
    rw [hname] at hmark
    exact ⟨c, r, rfl, fun hc => hmark (by rw [hc]; rfl)⟩

theorem clock_patterns (o : Options) {p : Pattern (List Char)}
    (h : p ∈ [clockWord "today".toList (dateCall o.now),
      clockWord "now".toList (dateTimeCall o.now)]) :
    p.Quoteless ∧ Unmarked p := by
  simp only [List.mem_cons, List.not_mem_nil, or_false] at h
  rcases h with rfl | rfl
  · exact ⟨clockWord_quoteless _ (not_mem_numericCall (by decide) _),
      clockWord_unmarked (by decide) ⟨'d', _, rfl, by decide⟩⟩
  · exact ⟨clockWord_quoteless _ (not_mem_numericCall (by decide) _),
      clockWord_unmarked (by decide) ⟨'d', _, rfl, by decide⟩⟩

/-- **Every rule is local**, also when it is told that it is in a function. -/
theorem Rule.local_within (o : Options) (inFunction : Bool) {r : Rule} (h : r ∈ Rule.all) :
    Local ((r.within inFunction).apply o) := by
  simp only [Rule.all, List.mem_cons, List.not_mem_nil, or_false] at h
  rcases h with rfl | rfl | rfl | rfl | rfl | rfl | rfl | rfl | rfl | rfl | rfl
  · exact local_ofPatterns (by simpa using factorial_quoteless)
  · exact local_ofPatterns (by simpa using signs_quoteless)
  · exact local_ofPatterns (by simpa using roots_quoteless)
  · exact local_ofPatterns (by simpa using percentOf_quoteless)
  · exact local_ofPatterns (by simpa using percentStep_quoteless)
  · exact local_ofPatterns (by simpa using ratio_quoteless)
  · exact local_decimals
  · exact local_ofPatterns fun p hp => (clock_patterns o hp).1
  · exact local_ofPatterns fun p hp => (span_patterns hp).1
  · exact local_unitsWithin inFunction o
  · exact local_ofPatterns (by
      simpa using ⟨stackElement_quoteless, wholeStack_quoteless, lastAnswer_quoteless⟩)

theorem local_expandWithin (o : Options) (inFunction : Bool) : Local (expandWithin o inFunction) :=
  Local.foldl fun _ hr => Rule.local_within o inFunction hr

/-! ## The mark of a function stays in front -/

theorem sameMark_ofPatterns {name : String} {patterns : Options → List (Pattern (List Char))}
    {o : Options} (h : ∀ p ∈ patterns o, Unmarked p) (s : List Char) :
    SameMark ((Rule.ofPatterns name patterns).apply o s) s :=
  sameMark_mapPlain (fun p _ => sameMark_foldl h p) s

theorem sameMark_decimals (s : List Char) : SameMark (decimals s) s :=
  (sameMark_mapPlain (fun p _ => nearDecimal_unmarked.substitute p) _).trans
    (sameMark_mapPlain (fun p _ => exactDecimal_unmarked.substitute p) s)

/-- The rules in front of the one for units. -/
theorem sameMark_apply (o : Options) {r : Rule} (h : r ∈ Rule.all.take 9) (s : List Char) :
    SameMark (r.apply o s) s := by
  simp only [Rule.all, List.take_succ_cons, List.take_zero, List.mem_cons, List.not_mem_nil,
    or_false] at h
  rcases h with rfl | rfl | rfl | rfl | rfl | rfl | rfl | rfl | rfl
  · exact sameMark_ofPatterns (by simpa using factorial_unmarked) s
  · exact sameMark_ofPatterns (by simpa using signs_unmarked) s
  · exact sameMark_ofPatterns (by simpa using roots_unmarked) s
  · exact sameMark_ofPatterns (by simpa using percentOf_unmarked) s
  · exact sameMark_ofPatterns (by simpa using percentStep_unmarked) s
  · exact sameMark_ofPatterns (by simpa using ratio_unmarked) s
  · exact sameMark_decimals s
  · exact sameMark_ofPatterns (fun p hp => (clock_patterns o hp).2) s
  · exact sameMark_ofPatterns (fun p hp => (span_patterns hp).2) s

theorem sameMark_rules (o : Options) {rules : List Rule} (h : ∀ r ∈ rules, r ∈ Rule.all.take 9)
    (s : List Char) : SameMark (rules.foldl (fun s r => r.apply o s) s) s := by
  induction rules generalizing s with
  | nil => exact .refl s
  | cons r rules ih =>
    have hrest := ih (fun q hq => h q (List.mem_cons_of_mem r hq)) (r.apply o s)
    exact hrest.trans (sameMark_apply o (h r List.mem_cons_self) s)

/-- When the turn of the rule for units comes, it still sees whether the expression is a
function. -/
theorem expand_eq_expandWithin (o : Options) (s : List Char) :
    expand o s = expandWithin o ((trim s).head? == some functionMark) (trim s) := by
  have hmark := (sameMark_rules o (fun _ hr => hr) (trim s)).2
  have hflag : (((Rule.all.take 9).foldl (fun s r => r.apply o s) (trim s)).head?
      == some functionMark) = ((trim s).head? == some functionMark) := by
    rw [Bool.eq_iff_iff, beq_iff_eq, beq_iff_eq]
    exact hmark
  have hunits := units_eq_unitsWithin o ((Rule.all.take 9).foldl (fun s r => r.apply o s) (trim s))
  rw [hflag] at hunits
  exact congrArg (mapPlain fun s =>
    [stackElement, wholeStack, lastAnswer].foldl (fun s p => p.substitute s) s) hunits

/-! ## Headline -/

/-- **The notation never looks into literals.** An expression can be cut at its literals, and however
this is done, what is written in place of a stretch depends on the stretch, on the options and on
whether the expression is a function. So expressions that differ in their literals only are expanded
to texts that differ in these literals only. -/
theorem expand_weave (o : Options) (s : List Char) :
    (∃ ss ls, Cut ss ls ∧ weave ss ls = trim s) ∧
    ∀ ss ls, Cut ss ls → weave ss ls = trim s →
      expand o s
        = weave (ss.map (expandWithin o ((trim s).head? == some functionMark))) ls ∧
      ∀ s' ls', Cut ss ls' → weave ss ls' = trim s' →
        ∃ ts, expand o s = weave ts ls ∧ expand o s' = weave ts ls' := by
  have hexpand : ∀ {s : List Char} {ss ls}, Cut ss ls → weave ss ls = trim s →
      expand o s = weave (ss.map (expandWithin o ((trim s).head? == some functionMark))) ls := by
    intro s ss ls hcut htext
    rw [expand_eq_expandWithin, ← (local_expandWithin o _).weave hcut, htext]
  refine ⟨exists_cut (trim s), fun ss ls hcut htext => ⟨hexpand hcut htext, ?_⟩⟩
  intro s' ls' hcut' htext'
  have hsame : ((trim s').head? == some functionMark) = ((trim s).head? == some functionMark) := by
    rw [Bool.eq_iff_iff, beq_iff_eq, beq_iff_eq, ← htext, ← htext',
      hcut.head?_weave (by decide), hcut'.head?_weave (by decide)]
  refine ⟨_, hexpand hcut htext, ?_⟩
  rw [hexpand hcut' htext', hsame]

theorem expand_weave_kg_or_factorial :
    let o : Options := ⟨⟨⟨2024, 1, 31, by decide⟩, 0, by decide⟩, true⟩
    ∃ ts, expand o "\"kg\" + 5!".toList = weave ts ["\"kg\"".toList] ∧
      expand o "\"5!\" + 5!".toList = weave ts ["\"5!\"".toList] := by
  intro o
  have hrest : Cut [" + 5!".toList] [] := .plain (by decide)
  have hkg : IsLiteral "\"kg\"".toList :=
    ⟨"kg".toList, .char (by decide) (by decide) (.char (by decide) (by decide) .nil), rfl⟩
  have hfactorial : IsLiteral "\"5!\"".toList :=
    ⟨"5!".toList, .char (by decide) (by decide) (.char (by decide) (by decide) .nil), rfl⟩
  exact ((expand_weave o "\"kg\" + 5!".toList).2 _ _ (.literal List.not_mem_nil hkg hrest) rfl).2
    "\"5!\" + 5!".toList _ (.literal List.not_mem_nil hfactorial hrest) rfl

end Worksheet.Notation
