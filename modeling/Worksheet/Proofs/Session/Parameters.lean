import Worksheet.Proofs.Declaration.Reading
import Worksheet.Proofs.Notation.Lambda
import Worksheet.Proofs.Session.Percentages
import Worksheet.Proofs.Session.Stored

/-!
# Lines that declare functions

The names of a function's parameters do not matter, as long as no notation takes notice of them.

* **`Declaration.Declares`** — a line that is read as the declaration of a function; `declares_written` says
  so of the usual way to write it.
* **`Session.valueOf_closure`** — the function that is declared.
* **`Session.run_declares`** — what comes of the line.
* **`Session.run_renamed`** — with other names for the parameters the same comes of it.
* **`Session.parameter_of_clock`** — a word of the clock is the name of no parameter.
-/

namespace Worksheet

open Text Expression Notation

namespace Declaration

/-- How the declaration of a function is written. -/
def written (name : List Char) (f : Lambda) : List Char :=
  name ++ ('(' :: (joinWith [',', ' '] (f.params.map Name.chars) ++ ')' :: (" = ".toList ++ f.body.text)))

section Written

variable {name : List Char} (hname : isIdentifier name = true) {f : Lambda}

include hname

/-- No line that begins with a name and its parameters is a note. -/
theorem isNote_of_call (t : List Char) : isNote (name ++ '(' :: t) = false := by
  have hchars := isNameChar_of_mem_identifier hname
  have htrim : trimStart (name ++ '(' :: t) = name ++ '(' :: t := by
    obtain ⟨c, r, rfl⟩ := List.exists_cons_of_ne_nil (ne_nil_of_isIdentifier hname)
    have hblank := isBlank_of_isNameChar (hchars c List.mem_cons_self)
    exact List.dropWhile_cons_of_neg (by simp [hblank])
  -- a word without parentheses that the line begins with is a part of the name
  have hstrip : ∀ {lead r : List Char}, '(' ∉ lead → strip? lead (name ++ '(' :: t) = some r →
      ∃ m, name = lead ++ m ∧ r = m ++ '(' :: t := by
    intro lead r hlead hr
    rcases List.append_eq_append_iff.mp (strip?_eq_some_iff.mp hr) with ⟨m, rfl, hm⟩ | ⟨m, rfl, hm⟩
    · cases m with
      | nil => exact ⟨[], by simp, by simpa using hm.symm⟩
      | cons c m =>
        obtain ⟨rfl, -⟩ := List.cons.inj hm
        exact absurd (by simp) hlead
    · exact ⟨m, rfl, hm⟩
  unfold isNote
  rw [htrim, Bool.or_eq_false_iff]
  constructor
  · cases hanswer : strip? "Answer".toList (name ++ '(' :: t) with
    | none => rfl
    | some r =>
      obtain ⟨m, hm, rfl⟩ := hstrip (by decide) hanswer
      cases m with
      | nil => rfl
      | cons c m =>
        have hc := hchars c (by rw [hm]; simp)
        have hne : c ≠ '=' := by
          rintro rfl
          exact absurd hc (by decide)
        dsimp only
        rw [List.cons_append, trimStart, List.dropWhile_cons_of_neg (by simp [isBlank_of_isNameChar hc])]
        simpa using hne
  · cases hfunction : strip? "Function:".toList (name ++ '(' :: t) with
    | none => rfl
    | some r =>
      obtain ⟨m, hm, -⟩ := hstrip (by decide) hfunction
      have hcolon := hchars ':' (by rw [hm]; exact List.mem_append_left m (by decide))
      exact absurd hcolon (by decide)

theorem ofLine_written (htrim : trim (written name f) = written name f) :
    LineKind.ofLine (written name f) = .expression (written name f) := by
  have hnote : isNote (written name f) = false := isNote_of_call hname _
  obtain ⟨c, r, hcons⟩ := List.exists_cons_of_ne_nil (ne_nil_of_isIdentifier hname)
  have hc := isNameChar_of_mem_identifier hname c (by rw [hcons]; exact List.mem_cons_self)
  have hfirst : ∀ d r, written name f = d :: r → isNameChar d = true := by
    intro d r' h
    unfold written at h
    rw [hcons] at h
    rwa [← (List.cons.inj h).1]
  unfold LineKind.ofLine LineKind.ofText
  rw [htrim, hnote, if_neg Bool.false_ne_true]
  split
  · next hnil => simp [written] at hnil
  all_goals first
    | rfl
    | next hd => exact absurd (hfirst _ _ hd) (by decide)

/-- Between its parts there are no other signs. -/
theorem mem_written {c : Char} (hc : c ∈ written name f) : isNameChar c = true ∨ c ∈ "() =".toList ∨ c ∈ f.text := by
  have hequals : ∀ c ∈ " = ".toList, c ∈ "() =".toList := by decide
  unfold written at hc
  rcases List.mem_append.mp hc with hc | hc
  · exact .inl (isNameChar_of_mem_identifier hname c hc)
  rcases List.mem_cons.mp hc with rfl | hc
  · exact .inr (.inl (by decide))
  rcases List.mem_append.mp hc with hc | hc
  · exact .inr (.inr (List.mem_cons_of_mem _ (List.mem_append_left _ hc)))
  rcases List.mem_cons.mp hc with rfl | hc
  · exact .inr (.inl (by decide))
  rcases List.mem_append.mp hc with hc | hc
  · exact .inr (.inl (hequals c hc))
  · exact .inr (.inr (List.mem_cons_of_mem _ (List.mem_append_right _ (List.mem_cons_of_mem _
      (List.mem_cons_of_mem _ hc)))))

theorem trim_written (hbody : trim f.body.text = f.body.text) : trim (written name f) = written name f := by
  refine trim_eq_self_of_ends (fun c hc => ?_) fun c hc => isBlank_getLast_of_trim hbody ?_
  · have hhead : c ∈ name.head? := by
      obtain ⟨d, r, rfl⟩ := List.exists_cons_of_ne_nil (ne_nil_of_isIdentifier hname)
      exact hc
    exact isBlank_of_isNameChar (isNameChar_of_mem_identifier hname c (List.mem_of_mem_head? hhead))
  · obtain ⟨d, r, hcons, -⟩ := f.body.text_eq_cons
    have hne : f.body.text ≠ [] := by
      rw [hcons]
      exact List.cons_ne_nil d r
    have hwritten : written name f = (name ++ ('(' :: (joinWith [',', ' '] (f.params.map Name.chars) ++
        ')' :: " = ".toList))) ++ f.body.text := by simp [written]
    rwa [hwritten, List.getLast?_append_of_ne_nil _ hne] at hc

end Written

/-- A line without a remark that is read as the declaration of a function. -/
structure Declares (line : List Char) (name : String) (f : Lambda) : Prop where
  kind : LineKind.ofLine line = .expression line
  remark : splitRemark line = (line, [])
  read : Declaration.read line = .ok ⟨.function name (f.params.map Name.word), String.ofList f.text⟩

theorem declares_written {name : String} (hname : isIdentifier name.toList = true) {f : Lambda} (hne : f.params ≠ [])
    (hparams : ∀ p ∈ f.params, isIdentifier p.chars = true) (hbody : trim f.body.text = f.body.text) :
    Declares (written name.toList f) name f where
  kind := ofLine_written hname (trim_written hname hbody)
  remark := by
    have hsigns : ∀ m ∈ [';', '#', '\x27'], (isBlank m = false ∧ m ∉ ')' :: leadingSigns ∧ isDigit m = false ∧
        m ∉ ".e+-".toList) ∧ isNameChar m = false ∧ m ∉ "() =".toList := by decide
    have hnone : cutPlain? remarkMark (written name.toList f) = none := by
      refine cutPlain?_of_not_mem (fun before c r => remarkMark_of_not_mem before r) fun c hc hmem => ?_
      obtain ⟨hchar, hname', hother⟩ := hsigns c hmem
      rcases mem_written hname hc with hc | hc | hc
      · rw [hname'] at hc
        cases hc
      · exact hother hc
      · exact not_mem_lambda hchar (fun w => not_mem_name w hname') f hc
    rw [splitRemark, hnone, trim_written hname hbody]
  read := by
    have hbodyne : f.body.text ≠ [] := by
      obtain ⟨c, r, hcons, -⟩ := f.body.text_eq_cons
      rw [hcons]
      exact List.cons_ne_nil c r
    have hne' : f.params.map Name.chars ≠ [] := by simpa using hne
    have hparams' : ∀ p ∈ f.params.map Name.chars, isIdentifier p = true := by simpa using hparams
    have hwords : (f.params.map Name.chars).map String.ofList = f.params.map Name.word := by
      rw [List.map_map]
      exact List.map_congr_left fun p _ => String.ofList_toList
    have hread := read_written_function hname hne' hparams' hbody hbodyne
    rw [hwords, String.ofList_toList] at hread
    exact hread

section Declares

variable {line : List Char} {name : String} {f : Lambda} (h : Declares line name f)

include h

/-- A declaration has a parameter, and its body is cut off without blanks at the ends. -/
theorem Declares.parts : f.params ≠ [] ∧ trim f.body.text = f.body.text := by
  have hreads := reads_read line
  rw [h.read] at hreads
  -- of the ways to read a line only one binds a function
  generalize hbinding : Binding.function name (f.params.map Name.word) = b at hreads
  generalize htext : String.ofList f.text = body at hreads
  cases hreads with
  | value | named => cases hbinding
  | @function left right n params hcut hhead hright =>
    obtain ⟨-, -, blanks, parts, -, hparts, rfl, -⟩ := hhead
    injection hbinding with _ hwords
    have hparams : f.params.map Name.chars = parts.map trim := by
      have hchars := congrArg (List.map String.toList) hwords
      rw [List.map_map, List.map_map] at hchars
      exact hchars.trans ((List.map_congr_left fun t _ => String.toList_ofList).trans (List.map_id _))
    have hbody : f.body.text = trim right := by
      have hchars := congrArg String.toList htext
      rw [String.toList_ofList, String.toList_ofList, Lambda.text, Lambda.textWith, hparams, List.cons_inj_right,
        List.append_cancel_left_eq, List.cons_inj_right, List.cons_inj_right] at hchars
      exact hchars
    refine ⟨fun hnil => ?_, by rw [hbody, trim_trim]⟩
    rw [hnil] at hparams
    exact hparts (List.map_eq_nil_iff.mp hparams.symm)

end Declares

end Declaration

/-! ## Functions -/

namespace Session

variable (s : Session)

/-- What the names in the body of a function stand for: units are no names there. -/
def namesInFunction : Naming :=
  naming (fun n => (s.context.function? n).isSome) (nameCall? ⟨s.now, false⟩)

/-- A name that stands for itself in a function. -/
def TakesParameter (p : Name) : Prop := IsParameter (fun n => (s.context.function? n).isSome) p

variable {s}

theorem expression?_lambda {f : Lambda} (hne : f.params ≠ []) (hbody : trim f.body.text = f.body.text)
    (hparams : ∀ p ∈ f.params, s.TakesParameter p) (b : Binding) :
    s.expression? ⟨b, String.ofList f.text⟩
      = if f.Admits s.namesInFunction then some (f.expr s.namesInFunction) else none := by
  have htrim : trim f.text = f.text := by
    refine trim_eq_self_of_ends (fun c hc => ?_) fun c hc => Declaration.isBlank_getLast_of_trim hbody ?_
    · cases hc
      decide
    · obtain ⟨d, r, hcons, -⟩ := f.body.text_eq_cons
      have hne : f.body.text ≠ [] := by
        rw [hcons]
        exact List.cons_ne_nil d r
      have htext : f.text = ('|' :: (joinWith [',', ' '] (f.params.map Name.chars) ++ ['|', ' '])) ++ f.body.text := by
        simp [Lambda.text, Lambda.textWith, Formula.text]
      rwa [htext, List.getLast?_append_of_ne_nil _ hne] at hc
  rw [expression?_ofList, expand_lambda _ f htrim]
  exact parse?_lambda hne fun p hp => (hparams p hp).nameCall? s.now

/-- The value of an expression that is a function. -/
theorem valueOf_closure {d : Declaration} {params : List String} {body : Expr}
    (he : s.expression? d = some (.closure params body)) :
    s.valueOf d = (Expr.captures s.context.scope params body).map fun captured =>
      (.function (named (s.context.define (.closure params body)) d.binding (.mk params body captured)),
        s.context.define (.closure params body)) := by
  have hvalue : (Expr.closure params body).value s.context.scope = _ := Expr.eval_closure _ _ params body
  unfold valueOf
  rw [he]
  dsimp only
  rw [hvalue]
  cases Expr.captures s.context.scope params body <;> rfl

/-- What comes of a line that declares a function. -/
theorem run_declares {line : List Char} {name : String} {f : Lambda} (h : Declaration.Declares line name f) :
    (∀ e, s.valueOf ⟨.function name (f.params.map Name.word), String.ofList f.text⟩ = .error e →
      s.run line = (.error (.evaluation e), s)) ∧
    ∀ g c, s.valueOf ⟨.function name (f.params.map Name.word), String.ofList f.text⟩ = .ok (.function g, c) →
      (s.run line).1 = .ok (.noted (.function line)) ∧
        ((s.run line).2.context.find? name).map Item.value = some (.function g) := by
  have hne : line ≠ [] := by
    rintro rfl
    have hread := h.read
    cases hread
  rw [run_eq_ending, h.kind, ending, h.remark, expressionEnding, if_neg hne, h.read]
  dsimp only
  constructor
  · intro e he
    rw [he]
    rfl
  · intro g c hg
    rw [hg]
    dsimp only
    rw [noteOf_of_isCallable _ _ _ rfl]
    refine ⟨rfl, ?_⟩
    have hitem : (itemOf c _ (.function g) []).name = some name := name_itemOf h.read
    show ((c.store _ true).find? name).map Item.value = _
    rw [Context.find?_store, if_pos hitem]
    rfl

/-- **The names of parameters do not matter**: either both lines fail in the same way, or both declare a
function, and the functions are alike. -/
theorem run_renamed (s : Session) {name : String} {f : Lambda} {r : Name → Name} (h : f.Renames r)
    (hparams : ∀ p ∈ f.params, s.TakesParameter p ∧ s.TakesParameter (r p)) {line line' : List Char}
    (hline : Declaration.Declares line name f) (hline' : Declaration.Declares line' name (f.rename r)) :
    (∃ e, s.run line = (.error (.evaluation e), s) ∧ s.run line' = (.error (.evaluation e), s)) ∨
    ∃ g g' : Callable,
      (s.run line).1 = .ok (.noted (.function line)) ∧ (s.run line').1 = .ok (.noted (.function line')) ∧
      ((s.run line).2.context.find? name).map Item.value = some (.function g) ∧
      ((s.run line').2.context.find? name).map Item.value = some (.function g') ∧ g.closure.Alike g'.closure := by
  obtain ⟨hne, hbody⟩ := hline.parts
  obtain ⟨hne', hbody'⟩ := hline'.parts
  have hold : ∀ p ∈ f.params, s.TakesParameter p := fun p hp => (hparams p hp).1
  have hnew : ∀ p ∈ (f.rename r).params, s.TakesParameter p := by
    intro p hp
    obtain ⟨q, hq, rfl⟩ := List.mem_map.mp hp
    exact (hparams q hq).2
  have hexpr := expression?_lambda hne hbody hold (.function name (f.params.map Name.word))
  have hexpr' := expression?_lambda hne' hbody' hnew (.function name ((f.rename r).params.map Name.word))
  obtain ⟨hfails, hdeclares⟩ := s.run_declares hline
  obtain ⟨hfails', hdeclares'⟩ := s.run_declares hline'
  have hadmits : (f.rename r).Admits s.namesInFunction ↔ f.Admits s.namesInFunction := admits_lambda_rename s.now h hparams
  -- if the one is read, so is the other, and the values are two functions that are alike
  by_cases hread : f.Admits s.namesInFunction
  · have hother : Expr.RenamesParameters (f.renamed r) (f.params.map Name.word) (f.body.expr s.namesInFunction) :=
      renamesParameters_lambda s.now h hparams
    have hmakes : (f.body.expr s.namesInFunction).closures = [] := f.body.closures_expr fun w => closures_naming _ _ w
    have hrenamed : (f.rename r).expr s.namesInFunction = .closure ((f.params.map Name.word).map (f.renamed r))
        ((f.body.expr s.namesInFunction).rename (f.renamed r)) := expr_lambda_rename s.now hparams
    rw [if_pos hread] at hexpr
    rw [if_pos (hadmits.mpr hread), hrenamed] at hexpr'
    have hvalue := valueOf_closure hexpr
    have hvalue' := valueOf_closure hexpr'
    rw [Expr.captures_rename hother hmakes] at hvalue'
    cases hcaptures : Expr.captures s.context.scope (f.params.map Name.word) (f.body.expr s.namesInFunction) with
    | error e =>
      rw [hcaptures] at hvalue hvalue'
      exact .inl ⟨e, hfails e hvalue, hfails' e hvalue'⟩
    | ok captured =>
      rw [hcaptures] at hvalue hvalue'
      obtain ⟨hnote, hfind⟩ := hdeclares _ _ hvalue
      obtain ⟨hnote', hfind'⟩ := hdeclares' _ _ hvalue'
      exact .inr ⟨_, _, hnote, hnote', hfind, hfind', Closure.alike_rename hother hmakes captured⟩
  · -- both nest too deep, or have a parameter twice
    rw [if_neg hread] at hexpr
    rw [if_neg (hadmits.not.mpr hread)] at hexpr'
    exact .inl ⟨.malformed, hfails _ (valueOf_of_none hexpr), hfails' _ (valueOf_of_none hexpr')⟩

/-- Two parameters change their names, of which one is a word for a span of time. -/
theorem run_renamed_exchange :
    let s := start {} (DateTime.midnight ⟨2024, 1, 31, by decide⟩)
    let line := "f(x, days) = x * (days + 2)".toList
    let line' := "f(days, x) = days * (x + 2)".toList
    ∃ g g' : Callable,
      (s.run line).1 = .ok (.noted (.function line)) ∧ (s.run line').1 = .ok (.noted (.function line')) ∧
      ((s.run line).2.context.find? "f").map Item.value = some (.function g) ∧
      ((s.run line').2.context.find? "f").map Item.value = some (.function g') ∧ g.closure.Alike g'.closure := by
  intro s line line'
  let x : Name := ⟨"x", isVariable_of_identifier (by decide) (by decide)⟩
  let days : Name := ⟨"days", isVariable_of_identifier (by decide) (by decide)⟩
  let factor (a : Formula .operand) : Formula .power := .within .power a
  let two : Number := .ofDigits ['2'] ⟨by decide, by decide⟩
  let sum : Formula .sum := .join .add (.within .sum (.within .product (factor (.name days .one)))) .one
    (.within .product (factor (.number two .none)))
  let f : Lambda := ⟨[x, days], .within .sum (.join .mul (.within .product (factor (.name x .one))) .one
    (factor (.group .none sum .none)))⟩
  let r (w : Name) : Name := if w = x then days else if w = days then x else w
  have hr : f.Renames r := ⟨by decide, by decide⟩
  have hparams : ∀ p ∈ f.params, s.TakesParameter p ∧ s.TakesParameter (r p) := by
    have hboth : s.TakesParameter x ∧ s.TakesParameter days := ⟨⟨by decide, by decide⟩, ⟨by decide, by decide⟩⟩
    have hexchange : r x = days ∧ r days = x := by decide
    intro p hp
    have hnames : p = x ∨ p = days := by simpa [f] using hp
    rcases hnames with rfl | rfl
    · rw [hexchange.1]
      exact hboth
    · rw [hexchange.2]
      exact hboth.symm
  have hwritten : line = Declaration.written "f".toList f ∧ line' = Declaration.written "f".toList (f.rename r) := by
    decide
  have hline : Declaration.Declares line "f" f := by
    rw [hwritten.1]
    exact Declaration.declares_written (by decide) (by decide) (by decide) (by decide)
  have hline' : Declaration.Declares line' "f" (f.rename r) := by
    rw [hwritten.2]
    exact Declaration.declares_written (by decide) (by decide) (by decide) (by decide)
  have haccepted : (s.run line).1.isOk = true := by decide +kernel
  refine (s.run_renamed hr hparams hline hline').resolve_left ?_
  rintro ⟨e, he, -⟩
  rw [he] at haccepted
  cases haccepted

/-- **A word of the clock is the name of no parameter**, though it is read as one: the expression begins with a
date between the bars. -/
theorem parameter_of_clock :
    let s := start {} (DateTime.midnight ⟨2024, 1, 31, by decide⟩)
    (s.run "f(x) = x + 1".toList).1 = .ok (.noted (.function "f(x) = x + 1".toList)) ∧
    Declaration.read "f(today) = today + 1".toList = .ok ⟨.function "f" ["today"], "|today| today + 1"⟩ ∧
    s.context.find? "today" = none ∧
    (s.run "f(today) = today + 1".toList).1 = .error (.evaluation .malformed) := by
  intro s
  have hnoted : ∀ (r : Except LineError Outcome) text,
      (r.toOption.map fun outcome => outcome == .noted (.function text)) = some true →
        r = .ok (.noted (.function text)) := by
    intro r text h
    cases r with
    | error e => cases h
    | ok outcome => rw [beq_iff_eq.mp (Option.some.inj h)]
  let today : Name := ⟨"today", isVariable_of_identifier (by decide) (by decide)⟩
  let f : Lambda := ⟨[today], .join .add (.within .sum (.within .product (.within .power (.name today .one)))) .one
    (.within .product (.within .power (.number (.ofDigits ['1'] ⟨by decide, by decide⟩) .none)))⟩
  have hwritten : "f(today) = today + 1".toList = Declaration.written "f".toList f := by decide
  have hline : Declaration.Declares "f(today) = today + 1".toList "f" f := by
    rw [hwritten]
    exact Declaration.declares_written (by decide) (by decide) (by decide) (by decide)
  have hnone : s.expression? ⟨.function "f" ["today"], String.ofList f.text⟩ = none :=
    Option.isNone_iff_eq_none.mp (by decide +kernel)
  have hfails : s.run "f(today) = today + 1".toList = (.error (.evaluation .malformed), s) :=
    (s.run_declares hline).1 .malformed (valueOf_of_none hnone)
  exact ⟨hnoted _ _ (by decide +kernel), by decide, rfl, congrArg Prod.fst hfails⟩

end Session

end Worksheet
