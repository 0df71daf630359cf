import Worksheet.Proofs.Number.Word
import Worksheet.Proofs.Session.Hygiene
import Worksheet.Proofs.Session.Stacks

/-!
# References to the current stack

`@3` is the third value from the top of the current stack, `@@` all of its values and `@` the last
answer. Each of them has a value in every worksheet.

* **`Context.Settled`** — answers survive a round through expressions; `settled_runLines`.
* **`stackPosition_eq`** — numerals that are no word denote a position beyond every stack.
* **`references_total`** — the headline: what the references are, whatever lines came before.
-/

namespace Worksheet

open Text Expression Notation

/-! ## Values of expressions -/

namespace Value

mutual
theorem ofDatum_toDatum_ofDatum : (d : Datum) → ofDatum (ofDatum d).toDatum = ofDatum d
  | .unit | .bool _ | .int _ | .real _ | .char _ | .text _ | .function _ | .range _ _ _
  | .rational _ | .date _ | .dateTime _ | .duration _ | .period _ | .quantity _ => by
    simp only [toDatum, ofDatum]
  | .array items => by
    simp only [toDatum, ofDatum]
    rw [ofDatumAll_toDatumAll_ofDatumAll items]

theorem ofDatumAll_toDatumAll_ofDatumAll :
    (ds : List Datum) → ofDatumAll (toDatumAll (ofDatumAll ds)) = ofDatumAll ds
  | [] => by simp only [toDatumAll, ofDatumAll]
  | d :: rest => by
    simp only [toDatumAll, ofDatumAll]
    rw [ofDatum_toDatum_ofDatum d, ofDatumAll_toDatumAll_ofDatumAll rest]
end

theorem ofDatumAll_eq_map (ds : List Datum) : ofDatumAll ds = ds.map ofDatum := by
  induction ds with
  | nil => rfl
  | cons d ds ih => rw [ofDatumAll, ih, List.map_cons]

/-- Does a value survive a round through expressions? -/
def Settled (v : Value) : Prop := ofDatum v.toDatum = v

end Value

namespace Context

/-- Every answer survives a round through expressions and is no function. -/
def Settled (c : Context) : Prop :=
  ∀ item ∈ c.history, item.value.Settled ∧ item.value.isCallable = false

theorem Settled.store {c : Context} (h : c.Settled) {item : Item} (isAnswer : Bool)
    (hitem : item.value.isCallable = false → item.value.Settled) :
    (c.store item isAnswer).Settled := by
  obtain ⟨bindings, hbind, -⟩ := c.bind_eq_rebound item
  unfold Context.store
  rw [hbind]
  split
  · next hanswer =>
    have hdata : item.value.isCallable = false := by simpa using (Bool.and_eq_true_iff.mp hanswer).2
    intro other hother
    rcases List.mem_append.mp hother with hother | hother
    · exact h other hother
    · rw [List.mem_singleton.mp hother]
      exact ⟨hitem hdata, hdata⟩
  · exact h

/-- The values in the current stack are answers. -/
theorem Settled.currentValues {c : Context} (h : c.Settled) :
    ∀ v ∈ c.currentValues, v.Settled ∧ v.isCallable = false := by
  intro v hv
  unfold Context.currentValues at hv
  split at hv
  · obtain ⟨item, hitem, rfl⟩ := List.mem_map.mp hv
    rw [itemsOf_eq] at hitem
    obtain ⟨i, -, hi⟩ := List.mem_filterMap.mp hitem
    exact h item (List.mem_of_getElem? hi)
  · cases hv

theorem Settled.lastAnswer {c : Context} (h : c.Settled) :
    c.lastAnswer.Settled ∧ c.lastAnswer.isCallable = false := by
  unfold Context.lastAnswer
  cases hlast : c.history.getLast? with
  | none => exact ⟨rfl, rfl⟩
  | some item => exact h item (List.mem_of_getLast? hlast)

end Context

namespace Session

theorem settled_of_valueOf {s : Session} {d : Declaration} {v : Value} {c : Context}
    (h : s.valueOf d = .ok (v, c)) (hv : v.isCallable = false) : v.Settled := by
  unfold valueOf at h
  split at h
  · cases h
  · split at h
    · cases h
    · next r hr =>
      split at h
      · cases h
        cases hv
      · cases h
        exact Value.ofDatum_toDatum_ofDatum r

theorem ExpressionStep.settled {s : Session} {expr remark : List Char} {isAnswer : Bool} {r : Ended}
    (h : ExpressionStep s expr remark isAnswer r) (hs : s.context.Settled) :
    (ended r).2.context.Settled := by
  cases h with
  | @stored d v c a hne hread hvalue hnote =>
    have hc : c.Settled := by
      rcases valueOf_context hvalue with rfl | ⟨e, rfl⟩ <;> exact hs
    exact hc.store isAnswer fun hdata => settled_of_valueOf hvalue hdata
  | _ => exact hs

theorem Step.settled {s : Session} {kind : LineKind} {r : Ended} (h : Step s kind r)
    (hs : s.context.Settled) : (ended r).2.context.Settled := by
  cases h with
  | silent h => exact h.settled hs
  | expression h => exact h.settled hs
  | _ => exact hs

theorem settled_runLines {s : Session} (hs : s.context.Settled) (lines : List (List Char)) :
    (s.runLines lines).2.context.Settled := by
  refine runLines_invariant (P := fun s => s.context.Settled) (fun line _ s hs => ?_) hs
  rw [run_eq_ended]
  exact (step_process s line).settled hs

end Session

/-! ## Positions -/

namespace Notation

/-- The greatest word, as a position. -/
def lastPosition : Nat := 0x7FFFFFFFFFFFFFFF

theorem stackPosition_eq {n : List Char} (hne : n ≠ []) (hn : ∀ c ∈ n, isDigit c = true) :
    stackPosition n = (min (readDigits n) lastPosition : Nat) := by
  unfold stackPosition readWord?
  rw [readInt?_digits hne hn, Option.bind_some]
  cases hword : word? (readDigits n) with
  | some w =>
    rw [word?_eq_some_iff] at hword
    have hfits := fitsWord_toInt w
    unfold FitsWord at hfits
    rw [Option.map_some, Option.getD_some, hword, lastPosition]
    omega
  | none =>
    rw [word?_eq_none_iff, FitsWord] at hword
    rw [Option.map_none, Option.getD_none, lastPosition]
    omega

end Notation

theorem decimalToken_whole {s : List Char} {w : Int64} (hw : w.toInt = readDigits s) :
    decimalToken false s none none = .int w := by
  -- by the cases of the token: evaluating `word?` at a number that is not known would count up to its bound
  rw [decimalToken]
  split
  · next n hn =>
    rw [if_neg Bool.false_ne_true, word?_eq_some_iff] at hn
    rw [Int64.toInt_inj.mp (hn.trans hw.symm)]
  · next hn =>
    rw [if_neg Bool.false_ne_true, word?_eq_none_iff, ← hw] at hn
    exact absurd (fitsWord_toInt w) hn

/-- A position is read back as the word that it is. -/
theorem tokens_position {p : Nat} (hp : p ≤ lastPosition) :
    ∃ w : Int64, w.toInt = p ∧
      tokensFrom? .start 0 (showInt p ++ [')']) = some [.int w, .symbol ")"] := by
  have hstops : Stops [')'] := by
    rintro c ⟨⟩
    decide
  obtain ⟨w, hw⟩ : ∃ w : Int64, w.toInt = p := by
    refine exists_word ?_
    rw [lastPosition] at hp
    unfold FitsWord
    constructor <;> omega
  have htoken : decimalToken false (showNat p) none none = .int w := by
    refine decimalToken_whole ?_
    rw [hw, readDigits_showNat]
  have hread := readNumber?_digits false (isDigits_showNat p) hstops
  rw [htoken] at hread
  have htokens := tokensFrom?_digits (a := []) .start (isDigits_showNat p) hread
  have htext : showInt p = showNat p := by
    rw [showInt, if_neg (by omega), Int.natAbs_natCast]
  rw [List.nil_append, tokensFrom?_close] at htokens
  refine ⟨w, hw, ?_⟩
  rw [htext, htokens]
  rfl

/-- The value at a position counted from the top, beginning with 1; zero if there is none. -/
def fromTop (values : List Value) (n : Nat) : Value :=
  if n = 0 then .int 0 else (values.reverse[n - 1]?).getD (.int 0)

theorem fromTop_eq_zero {values : List Value} {n : Nat} (hn : values.length < n) :
    fromTop values n = .int 0 := by
  have hbeyond : values.reverse[n - 1]? = none := by
    rw [List.getElem?_eq_none_iff, List.length_reverse]
    omega
  rw [fromTop, if_neg (by omega), hbeyond, Option.getD_none]

theorem fromTop_mem (values : List Value) (n : Nat) :
    fromTop values n = .int 0 ∨ fromTop values n ∈ values := by
  unfold fromTop
  split
  · exact Or.inl rfl
  · cases hget : values.reverse[n - 1]? with
    | none => exact Or.inl rfl
    | some v => exact Or.inr (List.mem_reverse.mp (List.mem_of_getElem? hget))

/-- The function of the library that references call. -/
theorem fromTop_toDatum (values : List Value) {w : Int64} {p : Nat} (hw : w.toInt = p) :
    Library.fromTop (values.map Value.toDatum) w = (fromTop values p).toDatum := by
  unfold Library.fromTop
  rw [hw, List.length_map, Int.toNat_natCast]
  split
  · next hinside =>
    obtain ⟨hlow, hhigh⟩ : 1 ≤ p ∧ p ≤ values.length := by omega
    have hindex : values.length - 1 - (p - 1) = values.length - p := by omega
    have hlt : values.length - p < values.length := by omega
    rw [fromTop, if_neg (by omega), List.getElem?_reverse (by omega), hindex,
      List.getD_eq_getElem?_getD, List.getElem?_map, List.getElem?_eq_getElem hlt]
    rfl
  · next houtside =>
    by_cases hzero : p = 0
    · rw [fromTop, if_pos hzero, Value.toDatum]
    · rw [fromTop_eq_zero (by omega), Value.toDatum]

theorem Context.Settled.fromTop {c : Context} (h : c.Settled) (n : Nat) :
    (fromTop c.currentValues n).Settled ∧ (fromTop c.currentValues n).isCallable = false := by
  rcases fromTop_mem c.currentValues n with hzero | hmem
  · rw [hzero]
    exact ⟨rfl, rfl⟩
  · exact h.currentValues _ hmem

theorem Context.Settled.sequence {c : Context} (h : c.Settled) :
    (Value.sequence c.currentValues).Settled := by
  unfold Value.Settled
  rw [Value.toDatum, Value.ofDatum, toDatumAll_eq_map, Value.ofDatumAll_eq_map, List.map_map]
  refine congrArg Value.sequence ((List.map_congr_left fun v hv => ?_).trans (List.map_id _))
  exact (h.currentValues v hv).1

/-! ## Lines -/

namespace Session

/-- The line is an expression without a remark that declares nothing. Its value, also when it is given a
name, leaves nothing behind. -/
structure Means (s : Session) (line : List Char) (v : Value) : Prop where
  kind : LineKind.ofLine line = .expression line
  remark : splitRemark line = (line, [])
  read : Declaration.read line = .ok ⟨.anonymous, String.ofList line⟩
  value : ∀ b, s.valueOf ⟨b, String.ofList line⟩ = .ok (v, s.context)

section References

/- A reference is an at sign, and behind it another one, digits or nothing. -/
variable {r : List Char} (hr : ∀ c ∈ r, isDigit c = true ∨ c = '@')

include hr

/-- No character of a reference is a blank, sets off a remark or belongs to an assignment. -/
theorem reference_chars :
    ∀ c ∈ '@' :: r, isBlank c = false ∧ c ∉ [';', '#', '\x27'] ∧ c ∉ [':', '='] := by
  intro c hc
  have hc' : isDigit c = true ∨ c = '@' := by
    rcases List.mem_cons.mp hc with rfl | hc
    · exact Or.inr rfl
    · exact hr c hc
  rcases hc' with hdigit | rfl
  · have hno : ∀ d ∈ [';', '#', '\x27'] ++ [':', '='], isDigit d = false := by decide
    refine ⟨isBlank_of_isNameChar (isNameChar_of_isDigit hdigit), fun hmem => ?_, fun hmem => ?_⟩
    · rw [hno c (List.mem_append_left _ hmem)] at hdigit
      cases hdigit
    · rw [hno c (List.mem_append_right _ hmem)] at hdigit
      cases hdigit
  · decide

theorem trim_reference : trim ('@' :: r) = '@' :: r :=
  trim_eq_self fun c hc => (reference_chars hr c hc).1

theorem splitRemark_reference {t : List Char} (ht : ∀ c ∈ t, c ∈ '@' :: r) :
    splitRemark t = (t, []) := by
  have hnone : cutPlain? remarkMark t = none :=
    cutPlain?_of_not_mem (fun before c r => remarkMark_of_not_mem before r)
      fun c hc => (reference_chars hr c (ht c hc)).2.1
  rw [splitRemark, hnone, trim_eq_self fun c hc => (reference_chars hr c (ht c hc)).1]

/-- A reference begins no stack, as no identifier begins with a digit or an at sign. -/
theorem stackHeader?_reference : stackHeader? ('@' :: r) = none := by
  have hidentifier : isIdentifier r = false := by
    cases r with
    | nil => rfl
    | cons c r =>
      rcases hr c List.mem_cons_self with hdigit | rfl
      · have hletter : isLetter c = false := by
          rw [Bool.eq_false_iff]
          intro hletter
          have hdecimal := isDecimal_of_isDigit hdigit
          rw [isDecimal_of_isLetter hletter] at hdecimal
          cases hdecimal
        rw [isIdentifier, hletter, Bool.false_and]
      · rfl
  show (if isIdentifier (splitRemark r).1 then _ else _) = _
  rw [splitRemark_reference hr fun c hc => List.mem_cons_of_mem _ hc, hidentifier]
  rfl

theorem ofLine_reference : LineKind.ofLine ('@' :: r) = .expression ('@' :: r) := by
  have hnote : isNote ('@' :: r) = false := rfl
  unfold LineKind.ofLine LineKind.ofText
  rw [trim_reference hr, hnote, if_neg Bool.false_ne_true, stackHeader?_reference hr]
  rfl

theorem read_reference :
    Declaration.read ('@' :: r) = .ok ⟨.anonymous, String.ofList ('@' :: r)⟩ := by
  have hnone : cutPlain? Declaration.assignment ('@' :: r) = none :=
    cutPlain?_of_not_mem (fun before c r => assignment_of_not_mem before r)
      fun c hc => (reference_chars hr c hc).2.2
  unfold Declaration.read
  rw [trim_reference hr]
  dsimp only
  rw [hnone]

theorem means_of_value {s : Session} {v : Value}
    (hvalue : ∀ b, s.valueOf ⟨b, String.ofList ('@' :: r)⟩ = .ok (v, s.context)) :
    s.Means ('@' :: r) v :=
  ⟨ofLine_reference hr, splitRemark_reference hr fun _ hc => hc, read_reference hr, hvalue⟩

end References

section Values

variable {s : Session} {v : Value}

/-- A settled value that an expression has is what a line with the expression means. -/
theorem valueOf_of_settled {d : Declaration} {e : Expr} (he : s.expression? d = some e)
    (hvalue : e.value s.context.scope = .ok v.toDatum) (hv : v.Settled ∧ v.isCallable = false) :
    s.valueOf d = .ok (v, s.context) :=
  (valueOf_eq_ok_iff he hv.2).mpr ⟨_, hvalue, hv.1⟩

/-- At signs alone are left to the last rule. -/
theorem expand_atSigns (o : Options) {r : List Char} (hr : ∀ c ∈ r, c = '@') :
    expand o r = [stackElement, wholeStack, lastAnswer].foldl (fun s p => p.substitute s) r := by
  have huntouched : Untouched o r := by
    refine untouched_of_no_letters fun c hc => ?_
    rw [hr c hc]
    decide
  have hcolon : ':' ∉ r := fun hmem => absurd (hr _ hmem) (by decide)
  rw [expand_of_operatorMarks, substituteAll_ratio hcolon, decimals_eq_self hcolon, lateStages,
    huntouched.clockStage, huntouched.spanStage, huntouched.units, stackStage, substituteAll,
    mapPlain_of_not_mem _ huntouched.quote]
  · intro c hc
    rw [hr c hc]
    decide
  · intro c hc
    rw [hr c (List.mem_of_mem_head? hc)]
    decide
  · intro c hc
    rw [hr c (List.mem_of_getLast? hc)]
    decide

/-- Signs of the stack are the variable that they are rewritten to, since there is no call in its name. -/
theorem expression?_atSigns {r t : List Char} {e : Expr} (hr : ∀ c ∈ r, c = '@')
    (hstage : [stackElement, wholeStack, lastAnswer].foldl (fun s p => p.substitute s) r = t)
    (hparen : '(' ∉ t) (he : Expr.parse? t = some e) (b : Binding) :
    s.expression? ⟨b, String.ofList r⟩ = some e := by
  rw [expression?_ofList, expand_atSigns _ hr, hstage, bindCalls_eq_self _ hparen, he]

theorem expression?_wholeStack (b : Binding) :
    s.expression? ⟨b, String.ofList ['@', '@']⟩ = some (.variable "_stack") :=
  expression?_atSigns (t := "_stack".toList) (by decide) (by decide) (by decide) rfl b

theorem expression?_lastAnswer (b : Binding) :
    s.expression? ⟨b, String.ofList ['@']⟩ = some (.variable "ans") :=
  expression?_atSigns (t := "ans".toList) (by decide) (by decide) (by decide) rfl b

theorem expression?_element {n : List Char} (hne : n ≠ []) (hn : ∀ c ∈ n, isDigit c = true)
    (hfunction : s.context.function? "stack_at" = none) (b : Binding) :
    ∃ w : Int64, w.toInt = (min (readDigits n) lastPosition : Nat) ∧
      s.expression? ⟨b, String.ofList ('@' :: n)⟩
        = some (.call "stack_at" [.variable "_stack", .int w]) := by
  let d : Decimals := ⟨n, hne, fun c hc => isDecimal_of_isDigit (hn c hc)⟩
  obtain ⟨w, hw, htokens⟩ := tokens_position (p := min (readDigits n) lastPosition)
    (Nat.min_le_right _ _)
  have hposition : stackPosition n = (min (readDigits n) lastPosition : Nat) :=
    stackPosition_eq hne hn
  rw [← hposition] at htokens
  have hunbound : (s.context.function? "stack_at").isSome = false := by rw [hfunction]; rfl
  refine ⟨w, hw, ?_⟩
  rw [expression?_ofList, expand_element _ d, bindCalls_element hunbound,
    parse?_element (.int w) htokens]
  rfl

end Values

/-- **References to the current stack have values in every worksheet.** A reference by a numeral of
whatever length is the value at that position from the top, zero if there is none, unless a function of
the worksheet takes the place of the one that it calls. A numeral that is no word asks for more values than
fit in a memory. -/
theorem references_total (defaults : Settings) (now : DateTime) (lines : List (List Char)) :
    let s := ((start defaults now).runLines lines).2
    (∀ n : List Char, n ≠ [] → (∀ c ∈ n, isDigit c = true) →
      s.context.function? "stack_at" = none →
      (readDigits n < 0x8000000000000000 ∨ s.context.currentValues.length < 0x7FFFFFFFFFFFFFFF) →
      s.Means ('@' :: n)
        (if readDigits n = 0 then .int 0
          else (s.context.currentValues.reverse[readDigits n - 1]?).getD (.int 0))) ∧
    s.Means ['@', '@'] (.sequence s.context.currentValues) ∧
    s.Means ['@'] ((s.context.history.getLast?.map Item.value).getD (.int 0)) := by
  intro s
  have hsettled : s.context.Settled := settled_runLines (fun _ h => absurd h List.not_mem_nil) lines
  refine ⟨fun n hne hn hfunction hsize => ?_, ?_, ?_⟩
  · refine means_of_value (fun c hc => Or.inl (hn c hc)) fun b => ?_
    obtain ⟨w, hw, he⟩ := expression?_element hne hn hfunction b
    -- a position that is no word is beyond the stack, as the greatest word is
    have hposition : fromTop s.context.currentValues (min (readDigits n) lastPosition)
        = fromTop s.context.currentValues (readDigits n) := by
      rcases Nat.le_total (readDigits n) lastPosition with hle | hge
      · rw [Nat.min_eq_left hle]
      · rw [Nat.min_eq_right hge]
        rcases hsize with hword | hbeyond
        · rw [Nat.le_antisymm hge (Nat.le_of_lt_succ hword)]
        · have hlast : s.context.currentValues.length < lastPosition := hbeyond
          rw [fromTop_eq_zero hlast, fromTop_eq_zero (Nat.lt_of_lt_of_le hlast hge)]
    refine valueOf_of_settled he ?_ (hsettled.fromTop _)
    rw [value_element rfl s.context.lookup_currentStack, ← fromTop.eq_def, ← hposition,
      ← fromTop_toDatum _ hw]
    rfl
  · refine means_of_value (by decide) fun b => ?_
    refine valueOf_of_settled (expression?_wholeStack b) ?_ ⟨hsettled.sequence, rfl⟩
    rw [Value.toDatum, toDatumAll_eq_map]
    exact s.context.lookup_currentStack
  · refine means_of_value (by decide) fun b => ?_
    refine valueOf_of_settled (expression?_lastAnswer b) ?_ hsettled.lastAnswer
    exact s.context.lookup_scope "ans"

/-- Behind two answers: a numeral with zeros in front, and one that is 1 when it is cut to a word. -/
theorem references_total_long :
    let s := ((start {} (DateTime.midnight ⟨2024, 1, 31, by decide⟩)).runLines
      ["5".toList, "7".toList]).2
    s.context.function? "stack_at" = none ∧ s.context.currentValues.length < 0x7FFFFFFFFFFFFFFF ∧
    s.Means "@000000000000000000002".toList (.int 5) ∧
    s.Means "@18446744073709551617".toList (.int 0) := by
  intro s
  have hfunction : s.context.function? "stack_at" = none := by
    have hnone : (s.context.function? "stack_at").isNone = true := by decide +kernel
    exact Option.isNone_iff_eq_none.mp hnone
  have hvalues : s.context.currentValues = [.int 5, .int 7] := by
    have hsame : Value.sameAll s.context.currentValues [.int 5, .int 7] = true := by decide +kernel
    generalize s.context.currentValues = values at hsame
    match values with
    | [] | [_] | _ :: _ :: _ :: _ => simp [Value.sameAll] at hsame
    | [v, w] =>
      obtain ⟨hv, hw⟩ := Bool.and_eq_true_iff.mp hsame
      rw [eq_of_same_int hv, eq_of_same_int (Bool.and_eq_true_iff.mp hw).1]
  have hlength : s.context.currentValues.length < 0x7FFFFFFFFFFFFFFF := by
    rw [hvalues]
    decide
  have hreferences := (references_total {} (DateTime.midnight ⟨2024, 1, 31, by decide⟩)
    ["5".toList, "7".toList]).1
  refine ⟨hfunction, hlength, ?_, ?_⟩
  · have helement := hreferences "000000000000000000002".toList (by decide) (by decide) hfunction (Or.inr hlength)
    have hdigits : readDigits "000000000000000000002".toList = 2 := by decide
    rw [hdigits, hvalues] at helement
    exact helement
  · have helement := hreferences "18446744073709551617".toList (by decide) (by decide) hfunction (Or.inr hlength)
    have hdigits : readDigits "18446744073709551617".toList = 18446744073709551617 := by decide
    rw [hdigits, hvalues] at helement
    exact helement

end Session

end Worksheet
