import Worksheet.Proofs.Notation.Hygiene
import Worksheet.Proofs.Session.Ending
import Worksheet.Proofs.Session.Names

/-!
# Notation in a worksheet

Notation is expanded to calls of functions by their names, and a call goes to what the worksheet has
declared under the name, if that is a function.

* **`piece_evaluates_alike`** — nothing else that a worksheet has declared matters to a piece of
  notation, and of what it has stored only the current stack does.
* **`declared_function_called`** — a function of one of these names does matter.
-/

namespace Worksheet

open Text Notation

/-! ## The current stack in expressions -/

theorem Context.lookup_currentStack (c : Context) :
    c.scope.lookup currentStackName = .ok (.array (c.currentValues.map Value.toDatum)) := by
  rw [c.lookup_scope]
  rfl

/-- No value in the current stack is a function. -/
theorem Context.Sound.currentValues_data {c : Context} (h : c.Sound) :
    ∀ d ∈ c.currentValues.map Value.toDatum, ∀ f, d ≠ .function f := by
  intro d hd f hf
  obtain ⟨v, hv, rfl⟩ := List.mem_map.mp hd
  obtain ⟨g, rfl, -⟩ := toDatum_eq_function_iff.mp hf
  unfold currentValues at hv
  split at hv
  · next b hb =>
    obtain ⟨item, hitem, hvalue⟩ := List.mem_map.mp hv
    rw [itemsOf_eq] at hitem
    obtain ⟨i, -, hget⟩ := List.mem_filterMap.mp hitem
    have hdata := h.history_data item (List.mem_of_getElem? hget)
    rw [hvalue] at hdata
    cases hdata
  · cases hv

namespace Session

theorem valueOf_of_isData {s : Session} {d : Declaration} {e : Expr} {r : Evaluated Datum}
    (he : s.expression? d = some e) (hr : IsData r) (hvalue : e.value s.context.scope = r) :
    (s.valueOf d).map Prod.fst = r.map Value.ofDatum := by
  unfold valueOf
  rw [he]
  dsimp only
  rw [hvalue]
  cases r with
  | error cause => rfl
  | ok x =>
    cases x with
    | function f => exact absurd rfl (hr f)
    | _ => rfl

/-- A piece whose functions are none of the worksheet's own is the expression that its expansion is. -/
theorem expression?_piece {s : Session} {text : List Char} {names : List String}
    (hpiece : Piece ⟨s.now, s.settings.naturalUnits⟩ text names)
    (hnames : ∀ n ∈ names, s.context.function? n = none) (b : Binding) :
    s.expression? ⟨b, String.ofList text⟩
      = Expr.parse? (expand ⟨s.now, s.settings.naturalUnits⟩ text) := by
  have hunbound := hpiece.hygienic.unbound (fun n => (s.context.function? n).isSome) fun n hn => by
    rw [hnames n hn]
    rfl
  rw [expression?_ofList, hunbound]

/-- Two of some time, in figures. -/
theorem piece_two (o : Options) {w : SpanWords} (hw : w ∈ spanTable) {k : String} (hk : k ∈ w.words) :
    Piece o ("2 ".toList ++ k.toList) [w.constructor] := by
  have hword : (k.toList).map fold = k.toList := by
    have hwords : ∀ w ∈ spanTable, ∀ k ∈ w.words, k.toList.map fold = k.toList := by decide
    exact hwords w hw k hk
  have hpiece : Piece o (['2'] ++ fractionText none ++ ([' '] ++ k.toList)) [w.constructor] :=
    .span hw ⟨['2'], by decide, by decide⟩ (fun _ => rfl) (by decide) ⟨k, hk, hword⟩
  exact hpiece

/-- **Nothing but the current stack and the functions that it calls matters to a piece of notation.** -/
theorem piece_evaluates_alike (defaults defaults' : Settings) (now : DateTime)
    (lines lines' : List (List Char)) {text : List Char} {names : List String} (b : Binding) :
    let s := ((start defaults now).runLines lines).2
    let s' := ((start defaults' now).runLines lines').2
    s.settings.naturalUnits = s'.settings.naturalUnits →
    s.context.currentValues = s'.context.currentValues →
    Piece ⟨now, s.settings.naturalUnits⟩ text names →
    (∀ n ∈ names, s.context.function? n = none ∧ s'.context.function? n = none) →
    (s.valueOf ⟨b, String.ofList text⟩).map Prod.fst
      = (s'.valueOf ⟨b, String.ofList text⟩).map Prod.fst := by
  intro s s' hunits hstack hpiece hnames
  have hnow : s.now = now := (runLines_fixed _ lines).2
  have hnow' : s'.now = now := (runLines_fixed _ lines').2
  have hpiece' := hpiece
  rw [← hnow] at hpiece
  rw [hunits, ← hnow'] at hpiece'
  have hexpr := expression?_piece hpiece (fun n hn => (hnames n hn).1) b
  have hexpr' := expression?_piece hpiece' (fun n hn => (hnames n hn).2) b
  have hsame : (⟨s'.now, s'.settings.naturalUnits⟩ : Options) = ⟨s.now, s.settings.naturalUnits⟩ := by
    rw [hunits, hnow, hnow']
  rw [hsame] at hexpr'
  cases hparse : Expr.parse? (expand ⟨s.now, s.settings.naturalUnits⟩ text) with
  | none =>
    rw [hparse] at hexpr hexpr'
    unfold valueOf
    rw [hexpr, hexpr']
  | some e =>
    rw [hparse] at hexpr hexpr'
    have hsound := (recorded_runLines defaults now lines).sound
    obtain ⟨r, hr, hvalue⟩ := hpiece.hygienic.onStack e hparse _ hsound.currentValues_data
    have hlookup : s'.context.scope.lookup Context.currentStackName
        = .ok (.array (s.context.currentValues.map Value.toDatum)) := by
      rw [hstack]
      exact s'.context.lookup_currentStack
    rw [valueOf_of_isData hexpr hr (hvalue _ s.context.lookup_currentStack),
      valueOf_of_isData hexpr' hr (hvalue _ hlookup)]

/-- Two weeks are what they are without the function that another notation calls. -/
theorem piece_evaluates_alike_weeks :
    let now := DateTime.midnight ⟨2024, 1, 31, by decide⟩
    let s := ((start {} now).runLines ["months(x) = x + 1".toList]).2
    let s' := ((start {} now).runLines []).2
    (s.valueOf ⟨.anonymous, String.ofList "2 weeks".toList⟩).map Prod.fst
      = (s'.valueOf ⟨.anonymous, String.ofList "2 weeks".toList⟩).map Prod.fst := by
  intro now s s'
  have hunits : s.settings.naturalUnits = s'.settings.naturalUnits := by decide +kernel
  have hstack : s.context.currentValues = s'.context.currentValues := by
    have hempty : s.context.currentValues.isEmpty = true := by decide +kernel
    rw [List.isEmpty_iff.mp hempty]
    rfl
  have hpiece : Piece ⟨now, s.settings.naturalUnits⟩ "2 weeks".toList ["weeks"] :=
    piece_two _ (by decide : ⟨"weeks", ["weeks", "week"], true⟩ ∈ spanTable) (by decide : "weeks" ∈ _)
  have hnames : ∀ n ∈ ["weeks"], s.context.function? n = none ∧ s'.context.function? n = none := by
    have hnone : ∀ n ∈ ["weeks"], (s.context.function? n).isNone = true ∧
        (s'.context.function? n).isNone = true := by decide +kernel
    simpa using hnone
  exact piece_evaluates_alike {} {} now ["months(x) = x + 1".toList] [] .anonymous hunits hstack
    hpiece hnames

/-- **A declared function takes the place of the one that notation calls.** -/
theorem declared_function_called :
    let now := DateTime.midnight ⟨2024, 1, 31, by decide⟩
    let s := ((start {} now).runLines ["months(x) = x + 1".toList]).2
    let s' := ((start {} now).runLines []).2
    Piece ⟨now, s.settings.naturalUnits⟩ "2 months".toList ["months"] ∧
    s.settings = s'.settings ∧ s.context.stackBuckets = s'.context.stackBuckets ∧
    s.context.history = s'.context.history ∧
    (s.valueOf ⟨.anonymous, "2 months"⟩).map Prod.fst
      ≠ (s'.valueOf ⟨.anonymous, "2 months"⟩).map Prod.fst := by
  intro now s s'
  have hpiece : Piece ⟨now, s.settings.naturalUnits⟩ "2 months".toList ["months"] :=
    piece_two _ (by decide : ⟨"months", ["months", "month"], false⟩ ∈ spanTable) (by decide : "months" ∈ _)
  refine ⟨hpiece, by decide +kernel, by decide +kernel, ?_, fun heq => ?_⟩
  · have hempty : s.context.history.isEmpty = true := by decide +kernel
    rw [List.isEmpty_iff.mp hempty]
    rfl
  · -- an integer in one worksheet, a number of months in the other
    have hkind : ((s.valueOf ⟨.anonymous, "2 months"⟩).map Prod.fst).toOption.map Value.kind
        = some "int" := by decide +kernel
    have hkind' : ((s'.valueOf ⟨.anonymous, "2 months"⟩).map Prod.fst).toOption.map Value.kind
        = some "period" := by decide +kernel
    rw [heq, hkind'] at hkind
    exact absurd hkind (by decide)

end Session

end Worksheet
