import Mathlib.Data.List.Forall2
import Worksheet.Proofs.Context.Names
import Worksheet.Proofs.Expression.Names
import Worksheet.Proofs.Table.Directive
import Worksheet.Table.Report

/-!
# The table of a stack

* **`Entry.Shows`** — a row that shows an item; `groups_stack`, the rows of a stack show its items if
  every one of them can be shown.
* **`tableOfSpec_totals`** — totals get the values of the rows.
* **`aggregate_eq_ok_iff`** — a total is what its function makes of them, where the function is the one
  that the name stands for or else one of the library (`applied`).
-/

namespace Worksheet

open Text Expression

namespace TableReport

/-! ## Rows -/

/-- A row that shows an item: its name, its value in its template and its remark. -/
structure Entry.Shows (s : Source) (item : Item) (e : Entry) : Prop where
  value : e.value = item.value
  cells : ∃ text, Display.present s.settings.style item.template item.value = .ok text ∧
    e.cells = [(item.name.getD "").toList, text, item.remark.toList]

/-- An item that can be shown. -/
def Showable (s : Source) (item : Item) : Prop :=
  ∃ text, Display.present s.settings.style item.template item.value = .ok text

section Rows

variable {s : Source}

theorem itemEntry_of_showable {item : Item} (h : Showable s item) :
    ∃ e, itemEntry s (item.name.getD "") item = .ok e ∧ e.Shows s item := by
  obtain ⟨text, htext⟩ := h
  have hshown : shown s item.template item.value = .ok text := by
    rw [shown, htext]
    rfl
  refine ⟨⟨[(item.name.getD "").toList, text, item.remark.toList], item.value⟩, ?_, rfl, text,
    htext, rfl⟩
  rw [itemEntry, hshown]
  rfl

theorem mapM_itemEntry {items : List Item} (h : ∀ item ∈ items, Showable s item) :
    ∃ entries, items.mapM (fun i => itemEntry s (i.name.getD "") i) = .ok entries ∧
      List.Forall₂ (Entry.Shows s) items entries := by
  induction items with
  | nil => exact ⟨[], rfl, .nil⟩
  | cons item items ih =>
    obtain ⟨e, he, hshows⟩ := itemEntry_of_showable (h item List.mem_cons_self)
    obtain ⟨entries, hentries, hall⟩ := ih fun i hi => h i (List.mem_cons_of_mem item hi)
    refine ⟨e :: entries, ?_, .cons hshows hall⟩
    rw [List.mapM_cons, he, hentries]
    rfl

theorem map_value_of_shows {items : List Item} {entries : List Entry}
    (h : List.Forall₂ (Entry.Shows s) items entries) :
    entries.map Entry.value = items.map Item.value := by
  induction h with
  | nil => rfl
  | cons hshows _ ih => rw [List.map_cons, List.map_cons, hshows.value, ih]

/-- Named stacks have names. -/
theorem ne_of_hasStack {c : Context} {n : String} (h : c.hasStack n = true) : n ≠ "" := by
  obtain ⟨b, hb, hn⟩ := List.any_eq_true.mp h
  rw [← beq_iff_eq.mp hn]
  exact bne_iff_ne.mp (List.mem_filter.mp hb).2

/-- **The rows of a stack show its items.** -/
theorem groups_stack {n : String} (hstack : s.context.hasStack n = true)
    (hvariable : s.context.find? n = none) (hunassigned : s.settings.showUnassigned = true)
    (hshowable : ∀ item ∈ s.context.stackItems n, Showable s item) :
    ∃ entries, groups s [n] = .ok [⟨"", []⟩, ⟨n, entries⟩] ∧
      List.Forall₂ (Entry.Shows s) (s.context.stackItems n) entries := by
  obtain ⟨entries, hentries, hshows⟩ := mapM_itemEntry hshowable
  refine ⟨entries, ?_, hshows⟩
  have hall : ((s.context.stackItems n).filter fun i => i.name.isSome || s.settings.showUnassigned)
      = s.context.stackItems n := by
    rw [hunassigned, List.filter_eq_self]
    simp
  have hnew : ("" == n) = false := beq_false_of_ne (Ne.symm (ne_of_hasStack hstack))
  have hadd : addEntries [⟨"", []⟩] n entries = [⟨"", []⟩, ⟨n, entries⟩] := by
    simp [addEntries, hnew]
  have hname : addName s [⟨"", []⟩] n = .ok [⟨"", []⟩, ⟨n, entries⟩] := by
    rw [addName, hvariable]
    dsimp only
    rw [if_pos hstack, hall, hentries, ← hadd]
    rfl
  rw [groups, List.foldlM_cons, hname]
  rfl

end Rows

/-! ## Totals -/

section Totals

variable {s : Source}

/-- Totals are added one after the other to the table of the rows, each from the values of all rows. -/
theorem tableOfSpec_totals {names : List String} {gs : List Group} (hgroups : groups s names = .ok gs)
    {totals : List Aggregate} (htotals : ∀ a ∈ totals, a.kind = .total) :
    tableOfSpec s ⟨names, totals⟩
      = totals.foldlM (addTotal s (valuesOf (gs.flatMap Group.entries))) (tableOf headers gs) := by
  have hnone : ∀ k, k ≠ AggregateKind.total → (totals.filter fun a => a.kind == k) = [] := by
    intro k hk
    rw [List.filter_eq_nil_iff]
    intro a ha
    rw [htotals a ha, beq_iff_eq]
    exact Ne.symm hk
  have hall : (totals.filter fun a => a.kind == .total) = totals := by
    rw [List.filter_eq_self]
    intro a ha
    rw [htotals a ha]
    rfl
  unfold tableOfSpec
  dsimp only
  rw [hgroups, hnone .column (by decide), hnone .subtotal (by decide), hall, List.map_nil,
    List.append_nil]
  rfl

/-- Without a template an aggregate is shown in its natural text. -/
theorem aggregateCell_plain {a : Aggregate} (ha : a.template = "") (args : List Value) :
    aggregateCell s a args = (aggregate s a.function args).map (Display.render s.settings.style) := by
  rw [aggregateCell, ha]
  cases aggregate s a.function args <;> rfl

theorem addTotal_plainTotal (all : Value) (t : Table) (f : String) :
    addTotal s all t (TableSpec.plainTotal f) = (aggregate s f [all]).map fun v =>
      t.addTotal [f.toList, Display.render s.settings.style v] := by
  rw [addTotal, aggregateRow, aggregateCell_plain rfl, TableSpec.plainTotal]
  cases aggregate s f [all] <;> rfl

end Totals

/-! ## Functions of one argument -/

/-- What a name makes of a value: the function that it stands for, or that of the library. -/
def applied (c : Context) (f : String) (d : Datum) : Evaluated Datum :=
  match c.function? f with
  | some g => Closure.apply Closure.callLimit g.closure [d]
  | none => invoke (Closure.apply Closure.callLimit) f [d]

/-- Functions whose parameters are known are those that the scope has. -/
structure Known (c : Context) (f : String) : Prop where
  lookup : ∀ g, c.function? f = some g → c.scope.lookup f = .ok (.function g.closure)
  params : ∀ g, c.function? f = some g → g.params.length = g.closure.params.length

section Aggregates

variable {s : Source} {f : String}

/-- The argument of a total is bound in front of what the worksheet has. -/
theorem call_one (function : String) (all : Value) :
    call s function [all] 1 = evaluate (("__arg0", all.toDatum) :: s.context.scope)
      (function ++ "(" ++ "__arg0" ++ ")").toList := by
  rfl

theorem lookup_cons_ne (scope : Scope) {m n : String} (h : m ≠ n) (d : Datum) :
    Scope.lookup ((m, d) :: scope) n = scope.lookup n := by
  rw [Scope.lookup, Scope.lookup, List.find?_cons_of_neg (by simpa using h)]

theorem lookup_cons_self (scope : Scope) (n : String) (d : Datum) :
    Scope.lookup ((n, d) :: scope) n = .ok d := by
  rw [Scope.lookup, List.find?_cons_of_pos (by simp)]

theorem isVariable_argument : IsVariable "__arg0" :=
  ⟨⟨⟨'_', "_arg0".toList, rfl, by decide⟩, by decide, by decide, by decide⟩, by decide⟩

theorem call_of_function {g : Callable} (hf : IsVariable f) (hne : "__arg0" ≠ f)
    (hlookup : s.context.scope.lookup f = .ok (.function g.closure)) (all : Value) :
    call s (f ++ ".call") [all] 1
      = Closure.apply Closure.callLimit g.closure [all.toDatum] := by
  have htext : (f ++ ".call" ++ "(" ++ "__arg0" ++ ")").toList
      = methodCall f "__arg0" := by
    simp [methodCall]
  rw [call_one, htext, evaluate, parse?_methodCall hf isVariable_argument]
  refine value_method ?_ (lookup_cons_self _ _ _)
  rw [lookup_cons_ne _ hne]
  exact hlookup

theorem call_of_library (hf : IsVariable f) (all : Value) :
    call s f [all] 1
      = invoke (Closure.apply Closure.callLimit) f [all.toDatum] := by
  have htext : (f ++ "(" ++ "__arg0" ++ ")").toList
      = directCall f "__arg0" := by
    simp [directCall]
  rw [call_one, htext, evaluate, parse?_directCall hf isVariable_argument]
  exact value_call _ (lookup_cons_self _ _ _)

/-- A function with another number of parameters has no value. -/
theorem apply_of_length_ne {g : Closure} (h : g.params.length ≠ 1) (calls : Nat) (d : Datum) :
    ∃ e, Closure.apply calls g [d] = .error e :=
  ⟨_, by rw [Closure.apply.eq_def, if_pos (by simpa using h)]⟩

/-- **What a total is.** -/
theorem aggregate_eq_ok_iff (hidentifier : isIdentifier f.toList = true)
    (hunreserved : isVariableName f = true)
    (hknown : Known s.context f) (all w : Value) :
    aggregate s f [all] = .ok w
      ↔ ∃ d, applied s.context f all.toDatum = .ok d ∧ Value.ofDatum d = w := by
  have hvariable := isVariable_of_identifier hidentifier hunreserved
  have hne : "__arg0" ≠ f := by
    rintro rfl
    exact absurd hidentifier (by decide)
  unfold aggregate applied
  have hname : (!isIdentifier f.toList) = false := by
    rw [hidentifier]
    rfl
  rw [hname, if_neg Bool.false_ne_true]
  cases hfunction : s.context.function? f with
  | some g =>
    dsimp only
    by_cases hlength : g.params.length = 1
    · have hcall := call_of_function hvariable hne (hknown.lookup g hfunction) all
      rw [if_neg (by simpa using hlength), List.length_singleton, hcall]
      cases Closure.apply Closure.callLimit g.closure [all.toDatum] <;> simp
    · -- the call fails as well, which is not the same failure
      have hclosure : g.closure.params.length ≠ 1 := by
        rw [← hknown.params g hfunction]
        exact hlength
      obtain ⟨e, he⟩ := apply_of_length_ne hclosure Closure.callLimit all.toDatum
      rw [if_pos (by simpa using hlength), he]
      simp
  | none =>
    dsimp only
    rw [List.length_singleton, call_of_library hvariable]
    cases invoke (Closure.apply Closure.callLimit) f [all.toDatum] with
    | ok d => simp
    | error e => cases e <;> simp

end Aggregates

end TableReport

end Worksheet
