import Worksheet.Proofs.Library.Sums
import Worksheet.Proofs.Table.Groups
import Worksheet.Proofs.Table.Rows
import Worksheet.Proofs.Table.Stacks

/-!
# Subtotals and their total

A table with a subtotal of every group and a total below all of them, both of the sum.

* **`aggregate_sum`**, **`aggregate_sum_pair`** — the sum of a group is that of the values of the group
  alone, although it is called with those of the table as well.
* **`filter_lines_sumSteps`** — what a table shows that is written group by group, with one subtotal for
  each and one total.
* **`Summed`** — a table of groups with their subtotals and their total; `tableOfSpec_summed`, the table of
  a specification is one, so that the subtotals add up to the total.
-/

namespace Worksheet

open Text Expression Library

namespace TableReport

variable {s : Source}

/-! ## The sum as an aggregate -/

/-- The sum of values as an aggregate. -/
def summed (vs : List Value) : Except LineError Value :=
  match Evaluated.ofOutcome (sum (Value.ofDatumAll (Value.toDatumAll vs))) with
  | .ok d => .ok (.ofDatum d)
  | .error e => .error (.evaluation e)

theorem call_pair (function : String) (v w : Value) (used : Nat) :
    call s function [v, w] used
      = evaluate (("__arg0", v.toDatum) :: ("__arg1", w.toDatum) :: s.context.scope)
        (function ++ "(" ++ String.intercalate ", " (["__arg0", "__arg1"].take used) ++ ")").toList := by
  have hnames : argumentNames 2 = ["__arg0", "__arg1"] := by decide
  unfold call
  dsimp only [List.length_cons, List.length_nil, Nat.zero_add, Nat.reduceAdd]
  rw [hnames]
  rfl

theorem parse?_sum_pair :
    Expr.parse? ("sum" ++ "(" ++ String.intercalate ", " ["__arg0", "__arg1"] ++ ")").toList
      = some (.call "sum" [.variable "__arg0", .variable "__arg1"]) := by
  have htext : ("sum" ++ "(" ++ String.intercalate ", " ["__arg0", "__arg1"] ++ ")").toList
      = ['s', 'u', 'm', '(', '_', '_', 'a', 'r', 'g', '0', ',', ' ', '_', '_', 'a', 'r', 'g', '1', ')'] := by
    decide
  have htokens : tokens? ['s', 'u', 'm', '(', '_', '_', 'a', 'r', 'g', '0', ',', ' ', '_', '_', 'a', 'r',
      'g', '1', ')'] = some [.word "sum", .symbol "(", .word "__arg0", .symbol ",", .word "__arg1",
        .symbol ")"] := by rfl
  rw [htext, Expr.parse?, htokens]
  rfl

theorem isVariable_sum : IsVariable "sum" := isVariable_of_identifier (by decide) (by decide)

section Sum

variable (hsum : s.context.function? "sum" = none) (vs ws : List Value)
include hsum

theorem aggregate_sum : aggregate s "sum" [.sequence vs] = summed vs := by
  have hcall : call s "sum" [.sequence vs] 1
      = .ofOutcome (sum (Value.ofDatumAll (Value.toDatumAll vs))) :=
    call_of_library isVariable_sum (.sequence vs)
  unfold aggregate summed
  rw [if_neg (by decide), hsum]
  dsimp only
  rw [List.length_singleton, hcall]
  cases sum (Value.ofDatumAll (Value.toDatumAll vs)) <;> rfl

/-- There is no sum of two sequences, so that the second one is left out. -/
theorem aggregate_sum_pair : aggregate s "sum" [.sequence vs, .sequence ws] = summed vs := by
  have hvs := lookup_cons_self (("__arg1", (Value.sequence ws).toDatum) :: s.context.scope) "__arg0"
    (Value.sequence vs).toDatum
  have hws : Scope.lookup (("__arg0", (Value.sequence vs).toDatum) ::
      ("__arg1", (Value.sequence ws).toDatum) :: s.context.scope) "__arg1"
        = .ok (Value.sequence ws).toDatum := by
    rw [lookup_cons_ne _ (by decide), lookup_cons_self]
  have hpair : call s "sum" [.sequence vs, .sequence ws] 2
      = .error (.unknownFunction (callSignature "sum"
          [(Value.sequence vs).toDatum, (Value.sequence ws).toDatum])) := by
    rw [call_pair, List.take_of_length_le (by simp), evaluate, parse?_sum_pair]
    exact (value_call_pair "sum" hvs hws).trans (invoke_sum_pair _ _ _)
  have hfirst : call s "sum" [.sequence vs, .sequence ws] 1
      = .ofOutcome (sum (Value.ofDatumAll (Value.toDatumAll vs))) := by
    have htext : ("sum" ++ "(" ++ String.intercalate ", " ["__arg0"] ++ ")").toList
        = directCall "sum" "__arg0" := by decide
    rw [call_pair, List.take_succ_cons, List.take_zero, htext, evaluate,
      parse?_directCall isVariable_sum isVariable_argument]
    exact (value_call "sum" hvs).trans (invoke_sum _ _)
  unfold aggregate summed
  rw [if_neg (by decide), hsum]
  dsimp only [List.length_cons, List.length_nil, Nat.zero_add, Nat.reduceAdd]
  rw [hpair, hfirst]
  dsimp only
  refine (if_pos (by decide)).trans ?_
  cases Evaluated.ofOutcome (sum (Value.ofDatumAll (Value.toDatumAll vs))) <;> rfl

end Sum

theorem ofDatumAll_toDatumAll_ints (ns : List Int64) :
    Value.ofDatumAll (Value.toDatumAll (ns.map Value.int)) = ns.map Value.int := by
  induction ns with
  | nil => rfl
  | cons n ns ih => rw [List.map_cons, Value.toDatumAll, Value.ofDatumAll, ih]; rfl

/-- The sum of integers is exact. -/
theorem toInt_of_summed {ns : List Int64} {v : Value} (h : summed (ns.map Value.int) = .ok v) :
    ∃ m : Int64, v = .int m ∧ m.toInt = (ns.map Int64.toInt).sum := by
  unfold summed at h
  rw [ofDatumAll_toDatumAll_ints] at h
  cases hsum : sum (ns.map Value.int) with
  | error e =>
    rw [hsum] at h
    cases h
  | ok w =>
    obtain ⟨m, rfl, hm⟩ := toInt_of_sum hsum
    rw [hsum] at h
    cases h
    exact ⟨m, rfl, hm⟩

/-! ## Groups with subtotals as steps -/

/-- The groups that have rows. -/
def withRows (groups : List Group) : List Group := groups.filter fun g => !g.entries.isEmpty

/-- A subtotal below every group that has rows, and a total. -/
def sumSteps (groups : List Group) (subtotal : Group → Row) (total : Row) : List Table.Step :=
  rowSteps groups ++ (withRows groups).map (fun g => .subtotal g.name.toList (subtotal g)) ++ [.total total]

theorem filter_name {L : List Group} (hnodup : (L.map Group.name).Nodup) {g : Group} (hg : g ∈ L) :
    (L.filter fun g' => g'.name.toList == g.name.toList) = [g] := by
  obtain ⟨before, behind, rfl⟩ := List.append_of_mem hg
  rw [List.map_append, List.map_cons, List.nodup_append, List.nodup_cons] at hnodup
  obtain ⟨-, ⟨hbehind, -⟩, hbefore⟩ := hnodup
  have hnone : ∀ L' : List Group, g.name ∉ L'.map Group.name →
      (L'.filter fun g' => g'.name.toList == g.name.toList) = [] := by
    intro L' hnot
    refine List.filter_eq_nil_iff.mpr fun g' hg' heq => hnot ?_
    have hname : g'.name = g.name := String.toList_inj.mp (beq_iff_eq.mp heq)
    exact List.mem_map.mpr ⟨g', hg', hname⟩
  rw [List.filter_append, List.filter_cons_of_pos (by simp), hnone behind hbehind, hnone before]
  · rfl
  · exact fun hmem => hbefore _ hmem _ List.mem_cons_self rfl

theorem flatMap_withRows (groups : List Group) (f : Group → List Table.Line) :
    groups.flatMap (fun g => if g.entries = [] then [] else f g) = (withRows groups).flatMap f := by
  unfold withRows
  induction groups with
  | nil => rfl
  | cons g groups ih =>
    rw [List.flatMap_cons, ih]
    by_cases h : g.entries = [] <;> simp [h]

theorem filterMap_rowSteps {α : Type} {groups : List Group} {f : Table.Step → Option α}
    (hgroup : ∀ name, f (.group name) = none) (hrow : ∀ row, f (.row row) = none) :
    (rowSteps groups).filterMap f = [] := by
  refine List.filterMap_eq_nil_iff.mpr fun step hstep => ?_
  obtain rfl | ⟨g, -, rfl | ⟨e, -, rfl⟩⟩ := mem_rowSteps hstep
  · exact hgroup []
  · exact hgroup g.name.toList
  · exact hrow e.cells

theorem filterMap_header?_sumSteps (groups : List Group) (subtotal : Group → Row) (total : Row) :
    (sumSteps groups subtotal total).filterMap Table.Step.header? = [] := by
  rw [sumSteps, List.filterMap_append, List.filterMap_append, filterMap_rowSteps (fun _ => rfl) fun _ => rfl]
  simp

section Steps

variable {k : Nat} {groups : List Group} {subtotal : Group → Row} {total : Row}

theorem trim_name {g : Group} (h : Gathered s k groups) (hg : g ∈ groups) :
    trim g.name.toList = g.name.toList := by
  rcases h.names g hg with hname | hname
  · rw [hname]
    rfl
  · exact TableSpec.trim_of_identifier hname

theorem begun_rowSteps (h : Gathered s k groups) :
    (rowSteps groups).filterMap Table.Step.begun? = groups.map (fun g => g.name.toList) ++ [[]] := by
  have hrows : groups.flatMap (fun g => (Table.Step.group g.name.toList ::
        g.entries.map fun e => .row e.cells).filterMap Table.Step.begun?)
      = groups.flatMap fun g => [g.name.toList] := by
    refine List.flatMap_congr fun g hg => ?_
    rw [List.filterMap_cons_some (show Table.Step.begun? (.group g.name.toList) = some g.name.toList from
      congrArg some (trim_name h hg))]
    simp
  rw [rowSteps, List.filterMap_append, List.filterMap_flatMap, hrows, ← List.map_eq_flatMap]
  rfl

theorem nodup_toList (h : Gathered s k groups) : (groups.map fun g => g.name.toList).Nodup := by
  have hmap := h.nodup.map fun _ _ heq => String.toList_inj.mp heq
  rwa [List.map_map] at hmap

theorem names_sumSteps (h : Gathered s k groups) :
    Table.names (sumSteps groups subtotal total) = groups.map fun g => g.name.toList := by
  obtain ⟨g, rest, rfl⟩ : ∃ g rest, groups = g :: rest := by
    cases groups with
    | nil => cases h.head
    | cons g rest => exact ⟨g, rest, rfl⟩
  have hname : g.name = "" := Option.some.inj h.head
  have hdistinct := Table.eraseDups_of_nodup (nodup_toList h)
  rw [List.map_cons, hname, List.eraseDups_cons] at hdistinct
  have hsubtotals : ((withRows (g :: rest)).map fun g =>
      Table.Step.subtotal g.name.toList (subtotal g)).filterMap Table.Step.begun? = [] := by simp
  have hbegun : (sumSteps (g :: rest) subtotal total).filterMap Table.Step.begun?
      = (g :: rest).map (fun g => g.name.toList) ++ [[]] := by
    rw [sumSteps, List.filterMap_append, List.filterMap_append, hsubtotals, begun_rowSteps h]
    simp
  rw [Table.names, hbegun, ← List.cons_append, Table.eraseDups_concat,
    if_pos List.mem_cons_self, List.map_cons, hname, List.eraseDups_cons, List.filter_cons_of_neg (by simp)]
  exact hdistinct

theorem placedRows_rows (current : List Char) (rows : List Row) (rest : List Table.Step) :
    Table.placedRows current (rows.map Table.Step.row ++ rest)
      = rows.map (fun row => (current, row)) ++ Table.placedRows current rest := by
  induction rows with
  | nil => rfl
  | cons row rows ih => rw [List.map_cons, List.cons_append, Table.placedRows, ih]; rfl

theorem placedRows_groups {L : List Group} (hL : ∀ g ∈ L, trim g.name.toList = g.name.toList)
    (current : List Char) {rest : List Table.Step} (hrest : ∀ c, Table.placedRows c rest = []) :
    Table.placedRows current (L.flatMap (fun g => .group g.name.toList ::
        g.entries.map fun e => .row e.cells) ++ rest)
      = L.flatMap fun g => g.entries.map fun e => (g.name.toList, e.cells) := by
  induction L generalizing current with
  | nil => exact hrest current
  | cons g L ih =>
    have hrows := placedRows_rows g.name.toList (g.entries.map Entry.cells)
      (L.flatMap (fun g => .group g.name.toList :: g.entries.map fun e => .row e.cells) ++ rest)
    rw [List.map_map, List.map_map] at hrows
    rw [List.flatMap_cons, List.flatMap_cons, List.append_assoc, List.cons_append, Table.placedRows,
      hL g List.mem_cons_self]
    refine hrows.trans ?_
    rw [ih fun g' hg' => hL g' (List.mem_cons_of_mem g hg')]
    rfl

theorem placedRows_sumSteps (h : Gathered s k groups) :
    Table.placedRows [] (sumSteps groups subtotal total)
      = groups.flatMap fun g => g.entries.map fun e => (g.name.toList, e.cells) := by
  rw [sumSteps, rowSteps, List.append_assoc, List.append_assoc]
  refine placedRows_groups (fun g hg => trim_name h hg) [] fun c => ?_
  have hnone : (Table.placedRows c ([Table.Step.group []] ++
      ((withRows groups).map (fun g => Table.Step.subtotal g.name.toList (subtotal g)) ++
        [.total total]))).map Prod.snd = [] := by
    rw [Table.map_snd_placedRows]
    refine List.filterMap_eq_nil_iff.mpr fun step hstep => ?_
    simp only [List.mem_append, List.mem_singleton, List.mem_map] at hstep
    obtain rfl | ⟨g, -, rfl⟩ | rfl := hstep <;> rfl
  exact List.map_eq_nil_iff.mp hnone

theorem placedSubtotals_eq_nil {steps : List Table.Step}
    (h : ∀ name cells, .subtotal name cells ∉ steps) (begun : List (List Char)) :
    Table.placedSubtotals begun steps = [] := by
  induction steps generalizing begun with
  | nil => rfl
  | cons step steps ih =>
    have hrest := ih fun name cells hmem => h name cells (List.mem_cons_of_mem _ hmem)
    cases step with
    | subtotal name cells => exact absurd List.mem_cons_self (h name cells)
    | _ => exact hrest _

theorem placedSubtotals_subtotals {L : List Group} {begun : List (List Char)}
    (h : ∀ g ∈ L, g.name.toList ∈ begun) (subtotal : Group → Row) (total : Row) :
    Table.placedSubtotals begun
        (L.map (fun g => .subtotal g.name.toList (subtotal g)) ++ [.total total])
      = L.map fun g => (g.name.toList, subtotal g) := by
  induction L with
  | nil => rfl
  | cons g L ih =>
    rw [List.map_cons, List.cons_append, Table.placedSubtotals, if_pos (h g List.mem_cons_self),
      ih fun g' hg' => h g' (List.mem_cons_of_mem g hg')]
    rfl

theorem placedSubtotals_sumSteps (h : Gathered s k groups) :
    Table.placedSubtotals [[]] (sumSteps groups subtotal total)
      = (withRows groups).map fun g => (g.name.toList, subtotal g) := by
  have hbegun : ∀ g ∈ withRows groups,
      g.name.toList ∈ [[]] ++ (rowSteps groups).filterMap Table.Step.begun? := by
    intro g hg
    have hmem : g.name.toList ∈ groups.map fun g => g.name.toList :=
      List.mem_map_of_mem (List.mem_filter.mp hg).1
    rw [begun_rowSteps h]
    simp [hmem]
  have hnone : ∀ name cells, .subtotal name cells ∉ rowSteps groups := by
    intro name cells hmem
    obtain h | ⟨g, -, h | ⟨e, -, h⟩⟩ := mem_rowSteps hmem <;> cases h
  rw [sumSteps, List.append_assoc, Table.placedSubtotals_append, placedSubtotals_eq_nil hnone,
    List.nil_append, placedSubtotals_subtotals hbegun]

theorem rowsOf_sumSteps (h : Gathered s k groups) {g : Group} (hg : g ∈ groups) :
    Table.rowsOf (sumSteps groups subtotal total) g.name.toList = g.entries.map Entry.cells := by
  have hgroup : ∀ L : List Group, ∀ name, Table.ofGroup name
      (L.flatMap fun g => g.entries.map fun e => (g.name.toList, e.cells))
        = (L.filter fun g => g.name.toList == name).flatMap fun g => g.entries.map Entry.cells := by
    intro L name
    induction L with
    | nil => rfl
    | cons g L ih =>
      have hfirst : Table.ofGroup name (g.entries.map fun e => (g.name.toList, e.cells))
          = if g.name.toList = name then g.entries.map Entry.cells else [] := by
        unfold Table.ofGroup
        split <;> simp [List.filterMap_map, *]
      rw [List.flatMap_cons, Table.ofGroup_append, ih, hfirst]
      by_cases hname : g.name.toList = name <;> simp [hname]
  rw [Table.rowsOf, placedRows_sumSteps h, hgroup, filter_name h.nodup hg]
  simp

theorem subtotalsOf_sumSteps (h : Gathered s k groups) (name : List Char) :
    Table.subtotalsOf (sumSteps groups subtotal total) name
      = ((withRows groups).filter fun g => g.name.toList == name).map subtotal := by
  have hgroup : ∀ L : List Group, Table.ofGroup name (L.map fun g => (g.name.toList, subtotal g))
      = (L.filter fun g => g.name.toList == name).map subtotal := by
    intro L
    induction L with
    | nil => rfl
    | cons g L ih =>
      rw [List.map_cons, Table.ofGroup_cons, ih]
      by_cases hname : g.name.toList = name <;> simp [hname]
  rw [Table.subtotalsOf, placedSubtotals_sumSteps h, hgroup]

/-- **What a table shows** that is written group by group, with one subtotal for each and one total. -/
theorem filter_lines_sumSteps (headers : Row) (h : Gathered s k groups) :
    (Table.build headers (sumSteps groups subtotal total)).lines.filter (fun l => !l.isBorder)
      = .cells headers :: ((withRows groups).flatMap (fun g =>
          Table.shownLines g.name.toList (g.entries.map Entry.cells) [subtotal g]) ++
        ((withRows groups).filter fun g => g.name.toList == []).map (fun g => .cells (subtotal g)) ++
        [.cells total]) := by
  have htotals : (sumSteps groups subtotal total).filterMap Table.Step.total? = [total] := by
    rw [sumSteps, List.filterMap_append, List.filterMap_append, filterMap_rowSteps (fun _ => rfl) fun _ => rfl]
    simp
  have hlines : ∀ g ∈ groups, Table.linesOf (sumSteps groups subtotal total) g.name.toList
      = if g.entries = [] then [] else
          Table.shownLines g.name.toList (g.entries.map Entry.cells) [subtotal g] := by
    intro g hg
    rw [Table.linesOf, rowsOf_sumSteps h hg, subtotalsOf_sumSteps h]
    by_cases hempty : g.entries = []
    · simp [hempty]
    · have hshown : g ∈ withRows groups := List.mem_filter.mpr ⟨hg, by simpa using hempty⟩
      have hnodup : ((withRows groups).map Group.name).Nodup :=
        h.nodup.sublist (List.filter_sublist.map _)
      rw [if_neg (by simpa using hempty), if_neg hempty, filter_name hnodup hshown, List.map_singleton]
  rw [Table.filter_lines_build, Table.shown, names_sumSteps h, subtotalsOf_sumSteps h,
    filterMap_header?_sumSteps, htotals,
    List.flatMap_map, List.flatMap_congr hlines, flatMap_withRows, List.map_map, List.append_nil]
  rfl

end Steps

/-! ## Values -/

section Values

variable {gs gs' : List Group}

theorem flatMap_entries_withRows (gs : List Group) :
    (withRows gs).flatMap Group.entries = gs.flatMap Group.entries := by
  unfold withRows
  induction gs with
  | nil => rfl
  | cons g gs ih => by_cases h : g.entries = [] <;> simp [h, ih]

/-- The values of all rows, group by group. -/
theorem map_value_flatMap (gs : List Group) :
    (gs.flatMap Group.entries).map Entry.value = (gs.map Group.content).flatMap Prod.snd := by
  rw [List.map_flatMap, List.flatMap_map]
  rfl

theorem map_content_withRows (gs : List Group) :
    (withRows gs).map Group.content = (gs.map Group.content).filter fun c => !c.2.isEmpty := by
  rw [List.filter_map]
  refine congrArg (List.map Group.content) (List.filter_congr fun g _ => ?_)
  simp [Group.content]

/-- The integer that a value is. -/
def intOf : Value → Int64
  | .int n => n
  | _ => 0

theorem map_int_intOf {entries : List Entry} (h : ∀ e ∈ entries, ∃ n, e.value = .int n) :
    entries.map Entry.value = (entries.map fun e => intOf e.value).map Value.int := by
  rw [List.map_map]
  refine List.map_congr_left fun e he => ?_
  obtain ⟨n, hn⟩ := h e he
  rw [Function.comp_apply, hn]
  rfl

/-- The total of integers is the sum of the subtotals. -/
theorem toInt_of_summed_groups {groups : List Group} {subtotal : Group → Value} {total : Value}
    (hints : ∀ g ∈ groups, ∀ e ∈ g.entries, ∃ n, e.value = .int n)
    (hsubtotals : ∀ g ∈ groups, summed (g.entries.map Entry.value) = .ok (subtotal g))
    (htotal : summed ((groups.flatMap Group.entries).map Entry.value) = .ok total) :
    ∃ (n : Int64) (m : Group → Int64), total = .int n ∧ (∀ g ∈ groups, subtotal g = .int (m g)) ∧
      n.toInt = (groups.map fun g => (m g).toInt).sum := by
  have hall : ∀ e ∈ groups.flatMap Group.entries, ∃ n, e.value = .int n := by
    intro e he
    obtain ⟨g, hg, he⟩ := List.mem_flatMap.mp he
    exact hints g hg e he
  rw [map_int_intOf hall] at htotal
  obtain ⟨n, rfl, hn⟩ := toInt_of_summed htotal
  have hgroup : ∀ g ∈ groups, ∃ m : Int64, subtotal g = .int m ∧
      m.toInt = (g.entries.map fun e => (intOf e.value).toInt).sum := by
    intro g hg
    have hsubtotal := hsubtotals g hg
    rw [map_int_intOf (hints g hg)] at hsubtotal
    obtain ⟨m, hm, hsum⟩ := toInt_of_summed hsubtotal
    rw [List.map_map] at hsum
    exact ⟨m, hm, hsum⟩
  -- the sum over all rows, put together group by group
  have hparts : ((groups.flatMap Group.entries).map fun e => (intOf e.value).toInt).sum
      = (groups.map fun g => (g.entries.map fun e => (intOf e.value).toInt).sum).sum := by
    clear * -
    induction groups with
    | nil => rfl
    | cons g groups ih =>
      rw [List.flatMap_cons, List.map_append, List.sum_append, ih, List.map_cons, List.sum_cons]
  refine ⟨n, fun g => intOf (subtotal g), rfl, fun g hg => ?_, ?_⟩
  · obtain ⟨m, hm, -⟩ := hgroup g hg
    dsimp only
    rw [hm]
    rfl
  · rw [hn, List.map_map]
    refine hparts.trans (congrArg List.sum (List.map_congr_left fun g hg => ?_))
    obtain ⟨m, hm, hsum⟩ := hgroup g hg
    dsimp only
    rw [hm, ← hsum]
    rfl

end Values

/-! ## Subtotals and the total -/

theorem exists_of_addSubtotals {all : Value} {groups : List Group} {t t' : Table} {f : String}
    (h : addSubtotals s all groups t (TableSpec.plainSubtotal f) = .ok t') :
    ∃ v : Group → Value,
      (∀ g ∈ withRows groups, aggregate s f [valuesOf g.entries, all] = .ok (v g)) ∧
        t' = ((withRows groups).map fun g => Table.Step.subtotal g.name.toList
          [f.toList, Display.render s.settings.style (v g)]).foldl Table.apply t := by
  -- no aggregate has failed, so the value that stands in for an error is never used
  refine ⟨fun g => (aggregate s f [valuesOf g.entries, all]).toOption.getD .nothing, ?_⟩
  unfold addSubtotals at h
  rw [← withRows] at h
  generalize withRows groups = L at h ⊢
  induction L generalizing t with
  | nil =>
    cases h
    exact ⟨by simp, rfl⟩
  | cons g L ih =>
    rw [List.foldlM_cons] at h
    obtain ⟨next, hnext, h⟩ := bind_eq_ok h
    rw [aggregateRow, aggregateCell_plain rfl] at hnext
    cases hv : aggregate s f [valuesOf g.entries, all] with
    | error e =>
      rw [TableSpec.plainSubtotal, hv] at hnext
      cases hnext
    | ok v =>
      rw [TableSpec.plainSubtotal, hv] at hnext
      cases hnext
      obtain ⟨hvalues, hsteps⟩ := ih h
      have hvalue : (aggregate s f [valuesOf g.entries, all]).toOption.getD .nothing = v := by
        rw [hv]
        rfl
      refine ⟨List.forall_mem_cons.mpr ⟨?_, hvalues⟩, ?_⟩
      · dsimp only
        rw [hvalue, hv]
      · rw [hsteps, List.map_cons, List.foldl_cons]
        dsimp only
        rw [hvalue]
        rfl

/-- The row of a sum. -/
def sumRow (s : Source) (v : Value) : Row := ["sum".toList, Display.render s.settings.style v]

/-- A table shows groups with a subtotal below each and a total below all of them, and both are sums. -/
structure Summed (s : Source) (t : Table) (groups : List Group) (subtotal : Group → Value) (total : Value) :
    Prop where
  /-- No two groups have the same name. -/
  nodup : (groups.map Group.name).Nodup
  /-- Every group has rows. -/
  nonempty : ∀ g ∈ groups, g.entries ≠ []
  /-- Every row shows its value and has a cell below every header. -/
  rows : ∀ g ∈ groups, ∀ e ∈ g.entries, (∃ k, e.Wide s k) ∧ e.cells.length = t.headers.length
  /-- The subtotal of a group gets the values of its rows, and those of all rows besides. -/
  subtotals : ∀ g ∈ groups,
    aggregate s "sum" [valuesOf g.entries, valuesOf (groups.flatMap Group.entries)] = .ok (subtotal g)
  /-- The values of all rows do not change it. -/
  alone : ∀ g ∈ groups, aggregate s "sum" [valuesOf g.entries] = .ok (subtotal g)
  /-- The total gets the values of all rows, group by group. -/
  totals : aggregate s "sum" [valuesOf (groups.flatMap Group.entries)] = .ok total
  /-- The rows of a group stand together with its subtotal below them; the group without a title stands in
  front, and its subtotal between the last group and the total. -/
  lines : t.lines.filter (fun l => !l.isBorder) = .cells t.headers ::
    (groups.flatMap (fun g => Table.shownLines g.name.toList (g.entries.map Entry.cells)
        [sumRow s (subtotal g)]) ++
      (groups.filter fun g => g.name.toList == []).map (fun g => .cells (sumRow s (subtotal g))) ++
      [.cells (sumRow s total)])
  /-- The total of integers is the sum of the subtotals. -/
  sum : (∀ g ∈ groups, ∀ e ∈ g.entries, ∃ n, e.value = .int n) →
    ∃ (n : Int64) (m : Group → Int64), total = .int n ∧ (∀ g ∈ groups, subtotal g = .int (m g)) ∧
      n.toInt = (groups.map fun g => (m g).toInt).sum

theorem length_cells_of_wide {k : Nat} {e : Entry} (h : e.Wide s k) : e.cells.length = 3 + k := by
  obtain ⟨label, template, text, remark, more, -, hcells, hmore⟩ := h
  rw [hcells, List.length_cons, List.length_cons, List.length_cons, hmore]
  omega

theorem headers_sumSteps (headers : Row) (groups : List Group) (subtotal : Group → Row) (total : Row) :
    (Table.build headers (sumSteps groups subtotal total)).headers = headers := by
  rw [Table.build_eq]
  exact (congrArg (headers ++ ·) (filterMap_header?_sumSteps groups subtotal total)).trans
    (List.append_nil headers)

/-- The titles of the columns that a specification asks for. -/
def titles (spec : TableSpec) : Row :=
  headers ++ (spec.aggregates.filter fun a => a.kind == .column).map fun a => a.title.toList

section Spec

variable {spec : TableSpec} {t : Table}

/-- The steps of a table with a subtotal and a total. -/
theorem exists_of_tableOfSpec (h : tableOfSpec s spec = .ok t)
    (hsubtotal : spec.aggregates.filter (fun a => a.kind == .subtotal) = [TableSpec.plainSubtotal "sum"])
    (htotal : spec.aggregates.filter (fun a => a.kind == .total) = [TableSpec.plainTotal "sum"]) :
    ∃ (plain full : List Group) (subtotal : Group → Value) (total : Value),
      let all := valuesOf (plain.flatMap Group.entries)
      TableReport.groups s spec.names = .ok plain ∧
      (spec.aggregates.filter fun a => a.kind == .column).foldlM (addColumn s all) plain = .ok full ∧
      (∀ g ∈ withRows full, aggregate s "sum" [valuesOf g.entries, all] = .ok (subtotal g)) ∧
      aggregate s "sum" [all] = .ok total ∧
      t = Table.build (titles spec) (sumSteps full (fun g => sumRow s (subtotal g)) (sumRow s total)) := by
  obtain ⟨plain, hplain, h⟩ := bind_eq_ok h
  obtain ⟨full, hfull, h⟩ := bind_eq_ok h
  obtain ⟨below, hbelow, h⟩ := bind_eq_ok h
  dsimp only at hbelow h
  rw [hsubtotal, List.foldlM_cons] at hbelow
  obtain ⟨_, hsubtotals, hbelow⟩ := bind_eq_ok hbelow
  cases hbelow
  obtain ⟨subtotal, hvalues, hsteps⟩ := exists_of_addSubtotals hsubtotals
  rw [htotal, List.foldlM_cons] at h
  obtain ⟨_, hlast, h⟩ := bind_eq_ok h
  cases h
  rw [addTotal_plainTotal] at hlast
  cases hall : aggregate s "sum" [valuesOf (plain.flatMap Group.entries)] with
  | error e =>
    rw [hall] at hlast
    cases hlast
  | ok total =>
    rw [hall] at hlast
    cases hlast
    refine ⟨plain, full, subtotal, total, hplain, hfull, hvalues, hall, ?_⟩
    rw [hsteps, tableOf_eq_build]
    simp only [sumSteps, Table.build, List.foldl_append]
    rfl

/-- **Subtotals and the total.** The groups that a table shows have the names and the values that the names of
the specification stand for, and its aggregates get these values and no others. -/
theorem tableOfSpec_summed (h : tableOfSpec s spec = .ok t) (hs : s.context.Spelled)
    (hsum : s.context.function? "sum" = none)
    (hsubtotal : spec.aggregates.filter (fun a => a.kind == .subtotal) = [TableSpec.plainSubtotal "sum"])
    (htotal : spec.aggregates.filter (fun a => a.kind == .total) = [TableSpec.plainTotal "sum"]) :
    ∃ plain groups subtotal total, TableReport.groups s spec.names = .ok plain ∧
      groups.map Group.content = (withRows plain).map Group.content ∧
      t.headers = titles spec ∧ Summed s t groups subtotal total := by
  obtain ⟨plain, full, subtotal, total, hplain, hfull, hsubtotals, htotals, rfl⟩ :=
    exists_of_tableOfSpec h hsubtotal htotal
  obtain ⟨hgathered, hcontent⟩ := gathered_columns hfull (gathered_groups hplain hs)
  -- the values of all rows are those of the rows that are shown
  have hall : (plain.flatMap Group.entries).map Entry.value
      = ((withRows full).flatMap Group.entries).map Entry.value := by
    rw [flatMap_entries_withRows, map_value_flatMap, map_value_flatMap, hcontent]
  have hheaders := headers_sumSteps (titles spec) full (fun g => sumRow s (subtotal g)) (sumRow s total)
  have hlength : (titles spec).length
      = 3 + (0 + (spec.aggregates.filter fun a => a.kind == .column).length) := by
    rw [titles, List.length_append, List.length_map, Nat.zero_add]
    rfl
  have hsummed : ∀ g ∈ withRows full, summed (g.entries.map Entry.value) = .ok (subtotal g) := by
    intro g hg
    rw [← aggregate_sum_pair hsum]
    exact hsubtotals g hg
  rw [valuesOf, hall] at htotals hsubtotals
  refine ⟨plain, withRows full, subtotal, total, hplain, ?_, hheaders, ?_⟩
  · rw [map_content_withRows, map_content_withRows, hcontent]
  · refine
      { nodup := hgathered.nodup.sublist (List.filter_sublist.map _)
        nonempty := fun g hg => by simpa using (List.mem_filter.mp hg).2
        rows := fun g hg e he => ?_
        subtotals := hsubtotals
        alone := fun g hg => (aggregate_sum hsum _).trans (hsummed g hg)
        totals := htotals
        lines := ?_
        sum := fun hints => toInt_of_summed_groups hints hsummed ?_ }
    · have hwide := hgathered.rows g (List.mem_filter.mp hg).1 e he
      refine ⟨⟨_, hwide⟩, ?_⟩
      rw [hheaders, hlength, length_cells_of_wide hwide]
    · rw [hheaders, filter_lines_sumSteps _ hgathered]
    · rw [← aggregate_sum hsum]
      exact htotals

end Spec

end TableReport

end Worksheet
