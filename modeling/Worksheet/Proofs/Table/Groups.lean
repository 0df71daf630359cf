import Mathlib.Data.List.Perm.Basic
import Worksheet.Proofs.Table.Steps

/-!
# What a table shows

A table is read off the steps that build it: a row goes to the group that has been begun last, a subtotal to the group
that it names, if that one has been begun, and the groups stand in the order in which they have been begun.

* **`Table.names`**, **`Table.placedRows`**, **`Table.placedSubtotals`** — groups, rows and subtotals, read off the steps.
* **`Table.build_eq`** — the table has these groups with these rows and subtotals.
* **`Table.perm_flatMap_ofGroup`** — what is placed in some group stands in one group, once.
* **`Table.shown_build`** — what a table shows, in order.
-/

namespace Worksheet.Table

open Text
open scoped List

/-! ## Reading the steps -/

/-- The group that a step begins. -/
@[simp]
def Step.begun? : Step → Option (List Char)
  | group name => some (trim name)
  | _ => none

/-- The column that a step adds. -/
@[simp]
def Step.header? : Step → Option (List Char)
  | header title => some title
  | _ => none

/-- The row that a step adds. -/
@[simp]
def Step.row? : Step → Option Row
  | row cells => some cells
  | _ => none

/-- The total that a step adds. -/
@[simp]
def Step.total? : Step → Option Row
  | total cells => some cells
  | _ => none

/-- The names of the groups in the order in which they are begun; the group without a name is there at first. -/
def names (steps : List Step) : List (List Char) := ([] :: steps.filterMap Step.begun?).eraseDups

/-- The group to which a row goes after some steps, if it went to another one before. -/
def lastBegun (current : List Char) (steps : List Step) : List Char :=
  steps.foldl (fun current s => s.begun?.getD current) current

/-- The rows, each with the group that has been begun last when it is added. -/
def placedRows (current : List Char) : List Step → List (List Char × Row)
  | [] => []
  | .group name :: steps => placedRows (trim name) steps
  | .row cells :: steps => (current, cells) :: placedRows current steps
  | _ :: steps => placedRows current steps

/-- The subtotals, each with its group; if the group has not been begun, the subtotal is left out. -/
def placedSubtotals (begun : List (List Char)) : List Step → List (List Char × Row)
  | [] => []
  | .group name :: steps => placedSubtotals (begun ++ [trim name]) steps
  | .subtotal name cells :: steps =>
    if name ∈ begun then (name, cells) :: placedSubtotals begun steps else placedSubtotals begun steps
  | _ :: steps => placedSubtotals begun steps

/-- What has been placed in a group. -/
def ofGroup (name : List Char) (placed : List (List Char × Row)) : List Row :=
  placed.filterMap fun p => if p.1 = name then some p.2 else none

/-! ## Names -/

section Names

variable (steps : List Step)

theorem eraseDups_concat {α : Type} [BEq α] [LawfulBEq α] (xs : List α) (x : α) :
    (xs ++ [x]).eraseDups = if x ∈ xs then xs.eraseDups else xs.eraseDups ++ [x] := by
  rw [List.eraseDups_append]
  by_cases h : x ∈ xs
  · simp [List.removeAll, h]
  · simp [List.removeAll, h, List.eraseDups_cons]

theorem nodup_eraseDups {α : Type} [BEq α] [LawfulBEq α] (xs : List α) : xs.eraseDups.Nodup := by
  induction xs using List.reverseRecOn with
  | nil => simp
  | append_singleton xs x ih =>
    rw [eraseDups_concat]
    split
    · exact ih
    · next h =>
      have hnew : x ∉ xs.eraseDups := fun hmem => h (List.mem_eraseDups.mp hmem)
      refine List.nodup_append.mpr ⟨ih, by simp, fun y hy z hz heq => ?_⟩
      exact hnew (List.mem_singleton.mp hz ▸ heq ▸ hy)

theorem eraseDups_of_nodup {α : Type} [BEq α] [LawfulBEq α] {xs : List α} (h : xs.Nodup) :
    xs.eraseDups = xs := by
  induction xs using List.reverseRecOn with
  | nil => simp
  | append_singleton xs x ih =>
    obtain ⟨hxs, -, hnew⟩ := List.nodup_append.mp h
    rw [eraseDups_concat, if_neg fun hmem => hnew x hmem x List.mem_cons_self rfl, ih hxs]

theorem nodup_names : (names steps).Nodup := nodup_eraseDups _

theorem head?_names : (names steps).head? = some [] := by
  simp [names, List.eraseDups_cons]

theorem exists_names_eq_cons : ∃ ns, names steps = [] :: ns ∧ [] ∉ ns := by
  obtain ⟨ns, hns⟩ := List.head?_eq_some_iff.mp (head?_names steps)
  have hnodup := nodup_names steps
  rw [hns] at hnodup
  exact ⟨ns, hns, (List.nodup_cons.mp hnodup).1⟩

variable {steps} in
theorem mem_names {name : List Char} : name ∈ names steps ↔ name ∈ [] :: steps.filterMap Step.begun? :=
  List.mem_eraseDups

theorem names_concat (s : Step) : names (steps ++ [s]) =
    match s.begun? with
    | some name => if name ∈ names steps then names steps else names steps ++ [name]
    | none => names steps := by
  simp only [mem_names]
  unfold names
  rw [List.filterMap_append]
  cases hs : s.begun? with
  | none => rw [List.filterMap_cons_none hs, List.filterMap_nil, List.append_nil]
  | some name => rw [List.filterMap_cons_some hs, List.filterMap_nil, ← List.cons_append, eraseDups_concat]

end Names

/-! ## Places -/

section Places

variable {xs ys : List Step}

theorem lastBegun_concat (current : List Char) (s : Step) :
    lastBegun current (xs ++ [s]) = s.begun?.getD (lastBegun current xs) := by
  simp [lastBegun]

theorem placedRows_append (current : List Char) :
    placedRows current (xs ++ ys) = placedRows current xs ++ placedRows (lastBegun current xs) ys := by
  induction xs generalizing current with
  | nil => rfl
  | cons s xs ih => cases s <;> simp [placedRows, lastBegun, ih]

theorem placedSubtotals_append (begun : List (List Char)) : placedSubtotals begun (xs ++ ys) =
    placedSubtotals begun xs ++ placedSubtotals (begun ++ xs.filterMap Step.begun?) ys := by
  induction xs generalizing begun with
  | nil => simp [placedSubtotals]
  | cons s xs ih =>
    cases s with
    | group name => simp [placedSubtotals, ih]
    | subtotal name cells =>
      have hbegun : (Step.subtotal name cells :: xs).filterMap Step.begun? = xs.filterMap Step.begun? := rfl
      rw [hbegun, List.cons_append, placedSubtotals, placedSubtotals]
      split <;> simp [ih]
    | _ => exact ih begun

/-- Rows are placed in groups that have been begun. -/
theorem mem_of_mem_placedRows {current : List Char} {p : List Char × Row} (h : p ∈ placedRows current xs) :
    p.1 ∈ current :: xs.filterMap Step.begun? := by
  induction xs generalizing current with
  | nil => cases h
  | cons s xs ih =>
    cases s with
    | group name => exact List.mem_cons_of_mem current (ih h)
    | row cells =>
      rcases List.mem_cons.mp h with rfl | h
      · exact List.mem_cons_self
      · exact ih h
    | header | subtotal | total => exact ih h

/-- Subtotals are placed in groups that have been begun. -/
theorem mem_of_mem_placedSubtotals {begun : List (List Char)} {p : List Char × Row}
    (h : p ∈ placedSubtotals begun xs) : p.1 ∈ begun ++ xs.filterMap Step.begun? := by
  induction xs generalizing begun with
  | nil => cases h
  | cons s xs ih =>
    cases s with
    | group name => simpa using ih h
    | subtotal name cells =>
      unfold placedSubtotals at h
      split at h
      · next hname =>
        rcases List.mem_cons.mp h with rfl | h
        · exact List.mem_append_left _ hname
        · exact ih h
      · exact ih h
    | header | row | total => exact ih h

end Places

/-! ## Groups -/

section OfGroup

variable (name : List Char) (placed : List (List Char × Row))

theorem ofGroup_cons (p : List Char × Row) :
    ofGroup name (p :: placed) = if p.1 = name then p.2 :: ofGroup name placed else ofGroup name placed := by
  unfold ofGroup
  split <;> simp [*]

theorem ofGroup_append (placed' : List (List Char × Row)) :
    ofGroup name (placed ++ placed') = ofGroup name placed ++ ofGroup name placed' :=
  List.filterMap_append

theorem ofGroup_concat (p : List Char × Row) :
    ofGroup name (placed ++ [p]) = if p.1 = name then ofGroup name placed ++ [p.2] else ofGroup name placed := by
  unfold ofGroup
  rw [List.filterMap_append]
  split <;> simp [*]

variable {name placed}

theorem ofGroup_eq_nil (h : ∀ p ∈ placed, p.1 ≠ name) : ofGroup name placed = [] := by
  simpa [ofGroup] using h

/-- What is placed in some group stands in one group, once. -/
theorem perm_flatMap_ofGroup {ns : List (List Char)} (hns : ns.Nodup) (h : ∀ p ∈ placed, p.1 ∈ ns) :
    (ns.flatMap fun n => ofGroup n placed).Perm (placed.map Prod.snd) := by
  induction placed with
  | nil => simp [ofGroup]
  | cons p placed ih =>
    obtain ⟨before, after, hsplit⟩ := List.append_of_mem (h p List.mem_cons_self)
    -- outside of the group of the first one nothing changes
    have hother : ∀ ns' : List (List Char), p.1 ∉ ns' →
        ns'.flatMap (fun n => ofGroup n (p :: placed)) = ns'.flatMap fun n => ofGroup n placed := by
      intro ns' hnot
      refine List.flatMap_congr fun n hn => ?_
      rw [ofGroup_cons, if_neg (by rintro rfl; exact hnot hn)]
    have hperm := ih fun q hq => h q (List.mem_cons_of_mem p hq)
    rw [hsplit] at hns hperm ⊢
    have hbefore : p.1 ∉ before := fun hmem => (List.nodup_append.mp hns).2.2 _ hmem _ List.mem_cons_self rfl
    have hafter : p.1 ∉ after := (List.nodup_cons.mp (List.nodup_append.mp hns).2.1).1
    rw [List.flatMap_append, List.flatMap_cons, hother before hbefore, hother after hafter, ofGroup_cons, if_pos rfl]
    rw [List.flatMap_append, List.flatMap_cons] at hperm
    exact List.perm_middle.trans (hperm.cons p.2)

end OfGroup

/-- Groups with what has been placed in them. -/
def grouped (ns : List (List Char)) (rows subtotals : List (List Char × Row)) : List RowGroup :=
  ns.map fun n => ⟨n, ofGroup n rows, ofGroup n subtotals⟩

section Grouped

variable {ns : List (List Char)} {rows subtotals : List (List Char × Row)} {name : List Char}

theorem map_grouped {f : RowGroup → RowGroup} {rows' subtotals' : List (List Char × Row)}
    (hself : name ∈ ns → f ⟨name, ofGroup name rows, ofGroup name subtotals⟩ =
      ⟨name, ofGroup name rows', ofGroup name subtotals'⟩)
    (hother : ∀ n, n ≠ name → ofGroup n rows' = ofGroup n rows ∧ ofGroup n subtotals' = ofGroup n subtotals) :
    (grouped ns rows subtotals).map (fun g => if g.name == name then f g else g) = grouped ns rows' subtotals' := by
  unfold grouped
  rw [List.map_map]
  refine List.map_congr_left fun n hn => ?_
  by_cases h : n = name
  · subst h
    simpa using hself hn
  · simp [h, hother n h]

theorem grouped_addRow (cells : Row) :
    (grouped ns rows subtotals).map (fun g => if g.name == name then { g with rows := g.rows ++ [cells] } else g) =
      grouped ns (rows ++ [(name, cells)]) subtotals :=
  map_grouped (fun _ => by simp [ofGroup_concat]) fun n hn => by simp [ofGroup_concat, hn.symm]

theorem grouped_addSubtotal (cells : Row) :
    (grouped ns rows subtotals).map
        (fun g => if g.name == name then { g with subtotals := g.subtotals ++ [cells] } else g) =
      grouped ns rows (subtotals ++ [(name, cells)]) :=
  map_grouped (fun _ => by simp [ofGroup_concat]) fun n hn => by simp [ofGroup_concat, hn.symm]

/-- Without its group a subtotal changes nothing. -/
theorem grouped_of_not_mem (h : name ∉ ns) (f : RowGroup → RowGroup) :
    (grouped ns rows subtotals).map (fun g => if g.name == name then f g else g) = grouped ns rows subtotals :=
  map_grouped (fun hmem => absurd hmem h) fun _ _ => ⟨rfl, rfl⟩

theorem any_grouped : (grouped ns rows subtotals).any (·.name == name) = decide (name ∈ ns) := by
  rw [Bool.eq_iff_iff]
  simp [grouped]

/-- A group that nothing is placed in is empty. -/
theorem grouped_concat (hrows : ∀ p ∈ rows, p.1 ≠ name) (hsubtotals : ∀ p ∈ subtotals, p.1 ≠ name) :
    grouped (ns ++ [name]) rows subtotals = grouped ns rows subtotals ++ [⟨name, [], []⟩] := by
  simp [grouped, ofGroup_eq_nil hrows, ofGroup_eq_nil hsubtotals]

end Grouped

/-- **The table that comes of some steps**, read off the steps. -/
theorem build_eq (headers : Row) (steps : List Step) : build headers steps =
    { headers := headers ++ steps.filterMap Step.header?
      groups := grouped (names steps) (placedRows [] steps) (placedSubtotals [[]] steps)
      current := lastBegun [] steps
      totals := steps.filterMap Step.total? } := by
  induction steps using List.reverseRecOn with
  | nil => simp [build, ofHeaders, names, grouped, ofGroup, placedRows, placedSubtotals, lastBegun, List.eraseDups_cons]
  | append_singleton steps s ih =>
    rw [build_concat, ih, names_concat, placedRows_append, placedSubtotals_append, lastBegun_concat]
    cases s with
    | header title => simp [apply, addHeader, placedRows, placedSubtotals]
    | group name =>
      by_cases h : trim name ∈ names steps
      · simp [apply, begin, any_grouped, h, placedRows, placedSubtotals]
      · -- nothing has been placed in a group that begins only now
        have hrows : ∀ p ∈ placedRows [] steps, p.1 ≠ trim name := fun p hp heq =>
          h (mem_names.mpr (heq ▸ mem_of_mem_placedRows hp))
        have hsubtotals : ∀ p ∈ placedSubtotals [[]] steps, p.1 ≠ trim name := fun p hp heq =>
          h (mem_names.mpr (heq ▸ mem_of_mem_placedSubtotals hp))
        simp [apply, begin, any_grouped, h, grouped_concat hrows hsubtotals, placedRows, placedSubtotals]
    | row cells =>
      rw [apply, addRow, changeGroup, grouped_addRow]
      simp [placedRows, placedSubtotals]
    | subtotal name cells =>
      have hplaced : placedSubtotals ([[]] ++ steps.filterMap Step.begun?) [.subtotal name cells] =
          if name ∈ names steps then [(name, cells)] else [] := by
        simp only [placedSubtotals, mem_names, List.singleton_append]
      rw [apply, addSubtotal, changeGroup, hplaced]
      by_cases h : name ∈ names steps
      · rw [grouped_addSubtotal, if_pos h]
        simp [placedRows]
      · rw [grouped_of_not_mem h, if_neg h]
        simp [placedRows]
    | total cells => simp [apply, addTotal, placedRows, placedSubtotals]

/-! ## What is shown -/

section Shown

variable (headers : Row) (steps : List Step)

/-- The rows of a group. -/
def rowsOf (name : List Char) : List Row := ofGroup name (placedRows [] steps)

/-- The subtotals of a group. -/
def subtotalsOf (name : List Char) : List Row := ofGroup name (placedSubtotals [[]] steps)

/-- What is shown of a group under its title: nothing without rows. -/
def linesOf (name : List Char) : List Line :=
  if rowsOf steps name = [] then [] else shownLines name (rowsOf steps name) (subtotalsOf steps name)

/-- What is shown between the borders: the headers, the groups, the subtotals of the rows without a title, and the totals. -/
def shown : List Line :=
  .cells (headers ++ steps.filterMap Step.header?) :: ((names steps).flatMap (linesOf steps) ++
    (subtotalsOf steps []).map .cells ++ (steps.filterMap Step.total?).map .cells)

/-- The subtotals that are shown, each with its group: a group with a name and without rows is not shown. -/
def shownSubtotals : List (List Char × Row) :=
  (placedSubtotals [[]] steps).filter fun p => p.1 = [] ∨ rowsOf steps p.1 ≠ []

/-- The row in a line. -/
def Line.row? : Line → Option Row
  | cells row => some row
  | _ => none

/-! ### In order -/

variable {steps} in
theorem flatMap_shownGroups {t : Table}
    (h : t.groups = grouped (names steps) (placedRows [] steps) (placedSubtotals [[]] steps)) :
    t.shownGroups.flatMap (fun g => shownLines g.name g.rows g.subtotals) = (names steps).flatMap (linesOf steps) := by
  rw [shownGroups, h]
  unfold grouped
  induction names steps with
  | nil => rfl
  | cons name ns ih =>
    by_cases hrows : rowsOf steps name = []
    · rw [List.flatMap_cons, linesOf, if_pos hrows, ← ih]
      rw [rowsOf] at hrows
      simp [hrows]
    · rw [List.flatMap_cons, linesOf, if_neg hrows, ← ih]
      rw [rowsOf] at hrows
      simp [hrows, rowsOf, subtotalsOf]

variable {steps} in
theorem untitledSubtotals_eq {t : Table}
    (h : t.groups = grouped (names steps) (placedRows [] steps) (placedSubtotals [[]] steps)) :
    t.untitledSubtotals = subtotalsOf steps [] := by
  obtain ⟨ns, hns, hrest⟩ := exists_names_eq_cons steps
  have hnamed : (grouped ns (placedRows [] steps) (placedSubtotals [[]] steps)).filter (fun g => g.name.isEmpty) = [] := by
    rw [List.filter_eq_nil_iff]
    intro g hg hempty
    obtain ⟨n, hn, rfl⟩ := List.mem_map.mp hg
    exact hrest (List.isEmpty_iff.mp hempty ▸ hn)
  rw [untitledSubtotals, h, hns, subtotalsOf]
  unfold grouped at hnamed ⊢
  simp [hnamed]

/-- **What stands between the borders** of a table, read off the steps. -/
theorem filter_lines_build : (build headers steps).lines.filter (fun l => !l.isBorder) = shown headers steps := by
  have hgroups : (build headers steps).groups =
      grouped (names steps) (placedRows [] steps) (placedSubtotals [[]] steps) := by rw [build_eq]
  rw [filter_lines, flatMap_shownGroups hgroups, untitledSubtotals_eq hgroups, build_eq, shown]

theorem startsWith_text (widths : List Nat) (l : Line) : "|-".toList.isPrefixOf (l.text widths) = l.isBorder := by
  cases l <;> simp [Line.text, Line.isBorder, List.isPrefixOf]

/-! ### Once -/

theorem filterMap_row?_cells (rows : List Row) : (rows.map Line.cells).filterMap Line.row? = rows := by
  rw [List.filterMap_map]
  exact List.filterMap_some

theorem filterMap_row?_shownLines (name : List Char) (rows subtotals : List Row) :
    (shownLines name rows subtotals).filterMap Line.row? = rows ++ if name = [] then [] else subtotals := by
  cases name with
  | nil => rw [shownLines, List.isEmpty_nil, if_pos rfl, if_pos rfl, List.append_nil, filterMap_row?_cells]
  | cons c name =>
    have htitle : (Line.title (c :: name)).row? = none := rfl
    rw [shownLines, List.isEmpty_cons, if_neg Bool.false_ne_true, List.filterMap_cons_none htitle, filterMap_row?_cells,
      if_neg (List.cons_ne_nil c name)]

theorem map_snd_placedRows (current : List Char) :
    (placedRows current steps).map Prod.snd = steps.filterMap Step.row? := by
  induction steps generalizing current with
  | nil => rfl
  | cons s steps ih => cases s <;> simp [placedRows, List.filterMap_cons, ih]

theorem ofGroup_filter (name : List Char) (placed : List (List Char × Row)) (p : List Char → Bool) :
    ofGroup name (placed.filter fun q => p q.1) = if p name then ofGroup name placed else [] := by
  induction placed with
  | nil => simp [ofGroup]
  | cons q placed ih =>
    by_cases hq : q.1 = name
    · subst hq
      by_cases hp : p q.1 <;> simp [ofGroup_cons, hp, ih]
    · by_cases hp : p q.1 <;> simp [ofGroup_cons, hp, hq, ih]

theorem ofGroup_shownSubtotals (name : List Char) : ofGroup name (shownSubtotals steps) =
    if name = [] ∨ rowsOf steps name ≠ [] then subtotalsOf steps name else [] := by
  simpa [shownSubtotals, subtotalsOf] using
    ofGroup_filter name (placedSubtotals [[]] steps) fun name => decide (name = [] ∨ rowsOf steps name ≠ [])

theorem filterMap_row?_linesOf (name : List Char) : (linesOf steps name).filterMap Line.row? =
    rowsOf steps name ++ if name = [] then [] else ofGroup name (shownSubtotals steps) := by
  by_cases hrows : rowsOf steps name = []
  · rw [linesOf, if_pos hrows, hrows]
    by_cases hname : name = [] <;> simp [ofGroup_shownSubtotals, hrows, hname]
  · simp [linesOf, ofGroup_shownSubtotals, filterMap_row?_shownLines, hrows]

theorem mem_shownSubtotals {before after : List Step} {name : List Char} {cells : Row}
    (h : steps = before ++ .subtotal name cells :: after) (hbegun : name ∈ names before)
    (hshown : name = [] ∨ rowsOf steps name ≠ []) : (name, cells) ∈ shownSubtotals steps := by
  refine List.mem_filter.mpr ⟨?_, by simpa using hshown⟩
  rw [h, placedSubtotals_append, placedSubtotals, List.singleton_append, if_pos (mem_names.mp hbegun)]
  exact List.mem_append_right _ List.mem_cons_self

/-- **Every row is shown once**, with every total and with the subtotals of the groups that are shown. -/
theorem perm_shown : ((shown headers steps).filterMap Line.row?).Perm
    ((headers ++ steps.filterMap Step.header?) ::
      (steps.filterMap Step.row? ++ (shownSubtotals steps).map Prod.snd ++ steps.filterMap Step.total?)) := by
  obtain ⟨ns, hns, hrest⟩ := exists_names_eq_cons steps
  let subtotals := fun name => ofGroup name (shownSubtotals steps)
  have hrows : ((names steps).flatMap (rowsOf steps)).Perm (steps.filterMap Step.row?) := by
    rw [← map_snd_placedRows steps []]
    exact perm_flatMap_ofGroup (nodup_names steps) fun p hp => mem_names.mpr (mem_of_mem_placedRows hp)
  have hsubtotals : ((names steps).flatMap subtotals).Perm ((shownSubtotals steps).map Prod.snd) :=
    perm_flatMap_ofGroup (nodup_names steps) fun p hp =>
      mem_names.mpr (mem_of_mem_placedSubtotals (List.mem_filter.mp hp).1)
  rw [hns, List.flatMap_cons] at hrows hsubtotals
  -- a group with a title shows its rows and its subtotals together, the one without shows its subtotals at the end
  have htitled : ns.flatMap (fun name => (linesOf steps name).filterMap Line.row?) =
      ns.flatMap fun name => rowsOf steps name ++ subtotals name := by
    refine List.flatMap_congr fun name hname => ?_
    rw [filterMap_row?_linesOf, if_neg (by rintro rfl; exact hrest hname)]
  have huntitled : (linesOf steps []).filterMap Line.row? = rowsOf steps [] := by simp [filterMap_row?_linesOf]
  have hlast : subtotalsOf steps [] = subtotals [] := by simp [subtotals, ofGroup_shownSubtotals]
  have hheaders : (Line.cells (headers ++ steps.filterMap Step.header?)).row? =
      some (headers ++ steps.filterMap Step.header?) := rfl
  rw [shown, hns, List.filterMap_cons_some hheaders, List.filterMap_append, List.filterMap_append, filterMap_row?_cells,
    filterMap_row?_cells, List.filterMap_flatMap, List.flatMap_cons, huntitled, htitled, hlast]
  refine List.Perm.cons _ (List.Perm.append_right _ ?_)
  calc rowsOf steps [] ++ ns.flatMap (fun name => rowsOf steps name ++ subtotals name) ++ subtotals []
    _ ~ rowsOf steps [] ++ (ns.flatMap (rowsOf steps) ++ ns.flatMap subtotals) ++ subtotals [] :=
      ((List.flatMap_append_perm ns (rowsOf steps) subtotals).symm.append_left _).append_right _
    _ ~ (rowsOf steps [] ++ ns.flatMap (rowsOf steps)) ++ (subtotals [] ++ ns.flatMap subtotals) := by
      rw [← List.append_assoc, List.append_assoc _ (ns.flatMap subtotals)]
      exact List.perm_append_comm.append_left _
    _ ~ steps.filterMap Step.row? ++ (shownSubtotals steps).map Prod.snd := hrows.append hsubtotals

end Shown

/-- **A table shows every row once, in order**, whatever steps have built it. Its groups have different names, the one
without a name in front. Between its borders stand the headers, the groups that have rows, each with its title, rows and
subtotals, then the subtotals of the rows without a title and the totals. So no row and no total is lost or shown twice,
and a subtotal is left out only if its group has not been begun or has a name and no rows. -/
theorem shown_build (headers : Row) (steps : List Step) :
    let t := build headers steps
    t.groups.map RowGroup.name = names steps ∧ (names steps).Nodup ∧ (names steps).head? = some [] ∧
    t.lines.filter (fun l => !l.isBorder) = shown headers steps ∧
    ((∀ c ∈ headers, '\n' ∉ c) → (∀ s ∈ steps, s.Holds ('\n' ∉ ·) ('\n' ∉ ·)) →
      (Text.lines t.text).filter (fun l => !"|-".toList.isPrefixOf l) =
        (shown headers steps).map (Line.text t.widths)) ∧
    ((shown headers steps).filterMap Line.row?).Perm
      ((headers ++ steps.filterMap Step.header?) ::
        (steps.filterMap Step.row? ++ (shownSubtotals steps).map Prod.snd ++ steps.filterMap Step.total?)) ∧
    ∀ before after name cells, steps = before ++ Step.subtotal name cells :: after → name ∈ names before →
      name = [] ∨ rowsOf steps name ≠ [] → (name, cells) ∈ shownSubtotals steps := by
  intro t
  refine ⟨?_, nodup_names steps, head?_names steps, filter_lines_build headers steps, ?_, perm_shown headers steps,
    fun before after name cells => mem_shownSubtotals steps⟩
  · rw [show t = build headers steps from rfl, build_eq, grouped, List.map_map]
    exact List.map_id _
  · intro hheaders hsteps
    rw [lines_text (holds_build hheaders List.not_mem_nil hsteps), List.filter_map, ← filter_lines_build]
    simp only [Function.comp_def, startsWith_text, t]

/-- Rows without a title come first, and subtotals stand at their groups. -/
theorem shown_build_subtotals :
    let headers := ["Var".toList, "Value".toList]
    let steps := [Step.group "g".toList, .row ["a".toList, "1".toList], .group [], .row ["b".toList, "2".toList],
      .subtotal "g".toList ["sub".toList, "1".toList], .subtotal [] ["sub".toList, "2".toList]]
    (∀ c ∈ headers, '\n' ∉ c) ∧ (∀ s ∈ steps, s.Holds ('\n' ∉ ·) ('\n' ∉ ·)) ∧
      ((Text.lines (build headers steps).text).filter fun l => !"|-".toList.isPrefixOf l) =
        ["| Var | Value |".toList, "| b   | 2     |".toList, "| g           |".toList, "| a   | 1     |".toList,
          "| sub | 1     |".toList, "| sub | 2     |".toList] ∧
      ("g".toList, ["sub".toList, "1".toList]) ∈ shownSubtotals steps := by
  intro headers steps
  have hheaders : ∀ c ∈ headers, '\n' ∉ c := by decide
  have hsteps : ∀ s ∈ steps, s.Holds ('\n' ∉ ·) ('\n' ∉ ·) := by decide
  obtain ⟨-, -, -, -, hlines, -, hsubtotals⟩ := shown_build headers steps
  refine ⟨hheaders, hsteps, (hlines hheaders hsteps).trans ?_,
    hsubtotals (steps.take 4) [.subtotal [] ["sub".toList, "2".toList]] _ _ rfl ?_ (.inr ?_)⟩
  all_goals decide +kernel

end Worksheet.Table
