import Mathlib.Data.List.Sort
import Worksheet.Library.Basic
import Worksheet.Proofs.Arithmetic.Order

/-!
# Sequences of exact numbers in order

Integers, truth values and fractions are compared exactly, so that a sequence of them can be put in order, and has a
least and a greatest item. Items that are equal as numbers need not be equal as values; they keep their order.

* **`StablySorted`** — ascending order, in which equal items keep their order; there is just one such list
  (`StablySorted.unique`).
* **`sorted_eq_ok_iff`** — sorting finds this list.
* **`extreme_spec`** — the least and the greatest item.
* **`ordering_exact`** — the headline, for the functions of the library.
-/

namespace Worksheet.Library

open Arithmetic

/-- Are all items integers, truth values or fractions? -/
def AllExact (items : List Value) : Prop := ∀ v ∈ items, (exactNumber? v).isSome

instance (items : List Value) : Decidable (AllExact items) := by unfold AllExact; infer_instance

/-- The exact number that an item counts as. -/
def number (v : Value) : ℚ := (exactNumber? v).getD 0

theorem compare_eq_cmp {a b : Value} (ha : (exactNumber? a).isSome) (hb : (exactNumber? b).isSome) :
    compare a b = some (cmp (number a) (number b)) := by
  obtain ⟨x, hx⟩ := Option.isSome_iff_exists.mp ha
  obtain ⟨y, hy⟩ := Option.isSome_iff_exists.mp hb
  rw [compare_exact hx hy, number, number, hx, hy]
  rfl

/-! ## Stable order -/

/-- The items in ascending order, equal ones in their own order. -/
structure StablySorted (items s : List Value) : Prop where
  perm : s.Perm items
  ascending : s.Pairwise fun a b => number a ≤ number b
  stable : ∀ q, (s.filter fun v => number v = q) = items.filter fun v => number v = q

/-- A list in ascending order is told by the order of equal items. -/
theorem eq_of_filter_number {s t : List Value} (hs : s.Pairwise fun a b => number a ≤ number b)
    (ht : t.Pairwise fun a b => number a ≤ number b) (hperm : s.Perm t)
    (h : ∀ q, (s.filter fun v => number v = q) = t.filter fun v => number v = q) : s = t := by
  induction s generalizing t with
  | nil => exact (List.nil_perm.mp hperm).symm
  | cons a s ih =>
    cases t with
    | nil => exact absurd hperm (List.cons_ne_nil a s ∘ List.perm_nil.mp)
    | cons b t =>
      rw [List.pairwise_cons] at hs ht
      -- each of the two heads is least in its own list, and both lists have the same items
      have hab : number a ≤ number b := by
        rcases List.mem_cons.mp (hperm.mem_iff.mpr List.mem_cons_self) with rfl | hb
        · exact le_refl _
        · exact hs.1 b hb
      have hba : number b ≤ number a := by
        rcases List.mem_cons.mp (hperm.mem_iff.mp List.mem_cons_self) with rfl | ha
        · exact le_refl _
        · exact ht.1 a ha
      have hhead := h (number a)
      simp only [List.filter_cons, le_antisymm hba hab, decide_true, if_true] at hhead
      obtain ⟨rfl, -⟩ := List.cons.inj hhead
      refine congrArg _ (ih hs.2 ht.2 (List.perm_cons a |>.mp hperm) fun q => ?_)
      have hq := h q
      simp only [List.filter_cons] at hq
      split at hq
      · exact (List.cons.inj hq).2
      · exact hq

theorem StablySorted.unique {items s t : List Value} (hs : StablySorted items s) (ht : StablySorted items t) :
    s = t :=
  eq_of_filter_number hs.ascending ht.ascending (hs.perm.trans ht.perm.symm) fun q =>
    (hs.stable q).trans (ht.stable q).symm

/-! ## Sorting -/

/-- Is the first item at least the second? -/
def NotBelow (a b : Value) : Prop := number b ≤ number a

instance : DecidableRel NotBelow := fun a b => inferInstanceAs (Decidable (number b ≤ number a))

instance : Std.Total NotBelow := ⟨fun a b => le_total (number b) (number a)⟩

instance : IsTrans Value NotBelow := ⟨fun _ _ _ hab hbc => le_trans hbc hab⟩

/-- An item is put above those that are not greater, and nothing goes wrong. -/
theorem insertDescending_eq {x : Value} {l : List Value} (hx : (exactNumber? x).isSome) (hl : AllExact l)
    (failure : Option ArithmeticError) :
    insertDescending x l failure = (l.orderedInsert NotBelow x, failure) := by
  induction l with
  | nil => rfl
  | cons y l ih =>
    rw [insertDescending, compare_eq_cmp hx (hl y List.mem_cons_self), ih fun v hv => hl v (List.mem_cons_of_mem y hv),
      List.orderedInsert_cons]
    -- the function asks for three answers, the order of the library for one
    rcases lt_or_ge (number x) (number y) with hlt | hge
    · rw [(cmp_eq_lt_iff _ _).mpr hlt, if_neg (show ¬NotBelow x y from not_le.mpr hlt)]
    · have hne : cmp (number x) (number y) ≠ .lt := fun h => ((cmp_eq_lt_iff _ _).mp h).not_ge hge
      rw [if_pos (show NotBelow x y from hge)]
      cases h : cmp (number x) (number y) with
      | lt => exact absurd h hne
      | eq => rfl
      | gt => rfl

theorem foldl_insertDescending_eq {items acc : List Value} (hitems : AllExact items) (hacc : AllExact acc) :
    items.foldl (fun (acc, failure) x => insertDescending x acc failure) (acc, none)
      = (items.foldl (fun acc x => acc.orderedInsert NotBelow x) acc, none) := by
  induction items generalizing acc with
  | nil => rfl
  | cons x items ih =>
    obtain ⟨hx, hitems⟩ := List.forall_mem_cons.mp hitems
    rw [List.foldl_cons, List.foldl_cons]
    dsimp only
    rw [insertDescending_eq hx hacc]
    refine ih hitems fun v hv => ?_
    rcases (List.mem_orderedInsert NotBelow).mp hv with rfl | hv
    · exact hx
    · exact hacc v hv

theorem sorted_eq {items : List Value} (h : AllExact items) :
    sorted items = .ok (items.reverse.insertionSort NotBelow).reverse := by
  have hnil : AllExact [] := fun _ hv => absurd hv List.not_mem_nil
  have hfold := foldl_insertDescending_eq h hnil
  simp only [sorted, hfold, List.insertionSort, List.foldr_reverse]

/-- A stretch of equal items is taken over as it is. -/
theorem filter_insertionSort (l : List Value) (q : ℚ) :
    ((l.insertionSort NotBelow).filter fun v => number v = q) = l.filter fun v => number v = q := by
  have hequal : (l.filter fun v => number v = q).Pairwise NotBelow :=
    List.pairwise_of_forall_mem_list fun a ha b hb => by
      have hnumber := of_decide_eq_true (List.mem_filter.mp ha).2
      rw [NotBelow, hnumber, of_decide_eq_true (List.mem_filter.mp hb).2]
  have hsub := (List.sublist_insertionSort hequal List.filter_sublist).filter fun v => number v = q
  simp only [List.filter_filter, Bool.and_self] at hsub
  exact (hsub.eq_of_length ((List.perm_insertionSort NotBelow l).filter _).length_eq.symm).symm

theorem stablySorted_insertionSort (items : List Value) :
    StablySorted items (items.reverse.insertionSort NotBelow).reverse where
  perm := (List.reverse_perm _).trans ((List.perm_insertionSort _ _).trans (List.reverse_perm _))
  ascending := List.pairwise_reverse.mpr (List.pairwise_insertionSort NotBelow _)
  stable q := by
    rw [List.filter_reverse, filter_insertionSort, List.filter_reverse, List.reverse_reverse]

/-- Sorting succeeds, and its result is the one list in order in which equal items have kept theirs. -/
theorem sorted_eq_ok_iff {items : List Value} (h : AllExact items) (s : List Value) :
    sorted items = .ok s ↔ StablySorted items s := by
  rw [sorted_eq h]
  exact ⟨fun hs => Except.ok.inj hs ▸ stablySorted_insertionSort items,
    fun hs => congrArg Except.ok ((stablySorted_insertionSort items).unique hs)⟩

/-! ## The least and the greatest item -/

/-- An item that is not better than a second one, which is not better than a third, is not better than the third. -/
theorem cmp_ne_trans {wanted : Ordering} (hwanted : wanted ≠ .eq) {x y z : ℚ} (hxy : cmp x y ≠ wanted)
    (hyz : cmp y z ≠ wanted) : cmp x z ≠ wanted := by
  cases wanted with
  | lt =>
    rw [Ne, cmp_eq_lt_iff, not_lt] at *
    exact hyz.trans hxy
  | eq => exact absurd rfl hwanted
  | gt =>
    rw [Ne, cmp_eq_gt_iff, not_lt] at *
    exact hxy.trans hyz

/-- The better one of two items is not beaten by the other. -/
theorem cmp_ne_of_cmp_eq {wanted : Ordering} (hwanted : wanted ≠ .eq) {x y : ℚ} (h : cmp x y = wanted) :
    cmp y x ≠ wanted := by
  rw [← cmp_swap, h]
  cases wanted with
  | eq => exact absurd rfl hwanted
  | _ => decide

/-- An item is kept until a better one comes. -/
theorem exists_foldlM_extreme {wanted : Ordering} (hwanted : wanted ≠ .eq) {best : Value} {rest : List Value}
    (hbest : (exactNumber? best).isSome) (hrest : AllExact rest) :
    ∃ m ∈ best :: rest, extreme wanted (best :: rest) = .ok m ∧
      ∀ v ∈ best :: rest, cmp (number v) (number m) ≠ wanted := by
  induction rest generalizing best with
  | nil =>
    refine ⟨best, List.mem_singleton_self _, rfl, fun v hv => ?_⟩
    rw [List.mem_singleton.mp hv, cmp_self_eq_eq]
    exact hwanted.symm
  | cons item rest ih =>
    obtain ⟨hitem, hrest⟩ := List.forall_mem_cons.mp hrest
    have hstep : extreme wanted (best :: item :: rest)
        = extreme wanted ((if cmp (number item) (number best) = wanted then item else best) :: rest) := by
      simp only [extreme, List.foldlM_cons, compare_eq_cmp hitem hbest, beq_iff_eq]
      rfl
    rw [hstep]
    split
    · next hbetter =>
      -- the item beats the best one so far, and what beats the item beats that one too
      obtain ⟨m, hm, hok, hall⟩ := ih hitem hrest
      have hbestm := cmp_ne_trans hwanted (cmp_ne_of_cmp_eq hwanted hbetter) (hall item List.mem_cons_self)
      exact ⟨m, List.mem_cons_of_mem _ hm, hok, List.forall_mem_cons.mpr ⟨hbestm, hall⟩⟩
    · next hworse =>
      obtain ⟨m, hm, hok, hall⟩ := ih hbest hrest
      obtain ⟨hbestm, hrestm⟩ := List.forall_mem_cons.mp hall
      have hmem : m ∈ best :: item :: rest :=
        List.cons_subset_cons best (List.subset_cons_self item rest) hm
      exact ⟨m, hmem, hok, List.forall_mem_cons.mpr ⟨hbestm,
        List.forall_mem_cons.mpr ⟨cmp_ne_trans hwanted hworse hbestm, hrestm⟩⟩⟩

theorem extreme_spec {wanted : Ordering} (hwanted : wanted ≠ .eq) {items : List Value} (h : AllExact items)
    (hne : items ≠ []) :
    ∃ m ∈ items, extreme wanted items = .ok m ∧ ∀ v ∈ items, cmp (number v) (number m) ≠ wanted := by
  cases items with
  | nil => exact absurd rfl hne
  | cons best rest =>
    obtain ⟨hbest, hrest⟩ := List.forall_mem_cons.mp h
    exact exists_foldlM_extreme hwanted hbest hrest

/-! ## The middle item -/

theorem median_eq_middle {items s : List Value} (hsorted : sorted items = .ok s) (hlength : s.length = items.length)
    (hodd : items.length % 2 = 1) : ∃ m, s[items.length / 2]? = some m ∧ median items = .ok m := by
  have hlt : items.length / 2 < s.length := by omega
  refine ⟨s[items.length / 2], List.getElem?_eq_getElem hlt, ?_⟩
  have hne : items.isEmpty = false := by
    rw [List.isEmpty_eq_false_iff, ← List.length_pos_iff]
    omega
  simp only [median, hne, hsorted, Bool.false_eq_true, if_false]
  show (if s.length % 2 = 1 then Except.ok (s.getD (s.length / 2) .nothing) else _) = _
  rw [hlength, if_pos hodd, List.getD_eq_getElem _ _ hlt]

/-! ## The functions of the library -/

/-- What a function of the library makes of one sequence. -/
def onSequence (name : String) (items : List Value) : Evaluated Value :=
  (apply name [.array (Value.toDatumAll items)]).map Value.ofDatum

theorem isData_of_exact {v : Value} (h : (exactNumber? v).isSome) : v.IsData := by
  cases v with
  | int n => trivial
  | bool b => trivial
  | rational f => trivial
  | _ => cases h

theorem allData_of_exact {items : List Value} (h : AllExact items) : Value.AllData items := by
  induction items with
  | nil => trivial
  | cons v items ih =>
    obtain ⟨hv, hitems⟩ := List.forall_mem_cons.mp h
    exact ⟨isData_of_exact hv, ih hitems⟩

/-- Exact numbers are handed over unchanged, and so is a result without functions in it. -/
theorem onSequence_eq_ok {name : String} {f : List Value → Outcome}
    (hname : ∀ ds, apply name [.array ds] = .ofOutcome (f (Value.ofDatumAll ds))) {items : List Value}
    (h : AllExact items) {v : Value} (hf : f items = .ok v) (hv : v.IsData) : onSequence name items = .ok v := by
  rw [onSequence, hname, Value.ofDatumAll_toDatumAll items (allData_of_exact h), hf]
  exact congrArg Except.ok (Value.ofDatum_toDatum v hv)

/-- **Ordering exact numbers.** Sorting succeeds and gives the items in ascending order, equal ones in their own
order, which makes one list only. A sequence that is not empty has a least and a greatest item, and one of odd length
has the middle one of the sorted list as its median. -/
theorem ordering_exact {items : List Value} (h : AllExact items) :
    (∃ s, onSequence "sorted" items = .ok (.sequence s) ∧ (∀ t, StablySorted items t ↔ t = s) ∧
      (items.length % 2 = 1 → ∃ m, s[items.length / 2]? = some m ∧ onSequence "median" items = .ok m)) ∧
    (items ≠ [] →
      (∃ m ∈ items, onSequence "min" items = .ok m ∧ ∀ v ∈ items, number m ≤ number v) ∧
      ∃ m ∈ items, onSequence "max" items = .ok m ∧ ∀ v ∈ items, number v ≤ number m) := by
  constructor
  · have hsorted := sorted_eq h
    have hs := (sorted_eq_ok_iff h _).mp hsorted
    have hdata := allData_of_exact fun v hv => h v (hs.perm.mem_iff.mp hv)
    refine ⟨_, onSequence_eq_ok (f := fun vs => (sorted vs).map .sequence) (fun _ => rfl) h (by rw [hsorted]; rfl) hdata,
      fun t => ⟨fun ht => ht.unique hs, fun ht => ht ▸ hs⟩, fun hodd => ?_⟩
    obtain ⟨m, hm, hmedian⟩ := median_eq_middle hsorted hs.perm.length_eq hodd
    have hmem := hs.perm.mem_iff.mp (List.mem_of_getElem? hm)
    exact ⟨m, hm, onSequence_eq_ok (fun _ => rfl) h hmedian (isData_of_exact (h m hmem))⟩
  · intro hne
    obtain ⟨least, hleast, hmin, hall⟩ := extreme_spec (show Ordering.lt ≠ .eq by decide) h hne
    obtain ⟨greatest, hgreatest, hmax, hall'⟩ := extreme_spec (show Ordering.gt ≠ .eq by decide) h hne
    exact ⟨⟨least, hleast, onSequence_eq_ok (fun _ => rfl) h hmin (isData_of_exact (h least hleast)),
        fun v hv => not_lt.mp ((cmp_eq_lt_iff _ _).not.mp (hall v hv))⟩,
      greatest, hgreatest, onSequence_eq_ok (fun _ => rfl) h hmax (isData_of_exact (h greatest hgreatest)),
        fun v hv => not_lt.mp ((cmp_eq_gt_iff _ _).not.mp (hall' v hv))⟩

/-- A half, and one in three kinds. -/
theorem ordering_exact_kinds :
    let half : Value := .rational ⟨1, 2, by decide, by decide⟩
    let one : Value := .rational ⟨1, 1, by decide, by decide⟩
    let items : List Value := [.bool true, one, half, .int 1, .int 1]
    let s : List Value := [half, .bool true, one, .int 1, .int 1]
    AllExact items ∧ items ≠ [] ∧ onSequence "sorted" items = .ok (.sequence s) ∧ StablySorted items s ∧
      items.length % 2 = 1 ∧ onSequence "median" items = .ok one ∧
      ∃ m ∈ items, onSequence "min" items = .ok m ∧ ∀ v ∈ items, number m ≤ number v := by
  intro half one items s
  have hexact : AllExact items := by
    simp only [AllExact, items, List.forall_mem_cons]
    and_intros <;> first | rfl | exact fun _ hv => absurd hv List.not_mem_nil
  obtain ⟨⟨t, ht, hunique, hmedian⟩, hextreme⟩ := ordering_exact hexact
  have hne : items ≠ [] := List.cons_ne_nil _ _
  have hlength : items.length = 5 := rfl
  have hodd : items.length % 2 = 1 := by rw [hlength]
  have hs : onSequence "sorted" items = .ok (.sequence s) := by rfl
  obtain ⟨m, hm, hok⟩ := hmedian hodd
  obtain rfl : s = t := Value.sequence.inj (Except.ok.inj (hs.symm.trans ht))
  rw [hlength] at hm
  cases hm
  exact ⟨hexact, hne, hs, (hunique s).mpr rfl, hodd, hok, (hextreme hne).1⟩

end Worksheet.Library
