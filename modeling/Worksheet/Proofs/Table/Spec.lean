import Worksheet.Failure
import Worksheet.Proofs.Text.Digits
import Worksheet.Proofs.Text.Parts
import Worksheet.Proofs.Text.Pattern
import Worksheet.Table.Spec

/-!
# What a specification holds

The names, titles and templates of a specification are parts of its text. Masking takes no line feed
in, nor does putting the masked texts back.

* **`TableSpec.SingleLine`** — a specification in which everything that a table shows is one line.
* **`TableSpec.singleLine_of_read`** — so is one that is read from one line.
-/

namespace Worksheet

open Text

namespace TableSpec

/-- A specification whose texts are one line each. -/
structure SingleLine (spec : TableSpec) : Prop where
  names : ∀ name ∈ spec.names, '\n' ∉ name.toList
  titles : ∀ a ∈ spec.aggregates, '\n' ∉ a.title.toList
  templates : ∀ a ∈ spec.aggregates, '\n' ∉ a.template.toList

/-! ## Masking -/

theorem newline_not_mem_placeholder (n : Nat) : '\n' ∉ placeholder n := by
  simp [placeholder, placeholderMark]

theorem newline_not_mem_maskFrom {n : Nat} {scanned : List (Char ⊕ List Char)}
    (h : ∀ c, .inl c ∈ scanned → c ≠ '\n') : '\n' ∉ maskFrom n scanned := by
  induction scanned generalizing n with
  | nil => exact List.not_mem_nil
  | cons a scanned ih =>
    have hrest := fun n => ih (n := n) fun c hc => h c (List.mem_cons_of_mem a hc)
    cases a with
    | inl c =>
      have hc := (h c List.mem_cons_self).symm
      simp [maskFrom, hc, hrest]
    | inr text => simp [maskFrom, newline_not_mem_placeholder, hrest]

theorem guarded_subset {before s text rest : List Char}
    (h : guarded before s = some (text, rest)) : text ⊆ s := by
  have hupTo : ∀ {opening closing : Char} {r : List Char}, ((cutAt? closing r).map fun p =>
      (opening :: p.1 ++ [closing], p.2)) = some (text, rest) → text ⊆ opening :: r := by
    intro opening closing r hmap
    obtain ⟨⟨inside, behind⟩, hcut, heq⟩ := Option.map_eq_some_iff.mp hmap
    cases heq
    rw [(cutAt?_eq_some hcut).1]
    exact List.cons_subset_cons opening (by simp)
  unfold guarded at h
  dsimp only at h
  split at h
  · exact hupTo h
  · exact hupTo h
  · cases h

theorem newline_not_mem_mask {s : List Char} (h : '\n' ∉ s) :
    '\n' ∉ (mask s).1 ∧ ∀ text ∈ (mask s).2, '\n' ∉ text := by
  refine ⟨newline_not_mem_maskFrom fun c hc heq => ?_, fun text htext hmem => ?_⟩
  · exact h (heq ▸ Pattern.mem_of_inl_mem_scanFrom hc)
  · obtain ⟨found, hfound, hinr⟩ := List.mem_filterMap.mp htext
    cases found with
    | inl c => cases hinr
    | inr text' =>
      cases hinr
      obtain ⟨before, r, rest, hsuffix, hfits⟩ := Pattern.exists_of_inr_mem_scanFrom hfound
      exact h (hsuffix.subset (guarded_subset hfits hmem))

/-- A placeholder stands for a text that was kept, or for itself if there is none with its number. -/
theorem newline_not_mem_of_placeholderOf {saved : List (List Char)} {before r out rest : List Char}
    (hsaved : ∀ text ∈ saved, '\n' ∉ text) (hr : '\n' ∉ r)
    (hfits : placeholderOf saved before r = some (out, rest)) : '\n' ∉ out := by
  obtain ⟨r', hr', hfits⟩ := Option.bind_eq_some_iff.mp hfits
  obtain ⟨rest', hrest', hfits⟩ := Option.bind_eq_some_iff.mp hfits
  have hdigits : '\n' ∉ r'.takeWhile isDecimal := by
    intro hdigit
    refine hr ?_
    rw [strip?_eq_some_iff.mp hr']
    exact List.mem_append_right _ ((List.takeWhile_prefix _).subset hdigit)
  have hplaceholder : '\n' ∉ placeholderMark ++ r'.takeWhile isDecimal ++ placeholderMark := by
    simp [placeholderMark, hdigits]
  dsimp only at hfits
  split at hfits
  · cases hfits
  · cases hfits
    split
    · cases hnth : saved[readDigits (r'.takeWhile isDecimal)]? with
      | none => exact hplaceholder
      | some text => exact hsaved text (List.mem_of_getElem? hnth)
    · exact hplaceholder

theorem newline_not_mem_unmask {saved : List (List Char)} {s : List Char}
    (hsaved : ∀ text ∈ saved, '\n' ∉ text) (hs : '\n' ∉ s) : '\n' ∉ unmask saved s := by
  refine Pattern.substitute_of_pieces (P := fun t => '\n' ∉ t) List.not_mem_nil List.not_mem_append ?_ ?_
  · exact fun c hc hmem => hs (List.mem_singleton.mp hmem ▸ hc)
  · exact fun hsuffix hfits =>
      newline_not_mem_of_placeholderOf hsaved (fun hmem => hs (hsuffix.subset hmem)) hfits

/-! ## Entries -/

theorem splitBraces_subset (s : List Char) : (splitBraces s).1 ⊆ s ∧ (splitBraces s).2 ⊆ s := by
  unfold splitBraces
  split
  · exact ⟨List.Subset.refl s, List.nil_subset s⟩
  · next before r hopen =>
    split
    · exact ⟨List.Subset.refl s, List.nil_subset s⟩
    · next inside after hclose =>
      rw [(cutAt?_eq_some hopen).1, (cutAt?_eq_some hclose).1]
      refine ⟨?_, ?_⟩
      · intro c hc
        simp only [List.mem_append, List.mem_cons] at hc ⊢
        tauto
      · intro c hc
        simp only [List.mem_append, List.mem_cons, List.not_mem_nil, or_false] at hc ⊢
        tauto

theorem trimQuotes_subset (s : List Char) : trimQuotes s ⊆ s := by
  intro c hc
  have hrest := List.mem_reverse.mp hc
  have hfront := List.mem_reverse.mp ((List.dropWhile_suffix _).subset hrest)
  exact (List.dropWhile_suffix _).subset hfront

theorem newline_not_mem_splitTitle {s function : List Char} (hs : '\n' ∉ s)
    (hfunction : '\n' ∉ function) :
    '\n' ∉ (splitTitle s function).1 ∧ '\n' ∉ (splitTitle s function).2 := by
  obtain ⟨htitle, htemplate⟩ := splitBraces_subset s
  unfold splitTitle
  dsimp only
  refine ⟨?_, fun h => hs (htemplate h)⟩
  split
  · exact hfunction
  · exact fun h => hs (htitle (trim_subset _ (trimQuotes_subset _ (trim_subset _ h))))

theorem SingleLine.addName {spec : TableSpec} (h : spec.SingleLine) {name : List Char}
    (hname : '\n' ∉ name) :
    SingleLine { spec with names := spec.names ++ [String.ofList name] } where
  names := by
    intro n hn
    rcases List.mem_append.mp hn with hn | hn
    · exact h.names n hn
    · rwa [List.mem_singleton.mp hn, String.toList_ofList]
  titles := h.titles
  templates := h.templates

theorem SingleLine.addAggregate {spec : TableSpec} (h : spec.SingleLine) {a : Aggregate}
    (htitle : '\n' ∉ a.title.toList) (htemplate : '\n' ∉ a.template.toList) :
    SingleLine { spec with aggregates := spec.aggregates ++ [a] } where
  names := h.names
  titles := by
    intro b hb
    rcases List.mem_append.mp hb with hb | hb
    · exact h.titles b hb
    · rwa [List.mem_singleton.mp hb]
  templates := by
    intro b hb
    rcases List.mem_append.mp hb with hb | hb
    · exact h.templates b hb
    · rwa [List.mem_singleton.mp hb]

theorem SingleLine.readEntry {saved : List (List Char)} {entry : List Char} {spec spec' : TableSpec}
    (h : spec.SingleLine) (hsaved : ∀ text ∈ saved, '\n' ∉ text) (hentry : '\n' ∉ entry)
    (hread : TableSpec.readEntry saved entry spec = .ok spec') : spec'.SingleLine := by
  have hparts : ∀ part ∈ (splitAtMost (· == ':') 2 entry).map fun part => unmask saved (trim part),
      '\n' ∉ part := by
    intro part hpart
    obtain ⟨raw, hraw, rfl⟩ := List.mem_map.mp hpart
    exact newline_not_mem_unmask hsaved
      fun hmem => hentry (subset_of_mem_splitAtMost hraw (trim_subset raw hmem))
  unfold TableSpec.readEntry at hread
  split at hread
  · next head function rest heq =>
    rw [heq] at hparts
    have hhead := hparts head List.mem_cons_self
    have hfunction := hparts function (List.mem_cons_of_mem head List.mem_cons_self)
    have htitle : '\n' ∉ rest.headD [] := by
      cases rest with
      | nil => exact List.not_mem_nil
      | cons title rest =>
        exact hparts title (List.mem_cons_of_mem _ (List.mem_cons_of_mem _ List.mem_cons_self))
    dsimp only at hread
    -- the entry begins with the kind of an aggregate, or else with the function of a total
    split at hread
    · cases hread
    · split at hread
      · cases hread
        obtain ⟨ht, htemplate⟩ := newline_not_mem_splitTitle htitle hfunction
        exact h.addAggregate (by rwa [String.toList_ofList]) (by rwa [String.toList_ofList])
      · cases hread
        obtain ⟨ht, htemplate⟩ := newline_not_mem_splitTitle htitle hhead
        exact (h.addName hfunction).addAggregate (by rwa [String.toList_ofList])
          (by rwa [String.toList_ofList])
  · next name heq =>
    cases hread
    rw [heq] at hparts
    exact h.addName (hparts name List.mem_cons_self)
  · cases hread
    exact h

/-- **A specification on one line.** -/
theorem singleLine_of_read {s : List Char} {spec : TableSpec} (h : read s = .ok spec)
    (hs : '\n' ∉ s) : spec.SingleLine := by
  obtain ⟨hmasked, hsaved⟩ := newline_not_mem_mask hs
  have hempty : SingleLine ⟨[], []⟩ := ⟨by simp, by simp, by simp⟩
  refine foldlM_ok (fun spec e he spec' hspec hread => ?_) hempty h
  refine hspec.readEntry hsaved (fun hmem => ?_) hread
  obtain ⟨part, hpart, rfl⟩ := List.mem_map.mp (List.mem_filter.mp he).1
  exact hmasked (subset_of_mem_splitAt hpart (trim_subset part hmem))

end TableSpec

end Worksheet
