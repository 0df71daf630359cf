import Mathlib.Data.List.Basic
import Worksheet.Line
import Worksheet.Text.Digits
import Worksheet.Text.Split

/-!
# Parts of a line

What is cut out of a text consists of characters of the text, wherever it is cut: at blanks
(`trim_subset`), at a remark (`splitRemark_subset`) or at a template (`splitTemplate_subset`). So it
is with what the kind of a line is made of (`LineKind.subset_of_mem_parts`).
-/

namespace Worksheet

open Text

namespace Text

/-! ## Cutting -/

theorem trimStart_subset (s : List Char) : trimStart s ⊆ s :=
  (List.dropWhile_suffix isBlank).subset

theorem trimEnd_subset (s : List Char) : trimEnd s ⊆ s := by
  intro c hc
  have hrest : c ∈ s.reverse.dropWhile isBlank := List.mem_reverse.mp hc
  exact List.mem_reverse.mp ((List.dropWhile_suffix isBlank).subset hrest)

theorem trim_subset (s : List Char) : trim s ⊆ s :=
  List.Subset.trans (trimEnd_subset (trimStart s)) (trimStart_subset s)

theorem cutFrom?_subset {sep : Separator}
    (hsep : ∀ before t rest, sep before t = some rest → rest ⊆ t) {place : Place}
    {before : Option Char} {s a b : List Char} (h : cutFrom? sep place before s = some (a, b)) :
    a ⊆ s ∧ b ⊆ s := by
  induction s generalizing place before a b with
  | nil => cases h
  | cons c r ih =>
    rw [cutFrom?] at h
    split at h
    · next rest hrest =>
      cases h
      split at hrest
      · exact ⟨List.nil_subset _, hsep _ _ _ hrest⟩
      · cases hrest
    · obtain ⟨⟨a', b'⟩, hcut, hab⟩ := Option.map_eq_some_iff.mp h
      cases hab
      obtain ⟨ha, hb⟩ := ih hcut
      exact ⟨List.cons_subset_cons c ha, List.Subset.trans hb (List.subset_cons_self c r)⟩

/-- A part is cut out as a whole; the first one is cut off the front. -/
theorem prefix_of_splitAt (f : Char → Bool) (s : List Char) : ∀ part ∈ (splitAt f s).head?, part <+: s := by
  induction s with
  | nil =>
    rintro part ⟨⟩
    exact List.nil_prefix
  | cons c r ih =>
    rw [splitAt]
    split
    · rintro part ⟨⟩
      exact List.nil_prefix
    · split
      · rintro part ⟨⟩
        exact (List.prefix_cons_inj c).mpr List.nil_prefix
      · next first rest hrest =>
        rintro part ⟨⟩
        rw [hrest] at ih
        exact (List.prefix_cons_inj c).mpr (ih first rfl)

theorem infix_of_mem_splitAt {f : Char → Bool} {s part : List Char} (h : part ∈ splitAt f s) :
    part <:+: s := by
  have hfirst := prefix_of_splitAt f s
  induction s generalizing part with
  | nil =>
    obtain rfl := List.mem_singleton.mp h
    exact List.infix_rfl
  | cons c r ih =>
    have hbehind : ∀ {part}, part ∈ splitAt f r → part <:+: c :: r := fun h =>
      (ih h (prefix_of_splitAt f r)).trans (List.suffix_cons c r).isInfix
    rw [splitAt] at h hfirst
    split at h
    · rcases List.mem_cons.mp h with rfl | h
      · exact List.nil_infix
      · exact hbehind h
    · split at h
      · next hrest =>
        rw [if_neg ‹_›, hrest] at hfirst
        exact (hfirst part (by rw [List.mem_singleton.mp h]; rfl)).isInfix
      · next first rest hrest =>
        rw [if_neg ‹_›, hrest] at hfirst
        rcases List.mem_cons.mp h with rfl | h
        · exact (hfirst _ rfl).isInfix
        · exact hbehind (by rw [hrest]; exact List.mem_cons_of_mem first h)

theorem subset_of_mem_splitAt {f : Char → Bool} {s part : List Char} (h : part ∈ splitAt f s) :
    part ⊆ s := (infix_of_mem_splitAt h).subset

theorem subset_of_mem_splitAtMost {f : Char → Bool} {limit : Nat} {s part : List Char}
    (h : part ∈ splitAtMost f limit s) : part ⊆ s := by
  induction limit generalizing s with
  | zero =>
    rw [List.mem_singleton.mp h]
    exact List.Subset.refl _
  | succ limit ih =>
    rw [splitAtMost] at h
    split at h
    · rw [List.mem_singleton.mp h]
      exact List.Subset.refl _
    · next c rest hrest =>
      rcases List.mem_cons.mp h with rfl | h
      · exact (List.takeWhile_prefix _).subset
      · have hsuffix : c :: rest <:+ s := by
          rw [← hrest]
          exact List.dropWhile_suffix _
        exact List.Subset.trans (ih h)
          (List.Subset.trans (List.subset_cons_self c rest) hsuffix.subset)

/-! ## Putting together -/

theorem mem_intercalate {α : Type} {a : α} {sep : List α} {ls : List (List α)}
    (h : a ∈ sep.intercalate ls) : a ∈ sep ∨ ∃ l ∈ ls, a ∈ l := by
  induction ls with
  | nil => simp at h
  | cons l ls ih =>
    cases ls with
    | nil => exact Or.inr ⟨l, List.mem_cons_self, by simpa using h⟩
    | cons l' ls =>
      rw [List.intercalate_cons_cons] at h
      rcases List.mem_append.mp h with h | h
      · rcases List.mem_append.mp h with h | h
        · exact Or.inr ⟨l, List.mem_cons_self, h⟩
        · exact Or.inl h
      · rcases ih h with h | ⟨k, hk, h⟩
        · exact Or.inl h
        · exact Or.inr ⟨k, List.mem_cons_of_mem l hk, h⟩

theorem joinWith_eq_intercalate (sep : List Char) (ls : List (List Char)) :
    joinWith sep ls = sep.intercalate ls := by
  induction ls with
  | nil => rfl
  | cons l ls ih =>
    cases ls with
    | nil => simp [joinWith]
    | cons l' ls =>
      rw [joinWith, ih, List.intercalate_cons_cons]
      exact List.cons_ne_nil l' ls

end Text

/-! ## Remarks and templates -/

theorem splitRemark_subset (line : List Char) :
    (splitRemark line).1 ⊆ line ∧ (splitRemark line).2 ⊆ line := by
  have hmark : ∀ before t rest, remarkMark before t = some rest → rest ⊆ t := by
    intro before t rest h
    unfold remarkMark at h
    split at h
    case h_4 => cases h
    all_goals
      cases h
      exact List.subset_cons_self _ _
  unfold splitRemark
  split
  · next expr remark h =>
    obtain ⟨hexpr, hremark⟩ := cutFrom?_subset hmark h
    exact ⟨List.Subset.trans (trim_subset expr) hexpr,
      List.Subset.trans (trim_subset remark) hremark⟩
  · exact ⟨trim_subset line, List.nil_subset line⟩

theorem cutBraces?_subset {s before braces after : List Char}
    (h : cutBraces? s = some (before, braces, after)) : before ⊆ s ∧ braces ⊆ s ∧ after ⊆ s := by
  induction s generalizing before braces after with
  | nil => cases h
  | cons c r ih =>
    -- where the braces begin further to the right, the character is in front of them
    have hfurther : ∀ {before braces after}, ((cutBraces? r).map fun p => (c :: p.1, p.2.1, p.2.2))
        = some (before, braces, after) → before ⊆ c :: r ∧ braces ⊆ c :: r ∧ after ⊆ c :: r := by
      intro before braces after hcut
      obtain ⟨⟨before', braces', after'⟩, hr, heq⟩ := Option.map_eq_some_iff.mp hcut
      cases heq
      obtain ⟨hbefore, hbraces, hafter⟩ := ih hr
      have hcons : r ⊆ c :: r := List.subset_cons_self c r
      exact ⟨List.cons_subset_cons c hbefore, List.Subset.trans hbraces hcons,
        List.Subset.trans hafter hcons⟩
    rw [cutBraces?] at h
    dsimp only at h
    split at h
    · exact hfurther h
    · split at h
      · next rest hrest =>
        cases h
        have hall : r.takeWhile notBrace ++ '\x7d' :: after = r := by
          rw [← hrest, List.takeWhile_append_dropWhile]
        have hleft : r.takeWhile notBrace ++ ['\x7d'] ⊆ r := by
          nth_rewrite 2 [← hall]
          simp
        have hright : after ⊆ r :=
          List.Subset.trans (List.subset_cons_self _ after)
            (hrest ▸ (List.dropWhile_suffix _).subset)
        exact ⟨List.nil_subset _, List.cons_subset_cons c hleft,
          List.Subset.trans hright (List.subset_cons_self c r)⟩
      · exact hfurther h

theorem splitTemplate_subset (remark : List Char) :
    (splitTemplate remark).1 ⊆ remark ∧ (splitTemplate remark).2 ⊆ remark := by
  unfold splitTemplate
  split
  · next before template after h =>
    obtain ⟨hbefore, htemplate, hafter⟩ := cutBraces?_subset h
    have hrest : before ++ after ⊆ remark := List.append_subset.mpr ⟨hbefore, hafter⟩
    exact ⟨List.Subset.trans (trim_subset _) hrest, htemplate⟩
  · exact ⟨trim_subset remark, List.nil_subset remark⟩

/-! ## Kinds -/

namespace LineKind

/-- The texts that a kind carries. -/
def parts : LineKind → List (List Char)
  | blank | note | comment | tableLine => []
  | heading name => [name]
  | stack name remark => [name, remark]
  | silent text | expression text => [text]
  | setting directive => [directive]
  | table spec => [spec]

theorem stackHeader?_subset {text name remark : List Char}
    (h : stackHeader? text = some (name, remark)) : name ⊆ text ∧ remark ⊆ text := by
  obtain ⟨rest, hrest, h⟩ := Option.bind_eq_some_iff.mp h
  dsimp only at h
  split at h
  · cases h
    rw [strip?_eq_some_iff] at hrest
    have hsubset : rest ⊆ text := by
      rw [hrest]
      exact List.subset_append_right _ _
    obtain ⟨hname, hremark⟩ := splitRemark_subset rest
    exact ⟨List.Subset.trans hname hsubset, List.Subset.trans hremark hsubset⟩
  · cases h

theorem subset_of_mem_parts_ofText {text part : List Char} (h : part ∈ (ofText text).parts) :
    part ⊆ text := by
  have htrim : ∀ {r : List Char} {c : Char}, trim r ⊆ c :: r := fun {r c} =>
    List.Subset.trans (trim_subset r) (List.subset_cons_self c r)
  unfold ofText at h
  -- the kinds of lines, told apart by the sign with which a line begins
  split at h
  · cases h
  · split at h
    · cases h
    · cases h
    · rw [List.mem_singleton.mp h]
      exact List.Subset.trans (trim_subset _)
        (List.Subset.trans (List.dropWhile_suffix _).subset (List.subset_cons_self _ _))
    · rw [List.mem_singleton.mp h]
      exact htrim
    · cases h
    · split at h
      · next hheader =>
        obtain ⟨hname, hremark⟩ := stackHeader?_subset hheader
        rcases List.mem_cons.mp h with rfl | h
        · exact hname
        · rw [List.mem_singleton.mp h]
          exact hremark
      · rw [List.mem_singleton.mp h]
        exact List.Subset.refl _
    · split at h
      · next directive hdirective =>
        rw [List.mem_singleton.mp h]
        unfold directive? at hdirective
        split at hdirective
        · cases hdirective
          exact List.Subset.trans (trim_subset _) (List.drop_subset 5 _)
        · cases hdirective
      · rw [List.mem_singleton.mp h]
        exact htrim
    · rw [List.mem_singleton.mp h]
      exact List.Subset.refl _

theorem subset_of_mem_parts {line part : List Char} (h : part ∈ (ofLine line).parts) :
    part ⊆ line :=
  List.Subset.trans (subset_of_mem_parts_ofText h) (trim_subset line)

end LineKind

end Worksheet
