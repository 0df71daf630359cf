import Worksheet.Proofs.Text.Class
import Worksheet.Proofs.Text.Digits
import Worksheet.Table.Spec

/-!
# Titles and templates

A title between quotes, with a template behind it, is told from it by the first braces, also where these
stand in the title.

* **`splitBraces_of_braces`**, **`splitBraces_of_none`** — the first braces of a text.
* **`trim_quoted`**, **`trim_quoted_braces`** — what is left of a title when the braces are cut out behind
  it, and when they are cut out of it.
* **`splitTitle_eq_iff`** — when a title and a template are told apart.
-/

namespace Worksheet

open Text

namespace TableSpec

theorem splitBraces_of_braces {before inside : List Char} (hbefore : '\x7b' ∉ before)
    (hinside : '\x7d' ∉ inside) (behind : List Char) :
    splitBraces (before ++ '\x7b' :: (inside ++ '\x7d' :: behind))
      = (before ++ behind, '\x7b' :: inside ++ ['\x7d']) := by
  unfold splitBraces
  rw [cutAt?_append hbefore]
  dsimp only
  rw [cutAt?_append hinside]

theorem splitBraces_of_none {s : List Char}
    (h : ∀ before inside behind, s ≠ before ++ '\x7b' :: (inside ++ '\x7d' :: behind)) :
    splitBraces s = (s, []) := by
  unfold splitBraces
  split
  · rfl
  · next before r hopen =>
    split
    · rfl
    · next inside behind hclose =>
      refine absurd ?_ (h before inside behind)
      rw [(cutAt?_eq_some hopen).1, (cutAt?_eq_some hclose).1]

/-- Braces in a text between quotes are braces of the text. -/
theorem braces_of_quoted {s before inside behind : List Char}
    (h : '"' :: s ++ ['"'] = before ++ '\x7b' :: (inside ++ '\x7d' :: behind)) :
    ∃ before inside behind, s = before ++ '\x7b' :: (inside ++ '\x7d' :: behind) := by
  cases before with
  | nil => exact absurd (List.cons.inj h).1 (by decide)
  | cons q before =>
    have hs : s ++ ['"'] = before ++ '\x7b' :: (inside ++ '\x7d' :: behind) := (List.cons.inj h).2
    obtain rfl | ⟨behind, last, rfl⟩ := behind.eq_nil_or_concat
    · have hconcat : s ++ ['"'] = (before ++ '\x7b' :: inside) ++ ['\x7d'] := by simpa using hs
      have hlast := congrArg List.getLast? hconcat
      rw [List.getLast?_concat, List.getLast?_concat] at hlast
      exact absurd (Option.some.inj hlast) (by decide)
    · refine ⟨before, inside, behind, ?_⟩
      have hconcat : s ++ ['"'] = (before ++ '\x7b' :: (inside ++ '\x7d' :: behind)) ++ [last] := by
        simpa using hs
      exact List.append_inj_left' hconcat rfl

/-- Quotes in front are taken off up to what is none. -/
theorem dropWhile_quote {s : List Char} (hs : s ≠ []) (hquote : '"' ∉ s) (t : List Char) :
    ('"' :: (s ++ t)).dropWhile (· == '"') = s ++ t := by
  obtain ⟨c, r, rfl⟩ := List.exists_cons_of_ne_nil hs
  have hc : c ≠ '"' := fun heq => hquote (by simp [heq])
  simp [hc]

variable {title template function : List Char}

/-- A title by itself between its quotes. -/
theorem trim_quoted (hne : title ≠ []) (htrim : trim title = title) (hquote : '"' ∉ title) :
    trim (trimQuotes (trim ('"' :: title ++ ['"']))) = title := by
  have hends : trim ('"' :: title ++ ['"']) = '"' :: title ++ ['"'] := by
    refine trim_eq_self_of_ends ?_ ?_
    · rintro c ⟨⟩
      decide
    · rw [List.getLast?_concat]
      rintro c ⟨⟩
      decide
  have hback : ('"' :: (title.reverse ++ [])).dropWhile (· == '"') = title.reverse ++ [] :=
    dropWhile_quote (by simpa using hne) (by simpa using hquote) []
  rw [List.append_nil] at hback
  rw [hends, trimQuotes, List.cons_append, dropWhile_quote hne hquote, List.reverse_concat, hback,
    List.reverse_reverse, htrim]

/-- What is left between quotes when a title has lost its own braces, with a template behind it. -/
theorem trim_quoted_braces {s : List Char} (hquote : '"' ∉ s) (inside : List Char) :
    trim (trimQuotes (trim ('"' :: s ++ '"' :: '\x7b' :: inside ++ ['\x7d'])))
      = if s = [] then '\x7b' :: inside ++ ['\x7d']
        else trim (s ++ '"' :: '\x7b' :: inside ++ ['\x7d']) := by
  have hends : ∀ {c : Char} {t : List Char}, isBlank c = false →
      trim (c :: t ++ ['\x7d']) = c :: t ++ ['\x7d'] := by
    intro c t hc
    refine trim_eq_self_of_ends ?_ ?_
    · rintro d ⟨⟩
      exact hc
    · rw [List.getLast?_concat]
      rintro d ⟨⟩
      decide
  have hback : ∀ t : List Char,
      ((t ++ ['\x7d']).reverse.dropWhile (· == '"')).reverse = t ++ ['\x7d'] := by
    intro t
    rw [List.reverse_concat, List.dropWhile_cons_of_neg (by decide), List.reverse_cons,
      List.reverse_reverse]
  have htrim := hends (c := '"') (t := s ++ '"' :: '\x7b' :: inside) (by decide)
  rw [← List.cons_append] at htrim
  rw [htrim, trimQuotes]
  split
  · next hnil =>
    subst hnil
    show trim (('\x7b' :: inside ++ ['\x7d']).reverse.dropWhile (· == '"')).reverse = _
    rw [hback]
    exact hends (by decide)
  · next hne =>
    rw [List.cons_append, List.cons_append, List.append_assoc, dropWhile_quote hne hquote,
      ← List.append_assoc, hback]

/-- Braces close behind the first one that opens. -/
theorem close_mem_of_braces {a b before inside behind : List Char} (ha : '\x7b' ∉ a)
    (h : a ++ '\x7b' :: b = before ++ '\x7b' :: (inside ++ '\x7d' :: behind)) : '\x7d' ∈ b := by
  rcases cut_cases h with ⟨mid, rfl, -⟩ | ⟨-, -, rfl⟩ | ⟨mid, -, rfl⟩
  · simp at ha
  · simp
  · simp

/-- Braces of a title are taken for the template, and the one behind it for a part of the title, so that
the two must be the same for both to be right. -/
theorem eq_template_of_braces {a c d : List Char} (ha : '\x7b' ∉ a) (hc : '\x7d' ∉ c)
    (htitle : title = a ++ '\x7b' :: (c ++ '\x7d' :: d)) (hquote : '"' ∉ title)
    (h : splitTitle ('"' :: title ++ '"' :: template) function = (title, template)) :
    title = template := by
  have hfront : '\x7b' ∉ '"' :: a := by simp [ha]
  have hsplit := splitBraces_of_braces hfront hc (d ++ '"' :: template)
  have htext : '"' :: title ++ '"' :: template
      = '"' :: a ++ '\x7b' :: (c ++ '\x7d' :: (d ++ '"' :: template)) := by simp [htitle]
  unfold splitTitle at h
  rw [htext, hsplit] at h
  obtain ⟨hleft, rfl⟩ := Prod.mk.inj h
  by_cases hnil : a ++ d = []
  · obtain ⟨rfl, rfl⟩ := List.append_eq_nil_iff.mp hnil
    exact htitle
  · -- a quote would be left in the title
    have hquoted : '"' ∉ a ++ d := fun hmem => hquote (by
      rw [htitle]
      rcases List.mem_append.mp hmem with hmem | hmem <;> simp [hmem])
    have hrest := trim_quoted_braces hquoted c
    rw [if_neg hnil, show '"' :: (a ++ d) ++ '"' :: '\x7b' :: c ++ ['\x7d']
      = '"' :: a ++ (d ++ '"' :: ('\x7b' :: c ++ ['\x7d'])) by simp] at hrest
    have hmem : '"' ∈ trim (a ++ d ++ '"' :: '\x7b' :: c ++ ['\x7d']) :=
      mem_trim_of_mem (by simp) (by decide)
    rw [hrest, if_neg (by simpa using List.ne_nil_of_mem hmem)] at hleft
    rw [hleft] at hmem
    exact absurd hmem hquote

/-- Behind a title whose braces do not close there is no template that is read as it is. -/
theorem template_ne_of_open {a b inside : List Char} (ha : '\x7b' ∉ a) (hb : '\x7d' ∉ b)
    (htitle : title = a ++ '\x7b' :: b) (hinside : '\x7d' ∉ inside) :
    (splitTitle ('"' :: title ++ '"' :: ('\x7b' :: inside ++ ['\x7d'])) function).2
      ≠ '\x7b' :: inside ++ ['\x7d'] := by
  have hfront : '\x7b' ∉ '"' :: a := by simp [ha]
  have hopen : '\x7d' ∉ b ++ '"' :: '\x7b' :: inside := by simp [hb, hinside]
  have hsplit := splitBraces_of_braces hfront hopen []
  have htext : '"' :: title ++ '"' :: ('\x7b' :: inside ++ ['\x7d'])
      = '"' :: a ++ '\x7b' :: (b ++ '"' :: '\x7b' :: inside ++ '\x7d' :: []) := by simp [htitle]
  intro heq
  rw [htext, splitTitle, hsplit] at heq
  have hlength := congrArg List.length heq
  simp at hlength
  omega

/-- What is right is what braces behind the title, or none at all, are found for. -/
theorem splitTitle_of_splitBraces {s : List Char} (hne : title ≠ []) (htrim : trim title = title)
    (hquote : '"' ∉ title) (hs : splitBraces s = ('"' :: title ++ ['"'], template)) :
    splitTitle s function = (title, template) := by
  have hempty : title.isEmpty = false := by simpa using hne
  unfold splitTitle
  rw [hs]
  dsimp only
  rw [trim_quoted hne htrim hquote, hempty]
  rfl

theorem splitBraces_quoted (hopen : '\x7b' ∉ title) {inside : List Char} (hclose : '\x7d' ∉ inside) :
    splitBraces ('"' :: title ++ '"' :: ('\x7b' :: inside ++ ['\x7d']))
      = ('"' :: title ++ ['"'], '\x7b' :: inside ++ ['\x7d']) := by
  have hfront : '\x7b' ∉ '"' :: title ++ ['"'] := by simp [hopen]
  have hsplit := splitBraces_of_braces hfront hclose []
  rw [List.append_nil] at hsplit
  simpa using hsplit

/-- Of a text that is both, its first copy is taken for the template and its second one for the title. -/
theorem splitTitle_twice {inside : List Char} (hclose : '\x7d' ∉ inside) :
    splitTitle ('"' :: ('\x7b' :: inside ++ ['\x7d']) ++ '"' :: ('\x7b' :: inside ++ ['\x7d'])) function
      = ('\x7b' :: inside ++ ['\x7d'], '\x7b' :: inside ++ ['\x7d']) := by
  have hfront : '\x7b' ∉ ['"'] := by decide
  have hsplit := splitBraces_of_braces hfront hclose ('"' :: '\x7b' :: inside ++ ['\x7d'])
  have hrest := trim_quoted_braces (s := []) (by simp) inside
  have htext : '"' :: ('\x7b' :: inside ++ ['\x7d']) ++ '"' :: ('\x7b' :: inside ++ ['\x7d'])
      = ['"'] ++ '\x7b' :: (inside ++ '\x7d' :: ('"' :: '\x7b' :: inside ++ ['\x7d'])) := by simp
  rw [htext, splitTitle, hsplit]
  dsimp only
  rw [show ['"'] ++ ('"' :: '\x7b' :: inside ++ ['\x7d'])
    = '"' :: [] ++ '"' :: '\x7b' :: inside ++ ['\x7d'] from rfl, hrest]
  rfl

/-- When a title and the template behind it are told apart. -/
theorem splitTitle_eq_iff (hne : title ≠ []) (htrim : trim title = title) (hquote : '"' ∉ title)
    (htemplate : template = [] ∨
      ∃ inside, template = '\x7b' :: inside ++ ['\x7d'] ∧ '\x7b' ∉ inside ∧ '\x7d' ∉ inside) :
    splitTitle ('"' :: title ++ '"' :: template) function = (title, template) ↔
      '\x7b' ∉ title ∨
        template = [] ∧ (∀ before inside behind,
          title ≠ before ++ '\x7b' :: (inside ++ '\x7d' :: behind)) ∨
        title = template := by
  constructor
  · intro hread
    by_cases hopen : '\x7b' ∈ title
    · refine Or.inr ?_
      -- what follows the first brace decides: another one that closes it, or none
      obtain ⟨a, b, htitle, ha⟩ := List.eq_append_cons_of_mem hopen
      by_cases hclose : '\x7d' ∈ b
      · obtain ⟨c, d, rfl, hc⟩ := List.eq_append_cons_of_mem hclose
        exact Or.inr (eq_template_of_braces ha hc htitle hquote hread)
      · refine Or.inl ?_
        rcases htemplate with rfl | ⟨inside, rfl, -, hinside⟩
        · refine ⟨rfl, fun before inside behind heq => hclose ?_⟩
          exact close_mem_of_braces ha (htitle ▸ heq)
        · exact absurd (congrArg Prod.snd hread) (template_ne_of_open ha hclose htitle hinside)
    · exact Or.inl hopen
  · rintro (hopen | ⟨rfl, hbraces⟩ | rfl)
    · refine splitTitle_of_splitBraces hne htrim hquote ?_
      rcases htemplate with rfl | ⟨inside, rfl, -, hclose⟩
      · refine splitBraces_of_none fun before inside behind heq => ?_
        obtain ⟨before, inside, behind, rfl⟩ := braces_of_quoted heq
        exact hopen (by simp)
      · exact splitBraces_quoted hopen hclose
    · refine splitTitle_of_splitBraces hne htrim hquote
        (splitBraces_of_none fun before inside behind heq => ?_)
      obtain ⟨before, inside, behind, htitle⟩ := braces_of_quoted heq
      exact hbraces before inside behind htitle
    · rcases htemplate with rfl | ⟨inside, rfl, -, hclose⟩
      · exact absurd rfl hne
      · exact splitTitle_twice hclose

end TableSpec

end Worksheet
