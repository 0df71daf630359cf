import Worksheet.Text.Pattern

/-!
# Scanning a text in two parts

A pattern that fits nowhere across a border, and for which it does not matter what stands in front of
the border, can be substituted on both sides of the border by itself.

* **`scanFrom_append`** — the border; what the pattern reads in front of it must not depend on what
  stands behind it.
* **`scanFrom_length`** — what a match has covered is passed over.
* **`scanFrom_congr`**, **`scanFrom_of_blind`** — what the pattern looks back at.
* **`mem_of_inl_mem_scanFrom`**, **`exists_of_inr_mem_scanFrom`** — where the results of a scan come from;
  `substitute_of_pieces` puts them together.
* **`substitute_eq_self_of_none`**, **`substitute_of_behind`**, **`substitute_of_whole`** — a pattern that
  fits nowhere, one that covers everything from some place on, and one that covers the whole text.
-/

namespace Worksheet.Text.Pattern

variable {α : Type} {p : Pattern α}

theorem scanFrom_of_none {before r : List Char} {c : Char} (h : p before (c :: r) = none) :
    scanFrom p before 0 (c :: r) = .inl c :: scanFrom p (c :: before) 0 r := by
  rw [scanFrom, h]

theorem scanFrom_of_some {before r rest : List Char} {c : Char} {a : α}
    (h : p before (c :: r) = some (a, rest)) :
    scanFrom p before 0 (c :: r)
      = .inr a :: scanFrom p (c :: before) (r.length - rest.length) r := by
  rw [scanFrom, h]

/-- Characters that are covered already are passed over. -/
theorem scanFrom_length (p : Pattern α) (before a t : List Char) :
    scanFrom p before a.length (a ++ t) = scanFrom p (a.reverse ++ before) 0 t := by
  induction a generalizing before with
  | nil => rfl
  | cons c a ih =>
    rw [List.reverse_cons, List.append_assoc]
    exact ih (c :: before)

/-- Behind a match the scan goes on with what the match has left. -/
theorem scanFrom_of_fit {before a rest : List Char} {x : α} (ha : a ≠ [])
    (h : p before (a ++ rest) = some (x, rest)) :
    scanFrom p before 0 (a ++ rest) = .inr x :: scanFrom p (a.reverse ++ before) 0 rest := by
  obtain ⟨c, r, rfl⟩ := List.exists_cons_of_ne_nil ha
  have hskip : (r ++ rest).length - rest.length = r.length := by simp
  rw [List.cons_append] at h ⊢
  rw [scanFrom_of_some h, hskip, scanFrom_length, List.reverse_cons, List.append_assoc]
  rfl

/-- Where the pattern reads the same in front of a border as if the text ended there, the text
behind the border is scanned by itself. -/
theorem scanFrom_append {a t before : List Char}
    (h : ∀ pre b, b ≠ [] → a = pre ++ b →
      p (pre.reverse ++ before) (b ++ t)
        = (p (pre.reverse ++ before) b).map fun m => (m.1, m.2 ++ t))
    (skip : Nat) (hskip : skip ≤ a.length) :
    scanFrom p before skip (a ++ t)
      = scanFrom p before skip a ++ scanFrom p (a.reverse ++ before) 0 t := by
  induction a generalizing before skip with
  | nil =>
    obtain rfl : skip = 0 := Nat.le_zero.mp hskip
    rfl
  | cons c a ih =>
    have hrest : ∀ k ≤ a.length, scanFrom p (c :: before) k (a ++ t)
        = scanFrom p (c :: before) k a ++ scanFrom p (a.reverse ++ c :: before) 0 t := by
      refine fun k hk => ih (fun pre b hb hsplit => ?_) k hk
      have hread := h (c :: pre) b hb (congrArg (c :: ·) hsplit)
      rwa [List.reverse_cons, List.append_assoc] at hread
    rw [List.reverse_cons, List.append_assoc]
    cases skip with
    | succ k => exact hrest k (Nat.le_of_succ_le_succ hskip)
    | zero =>
      have hread := h [] (c :: a) (List.cons_ne_nil c a) rfl
      rw [List.cons_append] at hread ⊢
      rw [List.reverse_nil, List.nil_append] at hread
      cases hmatch : p before (c :: a) with
      | none =>
        rw [hmatch] at hread
        rw [scanFrom_of_none hmatch, scanFrom_of_none hread, hrest 0 (Nat.zero_le _)]
        rfl
      | some m =>
        rw [hmatch] at hread
        -- the match ends in front of the border
        have hskip : (a ++ t).length - (m.2 ++ t).length = a.length - m.2.length := by
          rw [List.length_append, List.length_append, Nat.add_sub_add_right]
        rw [scanFrom_of_some hmatch, scanFrom_of_some hread, hskip, hrest _ (Nat.sub_le _ _)]
        rfl

/-- Of the text in front of it a pattern may look at some feature, which a character more changes in the
same way wherever it is the same. -/
theorem scanFrom_congr {β : Type} {feature : List Char → β}
    (hcons : ∀ c before before', feature before = feature before' →
      feature (c :: before) = feature (c :: before'))
    (h : ∀ before before' s, feature before = feature before' → p before s = p before' s)
    {before before' : List Char} (hfeature : feature before = feature before') (skip : Nat)
    (s : List Char) : scanFrom p before skip s = scanFrom p before' skip s := by
  induction s generalizing before before' skip with
  | nil => cases skip <;> rfl
  | cons c r ih =>
    have hrest := fun k => ih (hcons c before before' hfeature) k
    cases skip with
    | succ k => exact hrest k
    | zero =>
      unfold scanFrom
      rw [h before before' (c :: r) hfeature]
      cases p before' (c :: r) with
      | none =>
        dsimp only
        rw [hrest 0]
      | some m =>
        dsimp only
        rw [hrest]

/-- A pattern that looks at nothing in front of it. -/
theorem scanFrom_of_blind (h : ∀ before before' s, p before s = p before' s)
    (before before' : List Char) (skip : Nat) (s : List Char) :
    scanFrom p before skip s = scanFrom p before' skip s :=
  @scanFrom_congr _ p Unit (fun _ => ()) (fun _ _ _ _ => rfl) (fun before before' s _ => h before before' s)
    before before' rfl skip s

/-! ## What is found, and what is written -/

theorem mem_of_inl_mem_scanFrom {before s : List Char} {skip : Nat} {c : Char}
    (h : .inl c ∈ scanFrom p before skip s) : c ∈ s := by
  induction s generalizing before skip with
  | nil => cases h
  | cons d r ih =>
    cases skip with
    | succ k => exact List.mem_cons_of_mem d (ih h)
    | zero =>
      rw [scanFrom] at h
      split at h
      · rcases List.mem_cons.mp h with h | h
        · cases h
          exact List.mem_cons_self
        · exact List.mem_cons_of_mem d (ih h)
      · rcases List.mem_cons.mp h with h | h
        · cases h
        · exact List.mem_cons_of_mem d (ih h)

theorem exists_of_inr_mem_scanFrom {before s : List Char} {skip : Nat} {a : α}
    (h : .inr a ∈ scanFrom p before skip s) :
    ∃ before r rest, r <:+ s ∧ p before r = some (a, rest) := by
  induction s generalizing before skip with
  | nil => cases h
  | cons d r ih =>
    have hbehind : ∀ {before : List Char} {skip : Nat}, .inr a ∈ scanFrom p before skip r →
        ∃ before r' rest, r' <:+ d :: r ∧ p before r' = some (a, rest) := by
      intro before skip h
      obtain ⟨before', r', rest, hsuffix, hfits⟩ := ih h
      exact ⟨before', r', rest, hsuffix.trans (List.suffix_cons d r), hfits⟩
    cases skip with
    | succ k => exact hbehind h
    | zero =>
      rw [scanFrom] at h
      split at h
      · rcases List.mem_cons.mp h with h | h
        · cases h
        · exact hbehind h
      · next hfits =>
        rcases List.mem_cons.mp h with h | h
        · cases h
          exact ⟨before, d :: r, _, List.suffix_refl _, hfits⟩
        · exact hbehind h

/-- What holds of the empty text, and of two texts together if of each of them, holds of the text that is
written if it holds of the single characters and of what stands for a match. -/
theorem substitute_of_pieces {p : Pattern (List Char)} {P : List Char → Prop} {s : List Char} (hnil : P [])
    (happend : ∀ {a b}, P a → P b → P (a ++ b)) (hchar : ∀ c ∈ s, P [c])
    (hout : ∀ {before r out rest}, r <:+ s → p before r = some (out, rest) → P out) :
    P (p.substitute s) := by
  have hpieces : ∀ piece ∈ scanFrom p [] 0 s, P (Sum.elim (fun c => [c]) (fun out => out) piece) := by
    rintro (c | out) hpiece
    · exact hchar c (mem_of_inl_mem_scanFrom hpiece)
    · obtain ⟨before, r, rest, hsuffix, hfits⟩ := exists_of_inr_mem_scanFrom hpiece
      exact hout hsuffix hfits
  unfold substitute
  generalize scanFrom p [] 0 s = pieces at hpieces
  induction pieces with
  | nil => exact hnil
  | cons piece pieces ih =>
    obtain ⟨hpiece, hrest⟩ := List.forall_mem_cons.mp hpieces
    exact happend hpiece (ih hrest)

/-! ## Nothing and everything covered -/

/-- Where the pattern fits nowhere, the text behind is scanned by itself. -/
theorem scanFrom_append_of_none {a t before : List Char}
    (h : ∀ pre c r, a = pre ++ c :: r → p (pre.reverse ++ before) (c :: r ++ t) = none) :
    scanFrom p before 0 (a ++ t) = a.map Sum.inl ++ scanFrom p (a.reverse ++ before) 0 t := by
  induction a generalizing before with
  | nil => rfl
  | cons c a ih =>
    have hrest : scanFrom p (c :: before) 0 (a ++ t)
        = a.map Sum.inl ++ scanFrom p (a.reverse ++ c :: before) 0 t := by
      refine ih fun pre d r hsplit => ?_
      have hnone := h (c :: pre) d r (congrArg (c :: ·) hsplit)
      rwa [List.reverse_cons, List.append_assoc] at hnone
    have hnone : p before (c :: (a ++ t)) = none := h [] c a rfl
    rw [List.reverse_cons, List.append_assoc, List.cons_append, scanFrom_of_none hnone, hrest]
    rfl

theorem flatMap_inl (out : α → List Char) (a : List Char) :
    (a.map Sum.inl).flatMap (Sum.elim (fun c => [c]) out) = a := by
  rw [List.flatMap_map]
  exact List.flatMap_singleton' a

theorem substitute_eq_self_of_none {p : Pattern (List Char)} {s : List Char}
    (h : ∀ pre c r, s = pre ++ c :: r → p pre.reverse (c :: r) = none) : p.substitute s = s := by
  have hscan : scanFrom p [] 0 (s ++ []) = s.map Sum.inl ++ [] := by
    refine scanFrom_append_of_none fun pre c r hsplit => ?_
    rw [List.append_nil, List.append_nil]
    exact h pre c r hsplit
  rw [List.append_nil, List.append_nil] at hscan
  unfold substitute
  rw [hscan, flatMap_inl]

/-- A pattern that fits nowhere up to some place, and covers everything from there on. -/
theorem substitute_of_behind {p : Pattern (List Char)} {a t out : List Char} (ht : t ≠ [])
    (hnone : ∀ pre c r, a = pre ++ c :: r → p pre.reverse (c :: r ++ t) = none)
    (h : p a.reverse t = some (out, [])) : p.substitute (a ++ t) = a ++ out := by
  obtain ⟨c, r, rfl⟩ := List.exists_cons_of_ne_nil ht
  have hfront : scanFrom p [] 0 (a ++ c :: r) = a.map Sum.inl ++ scanFrom p (a.reverse ++ []) 0 (c :: r) := by
    refine scanFrom_append_of_none fun pre d u hsplit => ?_
    rw [List.append_nil]
    exact hnone pre d u hsplit
  have hcovered := scanFrom_length p (c :: a.reverse) r []
  rw [List.append_nil] at hcovered hfront
  unfold substitute
  rw [hfront, scanFrom_of_some h, List.flatMap_append, flatMap_inl, List.flatMap_cons, List.length_nil,
    Nat.sub_zero, hcovered]
  exact congrArg (a ++ ·) (List.append_nil out)

/-- What a pattern that looks at nothing in front of it covers first is replaced by itself. -/
theorem substitute_fit_append {p : Pattern (List Char)} {a t out : List Char}
    (hblind : ∀ before before' s, p before s = p before' s) (ha : a ≠ [])
    (h : p [] (a ++ t) = some (out, t)) : p.substitute (a ++ t) = out ++ p.substitute t := by
  unfold substitute
  rw [scanFrom_of_fit ha h, scanFrom_of_blind hblind _ []]
  rfl

theorem substitute_of_whole {p : Pattern (List Char)} {s out : List Char} (hs : s ≠ [])
    (h : p [] s = some (out, [])) : p.substitute s = out :=
  substitute_of_behind (a := []) hs (by simp) h

end Worksheet.Text.Pattern
