import Mathlib.Data.List.TakeWhile
import Worksheet.Text.Literal

/-!
# Rewriting between literals

A text is cut at its literals from left to right, so that what a quote means depends on all the text
in front of it. What stands between two literals can be rewritten nevertheless without looking at
anything else, as long as what is put there ends outside of literals again.

* **`Cut`** — what the plain stretches and the literals of a text are, said without the scanner;
  `weave` puts them together again, and every text has a cut (`exists_cut`).
* **`Closed`** — a text that ends outside literals. Such texts may stand one behind the other
  (`Closed.append`).
* **`Local`** — a rewriting that leaves literals alone and sees no further than the next one. Such
  rewritings may come one after the other (`Local.comp`), although the later ones see literals that
  the earlier ones have made.
* **`Local.weave`** — the headline: a local rewriting rewrites every stretch by itself.
-/

namespace Worksheet.Text

/-! ## Literals -/

/-- What may stand between the quotes of a literal. -/
inductive LiteralBody : List Char → Prop where
  | nil : LiteralBody []
  | char {c : Char} {b : List Char} (hquote : c ≠ '"') (hescape : c ≠ '\\') (hb : LiteralBody b) :
      LiteralBody (c :: b)
  | escape (c : Char) {b : List Char} (hb : LiteralBody b) : LiteralBody ('\\' :: c :: b)

/-- A literal with both of its quotes. -/
def IsLiteral (l : List Char) : Prop := ∃ b, LiteralBody b ∧ l = '"' :: (b ++ ['"'])

/-- A literal that the text ends in. Its last character may be a backslash that nothing follows. -/
def IsUnclosed (l : List Char) : Prop :=
  ∃ b, LiteralBody b ∧ (l = '"' :: b ∨ l = '"' :: (b ++ ['\\']))

theorem LiteralBody.closeLiteral_append {b : List Char} (h : LiteralBody b) (r : List Char) :
    closeLiteral (b ++ '"' :: r) = (b ++ ['"'], r) := by
  induction h with
  | nil => rfl
  | @char c b hquote hescape hb ih =>
    rw [List.cons_append, closeLiteral, ih]
    · rfl
    · exact hquote
    · rintro d r' rfl
      exact absurd rfl hescape
  | escape c hb ih =>
    rw [List.cons_append, List.cons_append, closeLiteral, ih]
    rfl

theorem LiteralBody.closeLiteral_eq {b : List Char} (h : LiteralBody b) {last : List Char}
    (hlast : last = [] ∨ last = ['\\']) : closeLiteral (b ++ last) = (b ++ last, []) := by
  induction h with
  | nil => rcases hlast with rfl | rfl <;> rfl
  | @char c b hquote hescape hb ih =>
    rw [List.cons_append, closeLiteral, ih]
    · exact hquote
    · rintro d r' rfl
      exact absurd rfl hescape
  | escape c hb ih => rw [List.cons_append, List.cons_append, closeLiteral, ih]

/-- Behind an opening quote the literal is closed, or the text ends in it. -/
theorem exists_literalBody (r : List Char) :
    ∃ b, LiteralBody b ∧ ((∃ t, r = b ++ '"' :: t) ∨ r = b ∨ r = b ++ ['\\']) := by
  fun_induction closeLiteral r with
  | case1 => exact ⟨[], .nil, Or.inr (Or.inl rfl)⟩
  | case2 r => exact ⟨[], .nil, Or.inl ⟨r, rfl⟩⟩
  | case3 c r ih =>
    obtain ⟨b, hb, hend⟩ := ih
    refine ⟨'\\' :: c :: b, hb.escape c, ?_⟩
    rcases hend with ⟨t, rfl⟩ | rfl | rfl
    · exact Or.inl ⟨t, rfl⟩
    · exact Or.inr (Or.inl rfl)
    · exact Or.inr (Or.inr rfl)
  | case4 c r hquote hescape ih =>
    by_cases hc : c = '\\'
    · -- the backslash is the last character of the text
      subst hc
      cases r with
      | nil => exact ⟨[], .nil, Or.inr (Or.inr rfl)⟩
      | cons d r => exact absurd rfl (hescape d r rfl)
    · obtain ⟨b, hb, hend⟩ := ih
      refine ⟨c :: b, .char hquote hc hb, ?_⟩
      rcases hend with ⟨t, rfl⟩ | rfl | rfl
      · exact Or.inl ⟨t, rfl⟩
      · exact Or.inr (Or.inl rfl)
      · exact Or.inr (Or.inr rfl)

/-- A text is plain, or it is cut at its first quote. -/
theorem plain_or_quote (s : List Char) :
    '"' ∉ s ∨ ∃ p r, '"' ∉ p ∧ s = p ++ '"' :: r := by
  by_cases h : '"' ∈ s
  · obtain ⟨p, r, rfl, hp⟩ := List.eq_append_cons_of_mem h
    exact Or.inr ⟨p, r, hp, rfl⟩
  · exact Or.inl h

/-! ## Cuts -/

/-- The plain stretches and the literals of a text, of which the last one may be unclosed. -/
inductive Cut : List (List Char) → List (List Char) → Prop where
  | plain {s : List Char} (hs : '"' ∉ s) : Cut [s] []
  | literal {s l : List Char} {ss ls : List (List Char)} (hs : '"' ∉ s) (hl : IsLiteral l)
      (hrest : Cut ss ls) : Cut (s :: ss) (l :: ls)
  | unclosed {s l : List Char} (hs : '"' ∉ s) (hl : IsUnclosed l) : Cut [s, []] [l]

/-- Stretches with literals between them. -/
def weave : List (List Char) → List (List Char) → List Char
  | [], _ => []
  | s :: _, [] => s
  | s :: ss, l :: ls => s ++ (l ++ weave ss ls)

/-- Every text can be cut. -/
theorem exists_cut (s : List Char) : ∃ ss ls, Cut ss ls ∧ weave ss ls = s := by
  -- on the length, as what follows a literal is shorter
  induction hn : s.length using Nat.strongRecOn generalizing s with
  | ind n ih =>
    rcases plain_or_quote s with hs | ⟨p, r, hp, rfl⟩
    · exact ⟨[s], [], .plain hs, rfl⟩
    · obtain ⟨b, hb, ⟨t, rfl⟩ | hr⟩ := exists_literalBody r
      · obtain ⟨ss, ls, hcut, rfl⟩ := ih t.length (by simp at hn; omega) t rfl
        refine ⟨p :: ss, ('"' :: (b ++ ['"'])) :: ls, .literal hp ⟨b, hb, rfl⟩ hcut, ?_⟩
        simp [weave]
      · refine ⟨[p, []], ['"' :: r], .unclosed hp ⟨b, hb, ?_⟩, by simp [weave]⟩
        rcases hr with rfl | rfl
        · exact Or.inl rfl
        · exact Or.inr rfl

/-- What a text with a cut begins with, if that is no quote, is what its first stretch begins
with. -/
theorem Cut.head?_weave {ss ls : List (List Char)} (h : Cut ss ls) {c : Char} (hc : c ≠ '"') :
    (weave ss ls).head? = some c ↔ (ss.headD []).head? = some c := by
  have hquote : ∀ {l : List Char}, IsLiteral l ∨ IsUnclosed l → ∃ b, l = '"' :: b := by
    rintro l (⟨b, -, rfl⟩ | ⟨b, -, rfl | rfl⟩) <;> exact ⟨_, rfl⟩
  cases h with
  | plain hs => rfl
  | @literal s l ss ls hs hl hrest =>
    obtain ⟨b, rfl⟩ := hquote (Or.inl hl)
    cases s with
    | nil => simp [weave, Ne.symm hc]
    | cons d s => rfl
  | @unclosed s l hs hl =>
    obtain ⟨b, rfl⟩ := hquote (Or.inr hl)
    cases s with
    | nil => simp [weave, Ne.symm hc]
    | cons d s => rfl

/-! ## Closed texts -/

/-- The place behind a text that begins at a place. -/
def Place.behind (p : Place) (s : List Char) : Place := s.foldl Place.next p

theorem Place.behind_append (p : Place) (s t : List Char) :
    p.behind (s ++ t) = (p.behind s).behind t := List.foldl_append

/-- Does a text end outside literals? -/
def Closed (s : List Char) : Prop := Place.outside.behind s = .outside

instance (s : List Char) : Decidable (Closed s) := by unfold Closed; infer_instance

theorem Closed.append {s t : List Char} (hs : Closed s) (ht : Closed t) : Closed (s ++ t) := by
  rw [Closed, Place.behind_append, hs]
  exact ht

theorem closed_of_not_mem {s : List Char} (h : '"' ∉ s) : Closed s := by
  induction s with
  | nil => rfl
  | cons c s ih =>
    obtain ⟨hc, hs⟩ : '"' ≠ c ∧ '"' ∉ s := by simpa using h
    have hnext : Place.outside.next c = .outside := by simp [Place.next, Ne.symm hc]
    show Place.behind (Place.outside.next c) s = .outside
    rw [hnext]
    exact ih hs

theorem LiteralBody.behind {b : List Char} (h : LiteralBody b) : Place.inside.behind b = .inside := by
  induction h with
  | nil => rfl
  | @char c b hquote hescape hb ih =>
    have hnext : Place.inside.next c = .inside := by simp [Place.next, hquote, hescape]
    show Place.behind (Place.inside.next c) b = .inside
    rw [hnext]
    exact ih
  | escape c hb ih => exact ih

theorem IsLiteral.closed {l : List Char} (h : IsLiteral l) : Closed l := by
  obtain ⟨b, hb, rfl⟩ := h
  show Place.inside.behind (b ++ ['"']) = .outside
  rw [Place.behind_append, hb.behind]
  rfl

/-- A closed text is plain, or it goes on behind its first literal with a closed text. -/
@[elab_as_elim]
theorem Closed.induction {motive : (s : List Char) → Closed s → Prop}
    (plain : ∀ p (hp : '"' ∉ p), motive p (closed_of_not_mem hp))
    (literal : ∀ p l t (hp : '"' ∉ p) (hl : IsLiteral l) (ht : Closed t), motive t ht →
      motive (p ++ (l ++ t)) ((closed_of_not_mem hp).append (hl.closed.append ht)))
    {s : List Char} (h : Closed s) : motive s h := by
  induction hn : s.length using Nat.strongRecOn generalizing s with
  | ind n ih =>
    rcases plain_or_quote s with hs | ⟨p, r, hp, rfl⟩
    · exact plain s hs
    · have hinside : Place.inside.behind r = .outside := by
        rw [Closed, Place.behind_append, closed_of_not_mem hp] at h
        exact h
      obtain ⟨b, hb, ⟨t, rfl⟩ | hr⟩ := exists_literalBody r
      · have ht : Closed t := by
          rw [Place.behind_append, hb.behind] at hinside
          exact hinside
        have hmotive := ih t.length (by simp at hn; omega) ht rfl
        have happend := literal p ('"' :: (b ++ ['"'])) t hp ⟨b, hb, rfl⟩ ht hmotive
        have htext : p ++ ('"' :: (b ++ ['"']) ++ t) = p ++ '"' :: (b ++ '"' :: t) := by simp
        simpa only [htext] using happend
      · -- behind an unclosed literal the text is still inside of it
        exfalso
        rcases hr with rfl | rfl
        · rw [hb.behind] at hinside
          cases hinside
        · rw [Place.behind_append, hb.behind] at hinside
          cases hinside

/-! ## What the scanner does -/

theorem untilQuote_of_not_mem {s : List Char} (h : '"' ∉ s) : untilQuote s = (s, []) := by
  have hplain : ∀ c ∈ s, (c != '"') = true := by
    intro c hc
    rw [bne_iff_ne]
    rintro rfl
    exact h hc
  rw [untilQuote, List.takeWhile_eq_self_iff.mpr hplain, List.dropWhile_eq_nil_iff.mpr hplain]

theorem untilQuote_append_quote {s : List Char} (h : '"' ∉ s) (r : List Char) :
    untilQuote (s ++ '"' :: r) = (s, '"' :: r) := by
  have hplain : ∀ c ∈ s, (c != '"') = true := by
    intro c hc
    rw [bne_iff_ne]
    rintro rfl
    exact h hc
  rw [untilQuote, List.takeWhile_append_of_pos hplain, List.dropWhile_append_of_pos hplain]
  simp

section MapPlain

variable (f : List Char → List Char) {s : List Char}

theorem mapPlain_of_not_mem (h : '"' ∉ s) : mapPlain f s = f s := by
  have hpieces : pieces s = [.plain s] := by
    unfold pieces
    split
    · rw [untilQuote_of_not_mem h]
    · next hcons =>
      rw [untilQuote_of_not_mem h] at hcons
      cases hcons
  simp [mapPlain, hpieces, Piece.map, Piece.text]

theorem mapPlain_append_quote (h : '"' ∉ s) (r : List Char) :
    mapPlain f (s ++ '"' :: r)
      = f s ++ '"' :: ((closeLiteral r).1 ++ mapPlain f (closeLiteral r).2) := by
  have hpieces : pieces (s ++ '"' :: r)
      = .plain s :: .literal ('"' :: (closeLiteral r).1) :: pieces (closeLiteral r).2 := by
    rw [pieces]
    split
    · next hnil =>
      rw [untilQuote_append_quote h] at hnil
      cases hnil
    · next q r' hcons =>
      rw [untilQuote_append_quote h] at hcons ⊢
      cases hcons
      rfl
  simp [mapPlain, hpieces, Piece.map, Piece.text]

theorem mapPlain_append_literal (h : '"' ∉ s) {l : List Char} (hl : IsLiteral l) (t : List Char) :
    mapPlain f (s ++ (l ++ t)) = f s ++ (l ++ mapPlain f t) := by
  obtain ⟨b, hb, rfl⟩ := hl
  have hclose := hb.closeLiteral_append t
  have happend : s ++ ('"' :: (b ++ ['"']) ++ t) = s ++ '"' :: (b ++ '"' :: t) := by simp
  rw [happend, mapPlain_append_quote f h, hclose]
  simp

theorem mapPlain_append_unclosed (h : '"' ∉ s) {l : List Char} (hl : IsUnclosed l) :
    mapPlain f (s ++ l) = f s ++ (l ++ f []) := by
  have hnil : mapPlain f [] = f [] := mapPlain_of_not_mem f List.not_mem_nil
  have hclose : ∀ {b last : List Char}, LiteralBody b → last = [] ∨ last = ['\\'] →
      mapPlain f (s ++ '"' :: (b ++ last)) = f s ++ ('"' :: (b ++ last) ++ f []) := by
    intro b last hb hlast
    rw [mapPlain_append_quote f h, hb.closeLiteral_eq hlast, hnil]
    simp
  obtain ⟨b, hb, rfl | rfl⟩ := hl
  · simpa using hclose hb (Or.inl rfl)
  · exact hclose hb (Or.inr rfl)

/-- A rewriting that leaves plain texts of some characters alone leaves every text of them alone. -/
theorem mapPlain_eq_self {P : Char → Prop} (hf : ∀ t, (∀ c ∈ t, P c) → f t = t)
    (hs : ∀ c ∈ s, P c) : mapPlain f s = s := by
  have htext : ∀ p ∈ pieces s, (p.map f).text = p.text := by
    intro p hp
    cases p with
    | plain t =>
      refine hf t fun c hc => hs c ?_
      rw [← text_pieces s]
      exact List.mem_flatMap.mpr ⟨_, hp, hc⟩
    | literal t => rfl
  unfold mapPlain
  rw [List.flatMap_def, List.map_congr_left htext, ← List.flatMap_def, text_pieces]

end MapPlain

/-! ## Local rewritings -/

/-- A rewriting of texts that leaves literals alone and sees no further than the next one. -/
structure Local (f : List Char → List Char) : Prop where
  nil : f [] = []
  closed {s : List Char} (hs : Closed s) : Closed (f s)
  literal {s l : List Char} (hs : Closed s) (hl : IsLiteral l) (t : List Char) :
    f (s ++ (l ++ t)) = f s ++ (l ++ f t)
  unclosed {s l : List Char} (hs : Closed s) (hl : IsUnclosed l) : f (s ++ l) = f s ++ l

theorem local_id : Local fun s => s where
  nil := rfl
  closed hs := hs
  literal _ _ _ := rfl
  unclosed _ _ := rfl

/-- A local rewriting of what a local rewriting has made is local, as the first one leaves no
literal open. -/
theorem Local.comp {f g : List Char → List Char} (hg : Local g) (hf : Local f) :
    Local fun s => g (f s) where
  nil := by rw [hf.nil, hg.nil]
  closed hs := hg.closed (hf.closed hs)
  literal hs hl t := by rw [hf.literal hs hl, hg.literal (hf.closed hs) hl]
  unclosed hs hl := by rw [hf.unclosed hs hl, hg.unclosed (hf.closed hs) hl]

theorem Local.foldl {α : Type} {f : List Char → α → List Char} {as : List α}
    (h : ∀ a ∈ as, Local fun s => f s a) : Local fun s => as.foldl f s := by
  induction as with
  | nil => exact local_id
  | cons a as ih =>
    have hrest := ih fun b hb => h b (List.mem_cons_of_mem a hb)
    exact hrest.comp (h a List.mem_cons_self)

/-- Rewriting outside literals is local if no stretch is left open. -/
theorem local_mapPlain {f : List Char → List Char} (hnil : f [] = [])
    (hf : ∀ s, '"' ∉ s → Closed (f s)) : Local (mapPlain f) where
  nil := by rw [mapPlain_of_not_mem f List.not_mem_nil, hnil]
  closed hs := by
    induction hs using Closed.induction with
    | plain p hp =>
      rw [mapPlain_of_not_mem f hp]
      exact hf p hp
    | literal p l t hp hl ht ih =>
      rw [mapPlain_append_literal f hp hl]
      exact (hf p hp).append (hl.closed.append ih)
  literal hs hl t := by
    induction hs using Closed.induction with
    | plain p hp => rw [mapPlain_append_literal f hp hl, mapPlain_of_not_mem f hp]
    | literal p l' t' hp hl' ht' ih =>
      rw [List.append_assoc, List.append_assoc, mapPlain_append_literal f hp hl', ih,
        mapPlain_append_literal f hp hl']
      simp only [List.append_assoc]
  unclosed hs hl := by
    induction hs using Closed.induction with
    | plain p hp =>
      rw [mapPlain_append_unclosed f hp hl, mapPlain_of_not_mem f hp, hnil, List.append_nil]
    | literal p l' t' hp hl' ht' ih =>
      rw [List.append_assoc, List.append_assoc, mapPlain_append_literal f hp hl', ih,
        mapPlain_append_literal f hp hl']
      simp only [List.append_assoc]

/-- **Every stretch is rewritten by itself.** The literals stay where they are, and what is written
between two of them depends on what stood there only. -/
theorem Local.weave {f : List Char → List Char} (hf : Local f) {ss ls : List (List Char)}
    (h : Cut ss ls) : f (weave ss ls) = Text.weave (ss.map f) ls := by
  induction h with
  | plain hs => rfl
  | literal hs hl hrest ih =>
    rw [Text.weave, hf.literal (closed_of_not_mem hs) hl, ih]
    rfl
  | unclosed hs hl =>
    have hend := hf.unclosed (closed_of_not_mem hs) hl
    simp [Text.weave, hend, hf.nil]

end Worksheet.Text
