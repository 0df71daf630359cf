import Worksheet.Proofs.Notation.Kept

/-!
# Root signs that are left

The rule for roots goes over a text once. It passes over the operands of the roots that it rewrites, so that a
root in the operand of another one is left as it is, and a root sign whose operand is another root finds no
operand at all.

* **`RootPlace`** — where in the operands of roots a character stands, as the rule goes over a text.
* **`free_substitute_roots_iff`** — the rule leaves no root sign exactly if it ends outside operands.
* **`factorial_keeps_places`**, **`signs_keeps_places`** — the rules in front of it do not matter for that.
* **`HasOperand`**, **`NestedRoots`** — the same, said of the text; `run_outside_iff`.
* **`no_root_left_iff`** — what expanding a text leaves.
-/

namespace Worksheet.Notation

open Text

/-! ## Places -/

/-- A root sign. -/
def isRootSign (c : Char) : Bool := (rootDegree? c).isSome

theorem rootSign_spec {c : Char} (h : isRootSign c = true) :
    isOperandChar c = false ∧ c ≠ '(' ∧ c ≠ ')' ∧ isBlank c = false := by
  unfold isRootSign rootDegree? at h
  split at h
  · decide
  · decide
  · decide
  · cases h

theorem isRootSign_of_isOperandChar {c : Char} (h : isOperandChar c = true) : isRootSign c = false := by
  rw [Bool.eq_false_iff]
  intro hroot
  rw [(rootSign_spec hroot).1] at h
  cases h

/-- Where a character stands when the rule for roots goes over a text. -/
inductive RootPlace where
  /-- Outside the operands of roots. -/
  | outside
  /-- Directly behind a root sign. -/
  | signed
  /-- In a group that is the operand of a root, with so many more parentheses open in it. -/
  | inside (depth : ℕ)
  /-- Behind a root sign that is left. -/
  | lost
deriving DecidableEq

namespace RootPlace

/-- The place of the character behind `c`. -/
def next : RootPlace → Char → RootPlace
  | outside, c => if isRootSign c then signed else outside
  | signed, c => if c = '(' then inside 0 else if isOperandChar c then outside else lost
  | inside depth, c =>
    if isRootSign c then lost
    else if c = '(' then inside (depth + 1)
    else if c = ')' then
      match depth with
      | 0 => outside
      | d + 1 => inside d
    else inside depth
  | lost, _ => lost

/-- The place behind a text. -/
def run (q : RootPlace) (s : List Char) : RootPlace := s.foldl next q

@[simp] theorem run_nil (q : RootPlace) : q.run [] = q := rfl

@[simp] theorem run_cons (q : RootPlace) (c : Char) (s : List Char) : q.run (c :: s) = (q.next c).run s := rfl

theorem run_append (q : RootPlace) (s t : List Char) : q.run (s ++ t) = (q.run s).run t := List.foldl_append

@[simp] theorem run_lost (s : List Char) : lost.run s = lost := by
  induction s with
  | nil => rfl
  | cons c s ih => exact ih

/-- The place behind a character of an operand, if it is no parenthesis. -/
def operand : RootPlace → RootPlace
  | signed => outside
  | q => q

/-- The place behind a character that no operand begins with. -/
def other : RootPlace → RootPlace
  | signed => lost
  | q => q

theorem next_eq {c : Char} (hroot : isRootSign c = false) (hopen : c ≠ '(') (hclose : c ≠ ')') (q : RootPlace) :
    q.next c = if isOperandChar c then q.operand else q.other := by
  cases q <;> simp [next, operand, other, hroot, hopen, hclose]

theorem next_operand {c : Char} (hc : isOperandChar c = true) (q : RootPlace) : q.next c = q.operand := by
  have hne : ∀ d, isOperandChar d = false → c ≠ d := by
    rintro d hd rfl
    rw [hc] at hd
    cases hd
  rw [next_eq (isRootSign_of_isOperandChar hc) (hne _ (by decide)) (hne _ (by decide)), if_pos hc]

theorem run_operand {s : List Char} (hs : IsRun isOperandChar s) (q : RootPlace) : q.run s = q.operand := by
  obtain ⟨c, r, rfl⟩ := List.exists_cons_of_ne_nil hs.nonempty
  obtain ⟨hc, hr⟩ := List.forall_mem_cons.mp hs.all
  have hsettled : ∀ q : RootPlace, q.operand.operand = q.operand := by rintro (_ | _ | _ | _) <;> rfl
  rw [run_cons, next_operand hc]
  induction r with
  | nil => rfl
  | cons d r ih =>
    obtain ⟨hd, hr⟩ := List.forall_mem_cons.mp hr
    rw [run_cons, next_operand hd, hsettled]
    exact ih ⟨by simp, by simpa [hc] using hr⟩ hr

/-- A character of a text that is neither part of an operand nor a parenthesis nor a root sign. -/
def IsOther (c : Char) : Prop := isRootSign c = false ∧ c ≠ '(' ∧ c ≠ ')' ∧ isOperandChar c = false

instance (c : Char) : Decidable (IsOther c) := inferInstanceAs (Decidable (_ ∧ _))

theorem run_other {s : List Char} (hne : s ≠ []) (hs : ∀ c ∈ s, IsOther c) (q : RootPlace) : q.run s = q.other := by
  have hnext : ∀ {c}, IsOther c → ∀ q : RootPlace, q.next c = q.other := by
    rintro c ⟨hroot, hopen, hclose, hoperand⟩ q
    rw [next_eq hroot hopen hclose, if_neg (by simp [hoperand])]
  have hsettled : ∀ q : RootPlace, q.other.other = q.other := by rintro (_ | _ | _ | _) <;> rfl
  obtain ⟨c, r, rfl⟩ := List.exists_cons_of_ne_nil hne
  obtain ⟨hc, hr⟩ := List.forall_mem_cons.mp hs
  rw [run_cons, hnext hc]
  clear hs hne
  induction r with
  | nil => rfl
  | cons d r ih =>
    obtain ⟨hd, hr⟩ := List.forall_mem_cons.mp hr
    rw [run_cons, hnext hd, hsettled]
    exact ih hr

/-- A text that does not matter, unless it stands directly behind a root sign. -/
def Neutral (s : List Char) : Prop := ∀ q : RootPlace, q ≠ signed → q.run s = q

theorem neutral_operand {s : List Char} (hs : ∀ c ∈ s, isOperandChar c = true) : Neutral s := by
  intro q hq
  by_cases hne : s = []
  · rw [hne, run_nil]
  · rw [run_operand ⟨hne, hs⟩]
    cases q <;> first | rfl | exact absurd rfl hq

theorem neutral_other {s : List Char} (hs : ∀ c ∈ s, IsOther c) : Neutral s := by
  intro q hq
  by_cases hne : s = []
  · rw [hne, run_nil]
  · rw [run_other hne hs]
    cases q <;> first | rfl | exact absurd rfl hq

theorem Neutral.append {s t : List Char} (hs : Neutral s) (ht : Neutral t) : Neutral (s ++ t) := by
  intro q hq
  rw [run_append, hs q hq, ht q hq]

/-- Parentheses that are opened behind something else than a root sign do not matter. -/
theorem run_parens {s : List Char} {q : RootPlace} (hq : q ≠ signed) (hs : Neutral s) :
    q.run ('(' :: (s ++ [')'])) = q := by
  have hopen : q.next '(' ≠ signed := by
    cases q with
    | outside => decide
    | signed => exact absurd rfl hq
    | inside depth => simp [next, isRootSign, rootDegree?]
    | lost => decide
  rw [run_cons, run_append, hs _ hopen]
  cases q with
  | outside => rfl
  | signed => exact absurd rfl hq
  | inside depth => rfl
  | lost => rfl

/-- In the operand of a root a root sign is left; else the group ends where its parenthesis is closed. -/
theorem run_inside {depth depth' : ℕ} {s : List Char} (h : openBehind? depth s = some depth') :
    (Free isRootSign s → (inside depth).run s = inside depth') ∧
      ((∃ c ∈ s, isRootSign c = true) → (inside depth).run s = lost) := by
  induction s generalizing depth with
  | nil =>
    cases h
    exact ⟨fun _ => rfl, by simp⟩
  | cons c r ih =>
    by_cases hroot : isRootSign c = true
    · have hnext : (inside depth).next c = lost := if_pos hroot
      refine ⟨fun hfree => ?_, fun _ => by rw [run_cons, hnext, run_lost]⟩
      rw [hfree c List.mem_cons_self] at hroot
      cases hroot
    · -- whatever the depth behind the character, the rest of the text decides
      have hrest : ∀ {d}, (inside depth).next c = inside d → openBehind? d r = some depth' →
          (Free isRootSign (c :: r) → (inside depth).run (c :: r) = inside depth') ∧
            ((∃ e ∈ c :: r, isRootSign e = true) → (inside depth).run (c :: r) = lost) := by
        intro d hnext hopen
        rw [run_cons, hnext]
        refine ⟨fun hfree => (ih hopen).1 fun e he => hfree e (List.mem_cons_of_mem c he), ?_⟩
        rintro ⟨e, he, hsign⟩
        refine (ih hopen).2 ⟨e, (List.mem_cons.mp he).resolve_left ?_, hsign⟩
        rintro rfl
        exact hroot hsign
      by_cases hopen : c = '('
      · subst hopen
        rw [openBehind?_open] at h
        exact hrest (by simp [next, hroot]) h
      · by_cases hclose : c = ')'
        · subst hclose
          cases depth with
          | zero => cases h
          | succ d => exact hrest (by simp [next, hroot]) h
        · rw [openBehind?_other hopen hclose] at h
          exact hrest (by simp [next, hroot, hopen, hclose]) h

/-- Behind a group that is not closed a text does not get out of the operand of the root. -/
theorem exists_of_run_inside {depth : ℕ} {s : List Char} (h : (inside depth).run s = outside) :
    ∃ group rest, s = group ++ ')' :: rest ∧ ClosesAt depth group := by
  induction s generalizing depth with
  | nil => cases h
  | cons c r ih =>
    -- a character that does not close the group belongs to it, at whatever depth
    have hrest : ∀ {d}, (inside d).run r = outside → (∀ u, openBehind? depth (c :: u) = openBehind? d u) →
        ∃ group rest, c :: r = group ++ ')' :: rest ∧ ClosesAt depth group := by
      intro d hrun hopen
      obtain ⟨group, rest, rfl, hcloses⟩ := ih hrun
      exact ⟨c :: group, rest, rfl, (hopen group).trans hcloses⟩
    rw [run_cons] at h
    unfold next at h
    dsimp only at h
    split at h
    · rw [run_lost] at h
      cases h
    · split at h
      · next hopen =>
        subst hopen
        exact hrest h fun u => openBehind?_open
      · split at h
        · next hclose =>
          subst hclose
          cases depth with
          | zero => exact ⟨[], r, rfl, rfl⟩
          | succ d => exact hrest h fun u => rfl
        · next hopen hclose => exact hrest h fun u => openBehind?_other hopen hclose

/-- Blanks at the end do not matter for whether a text ends outside operands. -/
theorem run_append_blanks {q : RootPlace} {s blanks : List Char} (hblanks : ∀ c ∈ blanks, isBlank c = true) :
    q.run (s ++ blanks) = outside ↔ q.run s = outside := by
  have hother : ∀ c ∈ blanks, IsOther c := by
    intro c hc
    have hne : ∀ {d}, isBlank d = false → c ≠ d := by
      rintro d hd rfl
      rw [hblanks c hc] at hd
      cases hd
    refine ⟨?_, hne (by decide), hne (by decide), ?_⟩ <;> rw [Bool.eq_false_iff] <;> intro h
    · exact hne (rootSign_spec h).2.2.2 rfl
    · exact hne (isBlank_of_isOperandChar h) rfl
  rw [run_append]
  by_cases hne : blanks = []
  · rw [hne, run_nil]
  · rw [run_other hne hother]
    cases q.run s <;> simp [other]

end RootPlace

/-! ## The rules in front of the one for roots -/

/-- Two texts behind which a character stands at the same place. -/
def SamePlaces (s t : List Char) : Prop := ∀ q : RootPlace, q.run t = q.run s

theorem partwise_samePlaces : Partwise SamePlaces where
  refl _ _ := rfl
  trans hst htu q := (htu q).trans (hst q)
  append ha hb q := by rw [RootPlace.run_append, RootPlace.run_append, ha q, hb _]

open RootPlace in
theorem factorial_keeps_places : Keeps SamePlaces factorial := by
  intro before after out rest h
  obtain ⟨operand, hoperand, rfl, hout⟩ := covered_factorial h
  have hrun := hoperand.mono fun c hc => isOperandChar_of_isNameChar hc
  refine ⟨operand ++ ['!'], by simp, by simp, ?_⟩
  rcases hout with ⟨-, rfl⟩ | ⟨-, rfl⟩
  · exact fun q => rfl
  · intro q
    have hname : q.run "factorial".toList = q.operand := run_operand ⟨by decide, by decide⟩ q
    have hsettled : q.operand ≠ signed ∧ q.operand.other = q.operand := by cases q <;> simp [RootPlace.operand, other]
    have hmark : ∀ r : RootPlace, r.run ['!'] = r.other := run_other (by simp) (by decide)
    have hcall : "factorial(".toList ++ operand ++ [')'] = "factorial".toList ++ '(' :: (operand ++ [')']) := by
      simp
    rw [hcall, run_append, hname, run_parens hsettled.1 (neutral_operand hrun.all), run_append, run_operand hrun, hmark, hsettled.2]

open RootPlace in
theorem signs_keeps_places : Keeps SamePlaces signs := by
  intro before after out rest h
  have hother : ∀ c ∈ "÷×⋅·⁻*/".toList, IsOther c := by decide
  have hone : ∀ {c}, IsOther c → ∀ q : RootPlace, q.run [c] = q.other := fun hc =>
    run_other (by simp) (by simpa using hc)
  -- what is written begins with an operator, and what stands behind that does not matter
  have hwritten : ∀ {lead s : List Char} (q : RootPlace), lead ≠ [] → (∀ c ∈ lead, IsOther c) →
      Neutral s → q.run (lead ++ s) = q.other := by
    intro lead s q hne hlead hs
    rw [run_append, run_other hne hlead]
    refine hs _ ?_
    cases q <;> simp [other]
  rcases covered_signs h with ⟨c, hc, rfl, hout⟩ | ⟨marks, digits, hmarks, hdigits, hcases⟩
  · refine ⟨[c], by simp, rfl, fun q => ?_⟩
    have hsign : IsOther c := by
      have hall : ∀ d ∈ "÷×⋅·".toList, IsOther d := by decide
      exact hall c hc
    rcases hout with rfl | rfl
    · rw [hone (hother _ (by decide)), hone hsign]
    · rw [hone (hother _ (by decide)), hone hsign]
  · have hmark : ∀ c ∈ marks, IsOther c := by
      intro c hc
      have hall : ∀ d ∈ "⁰¹²³⁴⁵⁶⁷⁸⁹".toList, IsOther d := by decide
      exact hall c (mem_of_isSuperscript (hmarks.all c hc))
    have hneutral : Neutral digits :=
      neutral_operand fun c hc => isOperandChar_of_isNameChar (isNameChar_of_isDigit (hdigits c hc))
    rcases hcases with ⟨rfl, rfl⟩ | ⟨rfl, rfl⟩
    · refine ⟨'⁻' :: marks, by simp, rfl, fun q => ?_⟩
      have hpower : "**(-".toList ++ digits ++ [')'] = ['*', '*'] ++ '(' :: ('-' :: digits ++ [')']) := by simp
      have hnegative : Neutral ('-' :: digits) := (neutral_other (s := ['-']) (by decide)).append hneutral
      rw [hpower, hwritten q (by simp) (by decide) fun r hr => run_parens hr hnegative,
        run_other (by simp) (List.forall_mem_cons.mpr ⟨hother _ (by decide), hmark⟩)]
    · refine ⟨marks, hmarks.nonempty, rfl, fun q => ?_⟩
      rw [hwritten q (by simp) (by decide) hneutral, run_other hmarks.nonempty hmark]

/-! ## The rule for roots -/

theorem free_degree {c degree : Char} (h : rootDegree? c = some degree) : isRootSign degree = false := by
  unfold rootDegree? at h
  split at h <;> cases h <;> decide

/-- Where no operand is found behind a root sign, the rule does not get out of it again. -/
theorem run_signed_ne {before r : List Char} {c : Char} (hc : isRootSign c = true) (h : roots before (c :: r) = none) :
    RootPlace.signed.run r ≠ .outside := by
  obtain ⟨degree, hdegree⟩ := Option.isSome_iff_exists.mp hc
  have hnone : rootOperand? r = none := by
    unfold roots at h
    dsimp only at h
    rw [hdegree] at h
    cases hoperand : rootOperand? r with
    | none => rfl
    | some m =>
      rw [hoperand] at h
      cases h
  cases r with
  | nil => simp
  | cons d r =>
    rw [RootPlace.run_cons]
    unfold RootPlace.next
    dsimp only
    split
    · next hopen =>
      subst hopen
      intro hrun
      obtain ⟨group, rest, hsplit, hcloses⟩ := RootPlace.exists_of_run_inside hrun
      have hfound := closeParen?_eq_some_iff.mpr ⟨hsplit, hcloses⟩
      rw [show rootOperand? ('(' :: r) = closeParen? 0 r from rfl, hfound] at hnone
      cases hnone
    · next hopen =>
      split
      · next hd =>
        -- a run of characters would be an operand
        rw [rootOperand?] at hnone
        · rw [List.takeWhile_cons_of_pos hd] at hnone
          cases hnone
        · rintro u hu
          exact hopen (List.cons.inj hu).1
      · rw [RootPlace.run_lost]
        simp

/-- What the rule writes for a root has a root sign exactly if one stands in the operand, and then the rule
does not get out of it. -/
theorem covered_root {before after out rest : List Char} (h : roots before after = some (out, rest)) :
    ∃ covered, covered ≠ [] ∧ after = covered ++ rest ∧
      ((Free isRootSign out ∧ RootPlace.outside.run covered = .outside) ∨
        ¬ Free isRootSign out ∧ RootPlace.outside.run covered = .lost) := by
  obtain ⟨sign, degree, operand, hdegree, rfl, hcovered⟩ := covered_roots h
  have hsign : RootPlace.outside.next sign = .signed := if_pos (by rw [isRootSign, hdegree]; rfl)
  have hfree : Free isRootSign operand → Free isRootSign (['('] ++ operand ++ ")**(1/".toList ++ [degree, ')']) :=
    fun hoperand => ((Free.append (by decide) hoperand).append (by decide)).append
      (.cons (free_degree hdegree) (by decide))
  rcases hcovered with ⟨hrun, rfl⟩ | ⟨hbalanced, rfl⟩
  · refine ⟨sign :: operand, by simp, rfl, .inl ⟨hfree fun d hd => isRootSign_of_isOperandChar (hrun.all d hd), ?_⟩⟩
    rw [RootPlace.run_cons, hsign, RootPlace.run_operand hrun]
    rfl
  · refine ⟨sign :: '(' :: (operand ++ [')']), by simp, by simp, ?_⟩
    have hopen : RootPlace.signed.next '(' = .inside 0 := rfl
    obtain ⟨hclean, hnested⟩ := RootPlace.run_inside hbalanced
    by_cases hoperand : Free isRootSign operand
    · refine .inl ⟨hfree hoperand, ?_⟩
      rw [RootPlace.run_cons, hsign, RootPlace.run_cons, hopen, RootPlace.run_append, hclean hoperand]
      rfl
    · obtain ⟨c, hc, hroot⟩ : ∃ c ∈ operand, isRootSign c = true := by
        simpa [Free] using hoperand
      refine .inr ⟨fun hall => ?_, ?_⟩
      · rw [hall c (by simp [hc])] at hroot
        cases hroot
      · rw [RootPlace.run_cons, hsign, RootPlace.run_cons, hopen, RootPlace.run_append, hnested ⟨c, hc, hroot⟩,
          RootPlace.run_lost]

/-- **The rule for roots leaves no root sign exactly if it ends outside the operands of roots.** -/
theorem free_substitute_roots_iff (before s : List Char) :
    Free isRootSign (substituteFrom roots before s) ↔ RootPlace.outside.run s = .outside := by
  -- on the length, as the scan goes on behind an operand
  induction hn : s.length using Nat.strongRecOn generalizing before s with
  | ind n ih =>
    cases s with
    | nil => exact iff_of_true (free_nil _) rfl
    | cons c r =>
      cases hmatch : roots before (c :: r) with
      | none =>
        rw [substituteFrom_of_none hmatch, free_cons_iff, RootPlace.run_cons]
        by_cases hc : isRootSign c = true
        · have hnext : RootPlace.outside.next c = .signed := if_pos hc
          rw [hnext]
          exact iff_of_false (by simp [hc]) (run_signed_ne hc hmatch)
        · have hnext : RootPlace.outside.next c = .outside := if_neg hc
          rw [hnext, ← ih r.length (by simp at hn; omega) (c :: before) r rfl]
          exact and_iff_right (by simpa using hc)
      | some m =>
        obtain ⟨covered, hne, hsplit, hcovered⟩ := covered_root hmatch
        have hlength : m.2.length < n := by
          have hpos := List.length_pos_iff.mpr hne
          rw [← hn, hsplit, List.length_append]
          omega
        have hrest := ih m.2.length hlength (covered.reverse ++ before) m.2 rfl
        rw [hsplit] at hmatch ⊢
        rw [substituteFrom_of_fit hne hmatch, free_append_iff, RootPlace.run_append]
        rcases hcovered with ⟨hfree, hrun⟩ | ⟨hleft, hrun⟩
        · rw [hrun, ← hrest]
          exact and_iff_right hfree
        · rw [hrun, RootPlace.run_lost]
          exact iff_of_false (fun hall => hleft hall.1) (by simp)

/-! ## Nested roots -/

/-- Does an operand of a root begin here: a number or name, a group, or another root? -/
inductive HasOperand : List Char → Prop where
  | run {c : Char} {r : List Char} (hc : isOperandChar c = true) : HasOperand (c :: r)
  | group {inside rest : List Char} (hinside : Balanced inside) : HasOperand ('(' :: (inside ++ ')' :: rest))
  | root {c : Char} {r : List Char} (hc : isRootSign c = true) (hr : HasOperand r) : HasOperand (c :: r)

/-- A text in which an operand stands behind every root sign. -/
def RootsHaveOperands (s : List Char) : Prop :=
  ∀ pre c r, s = pre ++ c :: r → isRootSign c = true → HasOperand r

/-- Does a root sign stand directly behind another one, or in the group that is the operand of another one? -/
def NestedRoots (s : List Char) : Prop :=
  (∃ pre c d r, s = pre ++ c :: d :: r ∧ isRootSign c = true ∧ isRootSign d = true) ∨
    ∃ pre c inside r, s = pre ++ c :: '(' :: (inside ++ ')' :: r) ∧ isRootSign c = true ∧ Balanced inside ∧
      ∃ d ∈ inside, isRootSign d = true

section Nested

variable {s t : List Char}

theorem RootsHaveOperands.of_append (h : RootsHaveOperands (t ++ s)) : RootsHaveOperands s := by
  intro pre c r hsplit
  exact h (t ++ pre) c r (by rw [hsplit, List.append_assoc])

theorem NestedRoots.append (h : NestedRoots s) (t : List Char) : NestedRoots (t ++ s) := by
  rcases h with ⟨pre, c, d, r, rfl, hroots⟩ | ⟨pre, c, inside, r, rfl, hroots⟩
  · exact .inl ⟨t ++ pre, c, d, r, by simp, hroots⟩
  · exact .inr ⟨t ++ pre, c, inside, r, by simp, hroots⟩

/-- Behind a root sign a text is directly behind it, or one was left before. -/
theorem next_root {c : Char} (hc : isRootSign c = true) (q : RootPlace) : q.next c = .signed ∨ q.next c = .lost := by
  obtain ⟨hoperand, hopen, -, -⟩ := rootSign_spec hc
  cases q with
  | outside => exact .inl (if_pos hc)
  | signed => exact .inr (by simp [RootPlace.next, hopen, hoperand])
  | inside depth => exact .inr (if_pos hc)
  | lost => exact .inr rfl

theorem NestedRoots.run_eq (h : NestedRoots s) (q : RootPlace) : q.run s = .lost := by
  rcases h with ⟨pre, c, d, r, rfl, hc, hd⟩ | ⟨pre, c, group, r, rfl, hc, hbalanced, hroot⟩
  · rw [RootPlace.run_append, RootPlace.run_cons, RootPlace.run_cons]
    rcases next_root hc (q.run pre) with hnext | hnext
    · obtain ⟨hoperand, hopen, -, -⟩ := rootSign_spec hd
      have hlost : RootPlace.signed.next d = .lost := by simp [RootPlace.next, hopen, hoperand]
      rw [hnext, hlost, RootPlace.run_lost]
    · rw [hnext]
      exact RootPlace.run_lost r
  · rw [RootPlace.run_append, RootPlace.run_cons, RootPlace.run_cons]
    rcases next_root hc (q.run pre) with hnext | hnext
    · have hopen : RootPlace.signed.next '(' = .inside 0 := rfl
      rw [hnext, hopen, RootPlace.run_append, (RootPlace.run_inside hbalanced).2 hroot, RootPlace.run_lost]
    · rw [hnext]
      exact RootPlace.run_lost _

/-- Where an operand stands behind every root sign and no root is nested in another one, the rule gets out of
every operand. -/
theorem run_outside (hoperands : RootsHaveOperands s) (hnested : ¬ NestedRoots s) :
    RootPlace.outside.run s = .outside := by
  -- on the length, as an operand is passed over as a whole
  induction hn : s.length using Nat.strongRecOn generalizing s with
  | ind n ih =>
    have hbehind : ∀ {a b}, s = a ++ b → a ≠ [] → RootPlace.outside.run b = .outside := by
      rintro a b rfl hne
      have hpos := List.length_pos_iff.mpr hne
      rw [List.length_append] at hn
      exact ih b.length (by omega) hoperands.of_append (fun h => hnested (h.append a)) rfl
    cases s with
    | nil => rfl
    | cons c r =>
      rw [RootPlace.run_cons]
      by_cases hc : isRootSign c = true
      · have hnext : RootPlace.outside.next c = .signed := if_pos hc
        rw [hnext]
        cases hoperands [] c r rfl hc with
        | @run d r hd =>
          rw [RootPlace.run_cons, RootPlace.next_operand hd]
          exact hbehind (a := [c, d]) rfl (by simp)
        | @group group rest hbalanced =>
          have hfree : Free isRootSign group := by
            intro d hd
            rw [Bool.eq_false_iff]
            exact fun hroot => hnested (.inr ⟨[], c, group, rest, rfl, hc, hbalanced, d, hd, hroot⟩)
          have hopen : RootPlace.signed.next '(' = .inside 0 := rfl
          rw [RootPlace.run_cons, hopen, RootPlace.run_append, (RootPlace.run_inside hbalanced).1 hfree]
          exact hbehind (a := c :: '(' :: (group ++ [')'])) (by simp) (by simp)
        | @root d r hd _ => exact absurd (.inl ⟨[], c, d, r, rfl, hc, hd⟩) hnested
      · have hnext : RootPlace.outside.next c = .outside := if_neg hc
        rw [hnext]
        exact hbehind (a := [c]) rfl (by simp)

theorem run_outside_iff (hoperands : RootsHaveOperands s) : RootPlace.outside.run s = .outside ↔ ¬ NestedRoots s := by
  refine ⟨fun h hnested => ?_, run_outside hoperands⟩
  rw [hnested.run_eq] at h
  cases h

end Nested

/-! ## All rules -/

theorem trim_places (s : List Char) :
    RootPlace.outside.run (trim s) = .outside ↔ RootPlace.outside.run s = .outside := by
  obtain ⟨lead, hlead, hstart⟩ := exists_blanks s
  obtain ⟨trail, htrail, hend⟩ : ∃ trail, (∀ c ∈ trail, isBlank c = true) ∧ trimStart s = trim s ++ trail := by
    obtain ⟨blanks, hblanks, hreverse⟩ := exists_blanks (trimStart s).reverse
    refine ⟨blanks.reverse, fun c hc => hblanks c (List.mem_reverse.mp hc), ?_⟩
    have htwice := congrArg List.reverse hreverse
    rwa [List.reverse_reverse, List.reverse_append] at htwice
  have hfront : RootPlace.outside.run lead = .outside := by
    have hblanks := RootPlace.run_append_blanks (q := .outside) (s := []) hlead
    rw [List.nil_append] at hblanks
    exact hblanks.mpr rfl
  conv_rhs => rw [hstart, hend, RootPlace.run_append, hfront]
  exact (RootPlace.run_append_blanks htrail).symm

theorem isRootSign_of_isOperatorMark {c : Char} (h : isOperatorMark c = false) : isRootSign c = false := by
  rw [Bool.eq_false_iff]
  intro hroot
  unfold isRootSign rootDegree? at hroot
  split at hroot
  · cases h
  · cases h
  · cases h
  · cases hroot

theorem LooksFor.spares {signs : List Char} {p : Pattern (List Char)} (hp : LooksFor signs p)
    (hsigns : IsTermText signs) : Spares isRootSign p := by
  refine (hp.within hsigns).spares fun c hc => ?_
  have hmark : isOperatorMark c = true := by
    cases hother : isOperatorMark c with
    | true => rfl
    | false =>
      rw [isRootSign_of_isOperatorMark hother] at hc
      cases hc
  obtain ⟨hterm, hblank⟩ := isTermChar_of_isOperatorMark hmark
  refine ⟨?_, hblank⟩
  rw [isPercentChar, hterm, Bool.false_or, beq_eq_false_iff_ne]
  rintro rfl
  cases hc

/-- The rules behind the one for roots do nothing to root signs. -/
theorem rules_spare_roots {r : Rule} (hr : r ∈ Rule.all.drop 3) : r.SparesAll isRootSign := by
  have hsplit : Rule.all.drop 3 = [.ofPatterns "percent-of" fun _ => [percentOf],
      .ofPatterns "percent-step" fun _ => [percentStep]] ++ Rule.all.drop 5 := rfl
  rw [hsplit, List.mem_append] at hr
  rcases hr with hpercentage | hlater
  · simp only [List.mem_cons, List.not_mem_nil, or_false] at hpercentage
    rcases hpercentage with rfl | rfl
    · exact Rule.sparesAll_ofPatterns fun _ => by simpa using looksFor_percentOf.spares (by decide)
    · exact Rule.sparesAll_ofPatterns fun _ => by simpa using looksFor_percentStep.spares (by decide)
  · exact fun o s => (operandRules_spare hlater o s).mono fun _ => isRootSign_of_isOperatorMark

/-- **What expanding a text leaves of its root signs.** In a text without literals in which an operand stands
behind every root sign, no root sign is left exactly if no root is nested in another one. -/
theorem no_root_left_iff (o : Options) {s : List Char} (hquote : '"' ∉ s) (hoperands : RootsHaveOperands s) :
    (∀ c ∈ expand o s, rootDegree? c = none) ↔ ¬ NestedRoots s := by
  have hexpand : expand o s = (Rule.all.drop 3).foldl (fun s r => r.apply o s)
      (substituteAll [roots] (substituteAll [signs] (substituteAll [factorial] (trim s)))) := by
    have hfront : (Rule.all.take 3).foldl (fun s r => r.apply o s) (trim s)
        = substituteAll [roots] (substituteAll [signs] (substituteAll [factorial] (trim s))) := rfl
    rw [← hfront, ← List.foldl_append, List.take_append_drop]
    rfl
  -- without literals every rule goes over the text as a whole
  have htrim : '"' ∉ trim s := fun h => hquote (trim_subset s h)
  have hfactorial : substituteAll [factorial] (trim s) = factorial.substitute (trim s) :=
    mapPlain_of_not_mem _ htrim
  have hplain := factorial_quoteless.substitute htrim
  have hsigns : substituteAll [signs] (factorial.substitute (trim s)) = signs.substitute (factorial.substitute (trim s)) :=
    mapPlain_of_not_mem _ hplain
  have hroots : substituteAll [roots] (signs.substitute (factorial.substitute (trim s)))
      = substituteFrom roots [] (signs.substitute (factorial.substitute (trim s))) :=
    mapPlain_of_not_mem _ (signs_quoteless.substitute hplain)
  have hplaces := partwise_samePlaces.trans (factorial_keeps_places.substitute partwise_samePlaces (trim s))
    (signs_keeps_places.substitute partwise_samePlaces _) .outside
  have hnone : (∀ c ∈ expand o s, rootDegree? c = none) ↔ Free isRootSign (expand o s) := by
    simp [Free, isRootSign]
  rw [hnone, hexpand, (sameOf_foldl (fun r hr => rules_spare_roots hr) o _).free_iff, hfactorial, hsigns, hroots,
    free_substitute_roots_iff, hplaces, trim_places, run_outside_iff hoperands]

/-- The operand of a root may be a group that holds groups. -/
theorem no_root_left_iff_group :
    let o : Options := ⟨.midnight ⟨2024, 1, 31, by decide⟩, false⟩
    '"' ∉ "√((a+b)*2)".toList ∧ RootsHaveOperands "√((a+b)*2)".toList ∧
      ∀ c ∈ expand o "√((a+b)*2)".toList, rootDegree? c = none := by
  intro o
  have hoperands : RootsHaveOperands "√((a+b)*2)".toList := by
    intro pre c r hsplit hc
    cases pre with
    | nil =>
      cases hsplit
      have hgroup : Balanced "(a+b)*2".toList := by decide
      show HasOperand ('(' :: ("(a+b)*2".toList ++ [')']))
      exact .group hgroup
    | cons d pre =>
      have hfree : Free isRootSign "((a+b)*2)".toList := by decide
      have hrest : "((a+b)*2)".toList = pre ++ c :: r := (List.cons.inj hsplit).2
      rw [hfree c (by rw [hrest]; simp)] at hc
      cases hc
  exact ⟨by decide, hoperands, (no_root_left_iff o (by decide) hoperands).mpr ((run_outside_iff hoperands).mp rfl)⟩

/-- Of two root signs in a row the first one is left, and so is a root sign in the operand of a root. -/
theorem nested_roots_left :
    let o : Options := ⟨.midnight ⟨2024, 1, 31, by decide⟩, false⟩
    RootsHaveOperands "√√16".toList ∧ expand o "√√16".toList = "√(16)**(1/2)".toList ∧
      expand o "√(√16)".toList = "(√16)**(1/2)".toList := by
  refine ⟨fun pre c r hsplit hc => ?_, by decide +kernel, by decide +kernel⟩
  have hfree : Free isRootSign "16".toList := by decide
  match pre with
  | [] =>
    cases hsplit
    exact .root (by decide) (.run (by decide))
  | [d] =>
    cases hsplit
    exact .run (by decide)
  | d :: e :: pre =>
    have hrest : "16".toList = pre ++ c :: r := (List.cons.inj (List.cons.inj hsplit).2).2
    rw [hfree c (by rw [hrest]; simp)] at hc
    cases hc

end Worksheet.Notation
