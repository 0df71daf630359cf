import Worksheet.Declaration
import Worksheet.Proofs.Text.Class
import Worksheet.Proofs.Text.Literal
import Worksheet.Proofs.Text.Pattern

/-!
# Calls in a text

A call is a name with a parenthesis behind it, where a word begins and no point makes it a method.

* **`IsCall`** — a name and blanks that make a call behind a text.
* **`Binds`** — a stretch that is one match of the scan, with a border in front that no match crosses;
  `Binds.bindCalls_eq` says that what stands around it is looked at by itself.
* **`bindCalls_call`** — so what becomes of a call depends on its name alone.
-/

namespace Worksheet

open Text Notation

/-- Behind `pre` the name begins a word outside literals, and nothing but blanks parts it from the
parenthesis. -/
structure IsCall (pre name blanks : List Char) : Prop where
  outside : Closed pre
  edge : ∀ c ∈ pre.getLast?, isWordChar c = false ∧ c ≠ '.'
  start : ∃ c r, name = c :: r ∧ isNameStart c = true
  chars : ∀ c ∈ name, isNameChar c = true
  blank : ∀ c ∈ blanks, isBlank c = true

/-- What a call becomes, up to its parenthesis. -/
def callText (isFunction : String → Bool) (name blanks : List Char) : List Char :=
  if isFunction (String.ofList name) then name ++ ".call(".toList else name ++ (blanks ++ ['('])

/-- The two things that a call can become are different texts. -/
theorem IsCall.callText_ne {pre name blanks : List Char} (h : IsCall pre name blanks) :
    name ++ ".call(".toList ≠ name ++ (blanks ++ ['(']) := by
  rw [Ne, List.append_cancel_left_eq]
  intro heq
  cases blanks with
  | nil => exact absurd heq (by decide)
  | cons c blanks =>
    have hc : '.' = c := (List.cons.inj heq).1
    have hblank := h.blank c List.mem_cons_self
    rw [← hc] at hblank
    exact absurd hblank (by decide)

/-! ## In front of a call -/

theorem covered_append (a rest : List Char) : covered (a ++ rest) rest = a := by
  simp [covered]

theorem covered_append_append (s rest t : List Char) : covered (s ++ t) (rest ++ t) = covered s rest := by
  rw [covered, covered, List.length_append, List.length_append, Nat.add_sub_add_right,
    List.take_append_of_le_length (Nat.sub_le _ _)]

theorem boundCall_of_ne (isFunction : String → Bool) (before : List Char) {c : Char} (hc : c ≠ '.')
    (r : List Char) :
    boundCall isFunction before (c :: r) = (callSite? before (c :: r)).map fun m =>
      if isFunction (String.ofList m.1) then (m.1 ++ ".call(".toList, m.2)
      else (covered (c :: r) m.2, m.2) := by
  unfold boundCall
  split
  · next heq => exact absurd (List.cons.inj heq).1 hc
  · rfl

section Border

variable {before b t : List Char}

/-- A text that does not end in a name is not all name. -/
theorem dropWhile_ne_nil (hb : b ≠ []) (hlast : ∀ c ∈ b.getLast?, isNameChar c = false) :
    b.dropWhile isNameChar ≠ [] := by
  intro hnil
  have hchar := List.dropWhile_eq_nil_iff.mp hnil _ (List.getLast_mem hb)
  rw [hlast _ (List.getLast?_eq_some_getLast hb)] at hchar
  cases hchar

theorem takeWhile_append_of_ne_nil (h : b.dropWhile isNameChar ≠ []) (t : List Char) :
    (b ++ t).takeWhile isNameChar = b.takeWhile isNameChar := by
  rw [List.takeWhile_append, if_neg]
  intro hlength
  have happend := congrArg List.length (List.takeWhile_append_dropWhile (p := isNameChar) (l := b))
  rw [List.length_append, hlength] at happend
  exact h (List.length_eq_zero_iff.mp (by omega))

/-- The parenthesis of a call is on the same side of the border as the name, since the text behind the
border begins with a name. -/
theorem trimStart_append_cases (v : List Char) {d : Char} (u : List Char) (hd : isNameChar d = true) :
    (∃ x w, trimStart v = x :: w ∧ trimStart (v ++ d :: u) = x :: (w ++ d :: u)) ∨
      trimStart v = [] ∧ trimStart (v ++ d :: u) = d :: u := by
  have happend : trimStart (v ++ d :: u)
      = if (trimStart v).isEmpty then trimStart (d :: u) else trimStart v ++ d :: u :=
    List.dropWhile_append
  have hstop : trimStart (d :: u) = d :: u :=
    List.dropWhile_cons_of_neg (by simp [isBlank_of_isNameChar hd])
  rw [happend, hstop]
  cases hv : trimStart v with
  | nil => exact .inr ⟨rfl, rfl⟩
  | cons x w => exact .inl ⟨x, w, rfl, rfl⟩

/-- A name that does not reach up to the border is read as if the text ended there. -/
theorem callSite?_append (before : List Char) (hb : b ≠ [])
    (hlast : ∀ c ∈ b.getLast?, isNameChar c = false)
    (ht : ∃ c r, t = c :: r ∧ isNameChar c = true) :
    callSite? before (b ++ t) = (callSite? before b).map fun m => (m.1, m.2 ++ t) := by
  obtain ⟨d, u, rfl, hd⟩ := ht
  have hend := dropWhile_ne_nil hb hlast
  have hdrop : (b ++ d :: u).dropWhile isNameChar = b.dropWhile isNameChar ++ d :: u := by
    rw [List.dropWhile_append, if_neg (by simpa using hend)]
  have htake := takeWhile_append_of_ne_nil hend (d :: u)
  obtain ⟨c, b, rfl⟩ := List.exists_cons_of_ne_nil hb
  unfold callSite?
  rw [List.cons_append] at hdrop htake ⊢
  dsimp only
  rw [hdrop, htake]
  have hstart : wordStart before (c :: (b ++ d :: u)) = wordStart before (c :: b) := rfl
  rw [hstart]
  split
  · obtain ⟨x, w, hhere, hboth⟩ | ⟨hhere, hboth⟩ :=
      trimStart_append_cases ((c :: b).dropWhile isNameChar) u hd
    · rw [hhere, hboth]
      by_cases hx : x = '('
      · subst hx
        rfl
      · simp [hx]
    · have hparen : d ≠ '(' := by
        rintro rfl
        exact absurd hd (by decide)
      simp [hhere, hboth, hparen]
  · rfl

/-- What is read of a call in front of a border decides what the scan does there. -/
theorem boundCall_append_of_callSite (isFunction : String → Bool) (hb : b ≠ [])
    (hread : callSite? before (b ++ t) = (callSite? before b).map fun m => (m.1, m.2 ++ t))
    (hmethod : ∀ r, b = '.' :: r →
      callSite? ('.' :: before) (r ++ t) = (callSite? ('.' :: before) r).map fun m => (m.1, m.2 ++ t)) :
    boundCall isFunction before (b ++ t)
      = (boundCall isFunction before b).map fun m => (m.1, m.2 ++ t) := by
  obtain ⟨c, r, rfl⟩ := List.exists_cons_of_ne_nil hb
  by_cases hc : c = '.'
  · subst hc
    simp only [boundCall, List.cons_append, hmethod r rfl, Option.map_map]
    congr 1
    funext m
    simp [← covered_append_append ('.' :: r) m.2 t]
  · rw [List.cons_append] at hread ⊢
    rw [boundCall_of_ne isFunction before hc, boundCall_of_ne isFunction before hc, hread,
      Option.map_map, Option.map_map]
    congr 1
    funext m
    have hsame := covered_append_append (c :: r) m.2 t
    rw [List.cons_append] at hsame
    simp only [Function.comp_apply, hsame]
    split <;> rfl

theorem boundCall_append (isFunction : String → Bool) (before : List Char) (hb : b ≠ [])
    (hlast : ∀ c ∈ b.getLast?, isNameChar c = false ∧ c ≠ '.')
    (ht : ∃ c r, t = c :: r ∧ isNameChar c = true) :
    boundCall isFunction before (b ++ t)
      = (boundCall isFunction before b).map fun m => (m.1, m.2 ++ t) := by
  refine boundCall_append_of_callSite isFunction hb
    (callSite?_append before hb (fun c hc => (hlast c hc).1) ht) ?_
  rintro r rfl
  have hne : r ≠ [] := by
    rintro rfl
    exact (hlast '.' rfl).2 rfl
  refine callSite?_append ('.' :: before) hne (fun c hc => (hlast c ?_).1) ht
  rw [List.getLast?_cons, Option.mem_def.mp hc]
  rfl

end Border

/-! ## At a call and behind it -/

/-- Does a text that ends in this character end inside a word? -/
def endsInWord : Option Char → Bool
  | some c => isWordChar c
  | none => false

/-- A call is recognised by what stands behind the text, but for the last character of it. -/
theorem boundCall_congr (isFunction : String → Bool) (before before' s : List Char)
    (h : endsInWord before.head? = endsInWord before'.head?) :
    boundCall isFunction before s = boundCall isFunction before' s := by
  have hstart : ∀ t, wordStart before t = wordStart before' t := by
    intro t
    unfold wordStart wordEdge
    exact congrArg (fun w => w != _) h
  have hcall : ∀ t, callSite? before t = callSite? before' t := by
    intro t
    cases t with
    | nil => rfl
    | cons c t => simp only [callSite?, hstart]
  cases s with
  | nil => rfl
  | cons c r =>
    by_cases hc : c = '.'
    · subst hc
      rfl
    · rw [boundCall_of_ne isFunction before hc, boundCall_of_ne isFunction before' hc, hcall]

/-- A stretch behind `pre` that the scan takes as one match and writes `out` for, whatever stands behind it. -/
structure Binds (isFunction : String → Bool) (pre w out : List Char) : Prop where
  /-- What stands in front is read as if the text ended at the stretch. -/
  border {before b : List Char} (hb : b ≠ []) (hsuffix : b <:+ pre) (post : List Char) :
    boundCall isFunction before (b ++ (w ++ post))
      = (boundCall isFunction before b).map fun m => (m.1, m.2 ++ (w ++ post))
  fits {before : List Char} (hbefore : endsInWord before.head? = endsInWord pre.getLast?) (post : List Char) :
    boundCall isFunction before (w ++ post) = some (out, post)
  last : w.getLast? = some '('
  quoteless : '"' ∉ w

section Binds

variable {isFunction : String → Bool} {pre w out : List Char}

/-- The law for text without literals in front of the stretch. -/
theorem Binds.substitute_eq (h : Binds isFunction pre w out) (post : List Char) :
    (boundCall isFunction).substitute (pre ++ (w ++ post))
      = (boundCall isFunction).substitute pre ++ (out ++ (boundCall isFunction).substitute post) := by
  have hne : w ≠ [] := by
    rintro rfl
    cases h.last
  have hfit : boundCall isFunction (pre.reverse ++ []) (w ++ post) = some (out, post) :=
    h.fits (by rw [List.append_nil, List.head?_reverse]) post
  -- behind the parenthesis the scan goes on as if the text began there
  have hbehind : (boundCall isFunction).scanFrom (w.reverse ++ (pre.reverse ++ [])) 0 post
      = (boundCall isFunction).scanFrom [] 0 post := by
    refine Pattern.scanFrom_congr (fun _ _ _ _ => rfl) (boundCall_congr isFunction) ?_ 0 post
    rw [List.head?_append, List.head?_reverse, h.last]
    rfl
  unfold Pattern.substitute
  rw [Pattern.scanFrom_append (fun _ b hb hsplit => h.border hb ⟨_, hsplit.symm⟩ post) 0 (Nat.zero_le _),
    Pattern.scanFrom_of_fit hne hfit, hbehind, List.flatMap_append, List.flatMap_cons]
  rfl

/-- The law for a stretch in front of the first literal, or behind the last one. -/
theorem Binds.bindCalls_of_not_mem (h : Binds isFunction pre w out) (hpre : '"' ∉ pre) (post : List Char) :
    bindCalls isFunction (pre ++ (w ++ post))
      = bindCalls isFunction pre ++ (out ++ bindCalls isFunction post) := by
  have hplain : ∀ {s : List Char}, '"' ∉ s → '"' ∉ pre ++ (w ++ s) := by
    intro s hs hmem
    rcases List.mem_append.mp hmem with hmem | hmem
    · exact hpre hmem
    rcases List.mem_append.mp hmem with hmem | hmem
    · exact h.quoteless hmem
    · exact hs hmem
  unfold bindCalls
  rcases plain_or_quote post with hpost | ⟨q, r, hq, rfl⟩
  · rw [mapPlain_of_not_mem _ (hplain hpost), mapPlain_of_not_mem _ hpre, mapPlain_of_not_mem _ hpost,
      h.substitute_eq post]
  · have htext : pre ++ (w ++ (q ++ '"' :: r)) = (pre ++ (w ++ q)) ++ '"' :: r := by simp
    rw [htext, mapPlain_append_quote _ (hplain hq), mapPlain_of_not_mem _ hpre,
      mapPlain_append_quote _ hq, h.substitute_eq q]
    simp only [List.append_assoc]

/-- **A stretch that is one match is rewritten by itself**, and so is what stands around it. -/
theorem Binds.bindCalls_eq (h : Binds isFunction pre w out) (hpre : Closed pre) (post : List Char) :
    bindCalls isFunction (pre ++ (w ++ post))
      = bindCalls isFunction pre ++ (out ++ bindCalls isFunction post) := by
  induction hpre using Closed.induction with
  | plain p hp => exact h.bindCalls_of_not_mem hp post
  | literal p l t hp hl ht ih =>
    have hrest : Binds isFunction t w out :=
      { border := fun hb hsuffix post => h.border hb (hsuffix.trans ⟨p ++ l, by simp⟩) post
        fits := by
          intro before hbefore post
          refine h.fits (hbefore.trans ?_) post
          obtain ⟨b, -, rfl⟩ := hl
          cases t with
          | nil =>
            -- the literal ends in no word
            have hlast : (p ++ ('"' :: (b ++ ['"']) ++ [])).getLast? = some '"' := by
              rw [List.append_nil, ← List.cons_append, ← List.append_assoc, List.getLast?_concat]
            rw [hlast]
            rfl
          | cons c t => simp [List.getLast?_cons]
        last := h.last
        quoteless := h.quoteless }
    have heq := ih hrest
    unfold bindCalls at heq ⊢
    rw [List.append_assoc, List.append_assoc, mapPlain_append_literal _ hp hl, heq,
      mapPlain_append_literal _ hp hl]
    simp only [List.append_assoc]

end Binds

/-! ## Calls -/

/-- A name that is read up to its parenthesis. -/
theorem callSite?_of_name {name blanks before : List Char} (hstart : ∃ c r, name = c :: r ∧ isNameStart c = true)
    (hchars : ∀ c ∈ name, isNameChar c = true) (hblank : ∀ c ∈ blanks, isBlank c = true)
    (hbefore : endsInWord before.head? = false) (post : List Char) :
    callSite? before (name ++ (blanks ++ '(' :: post)) = some (name, post) := by
  obtain ⟨c, r, rfl, hstart⟩ := hstart
  have hword : isWordChar c = true := isWordChar_of_isNameChar (isNameChar_of_isNameStart hstart)
  -- neither a blank nor the parenthesis goes on with the name
  have hstop : ∀ d ∈ (blanks ++ '(' :: post).head?, isNameChar d = false := by
    intro d hd
    cases blanks with
    | nil =>
      cases hd
      decide
    | cons x blanks =>
      cases hd
      exact isNameChar_of_isBlank (hblank d List.mem_cons_self)
  have htake := takeWhile_run hchars hstop
  have hdrop := dropWhile_run hchars hstop
  have hrest : trimStart (blanks ++ '(' :: post) = '(' :: post := by
    rw [trimStart, List.dropWhile_append_of_pos hblank, List.dropWhile_cons_of_neg (by decide)]
  have hwordStart : wordStart before (c :: r ++ (blanks ++ '(' :: post)) = true := by
    have hedge : (endsInWord before.head? != isWordChar c) = true := by
      rw [hbefore, hword]
      rfl
    exact hedge
  rw [List.cons_append] at htake hdrop hwordStart ⊢
  unfold callSite?
  dsimp only
  rw [htake, hdrop, hrest, hwordStart, hstart]
  rfl

section Call

variable {pre name blanks : List Char}

theorem IsCall.quoteless (h : IsCall pre name blanks) : '"' ∉ name ++ (blanks ++ ['(']) := by
  intro hmem
  simp only [List.mem_append, List.mem_singleton] at hmem
  rcases hmem with hmem | hmem | hmem
  · exact absurd (h.chars _ hmem) (by decide)
  · exact absurd (h.blank _ hmem) (by decide)
  · cases hmem

/-- What ends where the call begins ends in no name and no point. -/
theorem IsCall.edge_of_suffix (h : IsCall pre name blanks) {b : List Char} (hsuffix : b <:+ pre) :
    ∀ c ∈ b.getLast?, isNameChar c = false ∧ c ≠ '.' := by
  intro c hc
  obtain ⟨a, rfl⟩ := hsuffix
  have hend : (a ++ b).getLast? = some c := by
    rw [List.getLast?_append, Option.mem_def.mp hc]
    rfl
  obtain ⟨hword, hdot⟩ := h.edge c hend
  exact ⟨isNameChar_of_not_isWordChar hword, hdot⟩

theorem IsCall.endsInWord_getLast? (h : IsCall pre name blanks) : endsInWord pre.getLast? = false := by
  cases hlast : pre.getLast? with
  | none => rfl
  | some c => exact (h.edge c hlast).1

/-- The scan takes the name, the blanks and the parenthesis at once. -/
theorem IsCall.boundCall_eq (h : IsCall pre name blanks) (isFunction : String → Bool)
    {before : List Char} (hbefore : endsInWord before.head? = endsInWord pre.getLast?)
    (post : List Char) :
    boundCall isFunction before (name ++ (blanks ++ ['(']) ++ post)
      = some (callText isFunction name blanks, post) := by
  have hedge : endsInWord before.head? = false := by rw [hbefore, h.endsInWord_getLast?]
  have hsite := callSite?_of_name h.start h.chars h.blank hedge post
  have hcovered := covered_append (name ++ (blanks ++ ['('])) post
  have hassoc : name ++ (blanks ++ ['(']) ++ post = name ++ (blanks ++ '(' :: post) := by simp
  rw [hassoc] at hcovered ⊢
  obtain ⟨c, r, rfl, hstart⟩ := h.start
  have hdot : c ≠ '.' := by
    rintro rfl
    exact absurd hstart (by decide)
  rw [List.cons_append] at hsite hcovered ⊢
  rw [boundCall_of_ne isFunction before hdot, hsite, Option.map_some]
  dsimp only
  rw [hcovered]
  unfold callText
  split <;> rfl

theorem IsCall.binds (h : IsCall pre name blanks) (isFunction : String → Bool) :
    Binds isFunction pre (name ++ (blanks ++ ['('])) (callText isFunction name blanks) where
  border := by
    intro before b hb hsuffix post
    refine boundCall_append isFunction before hb (h.edge_of_suffix hsuffix) ?_
    obtain ⟨c, r, rfl, hstart⟩ := h.start
    exact ⟨c, _, rfl, isNameChar_of_isNameStart hstart⟩
  fits := fun hbefore post => h.boundCall_eq isFunction hbefore post
  last := by simp
  quoteless := h.quoteless

/-- **A call becomes what its name says**, whatever stands around it. -/
theorem bindCalls_call (isFunction : String → Bool) (h : IsCall pre name blanks) (post : List Char) :
    bindCalls isFunction (pre ++ (name ++ (blanks ++ '(' :: post)))
      = bindCalls isFunction pre ++ (callText isFunction name blanks ++ bindCalls isFunction post) := by
  have heq := (h.binds isFunction).bindCalls_eq h.outside post
  simpa using heq

end Call

end Worksheet
