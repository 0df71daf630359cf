import Mathlib.Data.Nat.Find
import Worksheet.Proofs.Declaration.Calls
import Worksheet.Proofs.Notation.Borders
import Worksheet.Proofs.Notation.Operands
import Worksheet.Proofs.Notation.Patterns

/-!
# Binding calls one after the other

A worksheet learns its functions one by one, and a text may be bound more than once on the way. What is
written for a call looks like a call again, and it is shorter than the call if there were blanks. Nevertheless a
text that is bound twice is bound once, by both sets of names.

* **`CallFree`** — a text without calls; `CallFree.bindCalls_eq` says that it stays as it is.
* **`exists_calls`** — every text is a row of calls with texts without calls between them, and this does not
  depend on which names are functions (`bindCalls_written`).
* **`IsMethodCall`** — a call behind a point, which binding reads as one match and leaves alone;
  `bindCalls_methodCall`.
* **`local_bindCalls`** — literals.
* **`bindCalls_bindCalls`** — what is bound twice; `binding_composes` is the headline.
-/

namespace Worksheet

open Text Notation

/-! ## Where a call is read -/

/-- A name with nothing but blanks between it and a parenthesis. -/
structure IsSite (name blanks : List Char) : Prop where
  start : ∃ c r, name = c :: r ∧ isNameStart c = true
  chars : ∀ c ∈ name, isNameChar c = true
  blank : ∀ c ∈ blanks, isBlank c = true

theorem IsCall.site {pre name blanks : List Char} (h : IsCall pre name blanks) : IsSite name blanks :=
  ⟨h.start, h.chars, h.blank⟩

section Site

variable {name blanks : List Char}

theorem IsSite.isCall (h : IsSite name blanks) {pre : List Char} (hpre : Closed pre)
    (hedge : ∀ c ∈ pre.getLast?, isWordChar c = false ∧ c ≠ '.') : IsCall pre name blanks :=
  ⟨hpre, hedge, h.start, h.chars, h.blank⟩

theorem IsSite.quoteless (h : IsSite name blanks) : '"' ∉ name ++ (blanks ++ ['(']) :=
  (h.isCall (closed_of_not_mem List.not_mem_nil) (by simp)).quoteless

theorem IsSite.callSite?_eq (h : IsSite name blanks) {before : List Char}
    (hbefore : endsInWord before.head? = false) (post : List Char) :
    callSite? before (name ++ (blanks ++ '(' :: post)) = some (name, post) :=
  callSite?_of_name h.start h.chars h.blank hbefore post

theorem callSite?_eq_some {before after rest : List Char} (h : callSite? before after = some (name, rest)) :
    endsInWord before.head? = false ∧
      ∃ blanks, IsSite name blanks ∧ after = name ++ (blanks ++ '(' :: rest) := by
  unfold callSite? at h
  split at h
  · cases h
  · next c r =>
    split at h
    · next hstart =>
      obtain ⟨hname, hword⟩ := Bool.and_eq_true_iff.mp hstart
      have hedge : (endsInWord before.head? != isWordChar c) = true := hword
      rw [isWordChar_of_isNameChar (isNameChar_of_isNameStart hname), bne_iff_ne, ne_eq, Bool.not_eq_true] at hedge
      split at h
      · next behind hrest =>
        cases h
        obtain ⟨blanks, hblanks, hsplit⟩ := exists_blanks ((c :: r).dropWhile isNameChar)
        rw [hrest] at hsplit
        refine ⟨hedge, blanks, ⟨⟨c, r.takeWhile isNameChar, ?_, hname⟩, fun d hd => List.mem_takeWhile_imp hd,
          hblanks⟩, ?_⟩
        · rw [List.takeWhile_cons_of_pos (isNameChar_of_isNameStart hname)]
        · rw [← hsplit, List.takeWhile_append_dropWhile]
      · cases h
    · cases h

/-- A match is a method's call, which is written again, or a call. -/
theorem boundCall_eq_some {isFunction : String → Bool} {before after out rest : List Char}
    (h : boundCall isFunction before after = some (out, rest)) :
    ∃ name blanks, IsSite name blanks ∧
      ((after = '.' :: (name ++ (blanks ++ '(' :: rest)) ∧ out = '.' :: (name ++ (blanks ++ ['(']))) ∨
        endsInWord before.head? = false ∧ after = name ++ (blanks ++ '(' :: rest) ∧
          out = callText isFunction name blanks) := by
  cases after with
  | nil => cases h
  | cons c r =>
    by_cases hc : c = '.'
    · subst hc
      obtain ⟨⟨name, behind⟩, hsite, heq⟩ := Option.map_eq_some_iff.mp h
      obtain ⟨-, blanks, hname, rfl⟩ := callSite?_eq_some hsite
      obtain ⟨rfl, rfl⟩ := Prod.mk.inj heq
      refine ⟨name, blanks, hname, Or.inl ⟨rfl, ?_⟩⟩
      have hcovered := covered_append ('.' :: (name ++ (blanks ++ ['(']))) behind
      rwa [List.cons_append, List.append_assoc, List.append_assoc] at hcovered
    · rw [boundCall_of_ne isFunction before hc] at h
      obtain ⟨⟨name, behind⟩, hsite, heq⟩ := Option.map_eq_some_iff.mp h
      obtain ⟨hedge, blanks, hname, hsplit⟩ := callSite?_eq_some hsite
      have hcovered := covered_append (name ++ (blanks ++ ['('])) behind
      rw [List.append_assoc, List.append_assoc] at hcovered
      rw [hsplit] at heq ⊢
      refine ⟨name, blanks, hname, Or.inr ?_⟩
      unfold callText
      dsimp only at heq
      split at heq
      · next hfunction =>
        obtain ⟨rfl, rfl⟩ := Prod.mk.inj heq
        exact ⟨hedge, rfl, by rw [if_pos hfunction]⟩
      · next hfunction =>
        obtain ⟨rfl, rfl⟩ := Prod.mk.inj heq
        exact ⟨hedge, rfl, by rw [if_neg hfunction]; exact hcovered⟩

end Site

/-! ## Texts without calls -/

/-- A text without calls. -/
def CallFree (s : List Char) : Prop :=
  ∀ pre name blanks post, s = pre ++ (name ++ (blanks ++ '(' :: post)) → ¬ IsCall pre name blanks

/-- The call of a method is read together with its point. -/
theorem edge_of_boundCall {isFunction : String → Bool} {s front name blanks rest : List Char}
    (h : Reaches (boundCall isFunction) s front (name ++ (blanks ++ '(' :: rest))) (hsite : IsSite name blanks) :
    ∀ c ∈ front.getLast?, c ≠ '.' := by
  rintro c hc rfl
  generalize hafter : name ++ (blanks ++ '(' :: rest) = after at h
  cases h with
  | start => cases hc
  | @pass front r d _ hnone =>
    rw [List.getLast?_concat] at hc
    cases hc
    -- at the point the scan would have found the call
    have hpoint : endsInWord ('.' :: front.reverse).head? = false := rfl
    have hread := hsite.callSite?_eq hpoint rest
    rw [hafter] at hread
    simp [boundCall, hread] at hnone
  | @fit front covered _ out _ hne hfit =>
    -- the match in front has ended with its parenthesis
    obtain ⟨a, rfl⟩ : ∃ a, covered = a ++ ['('] := by
      obtain ⟨name', blanks', -, ⟨hsplit, -⟩ | ⟨-, hsplit, -⟩⟩ := boundCall_eq_some hfit
      · refine ⟨'.' :: (name' ++ blanks'), List.append_cancel_right (hsplit.trans ?_)⟩
        simp
      · refine ⟨name' ++ blanks', List.append_cancel_right (hsplit.trans ?_)⟩
        simp
    rw [← List.append_assoc, List.getLast?_concat] at hc
    cases hc

theorem CallFree.substitute_eq {isFunction : String → Bool} {s : List Char} (h : CallFree s) (hs : '"' ∉ s) :
    (boundCall isFunction).substitute s = s := by
  refine substitute_eq_self_of_takes fun front after out rest htakes => ?_
  obtain ⟨name, blanks, hsite, ⟨rfl, rfl⟩ | ⟨hword, rfl, -⟩⟩ := boundCall_eq_some htakes.fits
  · simp
  · have hsplit := htakes.reaches.split
    have hfront : '"' ∉ front := fun hmem => hs (hsplit ▸ List.mem_append_left _ hmem)
    refine absurd (hsite.isCall (closed_of_not_mem hfront) fun c hc => ⟨?_, ?_⟩) (h front name blanks rest hsplit)
    · rw [List.head?_reverse, Option.mem_def.mp hc] at hword
      exact hword
    · exact edge_of_boundCall htakes.reaches hsite c hc

/-- What stands in front of a text without calls, or behind it, has nothing to do with this. -/
theorem CallFree.left {s t : List Char} (h : CallFree (s ++ t)) : CallFree s := by
  rintro pre name blanks post rfl hcall
  exact h pre name blanks (post ++ t) (by simp) hcall

theorem CallFree.behind_literal {s l t : List Char} (h : CallFree (s ++ (l ++ t))) (hs : '"' ∉ s)
    (hl : IsLiteral l) : CallFree t := by
  rintro pre name blanks post rfl hcall
  refine h (s ++ (l ++ pre)) name blanks post (by simp) ?_
  refine hcall.site.isCall ((closed_of_not_mem hs).append (hl.closed.append hcall.outside)) ?_
  obtain ⟨b, -, rfl⟩ := hl
  intro c hc
  cases pre with
  | nil =>
    rw [List.append_nil, ← List.cons_append, ← List.append_assoc, List.getLast?_concat] at hc
    cases hc
    decide
  | cons d pre =>
    refine hcall.edge c ?_
    simpa [List.getLast?_cons] using hc

/-- **A text without calls stays as it is.** -/
theorem CallFree.bindCalls_eq {s : List Char} (h : CallFree s) (isFunction : String → Bool) :
    bindCalls isFunction s = s := by
  obtain ⟨ss, ls, hcut, rfl⟩ := exists_cut s
  have hnil : (boundCall isFunction).substitute [] = [] := rfl
  unfold bindCalls
  induction hcut with
  | plain hs =>
    rw [weave] at h ⊢
    rw [mapPlain_of_not_mem _ hs, h.substitute_eq hs]
  | literal hs hl hrest ih =>
    rw [weave] at h ⊢
    rw [mapPlain_append_literal _ hs hl, ih (h.behind_literal hs hl), h.left.substitute_eq hs]
  | unclosed hs hl =>
    simp only [weave, List.append_nil] at h ⊢
    rw [mapPlain_append_unclosed _ hs hl, h.left.substitute_eq hs, hnil, List.append_nil]

/-! ## Texts as rows of calls -/

/-- A call with the text without calls that stands in front of it. -/
structure Call where
  /-- What stands in front. -/
  front : List Char
  /-- The name. -/
  name : List Char
  /-- The blanks between the name and the parenthesis. -/
  blanks : List Char
  isCall : IsCall front name blanks
  free : CallFree front

/-- Calls, and the text behind the last one. -/
def written (calls : List Call) (last : List Char) : List Char :=
  calls.foldr (fun c s => c.front ++ (c.name ++ (c.blanks ++ '(' :: s))) last

/-- The same text with `.call` behind the names of functions instead of the blanks. -/
def bound (isFunction : String → Bool) (calls : List Call) (last : List Char) : List Char :=
  calls.foldr (fun c s => c.front ++ (callText isFunction c.name c.blanks ++ s)) last

/-- Every text is cut at its calls. -/
theorem exists_calls (s : List Char) : ∃ calls last, CallFree last ∧ s = written calls last := by
  -- on the length, as what follows a call is shorter
  induction hn : s.length using Nat.strongRecOn generalizing s with
  | ind n ih =>
    by_cases hfree : CallFree s
    · exact ⟨[], s, hfree, rfl⟩
    · -- the first call has no call in front of it
      have hex : ∃ k pre name blanks post, s = pre ++ (name ++ (blanks ++ '(' :: post)) ∧
          IsCall pre name blanks ∧ pre.length = k := by
        simp only [CallFree, not_forall, not_not] at hfree
        obtain ⟨pre, name, blanks, post, hsplit, hcall⟩ := hfree
        exact ⟨_, pre, name, blanks, post, hsplit, hcall, rfl⟩
      classical
      obtain ⟨pre, name, blanks, post, rfl, hcall, hlength⟩ := Nat.find_spec hex
      have hpre : CallFree pre := by
        rintro pre' name' blanks' post' rfl hcall'
        refine Nat.find_min hex (m := pre'.length) ?_
          ⟨pre', name', blanks', post' ++ (name ++ (blanks ++ '(' :: post)), by simp, hcall', rfl⟩
        rw [← hlength]
        simp only [List.length_append, List.length_cons]
        omega
      have hshorter : post.length < n := by
        rw [← hn]
        simp only [List.length_append, List.length_cons]
        omega
      obtain ⟨calls, last, hlast, rfl⟩ := ih post.length hshorter post rfl
      exact ⟨⟨pre, name, blanks, hcall, hpre⟩ :: calls, last, hlast, rfl⟩

theorem bindCalls_written (isFunction : String → Bool) (calls : List Call) {last : List Char}
    (hlast : CallFree last) : bindCalls isFunction (written calls last) = bound isFunction calls last := by
  induction calls with
  | nil => exact hlast.bindCalls_eq isFunction
  | cons c calls ih =>
    show bindCalls isFunction (c.front ++ (c.name ++ (c.blanks ++ '(' :: written calls last))) = _
    rw [bindCalls_call isFunction c.isCall, c.free.bindCalls_eq, ih]
    rfl

/-! ## Calls of methods -/

/-- Behind a text that ends outside literals, a point makes a call the call of a method. -/
structure IsMethodCall (pre name blanks : List Char) : Prop where
  outside : Closed pre
  site : IsSite name blanks

section MethodCall

variable {pre name blanks : List Char}

theorem IsMethodCall.binds (h : IsMethodCall pre name blanks) (isFunction : String → Bool) :
    Binds isFunction pre ('.' :: (name ++ (blanks ++ ['(']))) ('.' :: (name ++ (blanks ++ ['(']))) where
  border := by
    intro before b hb _ post
    -- a point goes on with no name
    refine boundCall_append_stop isFunction before ?_ ?_ hb
    · rintro c ⟨⟩
      decide
    · rintro c hc
      rw [trimStart, List.cons_append, List.dropWhile_cons_of_neg (by decide)] at hc
      cases hc
      decide
  fits := by
    intro before _ post
    have hpoint : endsInWord ('.' :: before).head? = false := rfl
    have hread := h.site.callSite?_eq hpoint post
    have hcovered := covered_append ('.' :: (name ++ (blanks ++ ['(']))) post
    have hassoc : '.' :: (name ++ (blanks ++ ['('])) ++ post = '.' :: (name ++ (blanks ++ '(' :: post)) := by simp
    rw [hassoc] at hcovered ⊢
    simp only [boundCall, hread, Option.map_some, hcovered]
  last := by simp [List.getLast?_cons]
  quoteless := by
    rw [List.mem_cons, not_or]
    exact ⟨by decide, h.site.quoteless⟩

/-- **The call of a method stays as it is.** -/
theorem bindCalls_methodCall (isFunction : String → Bool) (h : IsMethodCall pre name blanks) (post : List Char) :
    bindCalls isFunction (pre ++ '.' :: (name ++ (blanks ++ '(' :: post)))
      = bindCalls isFunction pre ++ '.' :: (name ++ (blanks ++ '(' :: bindCalls isFunction post)) := by
  have heq := (h.binds isFunction).bindCalls_eq h.outside post
  simpa using heq

end MethodCall

/-! ## Literals -/

theorem quoteless_boundCall (isFunction : String → Bool) : (boundCall isFunction).Quoteless := by
  intro before after out rest h _
  obtain ⟨name, blanks, hsite, ⟨-, rfl⟩ | ⟨-, -, rfl⟩⟩ := boundCall_eq_some h
  · rw [List.mem_cons, not_or]
    exact ⟨by decide, hsite.quoteless⟩
  · unfold callText
    split
    · rw [List.mem_append, not_or]
      exact ⟨fun hmem => hsite.quoteless (List.mem_append_left _ hmem), by decide⟩
    · exact hsite.quoteless

/-- Binding leaves literals alone and sees no further than the next one. -/
theorem local_bindCalls (isFunction : String → Bool) : Local (bindCalls isFunction) :=
  local_mapPlain rfl fun _ hs => (quoteless_boundCall isFunction).closing.substitute hs

/-- In the bound text the same literals stand between the bound stretches. -/
theorem cut_bindCalls {ss ls : List (List Char)} (h : Cut ss ls) (isFunction : String → Bool) :
    Cut (ss.map (bindCalls isFunction)) ls := by
  have hplain : ∀ {s : List Char}, '"' ∉ s → '"' ∉ bindCalls isFunction s := by
    intro s hs
    unfold bindCalls
    rw [mapPlain_of_not_mem _ hs]
    exact (quoteless_boundCall isFunction).substitute hs
  induction h with
  | plain hs => exact .plain (hplain hs)
  | literal hs hl _ ih => exact .literal (hplain hs) hl ih
  | unclosed hs hl =>
    rw [List.map_cons, List.map_singleton, (local_bindCalls isFunction).nil]
    exact .unclosed (hplain hs) hl

/-! ## Binding twice -/

/-- Where a text without calls goes on with a name, there still is no call. -/
theorem CallFree.append_name {s name : List Char} (h : CallFree s) (hname : ∀ c ∈ name, isNameChar c = true) :
    CallFree (s ++ name) := by
  intro pre n blanks post hsplit hcall
  have hparen : '(' ∉ name := fun hmem => absurd (hname _ hmem) (by decide)
  have hassoc : pre ++ (n ++ (blanks ++ '(' :: post)) = (pre ++ (n ++ blanks)) ++ '(' :: post := by simp
  rw [hassoc] at hsplit
  -- the parenthesis of a call would stand in front of the name
  obtain ⟨a, -, rfl⟩ | ⟨a, rfl, ha⟩ := List.append_eq_append_iff.mp hsplit
  · exact hparen (List.mem_append_right a List.mem_cons_self)
  · cases a with
    | nil =>
      rw [List.nil_append] at ha
      exact hparen (ha ▸ List.mem_cons_self)
    | cons c a =>
      obtain ⟨rfl, -⟩ := List.cons.inj ha
      exact h pre n blanks a (by simp) hcall

/-- What is written for a call is no call: a point stands in front of it. -/
theorem bindCalls_callText (F G : String → Bool) (c : Call) (s : List Char) :
    bindCalls G (c.front ++ (callText F c.name c.blanks ++ s))
      = c.front ++ (callText (fun n => F n || G n) c.name c.blanks ++ bindCalls G s) := by
  by_cases hF : F (String.ofList c.name) = true
  · have hfront : CallFree (c.front ++ c.name) := c.free.append_name c.isCall.chars
    have hname : '"' ∉ c.name := fun hmem => c.isCall.quoteless (List.mem_append_left _ hmem)
    have hmethod : IsMethodCall (c.front ++ c.name) "call".toList [] :=
      ⟨c.isCall.outside.append (closed_of_not_mem hname), ⟨'c', "all".toList, rfl, rfl⟩, by decide, by simp⟩
    have hbound := bindCalls_methodCall G hmethod s
    have hboth : (fun n => F n || G n) (String.ofList c.name) = true := by
      dsimp only
      rw [hF, Bool.true_or]
    rw [hfront.bindCalls_eq, List.append_assoc] at hbound
    rw [callText, if_pos hF, callText, if_pos hboth, List.append_assoc, List.append_assoc]
    exact hbound.trans (List.append_assoc _ _ _)
  · have hneither : callText (fun n => F n || G n) c.name c.blanks = callText G c.name c.blanks := by
      rw [Bool.not_eq_true] at hF
      simp only [callText, hF, Bool.false_or]
    have hbound := bindCalls_call G c.isCall s
    rw [c.free.bindCalls_eq] at hbound
    rw [hneither, callText, if_neg hF, List.append_assoc, List.append_assoc]
    exact hbound

theorem bindCalls_bound (F G : String → Bool) (calls : List Call) {last : List Char} (hlast : CallFree last) :
    bindCalls G (bound F calls last) = bound (fun n => F n || G n) calls last := by
  induction calls with
  | nil => exact hlast.bindCalls_eq G
  | cons c calls ih =>
    have hcall := bindCalls_callText F G c (bound F calls last)
    rw [ih] at hcall
    exact hcall

/-- What is bound twice is bound once by both sets of names. -/
theorem bindCalls_bindCalls (F G : String → Bool) (s : List Char) :
    bindCalls G (bindCalls F s) = bindCalls (fun n => F n || G n) s := by
  obtain ⟨calls, last, hlast, rfl⟩ := exists_calls s
  rw [bindCalls_written F calls hlast, bindCalls_bound F G calls hlast, bindCalls_written _ calls hlast]

/-- **Binding calls is idempotent and composes.** Binding by one set of names after the other is binding by both,
so that binding twice is binding once and the order does not matter. Literals and the calls of methods stay as
they are; and the text is a row of calls, the same ones whichever names are functions, of which the bound text has
`.call` for the blanks where the name is a function and which it has unchanged otherwise. -/
theorem binding_composes (s : List Char) :
    (∀ F G, bindCalls G (bindCalls F s) = bindCalls (fun n => F n || G n) s) ∧
    (∀ F, bindCalls F (bindCalls F s) = bindCalls F s) ∧
    (∀ F G, bindCalls G (bindCalls F s) = bindCalls F (bindCalls G s)) ∧
    (∀ F ss ls, Cut ss ls → weave ss ls = s →
      Cut (ss.map (bindCalls F)) ls ∧ bindCalls F s = weave (ss.map (bindCalls F)) ls) ∧
    (∀ F pre name blanks post, IsMethodCall pre name blanks → pre ++ '.' :: (name ++ (blanks ++ '(' :: post)) = s →
      bindCalls F s = bindCalls F pre ++ '.' :: (name ++ (blanks ++ '(' :: bindCalls F post))) ∧
    ∃ calls last, CallFree last ∧ s = written calls last ∧ ∀ F, bindCalls F s = bound F calls last := by
  refine ⟨fun F G => bindCalls_bindCalls F G s, fun F => ?_, fun F G => ?_, ?_, ?_, ?_⟩
  · simp only [bindCalls_bindCalls, Bool.or_self]
  · simp only [bindCalls_bindCalls, Bool.or_comm]
  · rintro F ss ls hcut rfl
    exact ⟨cut_bindCalls hcut F, (local_bindCalls F).weave hcut⟩
  · rintro F pre name blanks post hmethod rfl
    exact bindCalls_methodCall F hmethod post
  · obtain ⟨calls, last, hlast, rfl⟩ := exists_calls s
    exact ⟨calls, last, hlast, rfl, fun F => bindCalls_written F calls hlast⟩

example : bindCalls (· == "g") (bindCalls (· == "f") "f (g(2)) + \"f(1)\" + x.g(3)".toList)
    = "f.call(g.call(2)) + \"f(1)\" + x.g(3)".toList := by
  decide +kernel

end Worksheet
