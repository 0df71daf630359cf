import Worksheet.Proofs.Table.Directive
import Worksheet.Proofs.Table.Titles
import Worksheet.Proofs.Text.Digits
import Worksheet.Proofs.Text.Parts

/-!
# Specifications as they are written

A title between quotes and a template in braces may hold whatever does not end them: separators, texts
that look like placeholders, and each other's marks. Written one behind the other, entries are read
again in order, each with its kind and its function, because all of that is masked while a
specification is cut.

* **`scan_text`**, **`splitAt_mask`** — a written specification is masked entry by entry, and cut at its
  separators alone.
* **`unmask_placeholders`**, **`readEntry_masked`** — an entry gets its own texts back.
* **`read_write`** — what is read of a written specification, and when that is what was written.
-/

namespace Worksheet

open Text

namespace TableSpec

/-! ## Entries -/

/-- An entry of a specification: a name, or an aggregate under a word for its kind. -/
inductive Item where
  | name (n : String)
  | aggregate (word : List Char) (a : Aggregate)
deriving DecidableEq, Repr

/-- An aggregate that can be written under a word: the word denotes its kind, the title fits between
quotes, and the template, if there is one, is one pair of braces. -/
structure Writable (word : List Char) (a : Aggregate) : Prop where
  kind : AggregateKind.find? word = some a.kind
  function : isIdentifier a.function.toList = true
  title_ne : a.title.toList ≠ []
  title_trim : trim a.title.toList = a.title.toList
  title_quote : '"' ∉ a.title.toList
  template : a.template.toList = [] ∨
    ∃ inside, a.template.toList = '\x7b' :: inside ++ ['\x7d'] ∧ '\x7b' ∉ inside ∧ '\x7d' ∉ inside

namespace Item

/-- Can the entry be written? -/
inductive Valid : Item → Prop
  | name {n : String} (h : isIdentifier n.toList = true) : Valid (name n)
  | aggregate {word : List Char} {a : Aggregate} (h : Writable word a) : Valid (aggregate word a)

/-- An entry as it is written. -/
def text : Item → List Char
  | name n => n.toList
  | aggregate word a =>
    word ++ ':' :: a.function.toList ++ ':' :: '"' :: a.title.toList ++ '"' :: a.template.toList

/-- The name that an entry asks for. -/
def name? : Item → Option String
  | name n => some n
  | aggregate _ _ => none

/-- The aggregate that an entry asks for. -/
def aggregate? : Item → Option Aggregate
  | name _ => none
  | aggregate _ a => some a

end Item

/-- Entries one behind the other, each behind its separator, which the first one goes without. -/
def write : List (Char × Item) → List Char
  | [] => []
  | (_, e) :: rest => e.text ++ rest.flatMap fun p => p.1 :: p.2.text

/-- The names that entries ask for. -/
def namesOf (entries : List (Char × Item)) : List String :=
  (entries.map Prod.snd).filterMap Item.name?

/-- The aggregates that entries ask for. -/
def aggregatesOf (entries : List (Char × Item)) : List Aggregate :=
  (entries.map Prod.snd).filterMap Item.aggregate?

/-- An aggregate with the title and the template that are read when it has been written. -/
def reread (a : Aggregate) : Aggregate :=
  let read := splitTitle ('"' :: a.title.toList ++ '"' :: a.template.toList) a.function.toList
  { a with title := String.ofList read.1, template := String.ofList read.2 }

/-- A title that is told from the template behind it: it holds no brace that opens, or it has no template
and holds no braces that close, or it is the template. -/
def ToldApart (a : Aggregate) : Prop :=
  '\x7b' ∉ a.title.toList ∨
    a.template.toList = [] ∧
      (∀ before inside behind,
        a.title.toList ≠ before ++ '\x7b' :: (inside ++ '\x7d' :: behind)) ∨
    a.title = a.template

/-! ## Words for kinds -/

/-- The words for kinds are written with none of the marks of a directive. -/
theorem kind_marks {word : List Char} {k : AggregateKind} (h : AggregateKind.find? word = some k) {c : Char}
    (hc : c ∈ word) : c ∉ ['"', '\x7b', '@', ',', ';', ':'] := by
  intro hmark
  have hlower : ∀ m ∈ ['"', '\x7b', '@', ',', ';', ':'], lower m = m ∧ isBlank m = false := by decide
  obtain ⟨hsame, hblank⟩ := hlower c hmark
  have hmem : c ∈ ((trim word).map lower) := List.mem_map.mpr ⟨c, mem_trim_of_mem hc hblank, hsame⟩
  have hwords : ∀ words : List String,
      (∀ w ∈ words, ∀ m ∈ ['"', '\x7b', '@', ',', ';', ':'], m ∉ w.toList) →
        words.contains (String.ofList ((trim word).map lower)) = false := by
    intro words hnone
    rw [Bool.eq_false_iff]
    intro hcontains
    refine hnone _ (List.contains_iff_mem.mp hcontains) c hmark ?_
    rwa [String.toList_ofList]
  unfold AggregateKind.find? at h
  dsimp only at h
  rw [hwords _ (by decide), hwords _ (by decide), hwords _ (by decide)] at h
  cases h

theorem find?_trim (word : List Char) : AggregateKind.find? (trim word) = AggregateKind.find? word := by
  unfold AggregateKind.find?
  rw [trim_trim]

/-! ## Masking what is written -/

namespace Item

/-- What stands in front of the guarded texts of an entry. -/
def lead : Item → List Char
  | name n => n.toList
  | aggregate word a => word ++ ':' :: (a.function.toList ++ [':'])

/-- The title between its quotes and the template. -/
def guardedTexts : Item → List (List Char)
  | name _ => []
  | aggregate _ a =>
    ('"' :: a.title.toList ++ ['"']) :: if a.template.toList = [] then [] else [a.template.toList]

/-- An entry whose guarded texts have the numbers from `n` on. -/
def masked (n : Nat) (e : Item) : List Char :=
  e.lead ++ (List.range' n e.guardedTexts.length).flatMap placeholder

theorem text_eq (e : Item) : e.text = e.lead ++ e.guardedTexts.flatten := by
  cases e with
  | name n => simp [text, lead, guardedTexts]
  | aggregate word a =>
    by_cases h : a.template.toList = [] <;> simp [text, lead, guardedTexts, h]

theorem lead_marks {e : Item} (h : e.Valid) {c : Char} (hc : c ∈ e.lead) :
    c ∉ ['"', '\x7b', '@', ',', ';'] := by
  have hsub : ∀ {c : Char}, c ∉ ['"', '\x7b', '@', ',', ';', ':'] → c ∉ ['"', '\x7b', '@', ',', ';'] := by
    intro c hc hmem
    exact hc (List.mem_append_left [':'] hmem)
  cases h with
  | name h => exact hsub (directive_marks h hc)
  | aggregate h =>
    rcases List.mem_append.mp hc with hc | hc
    · exact hsub (kind_marks h.kind hc)
    · rcases List.mem_cons.mp hc with rfl | hc
      · decide
      · rcases List.mem_append.mp hc with hc | hc
        · exact hsub (directive_marks h.function hc)
        · rw [List.mem_singleton.mp hc]
          decide

end Item

/-- Up to the mark that closes it a text is guarded, whatever stands behind. -/
theorem guarded_text {e : Item} (h : e.Valid) {text : List Char} (htext : text ∈ e.guardedTexts)
    (before t : List Char) : guarded before (text ++ t) = some (text, t) := by
  cases h with
  | name h => cases htext
  | @aggregate word a h =>
    have htitle : guarded before ('"' :: a.title.toList ++ ['"'] ++ t)
        = some ('"' :: a.title.toList ++ ['"'], t) := by
      have hcut := cutAt?_append h.title_quote t
      simp [guarded, hcut]
    rcases List.mem_cons.mp htext with rfl | htext
    · exact htitle
    · split at htext
      · cases htext
      · next hne =>
        obtain rfl := List.mem_singleton.mp htext
        rcases h.template with hnil | ⟨inside, hinside, -, hclose⟩
        · exact absurd hnil hne
        · have hcut := cutAt?_append hclose t
          rw [hinside]
          simp [guarded, hcut]

theorem guardedTexts_ne {e : Item} {text : List Char} (h : text ∈ e.guardedTexts) : text ≠ [] := by
  cases e with
  | name n => cases h
  | aggregate word a =>
    rcases List.mem_cons.mp h with rfl | h
    · exact List.cons_ne_nil _ _
    · split at h
      · cases h
      · next hne => rwa [List.mem_singleton.mp h]

/-- What the scan makes of an entry. -/
def Item.scanned (e : Item) : List (Char ⊕ List Char) :=
  e.lead.map Sum.inl ++ e.guardedTexts.map Sum.inr

/-- The scan goes through an entry and on with what stands behind it. -/
theorem scan_text {e : Item} (h : e.Valid) (t : List Char) :
    Pattern.scanFrom guarded [] 0 (e.text ++ t) = e.scanned ++ Pattern.scanFrom guarded [] 0 t := by
  have hblind : ∀ before s, Pattern.scanFrom guarded before 0 s = Pattern.scanFrom guarded [] 0 s :=
    fun before s => Pattern.scanFrom_of_blind (fun _ _ _ => rfl) before [] 0 s
  have htexts : ∀ texts : List (List Char), texts ⊆ e.guardedTexts →
      Pattern.scanFrom guarded [] 0 (texts.flatten ++ t)
        = texts.map Sum.inr ++ Pattern.scanFrom guarded [] 0 t := by
    intro texts hsub
    induction texts with
    | nil => rfl
    | cons text texts ih =>
      obtain ⟨hmem, hrest⟩ := List.cons_subset.mp hsub
      rw [List.flatten_cons, List.append_assoc,
        Pattern.scanFrom_of_fit (guardedTexts_ne hmem) (guarded_text h hmem [] _), hblind, ih hrest]
      rfl
  rw [Item.text_eq, List.append_assoc, Pattern.scanFrom_append_of_none, hblind,
    htexts _ (List.Subset.refl _), Item.scanned, List.append_assoc]
  intro pre c r hsplit
  have hc := Item.lead_marks h (c := c) (by rw [hsplit]; simp)
  unfold guarded
  split
  · next heq => exact absurd (by rw [(List.cons.inj heq).1]; decide) hc
  · next heq => exact absurd (by rw [(List.cons.inj heq).1]; decide) hc
  · rfl

/-- The scan of entries behind their separators. -/
theorem scan_rest {rest : List (Char × Item)}
    (h : ∀ p ∈ rest, (p.1 = ',' ∨ p.1 = ';') ∧ p.2.Valid) :
    Pattern.scanFrom guarded [] 0 (rest.flatMap fun p => p.1 :: p.2.text)
      = rest.flatMap fun p => .inl p.1 :: p.2.scanned := by
  induction rest with
  | nil => rfl
  | cons p rest ih =>
    obtain ⟨⟨hsep, hvalid⟩, hrest⟩ := List.forall_mem_cons.mp h
    have hnone : ∀ r, guarded [] (p.1 :: r) = none := by
      intro r
      rcases hsep with hsep | hsep <;> rw [hsep] <;> rfl
    rw [List.flatMap_cons, List.flatMap_cons, List.cons_append, Pattern.scanFrom_of_none (hnone _),
      Pattern.scanFrom_of_blind (fun _ _ _ => rfl) _ [], scan_text hvalid, ih hrest]
    rfl

theorem maskFrom_inl (n : Nat) (a : List Char) (rest : List (Char ⊕ List Char)) :
    maskFrom n (a.map Sum.inl ++ rest) = a ++ maskFrom n rest := by
  induction a with
  | nil => rfl
  | cons c a ih => exact congrArg (c :: ·) ih

theorem maskFrom_inr (n : Nat) (texts : List (List Char)) (rest : List (Char ⊕ List Char)) :
    maskFrom n (texts.map Sum.inr ++ rest)
      = (List.range' n texts.length).flatMap placeholder ++ maskFrom (n + texts.length) rest := by
  induction texts generalizing n with
  | nil => rfl
  | cons text texts ih =>
    rw [List.map_cons, List.cons_append, maskFrom, ih, List.length_cons, List.range'_succ,
      List.flatMap_cons, List.append_assoc, Nat.add_assoc, Nat.add_comm 1]

theorem mem_placeholder {n : Nat} {c : Char} (h : c ∈ placeholder n) : c = '@' ∨ isDigit c = true := by
  simp only [placeholder, placeholderMark, List.mem_append, List.mem_cons, List.not_mem_nil,
    or_false, or_self] at h
  rcases h with (h | h) | h
  · exact Or.inl h
  · exact Or.inr (isDigit_of_mem_showNat h)
  · exact Or.inl h

/-- Entries masked one after the other. -/
def maskedEntries (n : Nat) : List Item → List (List Char)
  | [] => []
  | e :: es => e.masked n :: maskedEntries (n + e.guardedTexts.length) es

theorem maskFrom_scanned (n : Nat) (e : Item) (rest : List (Char ⊕ List Char)) :
    maskFrom n (e.scanned ++ rest) = e.masked n ++ maskFrom (n + e.guardedTexts.length) rest := by
  rw [Item.scanned, List.append_assoc, maskFrom_inl, maskFrom_inr, Item.masked, List.append_assoc]

theorem not_separator_of_mem_masked {e : Item} (h : e.Valid) (n : Nat) {c : Char}
    (hc : c ∈ e.masked n) : (c == ',' || c == ';') = false := by
  have hne : c ≠ ',' ∧ c ≠ ';' := by
    rcases List.mem_append.mp hc with hc | hc
    · have hmark := Item.lead_marks h hc
      constructor <;> rintro rfl <;> exact hmark (by decide)
    · obtain ⟨k, -, hk⟩ := List.mem_flatMap.mp hc
      rcases mem_placeholder hk with rfl | hdigit
      · decide
      · constructor <;> rintro rfl <;> cases hdigit
  simpa using hne

/-- A specification is cut at its separators alone, whatever its titles and templates hold. -/
theorem splitAt_mask (n : Nat) {e : Item} {rest : List (Char × Item)} (he : e.Valid)
    (hrest : ∀ p ∈ rest, (p.1 = ',' ∨ p.1 = ';') ∧ p.2.Valid) :
    splitAt (fun c => c == ',' || c == ';')
        (maskFrom n (e.scanned ++ rest.flatMap fun p => .inl p.1 :: p.2.scanned))
      = maskedEntries n (e :: rest.map Prod.snd) := by
  have hsingle : splitAt (fun c => c == ',' || c == ';') (e.masked n) = [e.masked n] :=
    splitAt_eq_singleton fun c hc => not_separator_of_mem_masked he n hc
  rw [maskFrom_scanned]
  induction rest generalizing n e with
  | nil =>
    rw [List.flatMap_nil, maskFrom, List.append_nil, hsingle]
    rfl
  | cons p rest ih =>
    obtain ⟨⟨hsep, hvalid⟩, hrest⟩ := List.forall_mem_cons.mp hrest
    have hcut : (p.1 == ',' || p.1 == ';') = true := by simpa using hsep
    have hbehind := ih (n + e.guardedTexts.length) hvalid hrest
      (splitAt_eq_singleton fun c hc => not_separator_of_mem_masked hvalid _ hc)
    rw [List.flatMap_cons, List.cons_append, maskFrom, splitAt_append_cons hcut, hsingle,
      maskFrom_scanned, hbehind]
    rfl

theorem found_scanned (e : Item) (rest : List (Char × Item)) :
    (e.scanned ++ rest.flatMap fun p => .inl p.1 :: p.2.scanned).filterMap
        (Sum.elim (fun _ => none) some)
      = (e :: rest.map Prod.snd).flatMap Item.guardedTexts := by
  have hone : ∀ e : Item, e.scanned.filterMap (Sum.elim (fun _ => none) some) = e.guardedTexts := by
    intro e
    simp [Item.scanned, List.filterMap_map, Function.comp_def]
  rw [List.filterMap_append, hone, List.flatMap_cons]
  refine congrArg (e.guardedTexts ++ ·) ?_
  induction rest with
  | nil => rfl
  | cons p rest ih =>
    rw [List.flatMap_cons, List.cons_append, List.filterMap_cons_none rfl, List.filterMap_append, hone,
      ih]
    rfl

/-! ## Taking the masks off -/

theorem placeholderOf_placeholder {saved : List (List Char)} {n : Nat} {text : List Char}
    (h : saved[n]? = some text) (before t : List Char) :
    placeholderOf saved before (placeholder n ++ t) = some (text, t) := by
  have hdigits : ∀ c ∈ showNat n, isDigit c = true := fun c hc => isDigit_of_mem_showNat hc
  have hdecimal : ∀ c ∈ showNat n, isDecimal c = true := fun c hc => isDecimal_of_isDigit (hdigits c hc)
  have hmark : ∀ c ∈ (placeholderMark ++ t).head?, isDecimal c = false := by
    rintro c ⟨⟩
    decide
  have hempty : (showNat n).isEmpty = false := by simpa using showNat_ne_nil n
  have hopen : strip? placeholderMark (placeholder n ++ t) = some (showNat n ++ (placeholderMark ++ t)) :=
    strip?_eq_some_iff.mpr (by simp [placeholder])
  have hclose : strip? placeholderMark (placeholderMark ++ t) = some t := strip?_eq_some_iff.mpr rfl
  unfold placeholderOf
  rw [hopen]
  show (do
    let rest ← strip? placeholderMark ((showNat n ++ (placeholderMark ++ t)).dropWhile isDecimal)
    _) = _
  rw [dropWhile_run hdecimal hmark, hclose]
  dsimp only [Option.bind_eq_bind, Option.bind_some]
  rw [takeWhile_run hdecimal hmark, hempty, List.all_eq_true.mpr hdigits, readDigits_showNat, h]
  rfl

/-- Placeholders one behind the other become their texts, one behind the other. -/
theorem unmask_placeholders (before texts behind : List (List Char)) :
    unmask (before ++ texts ++ behind) ((List.range' before.length texts.length).flatMap placeholder)
      = texts.flatten := by
  induction texts generalizing before with
  | nil => rfl
  | cons text texts ih =>
    have hnth : (before ++ text :: texts ++ behind)[before.length]? = some text := by simp
    have hrest := ih (before ++ [text])
    rw [List.length_append, List.length_singleton, List.append_assoc before,
      List.singleton_append] at hrest
    rw [List.length_cons, List.range'_succ, List.flatMap_cons, List.flatten_cons, unmask,
      Pattern.substitute_fit_append (fun _ _ _ => rfl) (by simp [placeholder, placeholderMark])
        (placeholderOf_placeholder hnth [] _)]
    exact congrArg (text ++ ·) hrest

/-! ## Reading what is written -/

theorem trimStart_ne_nil_of_kind {word : List Char} {k : AggregateKind}
    (h : AggregateKind.find? word = some k) : trimStart word ≠ [] := by
  intro hnil
  rw [← find?_trim, trim, hnil] at h
  cases h

theorem isBlank_of_mem_placeholders {ks : List Nat} {c : Char} (hc : c ∈ ks.flatMap placeholder) :
    isBlank c = false := by
  obtain ⟨k, -, hk⟩ := List.mem_flatMap.mp hc
  rcases mem_placeholder hk with rfl | hdigit
  · decide
  · exact isBlank_of_isNameChar (isNameChar_of_isDigit hdigit)

/-- The parts of a masked aggregate, without their masks. -/
theorem parts_masked {word : List Char} {a : Aggregate} (h : Writable word a)
    (before behind : List (List Char)) :
    (splitAtMost (· == ':') 2 (trim ((Item.aggregate word a).masked before.length))).map (fun part =>
        unmask (before ++ (Item.aggregate word a).guardedTexts ++ behind) (trim part))
      = [trim word, a.function.toList, '"' :: a.title.toList ++ '"' :: a.template.toList] := by
  obtain ⟨marks, hmarks⟩ : ∃ marks, marks = (List.range' before.length
      (Item.aggregate word a).guardedTexts.length).flatMap placeholder := ⟨_, rfl⟩
  have hmasked : (Item.aggregate word a).masked before.length
      = word ++ ':' :: (a.function.toList ++ ':' :: marks) := by
    simp [Item.masked, Item.lead, hmarks]
  have hplain : ∀ c ∈ marks, isBlank c = false := by
    rw [hmarks]
    exact fun c hc => isBlank_of_mem_placeholders hc
  have hbehind : ∀ c ∈ ':' :: (a.function.toList ++ ':' :: marks), isBlank c = false := by
    have hname := isNameChar_of_mem_identifier h.function
    intro c hc
    simp only [List.mem_cons, List.mem_append] at hc
    rcases hc with rfl | hc | rfl | hc
    · decide
    · exact isBlank_of_isNameChar (hname c hc)
    · decide
    · exact hplain c hc
  -- neither the word nor the function holds a colon, so that the two colons between them cut
  have hsplit : splitAtMost (· == ':') 2 (trimStart word ++ ':' :: (a.function.toList ++ ':' :: marks))
      = [trimStart word, a.function.toList, marks] := by
    rw [splitAtMost_append_cons (fun c hc => colon_of_marks (kind_marks h.kind (trimStart_subset word hc))) rfl,
      splitAtMost_append_cons (fun c hc => colon_of_marks (directive_marks h.function hc)) rfl]
    rfl
  have hword : unmask (before ++ (Item.aggregate word a).guardedTexts ++ behind) (trim word)
      = trim word :=
    unmask_of_plain _ fun hmem => kind_marks h.kind (trim_subset word hmem) (by decide)
  have htexts : unmask (before ++ (Item.aggregate word a).guardedTexts ++ behind) marks
      = '"' :: a.title.toList ++ '"' :: a.template.toList := by
    rw [hmarks, unmask_placeholders]
    by_cases hnil : a.template.toList = [] <;> simp [Item.guardedTexts, hnil]
  rw [hmasked, trim_append (trimStart_ne_nil_of_kind h.kind) (List.cons_ne_nil _ _) hbehind, hsplit,
    List.map_cons, List.map_cons, List.map_singleton, trim_trimStart, hword,
    trim_of_identifier h.function, unmask_of_identifier h.function, trim_eq_self hplain, htexts]

/-- What is read of an entry. -/
theorem readEntry_masked {e : Item} (h : e.Valid) (before behind : List (List Char)) (spec : TableSpec) :
    readEntry (before ++ e.guardedTexts ++ behind) (trim (e.masked before.length)) spec
      = .ok ⟨spec.names ++ e.name?.toList, spec.aggregates ++ (e.aggregate?.map reread).toList⟩ := by
  cases h with
  | @name n h =>
    have hmasked : (Item.name n).masked before.length = n.toList := by
      simp [Item.masked, Item.lead, Item.guardedTexts]
    rw [hmasked, trim_of_identifier h, readEntry_name h]
    simp [Item.name?, Item.aggregate?]
  | @aggregate word a h =>
    have hkind : AggregateKind.find? (trim word) = some a.kind := by rw [find?_trim, h.kind]
    have hword : (trim word).isEmpty = false := by
      refine List.isEmpty_eq_false_iff.mpr fun hnil => ?_
      rw [hnil] at hkind
      cases hkind
    have hfunction : a.function.toList.isEmpty = false :=
      List.isEmpty_eq_false_iff.mpr (ne_nil_of_isIdentifier h.function)
    unfold readEntry
    rw [parts_masked h]
    simp only [hword, hfunction, Bool.or_false, Bool.false_eq_true, if_false, hkind, List.headD_cons,
      String.ofList_toList]
    simp [Item.name?, Item.aggregate?, reread]

/-- Every entry says something. -/
theorem trim_masked_ne {e : Item} (h : e.Valid) (n : Nat) : trim (e.masked n) ≠ [] := by
  obtain ⟨c, hc, hblank⟩ : ∃ c ∈ e.lead, isBlank c = false := by
    cases h with
    | name h =>
      obtain ⟨c, r, hcons⟩ := List.exists_cons_of_ne_nil (ne_nil_of_isIdentifier h)
      have hc : c ∈ _ := hcons ▸ List.mem_cons_self
      exact ⟨c, hc, isBlank_of_isNameChar (isNameChar_of_mem_identifier h c hc)⟩
    | aggregate h => exact ⟨':', by simp [Item.lead], by decide⟩
  exact List.ne_nil_of_mem (mem_trim_of_mem (List.mem_append_left _ hc) hblank)

/-- What is read of entries one after the other, each from where the texts of the ones before end. -/
theorem foldlM_masked {es : List Item} (h : ∀ e ∈ es, e.Valid) (before : List (List Char))
    (spec : TableSpec) :
    (((maskedEntries before.length es).map trim).filter fun e => !e.isEmpty).foldlM
        (fun spec e => readEntry (before ++ es.flatMap Item.guardedTexts) e spec) spec
      = .ok ⟨spec.names ++ es.filterMap Item.name?,
          spec.aggregates ++ (es.filterMap Item.aggregate?).map reread⟩ := by
  induction es generalizing before spec with
  | nil =>
    simp only [List.filterMap_nil, List.map_nil, List.append_nil]
    rfl
  | cons e es ih =>
    obtain ⟨he, hes⟩ := List.forall_mem_cons.mp h
    have hne : (trim (e.masked before.length)).isEmpty = false :=
      List.isEmpty_eq_false_iff.mpr (trim_masked_ne he _)
    have hfirst := readEntry_masked he before (es.flatMap Item.guardedTexts) spec
    have hrest := ih hes (before ++ e.guardedTexts)
      ⟨spec.names ++ e.name?.toList, spec.aggregates ++ (e.aggregate?.map reread).toList⟩
    rw [List.length_append] at hrest
    rw [List.flatMap_cons, ← List.append_assoc, maskedEntries, List.map_cons,
      List.filter_cons_of_pos (by rw [hne]; rfl), List.foldlM_cons, hfirst]
    refine hrest.trans ?_
    cases e <;> simp [List.filterMap_cons, Item.name?, Item.aggregate?]

theorem read_write_eq {entries : List (Char × Item)}
    (h : ∀ p ∈ entries, (p.1 = ',' ∨ p.1 = ';') ∧ p.2.Valid) :
    read (write entries) = .ok ⟨namesOf entries, (aggregatesOf entries).map reread⟩ := by
  cases entries with
  | nil => rfl
  | cons p rest =>
    obtain ⟨⟨-, he⟩, hrest⟩ := List.forall_mem_cons.mp h
    have hvalid : ∀ e ∈ p.2 :: rest.map Prod.snd, e.Valid := by
      intro e hmem
      obtain ⟨q, hq, rfl⟩ := List.mem_map.mp (show e ∈ (p :: rest).map Prod.snd from hmem)
      exact (h q hq).2
    have hscan : Pattern.scanFrom guarded [] 0 (write (p :: rest))
        = p.2.scanned ++ rest.flatMap fun p => .inl p.1 :: p.2.scanned := by
      rw [write, scan_text he, scan_rest hrest]
    have hmask : mask (write (p :: rest))
        = (maskFrom 0 (p.2.scanned ++ rest.flatMap fun p => .inl p.1 :: p.2.scanned),
          (p.2 :: rest.map Prod.snd).flatMap Item.guardedTexts) := by
      rw [mask, Pattern.found, hscan, found_scanned]
    unfold read
    rw [hmask]
    dsimp only
    rw [splitAt_mask 0 he hrest]
    exact foldlM_masked hvalid [] ⟨[], []⟩

theorem reread_eq_iff {word : List Char} {a : Aggregate} (h : Writable word a) :
    reread a = a ↔ ToldApart a := by
  have hsplit : splitTitle ('"' :: a.title.toList ++ '"' :: a.template.toList) a.function.toList
      = (a.title.toList, a.template.toList) ↔ _ :=
    splitTitle_eq_iff h.title_ne h.title_trim h.title_quote h.template
  rw [ToldApart, ← String.toList_inj, ← hsplit, Prod.ext_iff]
  obtain ⟨kind, function, title, template⟩ := a
  simp [reread, ← String.toList_inj]

theorem exists_writable {entries : List (Char × Item)} (h : ∀ p ∈ entries, p.2.Valid) {a : Aggregate}
    (ha : a ∈ aggregatesOf entries) : ∃ word, Writable word a := by
  obtain ⟨e, he, hea⟩ := List.mem_filterMap.mp ha
  obtain ⟨⟨c, e⟩, hp, rfl⟩ := List.mem_map.mp he
  have hvalid : e.Valid := h (c, e) hp
  cases hvalid with
  | name hn => cases hea
  | aggregate hw =>
    cases hea
    exact ⟨_, hw⟩

/-- **Writing a specification and reading it.** Its names, and its aggregates with their kinds and
functions, are read in order, whatever the titles and the templates hold; these are read as they were
written exactly if each title can be told from its template. -/
theorem read_write {entries : List (Char × Item)}
    (h : ∀ p ∈ entries, (p.1 = ',' ∨ p.1 = ';') ∧ p.2.Valid) :
    read (write entries) = .ok ⟨namesOf entries, (aggregatesOf entries).map reread⟩ ∧
      (read (write entries) = .ok ⟨namesOf entries, aggregatesOf entries⟩ ↔
        ∀ a ∈ aggregatesOf entries, ToldApart a) := by
  have hread := read_write_eq h
  refine ⟨hread, ?_⟩
  have hsame : (aggregatesOf entries).map reread = aggregatesOf entries ↔
      ∀ a ∈ aggregatesOf entries, reread a = a := by
    have hmap : (aggregatesOf entries).map reread = (aggregatesOf entries).map id ↔ _ :=
      List.map_inj_left
    rwa [List.map_id] at hmap
  rw [hread, Except.ok.injEq, TableSpec.mk.injEq, and_iff_right rfl, hsame]
  refine forall₂_congr fun a ha => ?_
  obtain ⟨word, hw⟩ := exists_writable (fun p hp => (h p hp).2) ha
  exact reread_eq_iff hw

/-- A title that holds separators and the text of a placeholder, with a template that holds a colon and
a quote. -/
def totalDue : Aggregate := ⟨.total, "sum", "Due, net: @@@0@@@", "\x7b:,.2f\"\x7d"⟩

theorem read_write_totalDue :
    (∀ p ∈ [(',', Item.name "rent"), (';', .aggregate "Total".toList totalDue)],
        (p.1 = ',' ∨ p.1 = ';') ∧ p.2.Valid) ∧
      read (write [(',', Item.name "rent"), (';', .aggregate "Total".toList totalDue)])
        = .ok ⟨["rent"], [totalDue]⟩ := by
  have hwritable : Writable "Total".toList totalDue :=
    ⟨by decide, by decide, by decide, by decide, by decide,
      Or.inr ⟨":,.2f\"".toList, by decide, by decide, by decide⟩⟩
  have hentries : ∀ p ∈ [(',', Item.name "rent"), (';', .aggregate "Total".toList totalDue)],
      (p.1 = ',' ∨ p.1 = ';') ∧ p.2.Valid := by
    intro p hp
    rcases List.mem_cons.mp hp with rfl | hp
    · exact ⟨Or.inl rfl, .name (by decide)⟩
    · rw [List.mem_singleton.mp hp]
      exact ⟨Or.inr rfl, .aggregate hwritable⟩
  refine ⟨hentries, (read_write hentries).2.mpr fun a ha => ?_⟩
  rw [List.mem_singleton.mp (show a ∈ [totalDue] from ha)]
  exact Or.inl (by decide)

/-- A title with braces of its own. -/
def braced : Aggregate := ⟨.total, "sum", "a\x7bb\x7d", "\x7b:.2f\x7d"⟩

/-- Its braces are taken for the template, and its template for a part of the title. -/
theorem read_write_ne :
    Writable "t".toList braced ∧
      read (write [(',', .aggregate "t".toList braced)]) ≠ .ok ⟨[], [braced]⟩ :=
  ⟨⟨by decide, by decide, by decide, by decide, by decide,
    Or.inr ⟨":.2f".toList, by decide, by decide, by decide⟩⟩, by decide⟩

end TableSpec

end Worksheet
