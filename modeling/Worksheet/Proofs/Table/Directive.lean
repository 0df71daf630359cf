import Worksheet.Proofs.Text.Class
import Worksheet.Proofs.Text.Lines
import Worksheet.Proofs.Text.Pattern
import Worksheet.Table.Spec

/-!
# Directives with names

What a directive says that names one variable or stack, by itself and with a total.

* **`mask_of_plain`**, **`unmask_of_plain`** — without quotes, braces and at signs there is nothing to
  mask.
* **`read_name`**, **`read_total`** — the specifications.
-/

namespace Worksheet

open Text

namespace TableSpec

section Read

variable {s : List Char}

/-- Without quotes and braces nothing is masked. -/
theorem mask_of_plain (hs : ∀ c ∈ s, c ≠ '"' ∧ c ≠ '\x7b') : mask s = (s, []) := by
  have hscan : ∀ before, Pattern.scanFrom guarded before 0 s = s.map Sum.inl := by
    induction s with
    | nil => exact fun _ => rfl
    | cons c r ih =>
      intro before
      obtain ⟨hquote, hbrace⟩ := hs c List.mem_cons_self
      have hnone : guarded before (c :: r) = none := by
        unfold guarded
        split
        · next heq => exact absurd (List.cons.inj heq).1 hquote
        · next heq => exact absurd (List.cons.inj heq).1 hbrace
        · rfl
      rw [Pattern.scanFrom_of_none hnone, ih fun d hd => hs d (List.mem_cons_of_mem c hd)]
      rfl
  have hmask : ∀ n, maskFrom n (s.map Sum.inl) = s := by
    intro n
    clear hscan hs
    induction s with
    | nil => rfl
    | cons c r ih => exact congrArg (c :: ·) ih
  have hfound : (s.map Sum.inl).filterMap
      (Sum.elim (fun _ => none) some : Char ⊕ List Char → Option (List Char)) = [] := by
    simp [List.filterMap_map]
  rw [mask, hscan, hmask, Pattern.found, hscan, hfound]

/-- Without an at sign there is no placeholder. -/
theorem unmask_of_plain (saved : List (List Char)) (hs : '@' ∉ s) : unmask saved s = s := by
  refine Pattern.substitute_eq_self_of_none fun pre c r hsplit => ?_
  have hne : c ≠ '@' := by
    rintro rfl
    rw [hsplit] at hs
    exact hs (by simp)
  have hstrip : strip? placeholderMark (c :: r) = none := by
    rw [placeholderMark, strip?, if_neg (by simpa using Ne.symm hne)]
  rw [placeholderOf, hstrip]
  rfl

/-- The characters of a name are none of the marks of a directive. -/
theorem directive_marks (hs : isIdentifier s = true) {c : Char} (hc : c ∈ s) :
    c ∉ ['"', '\x7b', '@', ',', ';', ':'] := by
  have hname := isNameChar_of_mem_identifier hs c hc
  have hmarks : ∀ m ∈ ['"', '\x7b', '@', ',', ';', ':'], isNameChar m = false := by decide
  intro hmem
  rw [hmarks c hmem] at hname
  cases hname

theorem trim_of_identifier (hs : isIdentifier s = true) : trim s = s :=
  trim_eq_self fun c hc => isBlank_of_isNameChar (isNameChar_of_mem_identifier hs c hc)

/-- What is no mark cuts no part of an entry off. -/
theorem colon_of_marks {c : Char} (hc : c ∉ ['"', '\x7b', '@', ',', ';', ':']) : (c == ':') = false := by
  have hne : c ≠ ':' := fun heq => hc (by rw [heq]; decide)
  simpa using hne

/-- And no entry. -/
theorem separator_of_marks {c : Char} (hc : c ∉ ['"', '\x7b', '@', ',', ';', ':']) :
    (c == ',' || c == ';') = false := by
  have hne : c ≠ ',' ∧ c ≠ ';' := by
    constructor <;> rintro rfl <;> exact hc (by decide)
  simpa using hne

/-- And begins no title and no template. -/
theorem unguarded_of_marks {c : Char} (hc : c ∉ ['"', '\x7b', '@', ',', ';', ':']) :
    c ≠ '"' ∧ c ≠ '\x7b' := by
  constructor <;> rintro rfl <;> exact hc (by decide)

theorem unmask_of_identifier (hs : isIdentifier s = true) (saved : List (List Char)) :
    unmask saved s = s :=
  unmask_of_plain saved fun hmem => directive_marks hs hmem (by decide)

theorem splitAtMost_of_identifier (hs : isIdentifier s = true) (limit : Nat) :
    splitAtMost (· == ':') limit s = [s] := by
  have hdrop : s.dropWhile (fun c => !(c == ':')) = [] := by
    refine List.dropWhile_eq_nil_iff.mpr fun c hc => ?_
    rw [colon_of_marks (directive_marks hs hc)]
    rfl
  cases limit with
  | zero => rfl
  | succ limit => rw [splitAtMost, hdrop]

/-- A text is cut behind a part without separators. -/
theorem splitAtMost_append_cons {f : Char → Bool} {a b : List Char} {c : Char}
    (ha : ∀ x ∈ a, f x = false) (hc : f c = true) (limit : Nat) :
    splitAtMost f (limit + 1) (a ++ c :: b) = a :: splitAtMost f limit b := by
  have hrun : ∀ x ∈ a, (!f x) = true := fun x hx => by rw [ha x hx]; rfl
  have hhead : ∀ x ∈ (c :: b).head?, (!f x) = false := by
    rintro x ⟨⟩
    rw [hc]
    rfl
  rw [splitAtMost, dropWhile_run hrun hhead, takeWhile_run hrun hhead]

theorem splitAt_of_identifier (hs : isIdentifier s = true) :
    splitAt (fun c => c == ',' || c == ';') s = [s] :=
  splitAt_eq_singleton fun _ hc => separator_of_marks (directive_marks hs hc)

end Read

variable {n f : String}

/-- An entry that is a name shows what the name stands for. -/
theorem readEntry_name (hn : isIdentifier n.toList = true) (saved : List (List Char))
    (spec : TableSpec) :
    readEntry saved n.toList spec = .ok { spec with names := spec.names ++ [n] } := by
  unfold readEntry
  rw [splitAtMost_of_identifier hn, List.map_singleton, trim_of_identifier hn,
    unmask_of_identifier hn]
  dsimp only
  rw [String.ofList_toList]

theorem read_name (hn : isIdentifier n.toList = true) : read n.toList = .ok ⟨[n], []⟩ := by
  have hmask : mask n.toList = (n.toList, []) :=
    mask_of_plain fun c hc => unguarded_of_marks (directive_marks hn hc)
  have hempty : n.toList.isEmpty = false := by simpa using ne_nil_of_isIdentifier hn
  unfold read
  rw [hmask]
  dsimp only
  rw [splitAt_of_identifier hn, List.map_singleton, trim_of_identifier hn]
  simp only [List.filter_cons, hempty, Bool.not_false, if_true, List.filter_nil, List.foldlM_cons,
    List.foldlM_nil, readEntry_name hn]
  rfl

/-- A total of the function with a name, in its natural text. -/
def plainTotal (f : String) : Aggregate := ⟨.total, f, f, ""⟩

/-- A subtotal of the function with a name, in its natural text. -/
def plainSubtotal (f : String) : Aggregate := ⟨.subtotal, f, f, ""⟩

theorem readEntry_total (hf : isIdentifier f.toList = true) (spec : TableSpec) :
    readEntry [] ('t' :: ':' :: f.toList) spec
      = .ok { spec with aggregates := spec.aggregates ++ [plainTotal f] } := by
  have hsplit : splitAtMost (· == ':') 2 ('t' :: ':' :: f.toList) = [['t'], f.toList] := by
    have hcut := splitAtMost_append_cons (f := (· == ':')) (a := ['t']) (b := f.toList) (by decide)
      (show (':' == ':') = true from rfl) 1
    rwa [splitAtMost_of_identifier hf] at hcut
  have hword : unmask [] (trim ['t']) = ['t'] := by decide
  have hempty : f.toList.isEmpty = false := by simpa using ne_nil_of_isIdentifier hf
  have htitle : splitTitle [] f.toList = (f.toList, []) := by rfl
  unfold readEntry
  rw [hsplit, List.map_cons, List.map_singleton, hword, trim_of_identifier hf,
    unmask_of_identifier hf]
  simp only [List.isEmpty_cons, hempty, Bool.or_false, Bool.false_eq_true, if_false]
  rw [show AggregateKind.find? ['t'] = some .total by decide]
  simp only [List.headD_nil, htitle, String.ofList_toList]
  rfl

/-- A directive that names a stack and one total of it. -/
def totalDirective (n f : String) : List Char := n.toList ++ ", t:".toList ++ f.toList

theorem trim_totalEntry (hf : isIdentifier f.toList = true) :
    trim (" t:".toList ++ f.toList) = 't' :: ':' :: f.toList := by
  have hlast : ∀ c ∈ ('t' :: ':' :: f.toList).getLast?, isBlank c = false := by
    intro c hc
    rcases List.mem_cons.mp (List.mem_of_getLast? hc) with rfl | hc
    · decide
    · rcases List.mem_cons.mp hc with rfl | hc
      · decide
      · exact isBlank_of_isNameChar (isNameChar_of_mem_identifier hf c hc)
  have hfirst : ∀ c ∈ ('t' :: ':' :: f.toList).head?, isBlank c = false := by
    rintro c ⟨⟩
    decide
  exact trim_eq_self_of_ends hfirst hlast

theorem splitAt_totalEntry (hf : isIdentifier f.toList = true) :
    splitAt (fun c => c == ',' || c == ';') (" t:".toList ++ f.toList) = [" t:".toList ++ f.toList] := by
  refine splitAt_eq_singleton fun c hc => ?_
  rcases List.mem_append.mp hc with hc | hc
  · have hlead : ∀ c ∈ " t:".toList, (c == ',' || c == ';') = false := by decide
    exact hlead c hc
  · exact separator_of_marks (directive_marks hf hc)

/-- There is nothing to mask without a title and a template. -/
theorem mask_totalDirective (hn : isIdentifier n.toList = true) (hf : isIdentifier f.toList = true) :
    mask (totalDirective n f) = (totalDirective n f, []) := by
  refine mask_of_plain fun c hc => ?_
  have hnames : ∀ {w : String}, isIdentifier w.toList = true → c ∈ w.toList →
      c ≠ '"' ∧ c ≠ '\x7b' := fun hw hc => unguarded_of_marks (directive_marks hw hc)
  rcases List.mem_append.mp hc with hc | hc
  · rcases List.mem_append.mp hc with hc | hc
    · exact hnames hn hc
    · have hlead : ∀ c ∈ ", t:".toList, c ≠ '"' ∧ c ≠ '\x7b' := by decide
      exact hlead c hc
  · exact hnames hf hc

/-- A stack and one total of it. -/
theorem read_total (hn : isIdentifier n.toList = true) (hf : isIdentifier f.toList = true) :
    read (totalDirective n f) = .ok ⟨[n], [plainTotal f]⟩ := by
  have htext : totalDirective n f = n.toList ++ ',' :: (" t:".toList ++ f.toList) := by
    simp [totalDirective]
  have hempty : n.toList.isEmpty = false := by simpa using ne_nil_of_isIdentifier hn
  unfold read
  rw [mask_totalDirective hn hf]
  dsimp only
  rw [htext, splitAt_append_cons (by decide), splitAt_of_identifier hn, splitAt_totalEntry hf,
    List.singleton_append, List.map_cons, List.map_singleton, trim_of_identifier hn, trim_totalEntry hf]
  simp only [List.filter_cons, hempty, List.isEmpty_cons, Bool.not_false, if_true, List.filter_nil,
    List.foldlM_cons, List.foldlM_nil, readEntry_name hn]
  show (readEntry [] ('t' :: ':' :: f.toList) _ >>= _) = _
  rw [readEntry_total hf]
  rfl

end TableSpec

end Worksheet
