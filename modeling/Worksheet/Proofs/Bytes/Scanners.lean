import Mathlib.Logic.Relation
import Worksheet.Declaration
import Worksheet.Line
import Worksheet.Proofs.Bytes.Encoding
import Worksheet.Proofs.Declaration.Reading

/-!
# Searches through bytes

The search for a remark and the search for an assignment are loops over bytes. What both of them
keep is the place of the next byte, which does not depend on the loop; so both of them are in a
literal at the same bytes, and what they find is the first sign outside of literals.

* **`Moves`** — what one round of a search does, whichever of the two it is.
* **`Cursor.Agrees`**, **`Moves.agrees`**, **`Seeks.agrees`** — a search knows the place of the next
  byte, round by round and at all of them.
* **`Seeks`** — a search for a sign; **`Seeks.inLiteral_iff_quoted`**, where it is in a literal, and
  **`Seeks.run_eq_some_iff`**, what it finds.
* **`Spells`** — a sign that is a separator; **`Seeks.cutPlain?_eq_some`**, the slices around what is
  found are what the text is cut into.
-/

namespace Worksheet.Bytes

open Text

/-! ## Rounds -/

namespace Scanner

variable {σ α : Type} (S : Scanner σ α) (bytes : List UInt8)

/-- One round leads from the first state to the second one. -/
def Passes (s s' : σ) : Prop :=
  ∃ b, bytes[(S.cursor s).position]? = some b ∧ S.step bytes b s = .on s'

/-- Rounds lead from the first state to the second one. -/
abbrev Reaches : σ → σ → Prop := Relation.ReflTransGen (S.Passes bytes)

/-- The loop ends in a state: there are no more bytes, or something has been found. -/
def Ends (s : σ) : Option α → Prop
  | none => bytes.length ≤ (S.cursor s).position
  | some a => ∃ b, bytes[(S.cursor s).position]? = some b ∧ S.step bytes b s = .stop a

/-- The number of the byte that the loop ends at. -/
def stopsAt : Nat := (S.cursor (S.run bytes).1).position

/-- Is the byte, for this loop, in a literal or one of its quotes? The round that leaves it behind
begins or ends in the literal. -/
def InLiteral (p : Nat) : Prop :=
  ∃ s s', S.Reaches bytes S.start s ∧ S.Passes bytes s s' ∧
    (S.cursor s).position ≤ p ∧ p < (S.cursor s').position ∧
    ((S.cursor s).inString = true ∨ (S.cursor s').inString = true)

variable {S bytes}

theorem Passes.runFrom_eq {s s' : σ} (h : S.Passes bytes s s') :
    S.runFrom bytes s = S.runFrom bytes s' := by
  obtain ⟨b, hbyte, hstep⟩ := h
  rw [runFrom]
  split
  · next hnone =>
    rw [hbyte] at hnone
    cases hnone
  · next d hsome =>
    obtain rfl : b = d := Option.some.inj (hbyte.symm.trans hsome)
    split
    · next s'' hon =>
      obtain rfl : s' = s'' := by
        rw [hstep] at hon
        cases hon
        rfl
      rfl
    · next a hstop =>
      rw [hstep] at hstop
      cases hstop

theorem Reaches.runFrom_eq {s s' : σ} (h : S.Reaches bytes s s') :
    S.runFrom bytes s = S.runFrom bytes s' := by
  induction h with
  | refl => rfl
  | tail _ hround ih => exact ih.trans hround.runFrom_eq

theorem runFrom_of_length_le {s : σ} (h : bytes.length ≤ (S.cursor s).position) :
    S.runFrom bytes s = (s, none) := by
  rw [runFrom]
  split
  · rfl
  · next b hbyte =>
    have hlt := (List.getElem?_eq_some_iff.mp hbyte).1
    omega

/-- The loop reaches its last state, and ends there. -/
theorem reaches_runFrom (S : Scanner σ α) (bytes : List UInt8) (s : σ) :
    S.Reaches bytes s (S.runFrom bytes s).1 ∧
      S.Ends bytes (S.runFrom bytes s).1 (S.runFrom bytes s).2 := by
  fun_induction S.runFrom bytes s with
  | case1 s hbyte => exact ⟨.refl, List.getElem?_eq_none_iff.mp hbyte⟩
  | case2 s b hbyte s' hstep ih => exact ⟨ih.1.head ⟨b, hbyte, hstep⟩, ih.2⟩
  | case3 s b hbyte a hstep => exact ⟨.refl, b, hbyte, hstep⟩

/-- Every byte in front of a state that is reached has been left behind by a round. -/
theorem exists_passes {s t : σ} (h : S.Reaches bytes s t) {p : Nat}
    (hs : (S.cursor s).position ≤ p) (ht : p < (S.cursor t).position) :
    ∃ u u', S.Reaches bytes s u ∧ S.Passes bytes u u' ∧
      (S.cursor u).position ≤ p ∧ p < (S.cursor u').position := by
  induction h with
  | refl => exact absurd hs (Nat.not_le_of_lt ht)
  | @tail u u' hreach hround ih =>
    by_cases hu : p < (S.cursor u).position
    · exact ih hu
    · exact ⟨u, u', hreach, hround, Nat.le_of_not_lt hu, ht⟩

end Scanner

/-! ## The place of the next byte -/

section Places

variable {bytes : List UInt8}

/-- Does the byte belong to a literal, of which the quotes are a part? Then the literal is open in
front of it or behind it. -/
def Quoted (bytes : List UInt8) (p : Nat) : Prop :=
  placeAt bytes p ≠ .outside ∨ placeAt bytes (p + 1) ≠ .outside

theorem not_quoted_of_byte {p : Nat} {b : UInt8} (hplace : placeAt bytes p = .outside)
    (hbyte : bytes[p]? = some b) (hquote : b ≠ '"'.toUInt8) : ¬ Quoted bytes p := by
  have hnext : placeAt bytes (p + 1) = .outside := by
    rw [placeAt_succ hbyte, hplace]
    simp [nextByte, hquote]
  rintro (h | h)
  · exact h hplace
  · exact h hnext

/-- One round of a search. -/
inductive Moves (bytes : List UInt8) : Cursor → Cursor → Prop where
  /-- A backslash in a literal takes the byte behind it along. -/
  | escape {i : Nat} (hbyte : bytes[i]? = some '\\'.toUInt8) : Moves bytes ⟨i, true⟩ ⟨i + 2, true⟩
  /-- A quote opens or closes a literal. -/
  | quote {i : Nat} {q : Bool} (hbyte : bytes[i]? = some '"'.toUInt8) :
      Moves bytes ⟨i, q⟩ ⟨i + 1, !q⟩
  /-- Another byte. -/
  | byte {i : Nat} {q : Bool} {b : UInt8} (hbyte : bytes[i]? = some b) (hquote : b ≠ '"'.toUInt8)
      (hescape : q = true → b ≠ '\\'.toUInt8) : Moves bytes ⟨i, q⟩ ⟨i + 1, q⟩
  /-- Outside of literals, two equals signs are one comparison. -/
  | equals {i : Nat} (hbyte : bytes[i]? = some '='.toUInt8)
      (hnext : bytes[i + 1]? = some '='.toUInt8) : Moves bytes ⟨i, false⟩ ⟨i + 2, false⟩

/-- What a search knows is where the next byte is, if there is one. Behind a backslash that the text
ends in, it is already too far. -/
def Cursor.Agrees (bytes : List UInt8) (c : Cursor) : Prop :=
  c.position ≤ bytes.length →
    placeAt bytes c.position = if c.inString then .inside else .outside

theorem length_of_getElem? {i : Nat} {b : UInt8} (h : bytes[i]? = some b) : i < bytes.length :=
  (List.getElem?_eq_some_iff.mp h).1

theorem Moves.agrees {c c' : Cursor} (h : Moves bytes c c') (hc : c.Agrees bytes) :
    c'.Agrees bytes := by
  intro hle
  cases h with
  | @escape i hbyte =>
    have hplace : placeAt bytes i = .inside := hc (Nat.le_of_lt (length_of_getElem? hbyte))
    have hescaped : placeAt bytes (i + 1) = .escaped := by
      rw [placeAt_succ hbyte, hplace]
      rfl
    rw [placeAt_succ (List.getElem?_eq_getElem hle), hescaped]
    rfl
  | @quote i q hbyte =>
    have hplace := hc (Nat.le_of_lt (length_of_getElem? hbyte))
    dsimp only at hplace ⊢
    rw [placeAt_succ hbyte, hplace]
    cases q <;> rfl
  | @byte i q b hbyte hquote hescape =>
    have hplace := hc (Nat.le_of_lt (length_of_getElem? hbyte))
    dsimp only at hplace ⊢
    rw [placeAt_succ hbyte, hplace]
    cases q with
    | false => simp [nextByte, hquote]
    | true => simp [nextByte, hquote, hescape rfl]
  | @equals i hbyte hnext =>
    have hplace : placeAt bytes i = .outside := hc (Nat.le_of_lt (length_of_getElem? hbyte))
    dsimp only
    rw [placeAt_succ hnext, placeAt_succ hbyte, hplace]
    rfl

/-- A byte is in a literal if a search is in it before or after the byte. -/
theorem Cursor.Agrees.quoted_iff {c c' : Cursor} (hc : c.Agrees bytes) (hc' : c'.Agrees bytes)
    (hnext : c'.position = c.position + 1) (hlt : c.position < bytes.length) :
    Quoted bytes c.position ↔ c.inString = true ∨ c'.inString = true := by
  have hplace := hc (Nat.le_of_lt hlt)
  have hplace' := hc' (by omega)
  rw [hnext] at hplace'
  rw [Quoted, hplace, hplace']
  cases c.inString <;> cases c'.inString <;> simp

/-- The bytes that a round leaves behind are in a literal together, or none of them is. -/
theorem Moves.quoted_iff {c c' : Cursor} (h : Moves bytes c c') (hc : c.Agrees bytes) {p : Nat}
    (hp : c.position ≤ p) (hp' : p < c'.position) :
    Quoted bytes p ↔ c.inString = true ∨ c'.inString = true := by
  have hc' := h.agrees hc
  cases h with
  | @escape i hbyte =>
    -- no search stands at the second of the two bytes, which is the escaped one
    have hplace : placeAt bytes i = .inside := hc (Nat.le_of_lt (length_of_getElem? hbyte))
    have hescaped : placeAt bytes (i + 1) = .escaped := by
      rw [placeAt_succ hbyte, hplace]
      rfl
    obtain rfl | rfl : p = i ∨ p = i + 1 := by dsimp only at hp hp'; omega
    · simp [Quoted, hplace]
    · simp [Quoted, hescaped]
  | @quote i q hbyte =>
    obtain rfl : p = i := by dsimp only at hp hp'; omega
    exact hc.quoted_iff hc' rfl (length_of_getElem? hbyte)
  | @byte i q b hbyte hquote hescape =>
    obtain rfl : p = i := by dsimp only at hp hp'; omega
    exact hc.quoted_iff hc' rfl (length_of_getElem? hbyte)
  | @equals i hbyte hnext =>
    have hplace : placeAt bytes i = .outside := hc (Nat.le_of_lt (length_of_getElem? hbyte))
    have hplace' : placeAt bytes (i + 1) = .outside := by
      rw [placeAt_succ hbyte, hplace]
      rfl
    obtain rfl | rfl : p = i ∨ p = i + 1 := by dsimp only at hp hp'; omega
    · simpa using not_quoted_of_byte hplace hbyte (by decide)
    · simpa using not_quoted_of_byte hplace' hnext (by decide)

end Places

/-! ## Signs -/

/-- What a search looks for: where it begins and where it ends. -/
abbrev Sign := List UInt8 → Nat → Nat → Prop

/-- The first sign outside of what is taken for literals. -/
structure FirstSign (sign : Sign) (bytes : List UInt8) (literal : Nat → Prop) (i j : Nat) :
    Prop where
  here : sign bytes i j
  outside : ¬ literal i
  first {p e : Nat} : sign bytes p e → ¬ literal p → i ≤ p

/-- A search for a sign, of which `ends` says where it begins and where it ends. -/
structure Seeks {σ α : Type} (S : Scanner σ α) (sign : Sign) (ends : α → Nat × Nat) : Prop where
  start : S.cursor S.start = ⟨0, false⟩
  injective : ends.Injective
  unique {bytes : List UInt8} {p e e' : Nat} : sign bytes p e → sign bytes p e' → e = e'
  byte {bytes : List UInt8} {p e : Nat} :
    sign bytes p e → ∃ b, bytes[p]? = some b ∧ b ≠ '"'.toUInt8
  moves {bytes : List UInt8} {s s' : σ} :
    S.Passes bytes s s' → Moves bytes (S.cursor s) (S.cursor s')
  /-- A round does not get past a sign outside of literals. -/
  finds {bytes : List UInt8} {b : UInt8} {s : σ} {e : Nat} :
    bytes[(S.cursor s).position]? = some b → (S.cursor s).inString = false →
      sign bytes (S.cursor s).position e → ∃ a, S.step bytes b s = .stop a
  not_equals {bytes : List UInt8} {i e : Nat} : bytes[i]? = some '='.toUInt8 →
    bytes[i + 1]? = some '='.toUInt8 → ¬ sign bytes (i + 1) e
  stops {bytes : List UInt8} {b : UInt8} {s : σ} {a : α} :
    bytes[(S.cursor s).position]? = some b → S.step bytes b s = .stop a →
      (S.cursor s).inString = false ∧ (ends a).1 = (S.cursor s).position ∧
        sign bytes (ends a).1 (ends a).2

namespace Seeks

variable {σ α : Type} {S : Scanner σ α} {sign : Sign} {ends : α → Nat × Nat}
  {bytes : List UInt8}

/-- At every round the search knows the place of the next byte. -/
theorem agrees (h : Seeks S sign ends) {s : σ} (hs : S.Reaches bytes S.start s) :
    (S.cursor s).Agrees bytes := by
  induction hs with
  | refl =>
    rw [h.start]
    exact fun _ => rfl
  | tail _ hround ih => exact (h.moves hround).agrees ih

/-- A round leaves no sign behind but in a literal. -/
theorem passes (h : Seeks S sign ends) {s s' : σ} (hround : S.Passes bytes s s') {p e : Nat}
    (hp : (S.cursor s).position ≤ p) (hp' : p < (S.cursor s').position) (hsign : sign bytes p e) :
    (S.cursor s).inString = true ∨ (S.cursor s').inString = true := by
  have hmoves := h.moves hround
  obtain ⟨b, hbyte, hstep⟩ := hround
  have hfirst : (S.cursor s).inString = false → p ≠ (S.cursor s).position := by
    rintro hstring rfl
    obtain ⟨a, hstop⟩ := h.finds hbyte hstring hsign
    rw [hstep] at hstop
    cases hstop
  -- from here on only the cursors matter
  clear hbyte hstep
  generalize S.cursor s = c at hmoves hp hfirst
  generalize S.cursor s' = c' at hmoves hp'
  cases hmoves with
  | escape => exact Or.inl rfl
  | @quote i q => cases q <;> simp
  | @byte i q =>
    obtain rfl : p = i := by dsimp only at hp hp'; omega
    exact Or.inl ((Bool.eq_false_or_eq_true q).resolve_right fun hq => hfirst hq rfl)
  | @equals i hbyte hnext =>
    obtain rfl | rfl : p = i ∨ p = i + 1 := by dsimp only at hp hp'; omega
    · exact absurd rfl (hfirst rfl)
    · exact absurd hsign (h.not_equals hbyte hnext)

theorem exists_passes (h : Seeks S sign ends) {p : Nat} (hp : p < S.stopsAt bytes) :
    ∃ s s', S.Reaches bytes S.start s ∧ S.Passes bytes s s' ∧
      (S.cursor s).position ≤ p ∧ p < (S.cursor s').position := by
  refine Scanner.exists_passes (S.reaches_runFrom bytes S.start).1 ?_ hp
  rw [h.start]
  exact Nat.zero_le p

/-- A byte in front of what is found, if anything is found, is left behind. -/
theorem lt_stopsAt (h : Seeks S sign ends) {p : Nat} (hp : p < bytes.length)
    (hbefore : ∀ a ∈ (S.run bytes).2, p < (ends a).1) : p < S.stopsAt bytes := by
  obtain ⟨-, hends⟩ := S.reaches_runFrom bytes S.start
  rw [← Scanner.run] at hends
  unfold Scanner.stopsAt
  cases hrun : (S.run bytes).2 with
  | none =>
    rw [hrun] at hends
    exact Nat.lt_of_lt_of_le hp hends
  | some a =>
    rw [hrun] at hends
    obtain ⟨b, hbyte, hstep⟩ := hends
    rw [← (h.stops hbyte hstep).2.1]
    exact hbefore a hrun

/-- Up to where it stops, the search is in a literal at the bytes of literals. -/
theorem inLiteral_iff_quoted (h : Seeks S sign ends) {p : Nat} (hp : p < S.stopsAt bytes) :
    S.InLiteral bytes p ↔ Quoted bytes p := by
  constructor
  · rintro ⟨s, s', hreach, hround, hle, hlt, hin⟩
    exact ((h.moves hround).quoted_iff (h.agrees hreach) hle hlt).mpr hin
  · intro hquoted
    obtain ⟨s, s', hreach, hround, hle, hlt⟩ := h.exists_passes hp
    have hin := ((h.moves hround).quoted_iff (h.agrees hreach) hle hlt).mp hquoted
    exact ⟨s, s', hreach, hround, hle, hlt, hin⟩

/-- A sign that the search has left behind is in a literal. -/
theorem quoted_of_lt (h : Seeks S sign ends) {p e : Nat} (hp : p < S.stopsAt bytes)
    (hsign : sign bytes p e) : Quoted bytes p := by
  obtain ⟨s, s', hreach, hround, hle, hlt⟩ := h.exists_passes hp
  have hin := h.passes hround hle hlt hsign
  exact ((h.moves hround).quoted_iff (h.agrees hreach) hle hlt).mpr hin

theorem firstSign_of_eq_some (h : Seeks S sign ends) {a : α} (hrun : (S.run bytes).2 = some a) :
    FirstSign sign bytes (Quoted bytes) (ends a).1 (ends a).2 := by
  obtain ⟨hreach, hends⟩ := S.reaches_runFrom bytes S.start
  rw [← Scanner.run] at hreach hends
  rw [hrun] at hends
  obtain ⟨b, hbyte, hstep⟩ := hends
  obtain ⟨hstring, hposition, hsign⟩ := h.stops hbyte hstep
  have hplace := h.agrees hreach (Nat.le_of_lt (length_of_getElem? hbyte))
  rw [hstring, ← hposition] at hplace
  obtain ⟨d, hd, hquote⟩ := h.byte hsign
  refine ⟨hsign, not_quoted_of_byte hplace hd hquote, fun hother hnot => ?_⟩
  rw [hposition]
  exact Nat.le_of_not_lt fun hlt => hnot (h.quoted_of_lt hlt hother)

/-- If nothing is found, all signs are in literals. -/
theorem quoted_of_eq_none (h : Seeks S sign ends) (hrun : (S.run bytes).2 = none) {p e : Nat}
    (hsign : sign bytes p e) : Quoted bytes p := by
  obtain ⟨-, hends⟩ := S.reaches_runFrom bytes S.start
  rw [← Scanner.run, hrun] at hends
  obtain ⟨b, hbyte, -⟩ := h.byte hsign
  exact h.quoted_of_lt (Nat.lt_of_lt_of_le (length_of_getElem? hbyte) hends) hsign

/-- What is found is the first sign outside of literals. -/
theorem run_eq_some_iff (h : Seeks S sign ends) {a : α} :
    (S.run bytes).2 = some a ↔ FirstSign sign bytes (Quoted bytes) (ends a).1 (ends a).2 := by
  refine ⟨h.firstSign_of_eq_some, fun hfirst => ?_⟩
  cases hrun : (S.run bytes).2 with
  | none => exact absurd (h.quoted_of_eq_none hrun hfirst.here) hfirst.outside
  | some a' =>
    have hfirst' := h.firstSign_of_eq_some hrun
    have hbegin : (ends a').1 = (ends a).1 :=
      Nat.le_antisymm (hfirst'.first hfirst.here hfirst.outside)
        (hfirst.first hfirst'.here hfirst'.outside)
    have hsign := hfirst'.here
    rw [hbegin] at hsign
    have hend := h.unique hsign hfirst.here
    rw [h.injective (Prod.ext hbegin hend)]

/-- Two notions of what a literal is have the same first sign, if they are about the same bytes. -/
theorem firstSign_congr (h : Seeks S sign ends) {literal literal' : Nat → Prop}
    (hliteral : ∀ p < bytes.length, literal p ↔ literal' p) {i j : Nat} :
    FirstSign sign bytes literal i j ↔ FirstSign sign bytes literal' i j := by
  have hlength : ∀ {p e : Nat}, sign bytes p e → p < bytes.length := by
    intro p e hsign
    obtain ⟨b, hbyte, -⟩ := h.byte hsign
    exact length_of_getElem? hbyte
  constructor
  · intro hfirst
    refine ⟨hfirst.here, fun hin => hfirst.outside ?_, fun hsign hout => hfirst.first hsign ?_⟩
    · exact (hliteral _ (hlength hfirst.here)).mpr hin
    · exact fun hin => hout ((hliteral _ (hlength hsign)).mp hin)
  · intro hfirst
    refine ⟨hfirst.here, fun hin => hfirst.outside ?_, fun hsign hout => hfirst.first hsign ?_⟩
    · exact (hliteral _ (hlength hfirst.here)).mp hin
    · exact fun hin => hout ((hliteral _ (hlength hsign)).mpr hin)

end Seeks

/-! ## Remarks -/

/-- The character sets off a remark. -/
def IsMark (c : Char) : Prop := c ∈ [';', '#', '\x27']

theorem isMark_iff {b : UInt8} : isMark b = true ↔ ∃ c, IsMark c ∧ b = c.toUInt8 := by
  simp [isMark, IsMark, or_assoc]

theorem IsMark.isAscii {c : Char} (h : IsMark c) : IsAscii c := by
  have hall : ∀ d ∈ [';', '#', '\x27'], IsAscii d := by decide
  exact hall c h

theorem IsMark.ne_quote {c : Char} (h : IsMark c) : c.toUInt8 ≠ '"'.toUInt8 := by
  have hall : ∀ d ∈ [';', '#', '\x27'], d.toUInt8 ≠ '"'.toUInt8 := by decide
  exact hall c h

theorem remarkMark_eq_some_iff {before : Option Char} {t right : List Char} :
    remarkMark before t = some right ↔ ∃ c, IsMark c ∧ t = c :: right := by
  unfold remarkMark IsMark
  constructor
  · intro h
    split at h <;> cases h <;> exact ⟨_, by decide, rfl⟩
  · rintro ⟨c, hc, rfl⟩
    simp only [List.mem_cons, List.not_mem_nil, or_false] at hc
    rcases hc with rfl | rfl | rfl <;> rfl

/-- The byte sets off a remark. -/
def MarkAt : Sign := fun bytes p e =>
  e = p + 1 ∧ ∃ c, IsMark c ∧ bytes[p]? = some c.toUInt8

theorem remarkScanner_moves {bytes : List UInt8} {c c' : Cursor}
    (h : remarkScanner.Passes bytes c c') : Moves bytes c c' := by
  obtain ⟨b, hbyte, hstep⟩ := h
  obtain ⟨i, q⟩ := c
  change bytes[i]? = some b at hbyte
  simp only [remarkScanner] at hstep
  split at hstep
  · next hescape =>
    obtain ⟨rfl, rfl⟩ : b = '\\'.toUInt8 ∧ q = true := by simpa using hescape
    cases hstep
    exact .escape hbyte
  · next hescape =>
    split at hstep
    · next hquote =>
      obtain rfl := beq_iff_eq.mp hquote
      cases hstep
      exact .quote hbyte
    · next hquote =>
      split at hstep
      · cases hstep
      · cases hstep
        refine .byte hbyte (by simpa using hquote) ?_
        rintro rfl
        simpa using hescape

/-- The search stops at a mark outside of literals. -/
theorem remarkScanner_finds {bytes : List UInt8} {b : UInt8} {c : Cursor} {e : Nat}
    (hbyte : bytes[c.position]? = some b) (hstring : c.inString = false)
    (hsign : MarkAt bytes c.position e) : ∃ i, remarkScanner.step bytes b c = .stop i := by
  obtain ⟨-, d, hd, hget⟩ := hsign
  obtain rfl : b = d.toUInt8 := Option.some.inj (hbyte.symm.trans hget)
  have hmark : isMark d.toUInt8 = true := isMark_iff.mpr ⟨d, hd, rfl⟩
  have hquote : (d.toUInt8 == '"'.toUInt8) = false := beq_eq_false_iff_ne.mpr hd.ne_quote
  refine ⟨c.position, ?_⟩
  simp only [remarkScanner, hstring, hmark, hquote, Bool.and_false, Bool.not_false, Bool.and_true,
    Bool.false_eq_true, if_false, if_true]

/-- It stops at nothing else. -/
theorem remarkScanner_stops {bytes : List UInt8} {b : UInt8} {c : Cursor} {i : Nat}
    (hbyte : bytes[c.position]? = some b) (hstep : remarkScanner.step bytes b c = .stop i) :
    c.inString = false ∧ i = c.position ∧ MarkAt bytes i (i + 1) := by
  simp only [remarkScanner] at hstep
  split at hstep
  · cases hstep
  · split at hstep
    · cases hstep
    · split at hstep
      · next hmark =>
        cases hstep
        obtain ⟨hmark, hstring⟩ : isMark b = true ∧ c.inString = false := by simpa using hmark
        obtain ⟨d, hd, rfl⟩ := isMark_iff.mp hmark
        exact ⟨hstring, rfl, rfl, d, hd, hbyte⟩
      · cases hstep

theorem seeks_remarkScanner : Seeks remarkScanner MarkAt (fun i => (i, i + 1)) where
  start := rfl
  injective _ _ h := (Prod.mk.inj h).1
  unique h h' := h.1.trans h'.1.symm
  byte := by
    rintro bytes p e ⟨-, c, hc, hbyte⟩
    exact ⟨_, hbyte, hc.ne_quote⟩
  moves := remarkScanner_moves
  finds := remarkScanner_finds
  not_equals {bytes i e} hbyte hnext hsign := by
    obtain ⟨-, c, hc, hget⟩ := hsign
    obtain rfl : '=' = c :=
      (toUInt8_inj (by decide) hc.isAscii).mp (Option.some.inj (hnext.symm.trans hget))
    exact absurd hc (by unfold IsMark; decide)
  stops := remarkScanner_stops

/-! ## Assignments -/

/-- The bytes are an assignment. -/
inductive AssignmentAt : Sign where
  | colon {bytes : List UInt8} {p : Nat} (hbyte : bytes[p]? = some ':'.toUInt8)
      (hnext : bytes[p + 1]? = some '='.toUInt8) : AssignmentAt bytes p (p + 2)
  | equals {bytes : List UInt8} {p : Nat} (hbyte : bytes[p]? = some '='.toUInt8)
      (hbefore : ∀ b ∈ previous? bytes p, endsComparison b = false)
      (hnext : bytes[p + 1]? ≠ some '='.toUInt8) : AssignmentAt bytes p (p + 1)

theorem assignmentScanner_moves {bytes : List UInt8} {c c' : Cursor}
    (h : assignmentScanner.Passes bytes c c') : Moves bytes c c' := by
  obtain ⟨b, hbyte, hstep⟩ := h
  obtain ⟨i, q⟩ := c
  change bytes[i]? = some b at hbyte
  simp only [assignmentScanner] at hstep
  split at hstep
  · next hstring =>
    subst hstring
    split at hstep
    · next hescape =>
      obtain rfl := beq_iff_eq.mp hescape
      cases hstep
      exact .escape hbyte
    · next hescape =>
      cases hstep
      by_cases hquote : b = '"'.toUInt8
      · subst hquote
        exact .quote hbyte
      · rw [bne_iff_ne.mpr hquote]
        exact .byte hbyte hquote fun _ => by simpa using hescape
  · next hstring =>
    -- outside of literals, and at no sign
    obtain rfl : q = false := by simpa using hstring
    split at hstep
    · next hquote =>
      obtain rfl := beq_iff_eq.mp hquote
      cases hstep
      exact .quote hbyte
    · next hquote =>
      have hother : Moves bytes ⟨i, false⟩ ⟨i + 1, false⟩ :=
        .byte hbyte (by simpa using hquote) (by simp)
      split at hstep
      · cases hstep
      · split at hstep
        · next hequals =>
          obtain rfl := beq_iff_eq.mp hequals
          split at hstep
          · cases hstep
            split
            · next hnext => exact .equals hbyte (beq_iff_eq.mp hnext)
            · exact hother
          · cases hstep
        · cases hstep
          exact hother

/-- The search stops at an assignment outside of literals. -/
theorem assignmentScanner_finds {bytes : List UInt8} {b : UInt8} {c : Cursor} {e : Nat}
    (hbyte : bytes[c.position]? = some b) (hstring : c.inString = false)
    (hsign : AssignmentAt bytes c.position e) :
    ∃ a, assignmentScanner.step bytes b c = .stop a := by
  cases hsign with
  | colon hcolon hnext =>
    obtain rfl := Option.some.inj (hbyte.symm.trans hcolon)
    have hquote : ':'.toUInt8 ≠ '"'.toUInt8 := by decide
    refine ⟨(c.position, c.position + 2), ?_⟩
    simp [assignmentScanner, hstring, hnext, hquote]
  | equals hequals hbefore hnext =>
    obtain rfl := Option.some.inj (hbyte.symm.trans hequals)
    have hquote : '='.toUInt8 ≠ '"'.toUInt8 := by decide
    have hany : (previous? bytes c.position).any endsComparison = false := by
      refine Bool.eq_false_iff.mpr fun hany => ?_
      obtain ⟨d, hd, hends⟩ := (Option.any_eq_true _ _).mp hany
      rw [hbefore d hd] at hends
      cases hends
    refine ⟨(c.position, c.position + 1), ?_⟩
    simp [assignmentScanner, hstring, hnext, hany, hquote]

/-- It stops at nothing else. -/
theorem assignmentScanner_stops {bytes : List UInt8} {b : UInt8} {c : Cursor} {a : Nat × Nat}
    (hbyte : bytes[c.position]? = some b) (hstep : assignmentScanner.step bytes b c = .stop a) :
    c.inString = false ∧ a.1 = c.position ∧ AssignmentAt bytes a.1 a.2 := by
  simp only [assignmentScanner] at hstep
  split at hstep
  · split at hstep <;> cases hstep
  · next hstring =>
    refine ⟨Bool.eq_false_iff.mpr hstring, ?_⟩
    split at hstep
    · cases hstep
    · split at hstep
      · next hcolon =>
        cases hstep
        obtain ⟨rfl, hnext⟩ : b = ':'.toUInt8 ∧ bytes[c.position + 1]? = some '='.toUInt8 := by
          simpa using hcolon
        exact ⟨rfl, .colon hbyte hnext⟩
      · split at hstep
        · next hequals =>
          obtain rfl := beq_iff_eq.mp hequals
          split at hstep
          · cases hstep
          · -- an equals sign that belongs to no comparison
            next hcomparison =>
            cases hstep
            rw [Bool.or_eq_true, not_or, Option.any_eq_true] at hcomparison
            refine ⟨rfl, .equals hbyte (fun d hd => ?_) (by simpa using hcomparison.2)⟩
            exact Bool.eq_false_iff.mpr fun hends => hcomparison.1 ⟨d, hd, hends⟩
        · cases hstep

theorem seeks_assignmentScanner : Seeks assignmentScanner AssignmentAt id where
  start := rfl
  injective := Function.injective_id
  unique h h' := by
    cases h with
    | colon hbyte hnext =>
      cases h' with
      | colon => rfl
      | equals hbyte' => exact absurd (hbyte.symm.trans hbyte') (by decide)
    | equals hbyte hbefore hnext =>
      cases h' with
      | colon hbyte' => exact absurd (hbyte.symm.trans hbyte') (by decide)
      | equals => rfl
  byte := by
    rintro bytes p e (⟨hbyte, -⟩ | ⟨hbyte, -, -⟩)
    · exact ⟨_, hbyte, by decide⟩
    · exact ⟨_, hbyte, by decide⟩
  moves := assignmentScanner_moves
  finds := assignmentScanner_finds
  not_equals hbyte hnext hsign := by
    cases hsign with
    | colon hcolon => exact absurd (hnext.symm.trans hcolon) (by decide)
    | equals _ hbefore _ => exact absurd (hbefore _ hbyte) (by decide)
  stops := assignmentScanner_stops

/-! ## Separators -/

/-- Outside of literals a separator of texts stands where a sign stands. -/
structure Spells (sep : Separator) (sign : Sign) : Prop where
  cuts {line : List Char} {p e : Nat} :
    sign (utf8 line) p e → placeAt (utf8 line) p = .outside →
      ∃ left middle right, line = left ++ (middle ++ right) ∧ (utf8 left).length = p ∧
        (utf8 (left ++ middle)).length = e ∧ CutsAt sep .outside none line left right
  signs {line left right : List Char} :
    CutsAt sep .outside none line left right → ∃ e, sign (utf8 line) (utf8 left).length e

namespace Seeks

variable {σ α : Type} {S : Scanner σ α} {sign : Sign} {ends : α → Nat × Nat} {sep : Separator}
  {line : List Char}

/-- Where a text can be cut, there is a sign outside of literals. -/
theorem exists_sign (h : Seeks S sign ends) (hspells : Spells sep sign) {left right : List Char}
    (hcut : CutsAt sep .outside none line left right) :
    ∃ e, sign (utf8 line) (utf8 left).length e ∧ ¬ Quoted (utf8 line) (utf8 left).length := by
  obtain ⟨e, hsign⟩ := hspells.signs hcut
  obtain ⟨t, rfl, -, hplace, -⟩ := hcut
  obtain ⟨b, hbyte, hquote⟩ := h.byte hsign
  rw [← placeAt_length left t] at hplace
  exact ⟨e, hsign, not_quoted_of_byte hplace hbyte hquote⟩

/-- The slices in front of what is found and behind it are what the text is cut into. -/
theorem cutPlain?_eq_some (h : Seeks S sign ends) (hspells : Spells sep sign) {a : α}
    (hrun : (S.run (utf8 line)).2 = some a) :
    ∃ left right, cutPlain? sep line = some (left, right) ∧
      slice? line 0 (ends a).1 = some left ∧
      slice? line (ends a).2 (utf8 line).length = some right := by
  have hfirst := h.firstSign_of_eq_some hrun
  have hplace : placeAt (utf8 line) (ends a).1 = .outside :=
    Classical.not_not.mp fun hne => hfirst.outside (Or.inl hne)
  obtain ⟨left, middle, right, hline, hbegin, hend, hcut⟩ := hspells.cuts hfirst.here hplace
  refine ⟨left, right, cutPlain?_eq_some_iff.mpr ⟨hcut, fun left' right' hcut' => ?_⟩, ?_, ?_⟩
  · -- a cut further to the left would be at a sign that the search has not found
    obtain ⟨e, hsign, hquoted⟩ := h.exists_sign hspells hcut'
    have hle := hfirst.first hsign hquoted
    rw [← hbegin] at hle
    obtain ⟨t', hline', -⟩ := hcut'
    exact length_le_of_utf8 (hline.symm.trans hline') hle
  · exact slice?_eq_some_iff.mpr ⟨[], middle ++ right, hline, rfl, hbegin⟩
  · refine slice?_eq_some_iff.mpr ⟨left ++ middle, [], ?_, hend, ?_⟩
    · simp [hline]
    · simp [hline]

/-- What is found begins and ends between characters. -/
theorem boundary (h : Seeks S sign ends) (hspells : Spells sep sign) {a : α}
    (hrun : (S.run (utf8 line)).2 = some a) :
    Boundary line (ends a).1 ∧ Boundary line (ends a).2 := by
  obtain ⟨left, right, -, hleft, hright⟩ := h.cutPlain?_eq_some hspells hrun
  exact ⟨(boundary_of_slice? hleft).2, (boundary_of_slice? hright).1⟩

theorem cutPlain?_eq_none (h : Seeks S sign ends) (hspells : Spells sep sign)
    (hrun : (S.run (utf8 line)).2 = none) : cutPlain? sep line = none := by
  refine cutPlain?_eq_none_iff.mpr fun left right hcut => ?_
  obtain ⟨e, hsign, hquoted⟩ := h.exists_sign hspells hcut
  exact hquoted (h.quoted_of_eq_none hrun hsign)

end Seeks

theorem spells_remarkMark : Spells remarkMark MarkAt where
  cuts := by
    rintro line p e ⟨rfl, c, hc, hbyte⟩ hplace
    obtain ⟨left, right, rfl, rfl⟩ := exists_cut_of_getElem? hc.isAscii hbyte
    rw [placeAt_length] at hplace
    exact ⟨left, [c], right, rfl, rfl, length_utf8_concat hc.isAscii left, c :: right, rfl,
      List.cons_ne_nil c right, hplace, remarkMark_eq_some_iff.mpr ⟨c, hc, rfl⟩⟩
  signs := by
    rintro line left right ⟨t, rfl, -, -, hsep⟩
    obtain ⟨c, hc, rfl⟩ := remarkMark_eq_some_iff.mp hsep
    exact ⟨_, rfl, c, hc, getElem?_length hc.isAscii left right⟩

theorem previous?_utf8 (left t : List Char) :
    previous? (utf8 (left ++ t)) (utf8 left).length = (utf8 left).getLast? := by
  unfold previous?
  split
  · next hzero => rw [List.length_eq_zero_iff.mp hzero]; rfl
  · next hne =>
    rw [utf8_append, List.getElem?_append_left (by omega), List.getLast?_eq_getElem?]

theorem endsComparison_iff {b : UInt8} :
    endsComparison b = true ↔ ∃ c ∈ ['=', '!', '<', '>'], b = c.toUInt8 := by
  simp [endsComparison, or_assoc]

theorem isAscii_of_comparison {c : Char} (h : c ∈ ['=', '!', '<', '>']) : IsAscii c := by
  have hall : ∀ d ∈ ['=', '!', '<', '>'], IsAscii d := by decide
  exact hall c h

/-- A text's last byte belongs to a comparison if its last character does. -/
theorem endsComparison_getLast? (s : List Char) :
    (∀ b ∈ (utf8 s).getLast?, endsComparison b = false) ↔
      ∀ c ∈ s.getLast?, c ∉ ['=', '!', '<', '>'] := by
  constructor
  · intro h c hc hmem
    have hlast := (getLast?_utf8 (isAscii_of_comparison hmem) s).mpr hc
    exact absurd (endsComparison_iff.mpr ⟨c, hmem, rfl⟩) (by simp [h _ hlast])
  · intro h b hb
    refine Bool.eq_false_iff.mpr fun hends => ?_
    obtain ⟨c, hmem, rfl⟩ := endsComparison_iff.mp hends
    exact h c ((getLast?_utf8 (isAscii_of_comparison hmem) s).mp hb) hmem

theorem spells_assignment : Spells Declaration.assignment AssignmentAt where
  cuts := by
    intro line p e hsign hplace
    cases hsign with
    | colon hbyte hnext =>
      obtain ⟨left, t, rfl, rfl⟩ := exists_cut_of_getElem? (by decide) hbyte
      rw [getElem?_length_succ (by decide), head?_utf8 (by decide)] at hnext
      obtain ⟨right, rfl⟩ := List.head?_eq_some_iff.mp hnext
      rw [placeAt_length] at hplace
      refine ⟨left, [':', '='], right, rfl, rfl, ?_, ?_⟩
      · rw [List.append_cons, length_utf8_concat (by decide), length_utf8_concat (by decide)]
      · exact Declaration.cutsAt_assignment_iff.mpr (.colon (closed_iff_outside.mp hplace))
    | equals hbyte hbefore hnext =>
      obtain ⟨left, right, rfl, rfl⟩ := exists_cut_of_getElem? (by decide) hbyte
      rw [getElem?_length_succ (by decide), Ne, head?_utf8 (by decide)] at hnext
      rw [previous?_utf8, endsComparison_getLast?] at hbefore
      rw [placeAt_length] at hplace
      refine ⟨left, ['='], right, rfl, rfl, length_utf8_concat (by decide) left, ?_⟩
      exact Declaration.cutsAt_assignment_iff.mpr
        (.equals (closed_iff_outside.mp hplace) hbefore hnext)
  signs := by
    intro line left right hcut
    obtain hcolon | ⟨-, hbefore, hbehind⟩ := Declaration.cutsAt_assignment_iff.mp hcut
    · refine ⟨_, .colon (getElem?_length (by decide) left _) ?_⟩
      rw [getElem?_length_succ (by decide), head?_utf8 (by decide)]
      rfl
    · refine ⟨_, .equals (getElem?_length (by decide) left right) ?_ ?_⟩
      · rw [previous?_utf8, endsComparison_getLast?]
        exact hbefore
      · rw [getElem?_length_succ (by decide), Ne, head?_utf8 (by decide)]
        exact hbehind

/-- The search through bytes takes a remark off where the search through characters does. -/
theorem splitRemark?_eq (line : List Char) : splitRemark? line = some (splitRemark line) := by
  unfold splitRemark? splitRemark
  cases hrun : (remarkScanner.run (utf8 line)).2 with
  | none => rw [seeks_remarkScanner.cutPlain?_eq_none spells_remarkMark hrun]
  | some i =>
    obtain ⟨left, right, hcut, hleft, hright⟩ :=
      seeks_remarkScanner.cutPlain?_eq_some spells_remarkMark hrun
    simp [hcut, hleft, hright]

/-- The search through bytes finds the assignment that the search through characters finds. -/
theorem cutAssignment?_eq (text : List Char) :
    cutAssignment? text = some (cutPlain? Declaration.assignment text) := by
  unfold cutAssignment?
  cases hrun : (assignmentScanner.run (utf8 text)).2 with
  | none => rw [seeks_assignmentScanner.cutPlain?_eq_none spells_assignment hrun]
  | some a =>
    obtain ⟨left, right, hcut, hleft, hright⟩ :=
      seeks_assignmentScanner.cutPlain?_eq_some spells_assignment hrun
    simp only [id] at hleft hright
    simp [hcut, hleft, hright]

end Worksheet.Bytes
