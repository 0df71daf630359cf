import Worksheet.Proofs.Bytes.Scanners
import Worksheet.Proofs.Text.Class

/-!
# What the rewriting of a line leaves as it is

The rewriting of notation cuts a line into parts, of which every other one is a literal. Whether a
quote ends the literal is told from the number of backslashes in front of it. That is the place of
the quote in other words, so that the parts are what the searches for remarks and for assignments
take for literals.

* **`Copier.place_next`** — the number of backslashes keeps up with the place of the next byte.
* **`Tracks`**, **`Tracks.next`**, **`verbatim_iff_quoted`** — the parts that have ended are the
  literals so far, round by round and at the end.
* **`Stays`**, **`reaches_of_stays`** — through plain text, and through what stands between two
  quotes, the loop runs without cutting anything off.
* **`mapOutside?_eq`** — the slices of the parts, rewritten, are the rewritten text.
* **`scanners_agree`** — the headline: a byte is in a literal for one of the loops if it is for the
  others, and what the searches find is the first sign that the rewriting would not leave alone.
-/

namespace Worksheet.Bytes

open Text

/-! ## One byte -/

namespace Copier

/-- The place of the next byte, as far as the loop knows. -/
def place (s : Copier) : Place :=
  if s.inString then (if s.backslashes % 2 = 0 then .inside else .escaped) else .outside

theorem place_eq_outside_iff {s : Copier} : s.place = .outside ↔ s.inString = false := by
  unfold place
  split
  · next h => split <;> simp [h]
  · next h => simpa using h

/-- The number of backslashes keeps up with the place of the next byte. -/
theorem place_next (b : UInt8) (s : Copier) : (s.next b).place = nextByte s.place b := by
  have hne : '"'.toUInt8 ≠ '\\'.toUInt8 := by decide
  by_cases hstring : s.inString = true
  · -- between quotes, on what is known of the byte and of the backslashes in front of it
    rcases Nat.mod_two_eq_zero_or_one s.backslashes with hparity | hparity
    · by_cases hescape : b = '\\'.toUInt8
      · simp [next, place, hstring, hparity, nextByte, hescape, hne.symm, Nat.add_mod]
      · by_cases hquote : b = '"'.toUInt8
        · simp [next, place, hstring, hparity, nextByte, hquote, hne]
        · simp [next, place, hstring, hparity, nextByte, hquote, hescape]
    · by_cases hescape : b = '\\'.toUInt8
      · simp [next, place, hstring, hparity, nextByte, hescape, Nat.add_mod]
      · simp [next, place, hstring, hparity, nextByte, hescape]
  · by_cases hquote : b = '"'.toUInt8
    · simp [next, place, hstring, nextByte, hquote]
    · simp [next, place, hstring, nextByte, hquote]

/-- The state behind a quote that opens a literal. -/
def opened (s : Copier) : Copier :=
  ⟨⟨s.position + 1, true⟩, s.position, 0, s.segments ++ [⟨s.segmentStart, s.position, false⟩]⟩

/-- The state where a part that is no literal begins, and what has been cut off so far. -/
def fresh (position : Nat) (segments : List Segment) : Copier :=
  ⟨⟨position, false⟩, position, 0, segments⟩

/-- The state behind a quote that closes a literal. -/
def closed (s : Copier) : Copier :=
  fresh (s.position + 1) (s.segments ++ [⟨s.segmentStart, s.position + 1, true⟩])

/-- The state at another byte, where nothing has ended in between. -/
def moved (s : Copier) (position backslashes : Nat) : Copier :=
  { s with position := position, backslashes := backslashes }

/-- A byte opens a literal, closes it or does neither. -/
theorem next_cases (b : UInt8) (s : Copier) :
    (s.inString = false ∧ s.next b = s.opened) ∨ (s.inString = true ∧ s.next b = s.closed) ∨
      ∃ k, s.next b = s.moved (s.position + 1) k := by
  unfold next
  dsimp only
  split
  · next hstring =>
    split
    · exact Or.inr (Or.inr ⟨_, rfl⟩)
    · split
      · exact Or.inr (Or.inl ⟨hstring, rfl⟩)
      · exact Or.inr (Or.inr ⟨_, rfl⟩)
  · next hstring =>
    split
    · exact Or.inl ⟨by simpa using hstring, rfl⟩
    · exact Or.inr (Or.inr ⟨_, rfl⟩)

theorem next_quote {s : Copier} (hstring : s.inString = true) (heven : s.backslashes % 2 = 0) :
    s.next '"'.toUInt8 = s.closed := by
  have hne : '"'.toUInt8 ≠ '\\'.toUInt8 := by decide
  simp [next, closed, fresh, hstring, heven, hne]

end Copier

theorem copyScanner_passes {bytes : List UInt8} {s s' : Copier} :
    copyScanner.Passes bytes s s' ↔ ∃ b, bytes[s.position]? = some b ∧ s' = s.next b := by
  constructor
  · rintro ⟨b, hbyte, hstep⟩
    cases hstep
    exact ⟨b, hbyte, rfl⟩
  · rintro ⟨b, hbyte, rfl⟩
    exact ⟨b, hbyte, rfl⟩

/-! ## Parts -/

/-- One of the parts that stay as they are has the byte in it. -/
def Covers (segs : List Segment) (p : Nat) : Prop :=
  ∃ seg ∈ segs, seg.verbatim = true ∧ seg.start ≤ p ∧ p < seg.stop

/-- The byte is in a part of the line that stays as it is. -/
def Verbatim (bytes : List UInt8) (p : Nat) : Prop := Covers (segments bytes) p

theorem covers_concat {segs : List Segment} {seg : Segment} {p : Nat} :
    Covers (segs ++ [seg]) p ↔
      Covers segs p ∨ seg.verbatim = true ∧ seg.start ≤ p ∧ p < seg.stop := by
  simp [Covers, or_and_right, exists_or]

/-- What the loop keeps: the parts that have ended are the literals in front of the part that has
not, and that part is all literal or has none in it. -/
structure Tracks (bytes : List UInt8) (s : Copier) : Prop where
  position_le : s.position ≤ bytes.length
  start_le : s.segmentStart ≤ s.position
  place : placeAt bytes s.position = s.place
  ended (p : Nat) : Covers s.segments p ↔ p < s.segmentStart ∧ Quoted bytes p
  current {p : Nat} : s.segmentStart ≤ p → p < s.position → (Quoted bytes p ↔ s.inString = true)

section Tracks

variable {bytes : List UInt8} {s s' : Copier}

theorem tracks_start : Tracks bytes copyScanner.start where
  position_le := Nat.zero_le _
  start_le := Nat.le_refl _
  place := rfl
  ended p := by simp [Covers, copyScanner]
  current _ hlt := absurd hlt (Nat.not_lt_zero _)

/-- Behind an opening quote the part that has ended holds no literal. -/
theorem Tracks.opened (h : Tracks bytes s) (hle : s.position + 1 ≤ bytes.length)
    (hplace : placeAt bytes (s.position + 1) = s.opened.place) (hstring : s.inString = false) :
    Tracks bytes s.opened where
  position_le := hle
  start_le := Nat.le_succ _
  place := hplace
  ended p := by
    have hstart := h.start_le
    have hcurrent := @Tracks.current _ _ h p
    simp only [Copier.opened, covers_concat, h.ended, hstring, Bool.false_eq_true, iff_false]
      at hcurrent ⊢
    constructor
    · rintro (⟨hlt, hquoted⟩ | ⟨⟨⟩, -⟩)
      exact ⟨by omega, hquoted⟩
    · rintro ⟨hlt, hquoted⟩
      exact Or.inl ⟨Nat.lt_of_not_le fun hge => hcurrent hge hlt hquoted, hquoted⟩
  current {p} hp hp' := by
    obtain rfl : p = s.position := by simp only [Copier.opened] at hp hp'; omega
    refine iff_of_true (Or.inr ?_) rfl
    rw [hplace]
    simp [Copier.place, Copier.opened]

/-- Behind a closing quote the part that has ended is the literal with both of its quotes. -/
theorem Tracks.closed (h : Tracks bytes s) (hle : s.position + 1 ≤ bytes.length)
    (hplace : placeAt bytes (s.position + 1) = s.closed.place) (hstring : s.inString = true) :
    Tracks bytes s.closed where
  position_le := hle
  start_le := Nat.le_refl _
  place := hplace
  ended p := by
    have hstart := h.start_le
    have hquote : Quoted bytes s.position := by
      refine Or.inl ?_
      rw [h.place, Ne, Copier.place_eq_outside_iff, hstring]
      exact Bool.noConfusion
    have hcurrent := @Tracks.current _ _ h p
    simp only [Copier.closed, Copier.fresh, covers_concat, h.ended, hstring, iff_true, true_and]
      at hcurrent ⊢
    constructor
    · rintro (⟨hlt, hquoted⟩ | ⟨hge, hlt⟩)
      · exact ⟨by omega, hquoted⟩
      · obtain rfl | hlt' : p = s.position ∨ p < s.position := by omega
        · exact ⟨hlt, hquote⟩
        · exact ⟨hlt, hcurrent hge hlt'⟩
    · rintro ⟨hlt, hquoted⟩
      obtain hlt' | hge := Nat.lt_or_ge p s.segmentStart
      · exact Or.inl ⟨hlt', hquoted⟩
      · exact Or.inr ⟨hge, hlt⟩
  current {p} hp hp' := by
    simp only [Copier.closed, Copier.fresh] at hp hp'
    omega

/-- Behind another byte the part goes on, and is still all literal or has none in it. -/
theorem Tracks.moved (h : Tracks bytes s) {k : Nat} (hle : s.position + 1 ≤ bytes.length)
    (hplace : placeAt bytes (s.position + 1) = (s.moved (s.position + 1) k).place) :
    Tracks bytes (s.moved (s.position + 1) k) where
  position_le := hle
  start_le := Nat.le_succ_of_le h.start_le
  place := hplace
  ended := h.ended
  current {p} hp hp' := by
    obtain hlt | rfl : p < s.position ∨ p = s.position := by
      simp only [Copier.moved] at hp'
      omega
    · exact h.current hp hlt
    · rw [Quoted, hplace, h.place, Ne, Ne, Copier.place_eq_outside_iff,
        Copier.place_eq_outside_iff]
      simp [Copier.moved]

theorem Tracks.next (h : Tracks bytes s) (hround : copyScanner.Passes bytes s s') :
    Tracks bytes s' := by
  obtain ⟨b, hbyte, rfl⟩ := copyScanner_passes.mp hround
  have hle : s.position + 1 ≤ bytes.length := length_of_getElem? hbyte
  have hplace : placeAt bytes (s.position + 1) = (s.next b).place := by
    rw [placeAt_succ hbyte, h.place, Copier.place_next]
  obtain ⟨hstring, hnext⟩ | ⟨hstring, hnext⟩ | ⟨k, hnext⟩ := s.next_cases b <;>
    rw [hnext] at hplace ⊢
  · exact h.opened hle hplace hstring
  · exact h.closed hle hplace hstring
  · exact h.moved hle hplace

theorem tracks_of_reaches (h : copyScanner.Reaches bytes copyScanner.start s) : Tracks bytes s := by
  induction h with
  | refl => exact tracks_start
  | tail _ hround ih => exact ih.next hround

/-- The parts that stay as they are are the literals. -/
theorem verbatim_iff_quoted {p : Nat} (hp : p < bytes.length) :
    Verbatim bytes p ↔ Quoted bytes p := by
  obtain ⟨hreach, hends⟩ := copyScanner.reaches_runFrom bytes copyScanner.start
  rw [← Scanner.run] at hreach hends
  have h := tracks_of_reaches hreach
  unfold Verbatim segments Copier.finish
  generalize copyScanner.run bytes = last at h hends
  obtain ⟨s, _ | a⟩ := last
  · have hposition : s.position = bytes.length := Nat.le_antisymm h.position_le hends
    have hstart := h.start_le
    have hcurrent := @Tracks.current _ _ h p
    rw [hposition] at hstart hcurrent
    split
    · rw [covers_concat, h.ended]
      constructor
      · rintro (⟨-, hq⟩ | ⟨hstring, hge, hlt⟩)
        · exact hq
        · exact (hcurrent hge hlt).mpr hstring
      · intro hq
        obtain hlt | hge := Nat.lt_or_ge p s.segmentStart
        · exact Or.inl ⟨hlt, hq⟩
        · exact Or.inr ⟨(hcurrent hge hp).mp hq, hge, hp⟩
    · rw [h.ended]
      exact ⟨And.right, fun hq => ⟨by omega, hq⟩⟩
  · exact a.elim

end Tracks

/-! ## Runs -/

/-- None of the bytes opens a literal or closes one. -/
def Stays : Place → List UInt8 → Prop
  | _, [] => True
  | place, b :: bs =>
    (nextByte place b = .outside ↔ place = .outside) ∧ Stays (nextByte place b) bs

theorem Stays.append {place : Place} {bs bs' : List UInt8} (h : Stays place bs)
    (h' : Stays (bs.foldl nextByte place) bs') : Stays place (bs ++ bs') := by
  induction bs generalizing place with
  | nil => exact h'
  | cons b bs ih => exact ⟨h.1, ih h.2 h'⟩

theorem stays_of_high {bs : List UInt8} (hbs : ∀ b ∈ bs, 128 ≤ b.toNat) (place : Place) :
    Stays place bs := by
  induction bs generalizing place with
  | nil => trivial
  | cons b bs ih =>
    refine ⟨?_, ih (fun d hd => hbs d (List.mem_cons_of_mem b hd)) _⟩
    rw [nextByte_of_high (hbs b List.mem_cons_self)]
    cases place <;> simp

theorem stays_encode {place : Place} {c : Char}
    (h : place.next c = .outside ↔ place = .outside) : Stays place (String.utf8EncodeChar c) := by
  rcases encode_eq_or c with ⟨hc, hencode⟩ | ⟨-, hhigh⟩
  · rw [hencode]
    refine ⟨?_, trivial⟩
    rwa [nextByte_toUInt8 hc]
  · exact stays_of_high hhigh place

theorem Stays.cons {place : Place} {c : Char} {s : List Char}
    (hc : place.next c = .outside ↔ place = .outside) (hs : Stays (place.next c) (utf8 s)) :
    Stays place (utf8 (c :: s)) := by
  refine (stays_encode hc).append ?_
  rwa [foldl_nextByte_encode]

theorem stays_of_not_mem {s : List Char} (h : '"' ∉ s) : Stays .outside (utf8 s) := by
  induction s with
  | nil => trivial
  | cons c s ih =>
    obtain ⟨hc, hs⟩ : '"' ≠ c ∧ '"' ∉ s := by simpa using h
    have hnext : Place.outside.next c = .outside := by simp [Place.next, hc.symm]
    refine .cons (by simp [hnext]) ?_
    rw [hnext]
    exact ih hs

/-- Between its quotes, and up to the end of the text if it is not closed, a literal stays open. -/
theorem stays_of_literalBody {b : List Char} (h : LiteralBody b) {last : List Char}
    (hlast : last = [] ∨ last = ['\\']) : Stays .inside (utf8 (b ++ last)) := by
  induction h with
  | nil =>
    rcases hlast with rfl | rfl
    · trivial
    · exact .cons (by decide) trivial
  | @char c b hquote hescape hb ih =>
    have hnext : Place.inside.next c = .inside := by simp [Place.next, hquote, hescape]
    refine .cons (by simp [hnext]) ?_
    rw [hnext]
    exact ih
  | escape c hb ih => exact .cons (by decide) (.cons (by simp [Place.next]) ih)

section Runs

variable {bytes front back bs : List UInt8} {s : Copier}

/-- Through bytes that open nothing and close nothing the loop runs without cutting anything off. -/
theorem reaches_of_stays (hstays : Stays s.place bs) (hbytes : bytes = front ++ (bs ++ back))
    (hposition : s.position = front.length) :
    ∃ k, copyScanner.Reaches bytes s (s.moved (front.length + bs.length) k) ∧
      (s.moved (front.length + bs.length) k).place = bs.foldl nextByte s.place := by
  induction bs generalizing front s with
  | nil =>
    have hself : s.moved (front.length + 0) s.backslashes = s := by
      rw [Nat.add_zero, ← hposition]
      rfl
    exact ⟨s.backslashes, by rw [List.length_nil, hself], by rw [List.length_nil, hself]; rfl⟩
  | cons b bs ih =>
    obtain ⟨hstay, hrest⟩ := hstays
    rw [← Copier.place_next] at hstay hrest
    have hbyte : bytes[s.position]? = some b := by
      rw [hposition, hbytes, List.getElem?_append_right (Nat.le_refl _), Nat.sub_self]
      rfl
    obtain ⟨j, hnext⟩ : ∃ j, s.next b = s.moved (s.position + 1) j := by
      -- a quote that opens or closes a literal would not stay
      rw [Copier.place_eq_outside_iff, Copier.place_eq_outside_iff] at hstay
      obtain ⟨hstring, hnext⟩ | ⟨hstring, hnext⟩ | hmoved := s.next_cases b
      · simp [hnext, hstring, Copier.opened] at hstay
      · simp [hnext, hstring, Copier.closed, Copier.fresh] at hstay
      · exact hmoved
    have hround : copyScanner.Passes bytes s (s.next b) := copyScanner_passes.mpr ⟨b, hbyte, rfl⟩
    have hbytes' : bytes = (front ++ [b]) ++ (bs ++ back) := by rw [hbytes]; simp
    obtain ⟨k, hreach, hplace⟩ := ih hrest hbytes'
      (by rw [Copier.position_next, hposition, List.length_append, List.length_singleton])
    have hlength : (front ++ [b]).length + bs.length = front.length + (b :: bs).length := by
      simp only [List.length_append, List.length_cons, List.length_nil]
      omega
    have hmoved : (s.next b).moved ((front ++ [b]).length + bs.length) k
        = s.moved (front.length + (b :: bs).length) k := by
      rw [hnext, hlength]
      rfl
    rw [hmoved] at hreach hplace
    refine ⟨k, hreach.head hround, ?_⟩
    rw [hplace, Copier.place_next]
    rfl

variable {pre p l post : List Char} (done : List Segment)

/-- Through plain text, which is cut off, and the literal behind it, as long as that is open. -/
theorem reaches_opened {b : List Char} (hbytes : bytes = utf8 (pre ++ (p ++ '"' :: (b ++ post))))
    (hp : '"' ∉ p) (hb : Stays .inside (utf8 b)) :
    ∃ k, copyScanner.Reaches bytes (.fresh (utf8 pre).length done)
        ⟨⟨(utf8 (pre ++ (p ++ '"' :: b))).length, true⟩, (utf8 (pre ++ p)).length, k,
          done ++ [⟨(utf8 pre).length, (utf8 (pre ++ p)).length, false⟩]⟩ ∧
      (if k % 2 = 0 then Place.inside else .escaped) = Place.inside.behind b := by
  -- up to the opening quote
  have hbefore : bytes = utf8 pre ++ (utf8 p ++ utf8 ('"' :: (b ++ post))) := by
    rw [hbytes, utf8_append, utf8_append]
  obtain ⟨j, hplain, -⟩ := reaches_of_stays (s := .fresh (utf8 pre).length done)
    (stays_of_not_mem hp) hbefore rfl
  rw [← List.length_append, ← utf8_append] at hplain
  have hquote : copyScanner.Passes bytes
      ((Copier.fresh (utf8 pre).length done).moved (utf8 (pre ++ p)).length j)
      ((Copier.fresh (utf8 pre).length done).moved (utf8 (pre ++ p)).length j).opened := by
    have hget := getElem?_length (c := '"') (by decide) (pre ++ p) (b ++ post)
    rw [List.append_assoc, ← hbytes] at hget
    exact copyScanner_passes.mpr ⟨_, hget, rfl⟩
  -- and on from behind it
  have hbehind : bytes = utf8 (pre ++ p ++ ['"']) ++ (utf8 b ++ utf8 post) := by
    rw [hbytes, ← utf8_append, ← utf8_append]
    simp
  obtain ⟨k, hbody, hinside⟩ := reaches_of_stays
    (s := ((Copier.fresh (utf8 pre).length done).moved (utf8 (pre ++ p)).length j).opened)
    hb hbehind (by rw [length_utf8_concat (by decide)]; rfl)
  rw [← List.length_append, ← utf8_append, List.append_assoc, List.append_assoc] at hbody hinside
  rw [foldl_nextByte_utf8] at hinside
  exact ⟨k, (hplain.tail hquote).trans hbody, hinside⟩

/-- Through plain text and a literal, each of which is cut off. -/
theorem reaches_literal (hbytes : bytes = utf8 (pre ++ (p ++ (l ++ post)))) (hp : '"' ∉ p)
    (hl : IsLiteral l) :
    copyScanner.Reaches bytes (.fresh (utf8 pre).length done)
      (.fresh (utf8 (pre ++ p ++ l)).length
        (done ++ [⟨(utf8 pre).length, (utf8 (pre ++ p)).length, false⟩] ++
          [⟨(utf8 (pre ++ p)).length, (utf8 (pre ++ p ++ l)).length, true⟩])) := by
  obtain ⟨b, hb, rfl⟩ := hl
  have hstays : Stays .inside (utf8 b) := by
    simpa only [List.append_nil] using stays_of_literalBody hb (Or.inl rfl)
  have hbytes' : bytes = utf8 (pre ++ (p ++ '"' :: (b ++ '"' :: post))) := by rw [hbytes]; simp
  obtain ⟨k, hreach, hinside⟩ := reaches_opened done hbytes' hp hstays
  -- behind the body of a literal a quote is not escaped
  have heven : k % 2 = 0 := by
    rw [hb.behind] at hinside
    by_contra hodd
    rw [if_neg hodd] at hinside
    cases hinside
  have hbyte : bytes[(utf8 (pre ++ (p ++ '"' :: b))).length]? = some '"'.toUInt8 := by
    have hget := getElem?_length (c := '"') (by decide) (pre ++ (p ++ '"' :: b)) post
    rw [hbytes]
    simpa only [List.append_assoc, List.cons_append, List.nil_append] using hget
  have hlength : (utf8 (pre ++ p ++ '"' :: (b ++ ['"']))).length
      = (utf8 (pre ++ (p ++ '"' :: b))).length + 1 := by
    rw [← length_utf8_concat (c := '"') (by decide)]
    simp only [List.append_assoc, List.cons_append]
  have hquote := Copier.next_quote (s := ⟨⟨(utf8 (pre ++ (p ++ '"' :: b))).length, true⟩,
    (utf8 (pre ++ p)).length, k, done ++ [⟨(utf8 pre).length, (utf8 (pre ++ p)).length, false⟩]⟩)
    rfl heven
  rw [hlength]
  exact hreach.tail (copyScanner_passes.mpr ⟨_, hbyte, hquote.symm⟩)

/-- Through plain text, which is cut off, and a literal that the text ends in. -/
theorem reaches_unclosed (hbytes : bytes = utf8 (pre ++ (p ++ l))) (hp : '"' ∉ p)
    (hl : IsUnclosed l) :
    ∃ k, copyScanner.Reaches bytes (.fresh (utf8 pre).length done)
      ⟨⟨(utf8 (pre ++ p ++ l)).length, true⟩, (utf8 (pre ++ p)).length, k,
        done ++ [⟨(utf8 pre).length, (utf8 (pre ++ p)).length, false⟩]⟩ := by
  obtain ⟨b, last, hb, hlast, rfl⟩ : ∃ b last, LiteralBody b ∧ (last = [] ∨ last = ['\\']) ∧
      l = '"' :: (b ++ last) := by
    obtain ⟨b, hb, rfl | rfl⟩ := hl
    · exact ⟨b, [], hb, Or.inl rfl, by rw [List.append_nil]⟩
    · exact ⟨b, ['\\'], hb, Or.inr rfl, rfl⟩
  have hbytes' : bytes = utf8 (pre ++ (p ++ '"' :: (b ++ last ++ []))) := by
    rw [hbytes, List.append_nil]
  obtain ⟨k, hreach, -⟩ := reaches_opened done hbytes' hp (stays_of_literalBody hb hlast)
  rw [← List.append_assoc] at hreach
  exact ⟨k, hreach⟩

end Runs

/-! ## The rewritten text -/

section Copied

variable {f : List Char → List Char} {line pre t post : List Char} {segs : List Segment}

theorem slice?_of_append (hline : line = pre ++ (t ++ post)) :
    slice? line (utf8 pre).length (utf8 (pre ++ t)).length = some t :=
  slice?_eq_some_iff.mpr ⟨pre, post, by rw [hline, List.append_assoc], rfl, rfl⟩

theorem copy?_cons {rest : List Char} (verbatim : Bool) (hline : line = pre ++ (t ++ post))
    (hrest : copy? f line segs = some rest) :
    copy? f line (⟨(utf8 pre).length, (utf8 (pre ++ t)).length, verbatim⟩ :: segs)
      = some ((if verbatim then t else f t) ++ rest) := by
  rw [copy?, Segment.copy?, slice?_of_append hline, hrest]
  rfl

/-- A plain stretch at the end of the text is cut off as the last part, or is empty and no part. -/
theorem exists_copy_plain {p : List Char} (hp : '"' ∉ p) (hnil : f [] = []) (done : List Segment)
    (hline : line = pre ++ p) :
    ∃ segs, (copyScanner.runFrom (utf8 line) (.fresh (utf8 pre).length done)).1.finish (utf8 line)
        = done ++ segs ∧
      copy? f line segs = some (f p) := by
  have hbytes : utf8 line = utf8 pre ++ (utf8 p ++ []) := by
    rw [hline, List.append_nil, utf8_append]
  obtain ⟨k, hreach, -⟩ := reaches_of_stays (s := .fresh (utf8 pre).length done)
    (stays_of_not_mem hp) hbytes rfl
  rw [← List.length_append, ← utf8_append, ← hline] at hreach
  rw [Scanner.Reaches.runFrom_eq hreach, Scanner.runFrom_of_length_le (Nat.le_refl _)]
  change ∃ segs, (if (utf8 pre).length < (utf8 line).length then
    done ++ [⟨(utf8 pre).length, (utf8 line).length, false⟩] else done) = done ++ segs ∧
      copy? f line segs = some (f p)
  split
  · have hparts : line = pre ++ (p ++ []) := by rw [hline, List.append_nil]
    have hnone : copy? f line [] = some [] := rfl
    have hcopy := copy?_cons false hparts hnone
    rw [← hline, List.append_nil] at hcopy
    exact ⟨_, rfl, hcopy⟩
  · next hlt =>
    -- there is no part without a byte
    have hempty : utf8 p = [] := by
      rw [hline, utf8_append, List.length_append] at hlt
      exact List.length_eq_zero_iff.mp (by omega)
    obtain rfl := utf8_eq_nil hempty
    exact ⟨[], (List.append_nil _).symm, by rw [hnil]; rfl⟩

/-- A literal that the text ends in is cut off as the last part. -/
theorem exists_copy_unclosed {p l : List Char} (hp : '"' ∉ p) (hl : IsUnclosed l)
    (done : List Segment) (hline : line = pre ++ (p ++ l)) :
    ∃ segs, (copyScanner.runFrom (utf8 line) (.fresh (utf8 pre).length done)).1.finish (utf8 line)
        = done ++ segs ∧
      copy? f line segs = some (f p ++ l) := by
  have hbytes : utf8 line = utf8 (pre ++ (p ++ l)) := by rw [hline]
  have hlength : (utf8 line).length = (utf8 (pre ++ p ++ l)).length := by
    rw [hbytes, List.append_assoc]
  obtain ⟨k, hreach⟩ := reaches_unclosed done hbytes hp hl
  rw [Scanner.Reaches.runFrom_eq hreach, Scanner.runFrom_of_length_le (Nat.le_of_eq hlength)]
  -- the literal is not empty, and thus the last part
  have hlt : (utf8 (pre ++ p)).length < (utf8 (pre ++ p ++ l)).length := by
    have hne : utf8 l ≠ [] := by
      intro hempty
      obtain ⟨b, -, rfl | rfl⟩ := hl <;> cases utf8_eq_nil hempty
    have hpos := List.length_pos_iff.mpr hne
    rw [utf8_append (pre ++ p), List.length_append]
    omega
  have hparts : line = (pre ++ p) ++ (l ++ []) := by rw [hline, List.append_nil, List.append_assoc]
  have hnone : copy? f line [] = some [] := rfl
  have hliteral := copy?_cons true hparts hnone
  have hplain := copy?_cons false hline hliteral
  rw [if_pos rfl, List.append_nil] at hplain
  refine ⟨_, (if_pos (by rw [hlength]; exact hlt)).trans (List.append_assoc _ _ _), ?_⟩
  rw [hlength]
  exact hplain

/-- From the beginning of a plain stretch on, the loop cuts off the stretches and the literals of
the text that is left. -/
theorem exists_copy {ss ls : List (List Char)} (hcut : Cut ss ls) (hnil : f [] = [])
    (done : List Segment) (hline : line = pre ++ weave ss ls) :
    ∃ segs, (copyScanner.runFrom (utf8 line) (.fresh (utf8 pre).length done)).1.finish (utf8 line)
        = done ++ segs ∧
      copy? f line segs = some (mapPlain f (weave ss ls)) := by
  induction hcut generalizing pre done with
  | @plain p hp =>
    change line = pre ++ p at hline
    change ∃ segs, _ ∧ copy? f line segs = some (mapPlain f p)
    rw [mapPlain_of_not_mem f hp]
    exact exists_copy_plain hp hnil done hline
  | @literal p l ss ls hp hl hrest ih =>
    change line = pre ++ (p ++ (l ++ weave ss ls)) at hline
    have hline' : line = (pre ++ p ++ l) ++ weave ss ls := by rw [hline]; simp
    have hreach := reaches_literal done (congrArg utf8 hline) hp hl
    rw [Scanner.Reaches.runFrom_eq hreach]
    -- the stretch and the literal are two parts in front of those that the rest is cut into
    obtain ⟨segs, hfinish, hcopy⟩ := ih (_ ++ _) hline'
    have hparts : line = (pre ++ p) ++ (l ++ weave ss ls) := by rw [hline', List.append_assoc]
    have hliteral := copy?_cons true hparts hcopy
    have hplain := copy?_cons false hline hliteral
    rw [weave, mapPlain_append_literal f hp hl]
    refine ⟨_, hfinish.trans ?_, hplain⟩
    rw [List.append_assoc, List.append_assoc]
    rfl
  | @unclosed p l hp hl =>
    have htext : weave [p, []] [l] = p ++ l := congrArg (p ++ ·) (List.append_nil l)
    rw [htext] at hline ⊢
    rw [mapPlain_append_unclosed f hp hl, hnil, List.append_nil]
    exact exists_copy_unclosed hp hl done hline

/-- The slices of the parts, rewritten, are the rewritten text. Behind a literal that ends the line
there is no part, and so the empty text must be left alone. -/
theorem mapOutside?_eq (hnil : f [] = []) (line : List Char) :
    mapOutside? f line = some (mapPlain f line) := by
  obtain ⟨ss, ls, hcut, rfl⟩ := exists_cut line
  have hline : weave ss ls = [] ++ weave ss ls := rfl
  obtain ⟨segs, hfinish, hcopy⟩ := exists_copy hcut hnil [] hline
  unfold mapOutside? segments
  rw [List.nil_append] at hfinish
  rw [← hfinish] at hcopy
  exact hcopy

end Copied

theorem boundary_of_copy? {f : List Char → List Char} {line t : List Char} {segs : List Segment}
    (h : copy? f line segs = some t) :
    ∀ seg ∈ segs, Boundary line seg.start ∧ Boundary line seg.stop := by
  induction segs generalizing t with
  | nil => exact fun _ hmem => absurd hmem List.not_mem_nil
  | cons seg segs ih =>
    obtain ⟨part, hpart, h⟩ := Option.bind_eq_some_iff.mp h
    obtain ⟨rest, hrest, -⟩ := Option.bind_eq_some_iff.mp h
    obtain ⟨slice, hslice, -⟩ := Option.map_eq_some_iff.mp hpart
    exact List.forall_mem_cons.mpr ⟨boundary_of_slice? hslice, ih hrest⟩

/-! ## Remarks of expressions -/

/-- A mark outside of literals is still one if text stands around it. -/
theorem cutsAt_remarkMark_append {front s left right : List Char} (hfront : Closed front)
    (h : CutsAt remarkMark .outside none s left right) (back : List Char) :
    CutsAt remarkMark .outside none (front ++ (s ++ back)) (front ++ left) (right ++ back) := by
  obtain ⟨t, rfl, -, hplace, hsep⟩ := h
  obtain ⟨c, hc, rfl⟩ := remarkMark_eq_some_iff.mp hsep
  refine ⟨c :: (right ++ back), by simp, List.cons_ne_nil _ _, ?_, ?_⟩
  · rw [Place.behind_append, hfront]
    exact hplace
  · exact remarkMark_eq_some_iff.mpr ⟨c, hc, rfl⟩

theorem splitRemark_trim {s : List Char}
    (h : ∀ left right, ¬ CutsAt remarkMark .outside none s left right) :
    splitRemark (trim s) = (trim s, []) := by
  obtain ⟨front, back, hblank, hs⟩ := exists_trim s
  have hfront : Closed front := by
    refine closed_of_not_mem fun hmem => ?_
    exact absurd (hblank _ hmem) (by decide)
  have hnone : cutPlain? remarkMark (trim s) = none := by
    refine cutPlain?_eq_none_iff.mpr fun left right hcut => ?_
    have hcut' := cutsAt_remarkMark_append hfront hcut back
    rw [← hs] at hcut'
    exact h _ _ hcut'
  rw [splitRemark, hnone, trim_trim]

/-- In the expression in front of a remark there is no other one. -/
theorem splitRemark_fst (line : List Char) :
    splitRemark (splitRemark line).1 = ((splitRemark line).1, []) := by
  cases hcut : cutPlain? remarkMark line with
  | none =>
    have hline : (splitRemark line).1 = trim line := by rw [splitRemark, hcut]
    rw [hline]
    exact splitRemark_trim (cutPlain?_eq_none_iff.mp hcut)
  | some p =>
    obtain ⟨expr, remark⟩ := p
    have hline : (splitRemark line).1 = trim expr := by rw [splitRemark, hcut]
    rw [hline]
    -- a mark in the expression would be further to the left
    refine splitRemark_trim fun left right hexpr => ?_
    obtain ⟨⟨t, rfl, -⟩, hmin⟩ := cutPlain?_eq_some_iff.mp hcut
    have hempty : Closed [] := rfl
    have hle := hmin _ _ (cutsAt_remarkMark_append hempty hexpr t)
    obtain ⟨d, rfl, hne, -⟩ := hexpr
    have hpos := List.length_pos_iff.mpr hne
    rw [List.nil_append, List.length_append] at hle
    omega

/-! ## The agreement -/

/-- **The loops agree about literals.** Up to what they find, the searches for a remark and for an
assignment are in a literal where the rewriting leaves a byte as it is, and what they find is the
first sign that it would not leave. The line is cut between characters only, and thus into what it
is cut into character by character. In an expression no second remark is found, and the rewriting
that changes nothing gives the line. -/
theorem scanners_agree (line : List Char) :
    (∀ p < (utf8 line).length,
      ((∀ i ∈ (remarkScanner.run (utf8 line)).2, p < i) →
        (remarkScanner.InLiteral (utf8 line) p ↔ Verbatim (utf8 line) p)) ∧
      ((∀ a ∈ (assignmentScanner.run (utf8 line)).2, p < a.1) →
        (assignmentScanner.InLiteral (utf8 line) p ↔ Verbatim (utf8 line) p))) ∧
    (∀ i, (remarkScanner.run (utf8 line)).2 = some i ↔
      FirstSign MarkAt (utf8 line) (Verbatim (utf8 line)) i (i + 1)) ∧
    (∀ i j, (assignmentScanner.run (utf8 line)).2 = some (i, j) ↔
      FirstSign AssignmentAt (utf8 line) (Verbatim (utf8 line)) i j) ∧
    (∀ i ∈ (remarkScanner.run (utf8 line)).2, Boundary line i ∧ Boundary line (i + 1)) ∧
    (∀ a ∈ (assignmentScanner.run (utf8 line)).2, Boundary line a.1 ∧ Boundary line a.2) ∧
    (∀ seg ∈ segments (utf8 line), Boundary line seg.start ∧ Boundary line seg.stop) ∧
    splitRemark? line = some (splitRemark line) ∧
    cutAssignment? line = some (cutPlain? Declaration.assignment line) ∧
    (∀ f, f [] = [] → mapOutside? f line = some (mapPlain f line)) ∧
    splitRemark (splitRemark line).1 = ((splitRemark line).1, []) ∧
    mapOutside? (fun s => s) line = some line := by
  have hid : mapOutside? (fun s => s) line = some line := by rw [mapOutside?_eq rfl, mapPlain_id]
  refine ⟨fun p hp => ⟨fun hbefore => ?_, fun hbefore => ?_⟩, fun i => ?_, fun i j => ?_,
    fun i hi => seeks_remarkScanner.boundary spells_remarkMark hi,
    fun a ha => seeks_assignmentScanner.boundary spells_assignment ha, boundary_of_copy? hid,
    splitRemark?_eq line, cutAssignment?_eq line, fun f hnil => mapOutside?_eq hnil line,
    splitRemark_fst line, hid⟩
  · rw [verbatim_iff_quoted hp]
    exact seeks_remarkScanner.inLiteral_iff_quoted (seeks_remarkScanner.lt_stopsAt hp hbefore)
  · rw [verbatim_iff_quoted hp]
    exact seeks_assignmentScanner.inLiteral_iff_quoted
      (seeks_assignmentScanner.lt_stopsAt hp hbefore)
  · exact seeks_remarkScanner.run_eq_some_iff.trans
      (seeks_remarkScanner.firstSign_congr fun _ => verbatim_iff_quoted).symm
  · exact seeks_assignmentScanner.run_eq_some_iff.trans
      (seeks_assignmentScanner.firstSign_congr fun _ => verbatim_iff_quoted).symm

/-- A literal with a character of two bytes, an escaped backslash and an escaped quote, and a mark
in it that sets off no remark. -/
theorem scanners_agree_escaped :
    12 < (utf8 "x := \"é\\\\\\\";\"yz ; w".toList).length ∧
    (∀ i ∈ (remarkScanner.run (utf8 "x := \"é\\\\\\\";\"yz ; w".toList)).2, 12 < i) ∧
    remarkScanner.InLiteral (utf8 "x := \"é\\\\\\\";\"yz ; w".toList) 12 ∧
    List.reverse ([] : List Char) = [] ∧
    mapOutside? List.reverse "x := \"é\\\\\\\";\"yz ; w".toList
      = some " =: x\"é\\\\\\\";\"w ; zy".toList := by
  obtain ⟨hagree, -, -, -, -, -, -, -, hmap, -, -⟩ :=
    scanners_agree "x := \"é\\\\\\\";\"yz ; w".toList
  have hlength : 12 < (utf8 "x := \"é\\\\\\\";\"yz ; w".toList).length := by decide
  have hbefore : ∀ i ∈ (remarkScanner.run (utf8 "x := \"é\\\\\\\";\"yz ; w".toList)).2, 12 < i := by
    decide +kernel
  have hverbatim : Verbatim (utf8 "x := \"é\\\\\\\";\"yz ; w".toList) 12 := by
    unfold Verbatim Covers
    decide +kernel
  refine ⟨hlength, hbefore, ((hagree 12 hlength).1 hbefore).mpr hverbatim, rfl, ?_⟩
  rw [hmap List.reverse rfl]
  decide +kernel

end Worksheet.Bytes
