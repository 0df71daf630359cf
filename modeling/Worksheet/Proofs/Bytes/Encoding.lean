import Worksheet.Bytes
import Worksheet.Proofs.Text.Literal

/-!
# Characters and their bytes

What the loops over bytes look for are characters of one byte, and no byte of a longer character
looks like one of them. Therefore the loops may take a line apart without knowing its characters.

* **`encode_eq_or`** — a character is its only byte, or all of its bytes are beyond ASCII.
* **`exists_cut_of_getElem?`** — in front of a byte of ASCII a character begins.
* **`slice?_eq_some_iff`** — a slice can be taken between characters, and nowhere else.
* **`placeAt_length`** — the place of a byte, found by going through bytes, is the place of the
  character, found by going through characters.
-/

namespace Worksheet.Bytes

open Text

/-! ## Characters -/

/-- A character of one byte. -/
def IsAscii (c : Char) : Prop := c.toNat < 128

instance (c : Char) : Decidable (IsAscii c) := by unfold IsAscii; infer_instance

/-- A character is its only byte, or all of its bytes are beyond ASCII. -/
theorem encode_eq_or (c : Char) :
    (IsAscii c ∧ String.utf8EncodeChar c = [c.toUInt8]) ∨
      (¬ IsAscii c ∧ ∀ b ∈ String.utf8EncodeChar c, 128 ≤ b.toNat) := by
  have hval : c.val.toNat = c.toNat := rfl
  unfold IsAscii String.utf8EncodeChar
  dsimp only
  rw [hval]
  split
  · refine Or.inl ⟨by omega, ?_⟩
    rfl
  · refine Or.inr ⟨by omega, fun b hb => ?_⟩
    -- each byte is a mark of at least 128 and some bits of the character
    split at hb
    · simp only [List.mem_cons, List.not_mem_nil, or_false] at hb
      rcases hb with rfl | rfl <;> simp [UInt8.toNat_ofNat] <;> omega
    · split at hb
      · simp only [List.mem_cons, List.not_mem_nil, or_false] at hb
        rcases hb with rfl | rfl | rfl <;> simp [UInt8.toNat_ofNat] <;> omega
      · simp only [List.mem_cons, List.not_mem_nil, or_false] at hb
        rcases hb with rfl | rfl | rfl | rfl <;> simp [UInt8.toNat_ofNat] <;> omega

theorem IsAscii.encode_eq {c : Char} (hc : IsAscii c) :
    String.utf8EncodeChar c = [c.toUInt8] := by
  rcases encode_eq_or c with ⟨-, h⟩ | ⟨h, -⟩
  · exact h
  · exact absurd hc h

theorem toNat_toUInt8 {c : Char} (hc : IsAscii c) : c.toUInt8.toNat = c.toNat := by
  unfold IsAscii at hc
  show c.toNat % 256 = c.toNat
  omega

/-- Characters of one byte are told apart by it. -/
theorem toUInt8_inj {c d : Char} (hc : IsAscii c) (hd : IsAscii d) :
    c.toUInt8 = d.toUInt8 ↔ c = d := by
  constructor
  · intro h
    have hnat := congrArg UInt8.toNat h
    rw [toNat_toUInt8 hc, toNat_toUInt8 hd] at hnat
    exact Char.toNat_inj.mp hnat
  · rintro rfl
    rfl

/-- No byte beyond ASCII is a character. -/
theorem ne_toUInt8 {b : UInt8} (hb : 128 ≤ b.toNat) {c : Char} (hc : IsAscii c) :
    b ≠ c.toUInt8 := by
  rintro rfl
  rw [toNat_toUInt8 hc] at hb
  exact absurd hb (Nat.not_le_of_lt hc)

/-! ## Texts -/

@[simp] theorem utf8_nil : utf8 [] = [] := rfl

@[simp] theorem utf8_cons (c : Char) (s : List Char) :
    utf8 (c :: s) = String.utf8EncodeChar c ++ utf8 s := rfl

@[simp] theorem utf8_append (s t : List Char) : utf8 (s ++ t) = utf8 s ++ utf8 t :=
  List.flatMap_append

theorem utf8_eq_nil {s : List Char} (h : utf8 s = []) : s = [] := by
  cases s with
  | nil => rfl
  | cons c s =>
    rw [utf8_cons, List.append_eq_nil_iff] at h
    exact absurd h.1 String.utf8EncodeChar_ne_nil

/-- In front of a byte of ASCII a character begins, and the byte is all of it. -/
theorem exists_cut_of_getElem? {s : List Char} {p : Nat} {c : Char} (hc : IsAscii c)
    (h : (utf8 s)[p]? = some c.toUInt8) :
    ∃ left right, s = left ++ c :: right ∧ (utf8 left).length = p := by
  induction s generalizing p with
  | nil => cases h
  | cons d s ih =>
    rw [utf8_cons] at h
    by_cases hp : p < (String.utf8EncodeChar d).length
    · rw [List.getElem?_append_left hp] at h
      rcases encode_eq_or d with ⟨hd, hencode⟩ | ⟨-, hhigh⟩
      · -- the first character is the byte
        rw [hencode] at hp h
        obtain rfl : p = 0 := by simpa using hp
        obtain rfl := (toUInt8_inj hd hc).mp (Option.some.inj h)
        exact ⟨[], s, rfl, rfl⟩
      · exact absurd rfl (ne_toUInt8 (hhigh _ (List.mem_of_getElem? h)) hc)
    · rw [List.getElem?_append_right (Nat.le_of_not_lt hp)] at h
      obtain ⟨left, right, rfl, hlength⟩ := ih h
      refine ⟨d :: left, right, rfl, ?_⟩
      rw [utf8_cons, List.length_append, hlength]
      omega

theorem getElem?_length {c : Char} (hc : IsAscii c) (left right : List Char) :
    (utf8 (left ++ c :: right))[(utf8 left).length]? = some c.toUInt8 := by
  rw [utf8_append, List.getElem?_append_right (Nat.le_refl _), Nat.sub_self, utf8_cons,
    hc.encode_eq]
  rfl

theorem getElem?_length_succ {c : Char} (hc : IsAscii c) (left right : List Char) :
    (utf8 (left ++ c :: right))[(utf8 left).length + 1]? = (utf8 right).head? := by
  rw [utf8_append, List.getElem?_append_right (Nat.le_add_right _ 1), Nat.add_sub_cancel_left,
    utf8_cons, hc.encode_eq, List.head?_eq_getElem?]
  rfl

theorem length_utf8_cons (c : Char) (s : List Char) :
    (utf8 (c :: s)).length = c.utf8Size + (utf8 s).length := by
  rw [utf8_cons, List.length_append, String.length_utf8EncodeChar]

theorem length_utf8_concat {c : Char} (hc : IsAscii c) (left : List Char) :
    (utf8 (left ++ [c])).length = (utf8 left).length + 1 := by
  rw [utf8_append, utf8_cons, hc.encode_eq]
  simp

/-- Of two texts that a text begins with, the shorter one has fewer bytes. -/
theorem length_le_of_utf8 {left left' t t' : List Char} (heq : left ++ t = left' ++ t')
    (hle : (utf8 left).length ≤ (utf8 left').length) : left.length ≤ left'.length := by
  rcases List.append_eq_append_iff.mp heq with ⟨a, rfl, -⟩ | ⟨a, rfl, -⟩
  · simp
  · have ha : utf8 a = [] := by
      rw [utf8_append, List.length_append] at hle
      exact List.length_eq_zero_iff.mp (by omega)
    rw [utf8_eq_nil ha, List.append_nil]

theorem head?_utf8 {c : Char} (hc : IsAscii c) (s : List Char) :
    (utf8 s).head? = some c.toUInt8 ↔ s.head? = some c := by
  cases s with
  | nil => simp
  | cons d s =>
    rw [utf8_cons, List.head?_append, Option.or_of_isSome (by simp [String.utf8EncodeChar_ne_nil])]
    rcases encode_eq_or d with ⟨hd, hencode⟩ | ⟨hd, hhigh⟩
    · rw [hencode]
      simpa using toUInt8_inj hd hc
    · constructor
      · intro h
        exact absurd rfl (ne_toUInt8 (hhigh _ (List.mem_of_mem_head? h)) hc)
      · rintro ⟨⟩
        exact absurd hc hd

theorem getLast?_utf8 {c : Char} (hc : IsAscii c) (s : List Char) :
    (utf8 s).getLast? = some c.toUInt8 ↔ s.getLast? = some c := by
  rcases List.eq_nil_or_concat s with rfl | ⟨s, d, rfl⟩
  · simp
  · rw [List.concat_eq_append, utf8_append, utf8_cons, utf8_nil, List.append_nil,
      List.getLast?_append, Option.or_of_isSome (by simp [String.utf8EncodeChar_ne_nil]), List.getLast?_concat]
    rcases encode_eq_or d with ⟨hd, hencode⟩ | ⟨hd, hhigh⟩
    · rw [hencode]
      simpa using toUInt8_inj hd hc
    · constructor
      · intro h
        exact absurd rfl (ne_toUInt8 (hhigh _ (List.mem_of_getLast? h)) hc)
      · rintro ⟨⟩
        exact absurd hc hd

/-! ## Slices -/

/-- In front of the byte a character begins, or it is the end of the text. -/
def Boundary (s : List Char) (p : Nat) : Prop :=
  ∃ left right, s = left ++ right ∧ (utf8 left).length = p

theorem cutBytes?_eq_some_iff {s left right : List Char} {p : Nat} :
    cutBytes? p s = some (left, right) ↔ s = left ++ right ∧ (utf8 left).length = p := by
  fun_induction cutBytes? p s generalizing left with
  | case1 s =>
    constructor
    · rintro ⟨⟩
      exact ⟨rfl, rfl⟩
    · rintro ⟨rfl, hlength⟩
      obtain rfl := utf8_eq_nil (List.length_eq_zero_iff.mp hlength)
      rfl
  | case2 n =>
    constructor
    · rintro ⟨⟩
    · rintro ⟨heq, hlength⟩
      obtain ⟨rfl, rfl⟩ := List.append_eq_nil_iff.mp heq.symm
      cases hlength
  | case3 n c r hle ih =>
    rw [Option.map_eq_some_iff]
    constructor
    · rintro ⟨⟨left, right⟩, hcut, ⟨⟩⟩
      obtain ⟨rfl, hlength⟩ := ih.mp hcut
      refine ⟨rfl, ?_⟩
      rw [length_utf8_cons, hlength]
      omega
    · rintro ⟨heq, hlength⟩
      cases left with
      | nil => cases hlength
      | cons d left =>
        obtain ⟨rfl, rfl⟩ := List.cons.inj heq
        rw [length_utf8_cons] at hlength
        exact ⟨(left, right), ih.mpr ⟨rfl, by omega⟩, rfl⟩
  | case4 n c r hlt =>
    -- the cut would go through the first character
    constructor
    · rintro ⟨⟩
    · rintro ⟨heq, hlength⟩
      cases left with
      | nil => cases hlength
      | cons d left =>
        obtain ⟨rfl, rfl⟩ := List.cons.inj heq
        rw [length_utf8_cons] at hlength
        omega

/-- A slice can be taken between characters, and nowhere else. -/
theorem slice?_eq_some_iff {s t : List Char} {i j : Nat} :
    slice? s i j = some t ↔
      ∃ front back, s = front ++ t ++ back ∧ (utf8 front).length = i ∧
        (utf8 (front ++ t)).length = j := by
  unfold slice?
  constructor
  · intro h
    obtain ⟨⟨front, back⟩, hstop, h⟩ := Option.bind_eq_some_iff.mp h
    obtain ⟨⟨before, middle⟩, hstart, h⟩ := Option.bind_eq_some_iff.mp h
    cases h
    obtain ⟨rfl, hj⟩ := cutBytes?_eq_some_iff.mp hstop
    obtain ⟨rfl, hi⟩ := cutBytes?_eq_some_iff.mp hstart
    exact ⟨before, back, rfl, hi, hj⟩
  · rintro ⟨front, back, rfl, hi, hj⟩
    have hstop : cutBytes? j (front ++ t ++ back) = some (front ++ t, back) :=
      cutBytes?_eq_some_iff.mpr ⟨rfl, hj⟩
    have hstart : cutBytes? i (front ++ t) = some (front, t) :=
      cutBytes?_eq_some_iff.mpr ⟨rfl, hi⟩
    rw [hstop]
    show (cutBytes? i (front ++ t)).bind _ = some t
    rw [hstart]
    rfl

theorem boundary_of_slice? {s t : List Char} {i j : Nat} (h : slice? s i j = some t) :
    Boundary s i ∧ Boundary s j := by
  obtain ⟨front, back, rfl, hi, hj⟩ := slice?_eq_some_iff.mp h
  exact ⟨⟨front, t ++ back, List.append_assoc _ _ _, hi⟩, ⟨front ++ t, back, rfl, hj⟩⟩

/-! ## Places -/

/-- The place of the byte behind `b`. -/
def nextByte : Place → UInt8 → Place
  | .outside, b => if b == '"'.toUInt8 then .inside else .outside
  | .inside, b =>
    if b == '"'.toUInt8 then .outside else if b == '\\'.toUInt8 then .escaped else .inside
  | .escaped, _ => .inside

/-- The place of a byte. -/
def placeAt (bytes : List UInt8) (p : Nat) : Place := (bytes.take p).foldl nextByte .outside

theorem placeAt_succ {bytes : List UInt8} {p : Nat} {b : UInt8} (h : bytes[p]? = some b) :
    placeAt bytes (p + 1) = nextByte (placeAt bytes p) b := by
  rw [placeAt, List.take_add_one, h, List.foldl_append]
  rfl

theorem nextByte_toUInt8 {c : Char} (hc : IsAscii c) (place : Place) :
    nextByte place c.toUInt8 = place.next c := by
  have hquote : (c.toUInt8 == '"'.toUInt8) = (c == '"') :=
    Bool.eq_iff_iff.mpr (by simpa only [beq_iff_eq] using toUInt8_inj hc (by decide))
  have hescape : (c.toUInt8 == '\\'.toUInt8) = (c == '\\') :=
    Bool.eq_iff_iff.mpr (by simpa only [beq_iff_eq] using toUInt8_inj hc (by decide))
  cases place <;> simp only [nextByte, Place.next, hquote, hescape]

/-- A byte beyond ASCII opens nothing and closes nothing. -/
theorem nextByte_of_high {b : UInt8} (hb : 128 ≤ b.toNat) (place : Place) :
    nextByte place b = if place = .escaped then .inside else place := by
  have hquote : (b == '"'.toUInt8) = false := beq_eq_false_iff_ne.mpr (ne_toUInt8 hb (by decide))
  have hescape : (b == '\\'.toUInt8) = false := beq_eq_false_iff_ne.mpr (ne_toUInt8 hb (by decide))
  cases place <;> simp [nextByte, hquote, hescape]

theorem foldl_nextByte_of_high {bs : List UInt8} (hbs : ∀ b ∈ bs, 128 ≤ b.toNat) {place : Place}
    (hplace : place ≠ .escaped) : bs.foldl nextByte place = place := by
  induction bs with
  | nil => rfl
  | cons b bs ih =>
    rw [List.foldl_cons, nextByte_of_high (hbs b List.mem_cons_self), if_neg hplace]
    exact ih fun d hd => hbs d (List.mem_cons_of_mem b hd)

theorem next_of_not_isAscii {c : Char} (hc : ¬ IsAscii c) (place : Place) :
    place.next c = if place = .escaped then .inside else place := by
  have hquote : c ≠ '"' := by rintro rfl; exact hc (by decide)
  have hescape : c ≠ '\\' := by rintro rfl; exact hc (by decide)
  cases place <;> simp [Place.next, hquote, hescape]

/-- The bytes of a character lead where the character leads. -/
theorem foldl_nextByte_encode (place : Place) (c : Char) :
    (String.utf8EncodeChar c).foldl nextByte place = place.next c := by
  rcases encode_eq_or c with ⟨hc, hencode⟩ | ⟨hc, hhigh⟩
  · rw [hencode]
    exact nextByte_toUInt8 hc place
  · rw [next_of_not_isAscii hc]
    -- the first of the bytes is the one that may be escaped
    obtain ⟨b, bs, hencode⟩ := List.exists_cons_of_ne_nil String.utf8EncodeChar_ne_nil
    rw [hencode] at hhigh ⊢
    rw [List.foldl_cons, nextByte_of_high (hhigh b List.mem_cons_self)]
    refine foldl_nextByte_of_high (fun d hd => hhigh d (List.mem_cons_of_mem b hd)) ?_
    cases place <;> decide

theorem foldl_nextByte_utf8 (place : Place) (s : List Char) :
    (utf8 s).foldl nextByte place = place.behind s := by
  induction s generalizing place with
  | nil => rfl
  | cons c s ih =>
    rw [utf8_cons, List.foldl_append, foldl_nextByte_encode, ih]
    rfl

/-- The place of a byte in front of which a character begins is the place of the character. -/
theorem placeAt_length (left right : List Char) :
    placeAt (utf8 (left ++ right)) (utf8 left).length = Place.outside.behind left := by
  rw [placeAt, utf8_append, List.take_left, foldl_nextByte_utf8]

end Worksheet.Bytes
