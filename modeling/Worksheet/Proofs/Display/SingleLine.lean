import Worksheet.Display.Value
import Worksheet.Proofs.Text.Digits
import Worksheet.Proofs.Text.Parts

/-!
# The natural text of a value is one line

Numbers, dates and durations are written with digits and a few signs, texts inside a sequence are
quoted, and functions have names that are computed. So the natural text of a value has a line feed in
it for one reason only: the value is a text that has one.

* **`newline_not_mem_number`**, **`newline_not_mem_quoted`** — numbers and quoted texts.
* **`Value.UnitsKnown`** — the units that quantities are shown in are units of the table.
* **`newline_not_mem_render`**, **`newline_not_mem_renderItems`** — the natural text of a value, and
  what stands inside a sequence.
-/

namespace Worksheet

open Text

namespace Text

/-! ## Quoted texts -/

theorem newline_not_mem_quoteChar (c : Char) : '\n' ∉ quoteChar c := by
  by_cases hc : c = '\n'
  · rw [hc]
    decide
  · have hhex : '\n' ∉ showHex c.toNat := newline_not_mem_toDigits (by decide) _
    unfold quoteChar
    split
    case h_7 => split <;> simp [hhex, Ne.symm hc]
    all_goals decide

@[simp] theorem newline_not_mem_quoted (s : List Char) : '\n' ∉ quoted s := by
  simp [quoted, newline_not_mem_quoteChar]

end Text

namespace Decimal

/-! ## Reals -/

theorem newline_mem_signed {x : Float} {s : List Char} : '\n' ∈ signed x s ↔ '\n' ∈ s := by
  unfold signed
  split <;> simp

theorem newline_not_mem_placePoint (n places : Nat) : '\n' ∉ placePoint n places := by
  have hdigits := newline_not_mem_showPadded (places + 1) n
  unfold placePoint
  split
  · exact newline_not_mem_showNat n
  · intro h
    rcases List.mem_append.mp h with h | h
    · exact hdigits (List.mem_of_mem_take h)
    · rcases List.mem_cons.mp h with h | h
      · exact absurd h (by decide)
      · exact hdigits (List.mem_of_mem_drop h)

@[simp] theorem newline_not_mem_fixed (places : Nat) (x : Float) : '\n' ∉ fixed places x := by
  unfold fixed
  rw [newline_mem_signed]
  exact newline_not_mem_placePoint _ _

theorem newline_mem_pointAfterFirst {s : List Char} : '\n' ∈ pointAfterFirst s ↔ '\n' ∈ s := by
  unfold pointAfterFirst
  split <;> simp

@[simp] theorem newline_not_mem_scientificParts (places : Nat) (x : Float) :
    '\n' ∉ (scientificParts places x).1 := by
  unfold scientificParts
  dsimp only
  rw [newline_mem_signed, newline_mem_pointAfterFirst]
  exact newline_not_mem_showPadded _ _

end Decimal

namespace Display

theorem dropTrailing_subset (c : Char) (s : List Char) : dropTrailing c s ⊆ s := by
  intro x hx
  have hrest : x ∈ s.reverse.dropWhile (· == c) := List.mem_reverse.mp hx
  exact List.mem_reverse.mp ((List.dropWhile_suffix _).subset hrest)

theorem trimFraction_subset (s : List Char) : trimFraction s ⊆ s := by
  unfold trimFraction
  split
  · exact fun x hx => dropTrailing_subset '0' s (dropTrailing_subset '.' _ hx)
  · exact List.Subset.refl s

theorem not_mem_superscript {c : Char} (hc : c ∉ "⁻⁰¹²³⁴⁵⁶⁷⁸⁹".toList) (n : Int) : c ∉ superscript n := by
  have hdigit : ∀ d, superscriptDigit d ∈ "⁻⁰¹²³⁴⁵⁶⁷⁸⁹".toList := by
    intro d
    unfold superscriptDigit
    split <;> decide
  intro hmem
  rcases List.mem_append.mp hmem with hsign | hdigits
  · split at hsign
    · obtain rfl := List.mem_singleton.mp hsign
      exact hc (by decide)
    · cases hsign
  · obtain ⟨d, -, rfl⟩ := List.mem_map.mp hdigits
    exact hc (hdigit d)

theorem newline_mem_withPower {style : Style} {mantissa : List Char} {exponent : Int} :
    '\n' ∈ withPower style mantissa exponent ↔ '\n' ∈ mantissa := by
  unfold withPower
  split <;> simp [not_mem_superscript]

@[simp] theorem newline_not_mem_number (style : Style) (x : Float) : '\n' ∉ number style x := by
  unfold number
  split
  · decide
  · split
    · split <;> decide
    · split
      · decide
      · split
        · rw [newline_mem_withPower]
          exact fun h => Decimal.newline_not_mem_scientificParts _ x (trimFraction_subset _ h)
        · exact fun h => Decimal.newline_not_mem_fixed _ x (trimFraction_subset _ h)

end Display

/-! ## Values -/

theorem Fraction.newline_not_mem_text (f : Fraction) : '\n' ∉ f.text := by
  unfold Fraction.text
  split <;> simp

theorem Date.newline_not_mem_text (d : Date) : '\n' ∉ d.text := by
  have hyear : '\n' ∉ Date.yearText d.year := by
    unfold Date.yearText
    dsimp only
    split
    · simp
    · split <;> simp
  simp [Date.text, hyear]

theorem DateTime.newline_not_mem_text (t : DateTime) : '\n' ∉ t.text := by
  unfold DateTime.text
  split
  · exact t.date.newline_not_mem_text
  · split <;> simp [DateTime.clockText, t.date.newline_not_mem_text]

theorem Duration.newline_not_mem_brief (d : Duration) : '\n' ∉ d.brief := by
  have hdays : ∀ n, '\n' ∉ Duration.dayWords n := by
    intro n
    unfold Duration.dayWords
    split <;> simp
  have hfraction : ∀ n, '\n' ∉ Duration.fractionText n := by
    intro n
    unfold Duration.fractionText
    split <;> simp
  unfold Duration.brief Duration.text Duration.clockText
  dsimp only
  split
  · simp [hdays, hfraction]
  · split <;> simp [hdays, hfraction]

theorem Period.newline_not_mem_text (p : Period) : '\n' ∉ p.text := by
  have hcounted : ∀ n noun, '\n' ∉ noun.toList → '\n' ∉ Period.counted n noun := by
    intro n noun hnoun
    unfold Period.counted
    split <;> simp [hnoun]
  have hmonth := fun n => hcounted n "month" (by decide)
  have hyear := fun n => hcounted n "year" (by decide)
  unfold Period.text
  dsimp only
  split
  · split
    · simp [hmonth]
    · split <;> simp [hmonth, hyear]
  · split
    · simp [hmonth]
    · split <;> simp [hmonth, hyear]

theorem Closure.newline_not_mem_name (f : Closure) : '\n' ∉ f.name.toList := by
  have hhex := fun n : UInt64 => newline_not_mem_toDigits (show 1 < 16 by decide) n.toNat
  unfold Closure.name functionName
  simp [Digest.hexadecimal, hhex]

/-! ## Quantities -/

namespace MeasureUnit

/-- The symbols of the units that a worksheet knows. -/
def symbols : List String := table.map symbol

theorem newline_not_mem_symbol {u : String} (h : u ∈ symbols) : '\n' ∉ u.toList := by
  revert h
  simp only [symbols, table, List.map_cons, List.map_nil]
  revert u
  decide

end MeasureUnit

theorem Quantity.newline_not_mem_unitText {q : Quantity}
    (h : ∀ u, q.unit = some u → u ∈ MeasureUnit.symbols) : '\n' ∉ q.unitText.toList := by
  have hbase : ∀ u ∈ MeasureUnit.baseSymbols, '\n' ∉ u.toList := by decide
  unfold Quantity.unitText
  split
  · next u hu => exact MeasureUnit.newline_not_mem_symbol (h u hu)
  · dsimp only
    rw [String.toList_intercalate]
    intro h
    rcases mem_intercalate h with h | ⟨l, hl, h⟩
    · exact absurd h (by decide)
    · obtain ⟨part, hpart, rfl⟩ := List.mem_map.mp hl
      obtain ⟨⟨u, e⟩, hu, hpart⟩ := List.mem_filterMap.mp hpart
      have hsymbol := hbase u (List.of_mem_zip hu).1
      dsimp only at hpart
      split at hpart
      · cases hpart
      · split at hpart
        · cases hpart
          exact hsymbol h
        · cases hpart
          simp [hsymbol] at h

namespace Value

mutual
/-- Is every quantity shown in a unit that a worksheet knows? -/
def UnitsKnown : Value → Prop
  | .quantity q => ∀ u, q.unit = some u → u ∈ MeasureUnit.symbols
  | .sequence items => AllUnitsKnown items
  | _ => True

/-- `UnitsKnown` of every item. -/
def AllUnitsKnown : List Value → Prop
  | [] => True
  | v :: rest => UnitsKnown v ∧ AllUnitsKnown rest
end

end Value

namespace Display

/-- Texts are quoted inside a sequence. -/
theorem newline_not_mem_renderItem {style : Style} {v : Value}
    (h : (∀ t, v ≠ .text t) → '\n' ∉ render style v) : '\n' ∉ renderItem style v := by
  cases v with
  | text t => simp [renderItem]
  | _ =>
    have hrender := h fun t ht => by cases ht
    simpa only [renderItem] using hrender

mutual
theorem newline_not_mem_render (style : Style) : (v : Value) → v.UnitsKnown →
    (∀ t, v ≠ .text t) → '\n' ∉ render style v
  | .nothing, _, _ => by simp [render]
  | .bool true, _, _ => by simp [render]
  | .bool false, _, _ => by simp [render]
  | .int n, _, _ => by simp [render]
  | .real x, _, _ => by simp [render]
  | .rational f, _, _ => by simpa only [render] using f.newline_not_mem_text
  | .date d, _, _ => by simpa only [render] using d.newline_not_mem_text
  | .dateTime t, _, _ => by simpa only [render] using t.newline_not_mem_text
  | .duration d, _, _ => by simpa only [render] using d.newline_not_mem_brief
  | .period p, _, _ => by simpa only [render] using p.newline_not_mem_text
  | .text t, _, h => absurd rfl (h t)
  | .sequence items, hunits, _ => by
    have hitems := newline_not_mem_renderItems style items
      (by simpa only [Value.UnitsKnown] using hunits)
    simp [render, hitems]
  | .function f, _, _ => by simp [render, f.closure.newline_not_mem_name]
  | .quantity q, hunits, _ => by
    have hunit := Quantity.newline_not_mem_unitText (by simpa only [Value.UnitsKnown] using hunits)
    simp [render, hunit]

theorem newline_not_mem_renderItems (style : Style) : (vs : List Value) →
    Value.AllUnitsKnown vs → '\n' ∉ renderItems style vs
  | [], _ => by simp [renderItems]
  | [v], h => by
    simp only [Value.AllUnitsKnown] at h
    have hv := newline_not_mem_renderItem (newline_not_mem_render style v h.1)
    simp [renderItems, hv]
  | v :: w :: rest, h => by
    rw [Value.AllUnitsKnown] at h
    have hv := newline_not_mem_renderItem (newline_not_mem_render style v h.1)
    simp [renderItems, hv, newline_not_mem_renderItems style (w :: rest) h.2]
end

end Display

end Worksheet
