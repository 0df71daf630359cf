import Mathlib.Data.List.Forall2
import Worksheet.Failure

/-!
# Computations that fail alike

Two computations that differ in how they write what they find, side by side: `FailAlike` relates them
if they fail with the same error or both end, with results that are related in turn. One step after
another keeps the relation, and so do runs over related lists.
-/

namespace Worksheet

variable {ε ε' α β γ δ : Type} {R : α → β → Prop} {S : γ → δ → Prop}

/-- Do two computations fail with the same error, or both end, with related results? -/
inductive FailAlike (R : α → β → Prop) : Except ε α → Except ε β → Prop where
  | error (e : ε) : FailAlike R (.error e) (.error e)
  | ok {a : α} {b : β} (h : R a b) : FailAlike R (.ok a) (.ok b)

namespace FailAlike

theorem refl {R : α → α → Prop} (hR : ∀ a, R a a) (x : Except ε α) : FailAlike R x x := by
  cases x with
  | error e => exact .error e
  | ok a => exact .ok (hR a)

theorem bind {x : Except ε α} {y : Except ε β} {f : α → Except ε γ} {g : β → Except ε δ}
    (hxy : FailAlike R x y) (hfg : ∀ a b, R a b → FailAlike S (f a) (g b)) :
    FailAlike S (x >>= f) (y >>= g) := by
  cases hxy with
  | error e => exact .error e
  | ok h => exact hfg _ _ h

theorem map {x : Except ε α} {y : Except ε β} {f : α → γ} {g : β → δ} (hxy : FailAlike R x y)
    (hfg : ∀ a b, R a b → S (f a) (g b)) : FailAlike S (x.map f) (y.map g) := by
  cases hxy with
  | error e => exact .error e
  | ok h => exact .ok (hfg _ _ h)

theorem mapError {x : Except ε α} {y : Except ε β} (hxy : FailAlike R x y) (f : ε → ε') :
    FailAlike R (x.mapError f) (y.mapError f) := by
  cases hxy with
  | error e => exact .error (f e)
  | ok h => exact .ok h

theorem mapM {f : α → Except ε γ} {g : β → Except ε δ} {as : List α} {bs : List β}
    (h : List.Forall₂ R as bs) (hfg : ∀ a b, R a b → FailAlike S (f a) (g b)) :
    FailAlike (List.Forall₂ S) (as.mapM f) (bs.mapM g) := by
  induction h with
  | nil => exact .ok .nil
  | cons hab _ ih =>
    rw [List.mapM_cons, List.mapM_cons]
    exact (hfg _ _ hab).bind fun _ _ hc => ih.bind fun _ _ hcs => .ok (.cons hc hcs)

theorem foldlM {f : γ → α → Except ε γ} {g : δ → β → Except ε δ} {as : List α} {bs : List β}
    (h : List.Forall₂ R as bs) (hfg : ∀ c d a b, S c d → R a b → FailAlike S (f c a) (g d b))
    {c : γ} {d : δ} (hcd : S c d) : FailAlike S (as.foldlM f c) (bs.foldlM g d) := by
  induction h generalizing c d with
  | nil => exact .ok hcd
  | cons hab _ ih =>
    rw [List.foldlM_cons, List.foldlM_cons]
    exact (hfg _ _ _ _ hcd hab).bind fun _ _ => ih

/-- Both runs over the same list. -/
theorem foldlM_self {f : γ → α → Except ε γ} {g : δ → α → Except ε δ}
    (hfg : ∀ c d a, S c d → FailAlike S (f c a) (g d a)) (as : List α) {c : γ} {d : δ}
    (hcd : S c d) : FailAlike S (as.foldlM f c) (as.foldlM g d) := by
  refine foldlM (List.forall₂_same.mpr fun _ _ => rfl) ?_ hcd
  rintro c d a _ h rfl
  exact hfg c d a h

theorem mapM_self {f : α → Except ε γ} {g : α → Except ε δ}
    (hfg : ∀ a, FailAlike S (f a) (g a)) (as : List α) :
    FailAlike (List.Forall₂ S) (as.mapM f) (as.mapM g) := by
  refine mapM (List.forall₂_same.mpr fun _ _ => rfl) ?_
  rintro a _ rfl
  exact hfg a

end FailAlike

end Worksheet
