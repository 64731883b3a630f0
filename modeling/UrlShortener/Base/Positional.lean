import Mathlib.Algebra.Order.Ring.Nat
import Mathlib.Data.List.Basic

/-!
# UrlShortener.Base.Positional

Numbers written with digits, the most significant one first. Of two numbers with equally many
digits the smaller one comes first in the lexicographic order of the digits (`value_lt_iff`).
-/

namespace UrlShortener
namespace Positional

variable {b : Nat} {ds es : List Nat}

/-- The number that the digits stand for. -/
def value (b : Nat) (ds : List Nat) : Nat := ds.foldl (fun v d => v * b + d) 0

@[simp] theorem value_nil (b : Nat) : value b [] = 0 := rfl

theorem value_concat (b : Nat) (ds : List Nat) (d : Nat) :
    value b (ds ++ [d]) = value b ds * b + d := by
  rw [value, List.foldl_concat]
  rfl

theorem foldl_eq (b v : Nat) (ds : List Nat) :
    ds.foldl (fun v d => v * b + d) v = v * b ^ ds.length + value b ds := by
  induction ds generalizing v with
  | nil => simp
  | cons d ds ih =>
    have hd := ih d
    rw [value, List.foldl_cons, List.foldl_cons, ih, Nat.zero_mul, Nat.zero_add, hd,
      List.length_cons, Nat.pow_succ, Nat.add_mul, Nat.mul_assoc, Nat.mul_comm b]
    omega

theorem value_cons (b d : Nat) (ds : List Nat) :
    value b (d :: ds) = d * b ^ ds.length + value b ds := by
  rw [value, List.foldl_cons, Nat.zero_mul, Nat.zero_add]
  exact foldl_eq b d ds

theorem value_lt (h : ∀ d ∈ ds, d < b) : value b ds < b ^ ds.length := by
  induction ds with
  | nil => simp
  | cons d ds ih =>
    have hd : d < b := h d List.mem_cons_self
    have hrest := ih fun e he => h e (List.mem_cons_of_mem d he)
    calc value b (d :: ds) = d * b ^ ds.length + value b ds := value_cons b d ds
      _ < d * b ^ ds.length + b ^ ds.length := Nat.add_lt_add_left hrest _
      _ = (d + 1) * b ^ ds.length := (Nat.succ_mul d _).symm
      _ ≤ b * b ^ ds.length := Nat.mul_le_mul_right _ hd
      _ = b ^ (ds.length + 1) := by rw [Nat.pow_succ, Nat.mul_comm]

theorem mul_add_lt_iff {m v w d e : Nat} (hv : v < m) (hw : w < m) :
    d * m + v < e * m + w ↔ d < e ∨ d = e ∧ v < w := by
  rcases Nat.lt_trichotomy d e with hlt | rfl | hgt
  · have hstep : d * m + m ≤ e * m := by
      rw [← Nat.succ_mul]
      exact Nat.mul_le_mul_right m hlt
    exact iff_of_true (by omega) (Or.inl hlt)
  · simp
  · have hstep : e * m + m ≤ d * m := by
      rw [← Nat.succ_mul]
      exact Nat.mul_le_mul_right m hgt
    refine iff_of_false (by omega) ?_
    rintro (hlt | ⟨rfl, -⟩)
    · exact Nat.lt_asymm hlt hgt
    · exact Nat.lt_irrefl _ hgt

/-- **Numeric order is lexicographic order**, for equally many digits. -/
theorem value_lt_iff (hlen : ds.length = es.length) (hds : ∀ d ∈ ds, d < b) (hes : ∀ d ∈ es, d < b) :
    value b ds < value b es ↔ ds < es := by
  induction ds generalizing es with
  | nil =>
    obtain rfl := List.length_eq_zero_iff.mp hlen.symm
    simp
  | cons d ds ih =>
    cases es with
    | nil => cases hlen
    | cons e es =>
      have hlen' : ds.length = es.length := Nat.succ.inj hlen
      have hds' : ∀ x ∈ ds, x < b := fun x hx => hds x (List.mem_cons_of_mem d hx)
      have hes' : ∀ x ∈ es, x < b := fun x hx => hes x (List.mem_cons_of_mem e hx)
      have hw : value b es < b ^ ds.length := hlen' ▸ value_lt hes'
      rw [value_cons, value_cons, ← hlen', mul_add_lt_iff (value_lt hds') hw, ih hlen' hds' hes',
        List.cons_lt_cons_iff]

end Positional
end UrlShortener
