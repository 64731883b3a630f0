import Mathlib.Data.List.Basic
import Mathlib.Algebra.Order.Ring.Nat
import Mathlib.Data.Nat.ModEq

/-!
# UrlShortener.Base.Ring

A list of cells used as a ring: after the last cell comes the first again. `window cells f k` shows
the `k` cells from place `f` on. A queue in a ring writes behind its window and reads at the start
of it.
-/

namespace UrlShortener
namespace Ring

variable {α : Type} {cells : List α} {f g k i : Nat} {x : α}

def window (cells : List α) : Nat → Nat → List (Option α)
  | _, 0 => []
  | f, k + 1 => cells[f % cells.length]? :: window cells (f + 1) k

theorem window_congr (h : f % cells.length = g % cells.length) :
    window cells f k = window cells g k := by
  induction k generalizing f g with
  | zero => rfl
  | succ k ih =>
    have hnext : (f + 1) % cells.length = (g + 1) % cells.length := by
      rw [Nat.add_mod, h, ← Nat.add_mod]
    rw [window, window, h, ih hnext]

theorem window_mod_succ : window cells (f % cells.length + 1) k = window cells (f + 1) k :=
  window_congr (by rw [Nat.add_mod, Nat.mod_mod, ← Nat.add_mod])

theorem window_concat :
    window cells f (k + 1) = window cells f k ++ [cells[(f + k) % cells.length]?] := by
  induction k generalizing f with
  | zero => rfl
  | succ k ih =>
    rw [window, ih, window, List.cons_append]
    have hplace : f + 1 + k = f + (k + 1) := by omega
    rw [hplace]

/-- Fewer places than cells are all different. -/
theorem mod_ne {n j l : Nat} (hj : j < l) (hl : l < n) : (f + j) % n ≠ (f + l) % n := by
  intro h
  have hgap : l = j + (l - j) := by omega
  rw [hgap, ← Nat.add_assoc] at h
  have hzero : (l - j) % n = 0 := by
    have hmod : (f + j + (l - j)) % n = (f + j + 0) % n := h.symm
    have hcancel := Nat.ModEq.add_left_cancel' (f + j) hmod
    exact Eq.trans hcancel (Nat.zero_mod n)
  rw [Nat.mod_eq_of_lt (by omega)] at hzero
  omega

theorem window_set_ne (h : ∀ j < k, (f + j) % cells.length ≠ i) :
    window (cells.set i x) f k = window cells f k := by
  induction k generalizing f with
  | zero => rfl
  | succ k ih =>
    have hrest : ∀ j < k, (f + 1 + j) % cells.length ≠ i := by
      intro j hj
      have hne := h (j + 1) (Nat.succ_lt_succ hj)
      have hplace : f + (j + 1) = f + 1 + j := by omega
      rwa [hplace] at hne
    have hhere : i ≠ f % cells.length := fun he => h 0 (Nat.succ_pos k) he.symm
    rw [window, window, ih hrest, List.length_set, List.getElem?_set_ne hhere]

/-- Writing behind the window extends it. -/
theorem window_push (h : k < cells.length) :
    window (cells.set ((f + k) % cells.length) x) f (k + 1) = window cells f k ++ [some x] := by
  have hlt : (f + k) % cells.length < cells.length := Nat.mod_lt _ (by omega)
  rw [window_concat, window_set_ne fun j hj => mod_ne hj h, List.length_set,
    List.getElem?_set_self hlt]

end Ring
end UrlShortener
