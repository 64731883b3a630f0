import Mathlib.Algebra.BigOperators.Group.List.Basic

/-!
# UrlShortener.Base.Sharded

An accumulator that is spread over shards. An event is added to one shard, and a reader adds up the
shards. What is read depends on the events only: neither on their shards nor on their order
(`total_run`, `total_run_perm`).
-/

namespace UrlShortener
namespace Sharded

variable {M E : Type} {k : Nat}

/-- `observe` in the shard of each event. -/
def run (observe : M → E → M) (shards : Fin k → M) (history : List (Fin k × E)) : Fin k → M :=
  history.foldl (fun s x i => if i = x.1 then observe (s i) x.2 else s i) shards

variable [AddCommMonoid M]

/-- The shards, added up in their order. -/
def total (shards : Fin k → M) : M := (List.finRange k).foldl (fun acc i => acc + shards i) 0

theorem foldl_add (f : Fin k → M) (a : M) (l : List (Fin k)) :
    l.foldl (fun acc i => acc + f i) a = a + (l.map f).sum := by
  induction l generalizing a with
  | nil => exact (add_zero a).symm
  | cons i l ih => rw [List.foldl_cons, ih, List.map_cons, List.sum_cons, add_assoc]

theorem sum_change (f : Fin k → M) (i : Fin k) (m : M) {l : List (Fin k)} (hl : l.Nodup)
    (hi : i ∈ l) : (l.map fun j => if j = i then f j + m else f j).sum = (l.map f).sum + m := by
  induction l with
  | nil => cases hi
  | cons j l ih =>
    obtain ⟨hj, hl⟩ := List.nodup_cons.mp hl
    rw [List.map_cons, List.sum_cons, List.map_cons, List.sum_cons]
    rcases List.mem_cons.mp hi with rfl | hi
    · have hsame : (l.map fun j => if j = i then f j + m else f j) = l.map f := by
        refine List.map_congr_left fun j' hj' => if_neg ?_
        rintro rfl
        exact hj hj'
      rw [if_pos rfl, hsame, add_assoc, add_comm m, ← add_assoc]
    · have hne : j ≠ i := by
        rintro rfl
        exact hj hi
      rw [if_neg hne, ih hl hi, add_assoc]

theorem total_change (s : Fin k → M) (i : Fin k) (m : M) :
    total (fun j => if j = i then s j + m else s j) = total s + m := by
  rw [total, total, foldl_add, foldl_add, zero_add, zero_add]
  exact sum_change s i m (List.nodup_finRange k) (List.mem_finRange i)

section Run

variable {observe : M → E → M} (hobserve : ∀ m e, observe m e = m + observe 0 e)

include hobserve

/-- **The total is that of the events.** -/
theorem total_run (s : Fin k → M) (h : List (Fin k × E)) :
    total (run observe s h) = total s + (h.map fun x => observe 0 x.2).sum := by
  induction h generalizing s with
  | nil => exact (add_zero _).symm
  | cons x h ih =>
    have hstep : (fun i => if i = x.1 then observe (s i) x.2 else s i) =
        fun i => if i = x.1 then s i + observe 0 x.2 else s i := by
      funext i
      rw [hobserve (s i)]
    show total (run observe (fun i => if i = x.1 then observe (s i) x.2 else s i) h) = _
    rw [ih, hstep, total_change, List.map_cons, List.sum_cons, add_assoc]

theorem total_run_perm (s : Fin k → M) {h h' : List (Fin k × E)}
    (hperm : (h.map Prod.snd).Perm (h'.map Prod.snd)) :
    total (run observe s h) = total (run observe s h') := by
  have hsum := (hperm.map (observe 0)).sum_eq
  rw [List.map_map, List.map_map] at hsum
  rw [total_run hobserve, total_run hobserve]
  exact congrArg (total s + ·) hsum

end Run

/-- What is added for some of the events. -/
theorem sum_ite (p : E → Bool) (one : M) (es : List E) :
    (es.map fun e => if p e then one else 0).sum = es.countP p • one := by
  induction es with
  | nil => exact (zero_nsmul one).symm
  | cons e es ih =>
    rw [List.map_cons, List.sum_cons, ih, List.countP_cons]
    cases p e with
    | true => exact (succ_nsmul' one _).symm
    | false => exact zero_add _

end Sharded
end UrlShortener
