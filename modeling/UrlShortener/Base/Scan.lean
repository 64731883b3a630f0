import UrlShortener.Base.Machine
import UrlShortener.Base.Sharded

/-!
# UrlShortener.Base.Scan

Readers of a sharded accumulator while events go on. A reader adds up one shard at a time, so what it
gets need not be the total of any moment. `Reach.sum_eq` says what it gets: everything from before
it began and some of what came while it was reading. `Reach.counted` compares two readers of which
one began when the other was done.
-/

namespace UrlShortener
namespace Sharded

variable {M E : Type} {k : Nat}

/-- A reader on its way through the shards. `before` is what had happened when it began, `during`
what has happened since, with a mark on what is in `sum`. -/
structure Scan (M E : Type) (k : Nat) where
  next : Nat := 0
  sum : M
  before : List (Fin k × E)
  during : List (Bool × (Fin k × E)) := []

namespace Scan

variable (c : Scan M E k)

def heard : List (Fin k × E) := c.during.map Prod.snd

/-- What was counted of the events that came while reading. -/
def seen : List (Fin k × E) := (c.during.filter Prod.fst).map Prod.snd

def counted : List (Fin k × E) := c.before ++ c.seen

def hear (x : Fin k × E) : Scan M E k :=
  if c.next < k then { c with during := c.during ++ [(false, x)] } else c

def visit [Add M] (shards : Fin k → M) : Option (Scan M E k) :=
  if h : c.next < k then
    some
      { c with
        next := c.next + 1
        sum := c.sum + shards ⟨c.next, h⟩
        during := c.during.map fun y => (y.1 || decide (y.2.1.val = c.next), y.2) }
  else none

end Scan

/-- Shards under traffic: with all events so far, and with their readers. -/
structure Traffic (M E : Type) (k : Nat) where
  shards : Fin k → M
  history : List (Fin k × E) := []
  scans : List (Scan M E k) := []

inductive Act (E : Type) (k : Nat) where
  | event (i : Fin k) (e : E)
  | enter
  | visit (t : Nat)

def Traffic.step [AddCommMonoid M] (observe : M → E → M) (s : Traffic M E k) :
    Act E k → Option (Traffic M E k)
  | .event i e => some
      { shards := fun j => if j = i then observe (s.shards j) e else s.shards j
        history := s.history ++ [(i, e)]
        scans := s.scans.map (Scan.hear · (i, e)) }
  | .enter => some { s with scans := s.scans ++ [{ sum := 0, before := s.history }] }
  | .visit t => do
      let c ← s.scans[t]?
      let c ← c.visit s.shards
      return { s with scans := s.scans.set t c }

/-! ## What events are worth -/

section Worth

variable [AddCommMonoid M] (observe : M → E → M)

/-- What the events add up to. -/
def worth (xs : List (Fin k × E)) : M := (xs.map fun x => observe 0 x.2).sum

variable {observe}

theorem worth_append (xs ys : List (Fin k × E)) :
    worth observe (xs ++ ys) = worth observe xs + worth observe ys := by
  rw [worth, List.map_append, List.sum_append, worth, worth]

theorem worth_cons (x : Fin k × E) (xs : List (Fin k × E)) :
    worth observe (x :: xs) = observe 0 x.2 + worth observe xs := by
  rw [worth, List.map_cons, List.sum_cons, worth]

theorem worth_single (x : Fin k × E) : worth observe [x] = observe 0 x.2 := by
  rw [worth, List.map_singleton, List.sum_singleton]

/-- The events of the shard behind the first `n`. -/
theorem worth_filter_succ (xs : List (Fin k × E)) (n : Nat) :
    worth observe (xs.filter fun x => decide (x.1.val < n + 1)) =
      worth observe (xs.filter fun x => decide (x.1.val < n)) +
        worth observe (xs.filter fun x => decide (x.1.val = n)) := by
  induction xs with
  | nil => exact (add_zero _).symm
  | cons x xs ih =>
    rcases Nat.lt_trichotomy x.1.val n with hlt | heq | hgt
    · rw [List.filter_cons_of_pos (by simp; omega), List.filter_cons_of_pos (by simp; omega),
        List.filter_cons_of_neg (by simp; omega), worth_cons, worth_cons, ih, add_assoc]
    · rw [List.filter_cons_of_pos (by simp; omega), List.filter_cons_of_neg (by simp; omega),
        List.filter_cons_of_pos (by simp; omega), worth_cons, worth_cons, ih, add_left_comm]
    · rw [List.filter_cons_of_neg (by simp; omega), List.filter_cons_of_neg (by simp; omega),
        List.filter_cons_of_neg (by simp; omega), ih]

/-- The marks of one more shard. Its events had none. -/
theorem worth_mark (ys : List (Bool × (Fin k × E))) (n : Nat)
    (hmarked : ∀ y ∈ ys, y.1 = true → y.2.1.val < n) :
    worth observe (((ys.map fun y => (y.1 || decide (y.2.1.val = n), y.2)).filter Prod.fst).map
        Prod.snd) =
      worth observe ((ys.filter Prod.fst).map Prod.snd) +
        worth observe ((ys.map Prod.snd).filter fun x => decide (x.1.val = n)) := by
  induction ys with
  | nil => exact (add_zero _).symm
  | cons y ys ih =>
    have ih := ih fun z hz => hmarked z (List.mem_cons_of_mem y hz)
    obtain ⟨mark, x⟩ := y
    cases mark with
    | true =>
      have hlt : x.1.val < n := hmarked (true, x) List.mem_cons_self rfl
      simp only [List.map_cons, Bool.true_or, List.filter_cons_of_pos]
      rw [List.filter_cons_of_neg (by simp; omega), worth_cons, worth_cons, ih, add_assoc]
    | false =>
      by_cases hn : x.1.val = n
      · simp only [List.map_cons, hn, decide_true, Bool.or_true, List.filter_cons_of_pos]
        rw [List.filter_cons_of_neg Bool.false_ne_true, worth_cons, worth_cons, ih, add_left_comm]
      · simp only [List.map_cons, hn, decide_false, Bool.or_false]
        rw [List.filter_cons_of_neg Bool.false_ne_true, List.filter_cons_of_neg Bool.false_ne_true,
          List.filter_cons_of_neg (by simp [hn])]
        exact ih

end Worth

/-! ## The invariant -/

section Reach

variable [AddCommMonoid M] {observe : M → E → M}

/-- A reader knows the shards that it has been to, as they were when it was there. -/
structure Scan.Fair (observe : M → E → M) (history : List (Fin k × E)) (c : Scan M E k) :
    Prop where
  le : c.next ≤ k
  follows : c.before ++ c.heard <+: history
  upToDate : c.next < k → c.before ++ c.heard = history
  marked : ∀ y ∈ c.during, y.1 = true → y.2.1.val < c.next
  sum : c.sum = worth observe (c.before.filter fun x => decide (x.1.val < c.next)) +
    worth observe c.seen

/-- The shards hold the history, and every reader is fair. -/
structure Reach (observe : M → E → M) (s : Traffic M E k) : Prop where
  shard : ∀ i, s.shards i = worth observe (s.history.filter fun x => decide (x.1 = i))
  fair : ∀ c ∈ s.scans, c.Fair observe s.history

theorem Scan.Fair.hear {history : List (Fin k × E)} {c : Scan M E k} (h : c.Fair observe history)
    (x : Fin k × E) : (c.hear x).Fair observe (history ++ [x]) := by
  unfold Scan.hear
  split
  · rename_i hlt
    have hheard : c.before ++ (c.during ++ [(false, x)]).map Prod.snd = history ++ [x] := by
      rw [List.map_append, ← List.append_assoc]
      exact congrArg (· ++ [x]) (h.upToDate hlt)
    refine ⟨h.le, ?_, fun _ => hheard, ?_, ?_⟩
    · show c.before ++ (c.during ++ [(false, x)]).map Prod.snd <+: _
      exact ⟨[], (List.append_nil _).trans hheard⟩
    · intro y hy hmark
      rcases List.mem_append.mp hy with hy | hy
      · exact h.marked y hy hmark
      · rw [List.mem_singleton.mp hy] at hmark
        cases hmark
    · have hseen : Scan.seen { c with during := c.during ++ [(false, x)] } = c.seen := by
        show ((c.during ++ [(false, x)]).filter Prod.fst).map Prod.snd = _
        rw [List.filter_append]
        simp [Scan.seen]
      rw [hseen]
      exact h.sum
  · rename_i hdone
    exact ⟨h.le, h.follows.trans (List.prefix_append _ _), fun hlt => absurd hlt hdone, h.marked,
      h.sum⟩

theorem Scan.Fair.visit {s : Traffic M E k} (hs : Reach observe s) {c c' : Scan M E k}
    (h : c.Fair observe s.history) (hv : c.visit s.shards = some c') :
    c'.Fair observe s.history := by
  unfold Scan.visit at hv
  split at hv
  · rename_i hlt
    cases hv
    have hheard : ∀ ys : List (Bool × (Fin k × E)),
        (ys.map fun y => (y.1 || decide (y.2.1.val = c.next), y.2)).map Prod.snd =
          ys.map Prod.snd := fun ys => by rw [List.map_map]; rfl
    refine ⟨hlt, ?_, fun _ => ?_, ?_, ?_⟩
    · show c.before ++ (c.during.map _).map Prod.snd <+: _
      rw [hheard]
      exact h.follows
    · show c.before ++ (c.during.map _).map Prod.snd = _
      rw [hheard]
      exact h.upToDate hlt
    · intro y hy hmark
      obtain ⟨z, hz, rfl⟩ := List.mem_map.mp hy
      show z.2.1.val < c.next + 1
      rcases Bool.or_eq_true_iff.mp hmark with hold | hnew
      · exact Nat.lt_succ_of_lt (h.marked z hz hold)
      · exact Nat.lt_succ_of_le (Nat.le_of_eq (of_decide_eq_true hnew))
    · -- what the shard holds came before or since
      have hshard : s.shards ⟨c.next, hlt⟩ =
          worth observe (c.before.filter fun x => decide (x.1.val = c.next)) +
            worth observe (c.heard.filter fun x => decide (x.1.val = c.next)) := by
        rw [hs.shard, ← worth_append, ← List.filter_append, h.upToDate hlt]
        congr 1
        exact List.filter_congr fun x _ => decide_eq_decide.mpr Fin.ext_iff
      show c.sum + s.shards ⟨c.next, hlt⟩ =
        worth observe (c.before.filter fun x => decide (x.1.val < c.next + 1)) +
          worth observe (((c.during.map fun y => (y.1 || decide (y.2.1.val = c.next), y.2)).filter
            Prod.fst).map Prod.snd)
      rw [h.sum, hshard, worth_filter_succ, worth_mark c.during c.next h.marked]
      exact add_add_add_comm _ _ _ _
  · cases hv

variable (hobserve : ∀ m e, observe m e = m + observe 0 e)

include hobserve

theorem Reach.step {s s' : Traffic M E k} {a : Act E k} (h : Reach observe s)
    (hs : s.step observe a = some s') : Reach observe s' := by
  cases a with
  | event i e =>
    cases hs
    refine ⟨fun j => ?_, fun c hc => ?_⟩
    · show (if j = i then observe (s.shards j) e else s.shards j) = _
      rw [List.filter_append, worth_append, ← h.shard]
      by_cases hj : j = i
      · subst hj
        rw [if_pos rfl, hobserve, List.filter_cons_of_pos (by simp), List.filter_nil, worth_single]
      · rw [if_neg hj, List.filter_cons_of_neg (by simp [Ne.symm hj]), List.filter_nil]
        exact (add_zero _).symm
    · obtain ⟨c, hmem, rfl⟩ := List.mem_map.mp hc
      exact (h.fair c hmem).hear (i, e)
  | enter =>
    cases hs
    refine ⟨h.shard, fun c hc => ?_⟩
    rcases List.mem_append.mp hc with hc | hc
    · exact h.fair c hc
    · rw [List.mem_singleton.mp hc]
      have hnone : s.history.filter (fun x => decide (x.1.val < 0)) = [] :=
        List.filter_eq_nil_iff.mpr fun x _ => by simp
      refine ⟨Nat.zero_le k, ?_, fun _ => List.append_nil _, fun y hy => absurd hy List.not_mem_nil,
        ?_⟩
      · exact ⟨[], by simp [Scan.heard]⟩
      · show (0 : M) = worth observe (s.history.filter fun x => decide (x.1.val < 0)) + _
        rw [hnone]
        exact (add_zero (0 : M)).symm
  | visit t =>
    obtain ⟨c, hc, hs⟩ := Option.bind_eq_some_iff.mp hs
    obtain ⟨c', hv, hs⟩ := Option.bind_eq_some_iff.mp hs
    cases hs
    refine ⟨h.shard, fun d hd => ?_⟩
    rcases List.mem_or_eq_of_mem_set hd with hd | rfl
    · exact h.fair d hd
    · exact (h.fair c (List.mem_of_getElem? hc)).visit h hv

omit hobserve in
theorem Reach.start : Reach observe ({ shards := fun _ => 0 } : Traffic M E k) :=
  ⟨fun _ => rfl, fun _ hc => absurd hc List.not_mem_nil⟩

omit hobserve in
/-- **What a reader gets.** All from before it began, and some of what came while it was reading. -/
theorem Scan.Fair.sum_eq {history : List (Fin k × E)} {c : Scan M E k} (h : c.Fair observe history)
    (hdone : c.next = k) : c.sum = worth observe c.counted ∧ c.seen.Sublist c.heard := by
  have hall : c.before.filter (fun x => decide (x.1.val < c.next)) = c.before :=
    List.filter_eq_self.mpr fun x _ => decide_eq_true (by rw [hdone]; exact x.1.isLt)
  refine ⟨?_, List.filter_sublist.map Prod.snd⟩
  rw [h.sum, hall, Scan.counted, worth_append]

omit hobserve in
theorem Scan.Fair.counted_sublist {history : List (Fin k × E)} {c : Scan M E k}
    (h : c.Fair observe history) : c.counted.Sublist history :=
  (List.Sublist.append_left (List.filter_sublist.map Prod.snd) c.before).trans h.follows.sublist

end Reach

/-! ## Two readers -/

theorem Scan.hear_before (c : Scan M E k) (x : Fin k × E) : (c.hear x).before = c.before := by
  unfold Scan.hear
  split <;> rfl

section Later

variable [AddCommMonoid M] {observe : M → E → M}

/-- Readers from number `n` on know the whole of `old`. -/
structure Since (old : List (Fin k × E)) (n : Nat) (s : Traffic M E k) : Prop where
  many : n ≤ s.scans.length
  history : old <+: s.history
  before : ∀ t c, n ≤ t → s.scans[t]? = some c → old <+: c.before

theorem Scan.visit_before {c c' : Scan M E k} {shards : Fin k → M} (h : c.visit shards = some c') :
    c'.before = c.before := by
  unfold Scan.visit at h
  split at h
  · cases h
    rfl
  · cases h

theorem Since.step {old : List (Fin k × E)} {n : Nat} {s s' : Traffic M E k} {a : Act E k}
    (h : Since old n s) (hs : s.step observe a = some s') : Since old n s' := by
  cases a with
  | event i e =>
    cases hs
    refine ⟨?_, h.history.trans (List.prefix_append _ _), fun t c hn hc => ?_⟩
    · show n ≤ (s.scans.map _).length
      rw [List.length_map]
      exact h.many
    · rw [List.getElem?_map] at hc
      obtain ⟨d, hd, rfl⟩ := Option.map_eq_some_iff.mp hc
      rw [Scan.hear_before]
      exact h.before t d hn hd
  | enter =>
    cases hs
    refine ⟨?_, h.history, fun t c hn hc => ?_⟩
    · show n ≤ (s.scans ++ [_]).length
      rw [List.length_append]
      exact Nat.le_add_right_of_le h.many
    · rcases Nat.lt_trichotomy t s.scans.length with hlt | rfl | hgt
      · exact h.before t c hn (by rwa [List.getElem?_append_left hlt] at hc)
      · rw [List.getElem?_concat_length] at hc
        cases hc
        exact h.history
      · rw [List.getElem?_eq_none (by simp; omega)] at hc
        cases hc
  | visit t =>
    obtain ⟨c, hc, hs⟩ := Option.bind_eq_some_iff.mp hs
    obtain ⟨c', hv, hs⟩ := Option.bind_eq_some_iff.mp hs
    cases hs
    refine ⟨?_, h.history, fun u d hn hd => ?_⟩
    · show n ≤ (s.scans.set t c').length
      rw [List.length_set]
      exact h.many
    · rw [List.getElem?_set] at hd
      split at hd
      · rename_i heq
        subst heq
        split at hd
        · cases hd
          rw [Scan.visit_before hv]
          exact h.before _ c hn hc
        · cases hd
      · exact h.before u d hn hd

/-- **Counts do not fall.** A reader that begins when another one is done counts all that it did. -/
theorem Since.counted {s₁ s₂ : Traffic M E k} {as : List (Act E k)} (h : Reach observe s₁)
    {c d : Scan M E k} {t : Nat} (hc : c ∈ s₁.scans)
    (hr : Machine.run (Traffic.step observe) s₁ as = some s₂) (ht : s₁.scans.length ≤ t)
    (hd : s₂.scans[t]? = some d) : c.counted.Sublist d.counted := by
  have hstart : Since s₁.history s₁.scans.length s₁ :=
    ⟨Nat.le_refl _, List.prefix_refl _, fun u e hu he => by
      rw [List.getElem?_eq_none hu] at he
      cases he⟩
  have hsince : Since s₁.history s₁.scans.length s₂ :=
    Machine.run_preserves (Traffic.step observe) (fun s a s' hI hs => hI.step hs) hstart hr
  exact (h.fair c hc).counted_sublist.trans
    ((hsince.before t d ht hd).sublist.trans (List.prefix_append _ _).sublist)

end Later

end Sharded
end UrlShortener
