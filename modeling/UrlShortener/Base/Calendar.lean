import UrlShortener.Base.Positional

/-!
# UrlShortener.Base.Calendar

Dates of the Gregorian calendar with a time of day. `time` counts the seconds since the start of
year 0; `time_le_iff` says that it grows as the fields do, read from the year down.
-/

namespace UrlShortener

structure DateTime where
  year : Nat
  month : Nat
  day : Nat
  hour : Nat
  minute : Nat
  second : Nat
deriving DecidableEq

namespace DateTime

def fields (t : DateTime) : List Nat := [t.year, t.month, t.day, t.hour, t.minute, t.second]

/-- Lexicographic, from the year down. -/
instance : LE DateTime := ⟨fun a b => a.fields < b.fields ∨ a = b⟩

def isLeap (year : Nat) : Bool :=
  decide (year % 4 = 0) && (decide (year % 100 ≠ 0) || decide (year % 400 = 0))

def yearLength (year : Nat) : Nat := if isLeap year then 366 else 365

def monthLength (year month : Nat) : Nat :=
  if month = 2 then if isLeap year then 29 else 28
  else if month = 4 ∨ month = 6 ∨ month = 9 ∨ month = 11 then 30
  else 31

def daysBeforeYear : Nat → Nat
  | 0 => 0
  | year + 1 => daysBeforeYear year + yearLength year

/-- `passed` months of the year are over. -/
def daysBeforeMonth (year : Nat) : Nat → Nat
  | 0 => 0
  | passed + 1 => daysBeforeMonth year passed + monthLength year (passed + 1)

/-- A date of the calendar and a time of the day, without leap seconds. -/
structure Real (t : DateTime) : Prop where
  month_pos : 1 ≤ t.month
  month_le : t.month ≤ 12
  day_pos : 1 ≤ t.day
  day_le : t.day ≤ monthLength t.year t.month
  hour : t.hour < 24
  minute : t.minute < 60
  second : t.second < 60

def days (t : DateTime) : Nat :=
  daysBeforeYear t.year + (daysBeforeMonth t.year (t.month - 1) + (t.day - 1))

def time (t : DateTime) : Nat := ((t.days * 24 + t.hour) * 60 + t.minute) * 60 + t.second

/-- Stages of different lengths, one behind the other. -/
theorem staged_lt_iff {f size : Nat → Nat} (hf : ∀ k, f (k + 1) = f k + size k) {k l v w : Nat}
    (hv : v < size k) (hw : w < size l) : f k + v < f l + w ↔ k < l ∨ k = l ∧ v < w := by
  have hmono : ∀ {k l : Nat}, k < l → f k + size k ≤ f l := by
    intro k l hlt
    induction l with
    | zero => exact absurd hlt (Nat.not_lt_zero k)
    | succ l ih =>
      rw [hf l]
      obtain hlt | rfl := Nat.lt_succ_iff_lt_or_eq.mp hlt
      · have := ih hlt
        omega
      · exact Nat.le_refl _
  rcases Nat.lt_trichotomy k l with hlt | rfl | hgt
  · have := hmono hlt
    exact iff_of_true (by omega) (Or.inl hlt)
  · simp
  · have := hmono hgt
    refine iff_of_false (by omega) ?_
    rintro (hlt | ⟨rfl, -⟩)
    · exact Nat.lt_asymm hlt hgt
    · exact Nat.lt_irrefl _ hgt

theorem daysBeforeMonth_twelve (year : Nat) : daysBeforeMonth year 12 = yearLength year := by
  unfold yearLength
  cases h : isLeap year with
  | false => simp [daysBeforeMonth, monthLength, h]
  | true => simp [daysBeforeMonth, monthLength, h]

theorem daysBeforeMonth_mono (year : Nat) {k l : Nat} (h : k ≤ l) :
    daysBeforeMonth year k ≤ daysBeforeMonth year l := by
  induction l with
  | zero => rw [Nat.le_zero.mp h]
  | succ l ih =>
    obtain h | rfl := Nat.le_succ_iff.mp h
    · exact Nat.le_trans (ih h) (Nat.le_add_right _ _)
    · exact Nat.le_refl _

/-- The day of the year. -/
theorem Real.day_lt {t : DateTime} (h : t.Real) :
    daysBeforeMonth t.year (t.month - 1) + (t.day - 1) < yearLength t.year := by
  have hmonth : t.month - 1 + 1 = t.month := Nat.sub_add_cancel h.month_pos
  have hnext : daysBeforeMonth t.year t.month =
      daysBeforeMonth t.year (t.month - 1) + monthLength t.year t.month := by
    rw [← hmonth, daysBeforeMonth, hmonth]
  have hle := daysBeforeMonth_mono t.year h.month_le
  rw [daysBeforeMonth_twelve, hnext] at hle
  have hpos := h.day_pos
  have hday := h.day_le
  omega

theorem days_lt_iff {a b : DateTime} (ha : a.Real) (hb : b.Real) :
    a.days < b.days ↔ a.year < b.year ∨ a.year = b.year ∧
      (a.month < b.month ∨ a.month = b.month ∧ a.day < b.day) := by
  rw [days, days, staged_lt_iff (fun _ => rfl) ha.day_lt hb.day_lt]
  refine or_congr_right (and_congr_right fun hyear => ?_)
  have hlen : ∀ {t : DateTime}, t.Real → t.day - 1 < monthLength t.year (t.month - 1 + 1) := by
    intro t ht
    have h1 := ht.day_pos
    have h2 := ht.day_le
    rw [Nat.sub_add_cancel ht.month_pos]
    omega
  have hb' := hlen hb
  rw [← hyear] at hb' ⊢
  have hmonths := @staged_lt_iff (daysBeforeMonth a.year) (fun k => monthLength a.year (k + 1))
    (fun _ => rfl) _ _ _ _ (hlen ha) hb'
  rw [hmonths]
  have h1 := ha.month_pos
  have h2 := hb.month_pos
  have h3 := ha.day_pos
  have h4 := hb.day_pos
  omega

theorem days_eq_iff {a b : DateTime} (ha : a.Real) (hb : b.Real) :
    a.days = b.days ↔ a.year = b.year ∧ a.month = b.month ∧ a.day = b.day := by
  have h1 := days_lt_iff ha hb
  have h2 := days_lt_iff hb ha
  omega

/-- **Later in the fields is later in time.** -/
theorem time_lt_iff {a b : DateTime} (ha : a.Real) (hb : b.Real) :
    a.time < b.time ↔ a.fields < b.fields := by
  rw [time, time, Positional.mul_add_lt_iff ha.second hb.second,
    Positional.mul_add_lt_iff ha.minute hb.minute, Positional.mul_add_lt_iff ha.hour hb.hour]
  have hhours : a.days * 24 + a.hour = b.days * 24 + b.hour ↔ a.days = b.days ∧ a.hour = b.hour := by
    have h1 := ha.hour
    have h2 := hb.hour
    omega
  have hminutes : (a.days * 24 + a.hour) * 60 + a.minute = (b.days * 24 + b.hour) * 60 + b.minute ↔
      a.days * 24 + a.hour = b.days * 24 + b.hour ∧ a.minute = b.minute := by
    have h1 := ha.minute
    have h2 := hb.minute
    omega
  rw [hminutes, hhours, days_lt_iff ha hb, days_eq_iff ha hb]
  simp only [fields, List.cons_lt_cons_iff, List.not_lt_nil, and_false, or_false, and_or_left,
    or_assoc, and_assoc]

theorem fields_injective : Function.Injective fields := by
  intro a b h
  simp only [fields, List.cons.injEq, and_true] at h
  obtain ⟨hy, hmo, hd, hh, hmi, hs⟩ := h
  cases a
  cases b
  simp_all

theorem le_iff {a b : DateTime} : a ≤ b ↔ ¬ b.fields < a.fields := by
  rw [List.not_lt, List.le_iff_lt_or_eq, fields_injective.eq_iff]
  rfl

theorem time_le_iff {a b : DateTime} (ha : a.Real) (hb : b.Real) : a.time ≤ b.time ↔ a ≤ b := by
  rw [← Nat.not_lt, le_iff, time_lt_iff hb ha]

end DateTime
end UrlShortener
