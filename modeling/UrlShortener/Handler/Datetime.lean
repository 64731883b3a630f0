import UrlShortener.Base.Calendar
import UrlShortener.Base.JsonRoundTrip
import UrlShortener.Handler.Redirect

/-!
# UrlShortener.Handler.Datetime

Two deciders of expiry. The caches compare texts, byte for byte: `is_business_expired` has the text
that `shorten` was given, and `now_datetime()`. MySQL compares the DATETIMEs that are written in
these texts. What `valid_expire_at` lets through has its digits in fixed places, and so has what
`now_datetime` writes from year 1000 on: there both orders are one.
-/

namespace UrlShortener
namespace Handler

open LocalCache (isBusinessExpired)
open JsonText (isDigit)

/-- A decimal number with leading zeros. -/
def padded : Nat → Nat → Bytes
  | 0, _ => []
  | w + 1, n => padded w (n / 10) ++ [UInt8.ofNat (48 + n % 10)]

/-- `now_datetime`, on the fields of `localtime`: the format is `%Y-%m-%d %H:%M:%S`, where `%Y`
writes the year with as many digits as it has. -/
def nowDatetime (t : DateTime) : Bytes :=
  toDecimal t.year ++ 45 :: (padded 2 t.month ++ 45 :: (padded 2 t.day ++ SP :: (padded 2 t.hour ++
    58 :: (padded 2 t.minute ++ 58 :: padded 2 t.second))))

/-- What `localtime` may say from the year `first` on, as long as years have four digits; a leap
second is the 60th. -/
structure Clock (first : Nat) (t : DateTime) : Prop where
  year : first ≤ t.year ∧ t.year ≤ 9999
  month : 1 ≤ t.month ∧ t.month ≤ 12
  day : 1 ≤ t.day ∧ t.day ≤ 31
  hour : t.hour ≤ 23
  minute : t.minute ≤ 59
  second : t.second ≤ 60

def number (s : Bytes) : Nat := Positional.value 10 (s.map fun b => b.toNat - 48)

/-- The numbers of a text, between its separators. -/
def numbers (a : Bytes) : List Nat := (a.splitOnP fun b => !isDigit b).map number

/-- The date and the time that a text shows. -/
def readDatetime (a : Bytes) : DateTime where
  year := (numbers a).getD 0 0
  month := (numbers a).getD 1 0
  day := (numbers a).getD 2 0
  hour := (numbers a).getD 3 0
  minute := (numbers a).getD 4 0
  second := (numbers a).getD 5 0

/-- `expire_at IS NOT NULL AND expire_at <= NOW()`; MySQL compares points in time. -/
def mysqlExpired : Option DateTime → DateTime → Bool
  | none, _ => false
  | some expireAt, now => decide (expireAt.time ≤ now.time)

/-- The texts that are compared, on clocks from the year `first` on. -/
inductive Stamp (first : Nat) : Bytes → Prop
  | given {a : Bytes} (h : validExpireAt a = true) : Stamp first a
  | clock {t : DateTime} (h : Clock first t) : Stamp first (nowDatetime t)

/-! ## Digits -/

structure Digits (n : Nat) (s : Bytes) : Prop where
  length : s.length = n
  digit : ∀ b ∈ s, 48 ≤ b ∧ b ≤ 57

theorem Digits.toNat {n : Nat} {s : Bytes} (h : Digits n s) :
    ∀ b ∈ s, 48 ≤ b.toNat ∧ b.toNat ≤ 57 := by
  intro b hb
  obtain ⟨h1, h2⟩ := h.digit b hb
  exact ⟨UInt8.le_iff_toNat_le.mp h1, UInt8.le_iff_toNat_le.mp h2⟩

theorem Digits.isDigit {n : Nat} {s : Bytes} (h : Digits n s) : ∀ b ∈ s, isDigit b = true :=
  fun b hb => JsonText.isDigit_iff.mpr (h.digit b hb)

theorem Digits.no_separator {n : Nat} {s : Bytes} (h : Digits n s) :
    ∀ b ∈ s, (!JsonText.isDigit b) = false := by
  intro b hb
  rw [h.isDigit b hb]
  rfl

theorem Digits.lt_ten {n : Nat} {s : Bytes} (h : Digits n s) :
    ∀ d ∈ s.map fun b => b.toNat - 48, d < 10 := by
  intro d hd
  obtain ⟨b, hb, rfl⟩ := List.mem_map.mp hd
  have hbound := h.toNat b hb
  omega

/-- Digits compare as the numbers that they are. -/
theorem map_digit_lt_iff {s t : Bytes} (hs : ∀ b ∈ s, 48 ≤ b.toNat ∧ b.toNat ≤ 57)
    (ht : ∀ b ∈ t, 48 ≤ b.toNat ∧ b.toNat ≤ 57) :
    (s.map fun b => b.toNat - 48) < (t.map fun b => b.toNat - 48) ↔ s < t := by
  induction s generalizing t with
  | nil =>
    cases t with
    | nil => simp
    | cons c t => simp
  | cons b s ih =>
    cases t with
    | nil => simp
    | cons c t =>
      have hb := hs b List.mem_cons_self
      have hc := ht c List.mem_cons_self
      rw [List.map_cons, List.map_cons, List.cons_lt_cons_iff, List.cons_lt_cons_iff,
        ih (fun x hx => hs x (List.mem_cons_of_mem b hx)) fun x hx => ht x (List.mem_cons_of_mem c hx),
        UInt8.lt_iff_toNat_lt, ← UInt8.toNat_inj]
      have h1 : b.toNat - 48 < c.toNat - 48 ↔ b.toNat < c.toNat := by omega
      have h2 : b.toNat - 48 = c.toNat - 48 ↔ b.toNat = c.toNat := by omega
      rw [h1, h2]

section Compare

variable {n : Nat} {x y s t : Bytes}

theorem number_lt_iff (hx : Digits n x) (hy : Digits n y) : number x < number y ↔ x < y := by
  unfold number
  rw [Positional.value_lt_iff (by simp [hx.length, hy.length]) hx.lt_ten hy.lt_ten,
    map_digit_lt_iff hx.toNat hy.toNat]

theorem number_eq_iff (hx : Digits n x) (hy : Digits n y) : number x = number y ↔ x = y := by
  constructor
  · intro h
    have h1 : ¬ x < y := fun hlt => Nat.ne_of_lt ((number_lt_iff hx hy).mpr hlt) h
    have h2 : ¬ y < x := fun hlt => Nat.ne_of_lt ((number_lt_iff hy hx).mpr hlt) h.symm
    exact List.le_antisymm (List.not_lt.mp h2) (List.not_lt.mp h1)
  · rintro rfl
    rfl

theorem append_lt_append_iff (hlen : x.length = y.length) :
    x ++ s < y ++ t ↔ x < y ∨ x = y ∧ s < t := by
  induction x generalizing y with
  | nil =>
    obtain rfl := List.length_eq_zero_iff.mp hlen.symm
    simp
  | cons b x ih =>
    cases y with
    | nil => cases hlen
    | cons c y =>
      rw [List.cons_append, List.cons_append, List.cons_lt_cons_iff, List.cons_lt_cons_iff,
        ih (Nat.succ.inj hlen), List.cons.injEq]
      tauto

/-- One field, and the same separator behind it. -/
theorem field_lt_iff (hx : Digits n x) (hy : Digits n y) (c : UInt8) :
    x ++ c :: s < y ++ c :: t ↔ number x < number y ∨ number x = number y ∧ s < t := by
  rw [append_lt_append_iff (hx.length.trans hy.length.symm), number_lt_iff hx hy,
    number_eq_iff hx hy, List.cons_lt_cons_iff]
  have hc : ¬ c < c := by simp
  tauto

end Compare

/-! ## The shape of a text -/

/-- A year of `w` digits, and two for each other field. -/
structure Split (w : Nat) (a y mo d h mi s : Bytes) : Prop where
  text : a = y ++ 45 :: (mo ++ 45 :: (d ++ SP :: (h ++ 58 :: (mi ++ 58 :: s))))
  year : Digits w y
  month : Digits 2 mo
  day : Digits 2 d
  hour : Digits 2 h
  minute : Digits 2 mi
  second : Digits 2 s

theorem Split.numbers {w : Nat} {a y mo d h mi s : Bytes} (hs : Split w a y mo d h mi s) :
    numbers a = [number y, number mo, number d, number h, number mi, number s] := by
  rw [Handler.numbers, hs.text,
    List.splitOnP_append_cons_of_forall_mem hs.year.no_separator 45 (by decide),
    List.splitOnP_append_cons_of_forall_mem hs.month.no_separator 45 (by decide),
    List.splitOnP_append_cons_of_forall_mem hs.day.no_separator SP (by decide),
    List.splitOnP_append_cons_of_forall_mem hs.hour.no_separator 58 (by decide),
    List.splitOnP_append_cons_of_forall_mem hs.minute.no_separator 58 (by decide),
    List.splitOnP_eq_singleton hs.second.no_separator]
  rfl

theorem Split.readDatetime {w : Nat} {a y mo d h mi s : Bytes} (hs : Split w a y mo d h mi s) :
    readDatetime a = ⟨number y, number mo, number d, number h, number mi, number s⟩ := by
  rw [Handler.readDatetime, hs.numbers]
  rfl

/-- The order of the texts is the order of the six numbers, for equally long years. -/
theorem Split.lt_iff {w : Nat} {a b y mo d h mi s y' mo' d' h' mi' s' : Bytes}
    (ha : Split w a y mo d h mi s) (hb : Split w b y' mo' d' h' mi' s') :
    a < b ↔ (Handler.readDatetime a).fields < (Handler.readDatetime b).fields := by
  rw [ha.readDatetime, hb.readDatetime, ha.text, hb.text, field_lt_iff ha.year hb.year,
    field_lt_iff ha.month hb.month, field_lt_iff ha.day hb.day, field_lt_iff ha.hour hb.hour,
    field_lt_iff ha.minute hb.minute, ← number_lt_iff ha.second hb.second]
  simp only [DateTime.fields, List.cons_lt_cons_iff, List.not_lt_nil, and_false, or_false]

theorem at_of_valid {a : Bytes} (h : validExpireAt a = true) :
    a.length = 19 ∧ ∀ i c, a[i]? = some c →
      if i = 4 ∨ i = 7 then c = 45 else if i = 10 then c = SP
      else if i = 13 ∨ i = 16 then c = 58 else 48 ≤ c ∧ c ≤ 57 := by
  simp only [validExpireAt, Bool.and_eq_true, decide_eq_true_eq, List.all_eq_true] at h
  obtain ⟨hlen, hall⟩ := h
  refine ⟨hlen, fun i c hi => ?_⟩
  have htest := hall (c, i) (List.mk_mem_zipIdx_iff_getElem?.mpr hi)
  simp only at htest
  split at htest
  · rename_i h4
    rw [if_pos h4]
    exact of_decide_eq_true htest
  · rename_i h4
    rw [if_neg h4]
    split at htest
    · rename_i h10
      rw [if_pos h10]
      exact of_decide_eq_true htest
    · rename_i h10
      rw [if_neg h10]
      split at htest
      · rename_i h13
        rw [if_pos h13]
        exact of_decide_eq_true htest
      · rename_i h13
        rw [if_neg h13]
        simpa using htest

/-- What `valid_expire_at` accepts is split at its separators. -/
theorem exists_split {a : Bytes} (h : validExpireAt a = true) :
    ∃ y mo d h mi s, Split 4 a y mo d h mi s := by
  obtain ⟨hlen, hat⟩ := at_of_valid h
  have hdigit : ∀ i c, a[i]? = some c → i ≠ 4 → i ≠ 7 → i ≠ 10 → i ≠ 13 → i ≠ 16 →
      48 ≤ c ∧ c ≤ 57 := by
    intro i c hi h4 h7 h10 h13 h16
    have := hat i c hi
    simpa only [h4, h7, h10, h13, h16, or_self, if_false] using this
  have field : ∀ (i n : Nat), i + n ≤ 19 →
      (∀ j, i ≤ j → j < i + n → j ≠ 4 ∧ j ≠ 7 ∧ j ≠ 10 ∧ j ≠ 13 ∧ j ≠ 16) →
      Digits n ((a.drop i).take n) := by
    intro i n hin hfree
    refine ⟨by rw [List.length_take, List.length_drop, hlen]; omega, fun b hb => ?_⟩
    obtain ⟨j, hj⟩ := List.getElem?_of_mem hb
    have hjn : j < n := by
      have hlt := (List.getElem?_eq_some_iff.mp hj).1
      rw [List.length_take] at hlt
      omega
    rw [List.getElem?_take_of_lt hjn, List.getElem?_drop] at hj
    obtain ⟨h4, h7, h10, h13, h16⟩ := hfree (i + j) (by omega) (by omega)
    exact hdigit _ b hj h4 h7 h10 h13 h16
  have cut : ∀ (i n : Nat) (c : UInt8), i + n < 19 → (∀ c', a[i + n]? = some c' → c' = c) →
      a.drop i = (a.drop i).take n ++ c :: a.drop (i + n + 1) := by
    intro i n c hin hc
    have hlt : i + n < a.length := by omega
    have hget : a[i + n]? = some a[i + n] := List.getElem?_eq_getElem hlt
    calc a.drop i = (a.drop i).take n ++ (a.drop i).drop n := (List.take_append_drop n _).symm
      _ = (a.drop i).take n ++ a.drop (i + n) := by rw [List.drop_drop]
      _ = _ := by rw [List.drop_eq_getElem_cons hlt, hc _ hget]
  refine ⟨a.take 4, (a.drop 5).take 2, (a.drop 8).take 2, (a.drop 11).take 2, (a.drop 14).take 2,
    (a.drop 17).take 2, ?_, field 0 4 (by omega) (by omega), field 5 2 (by omega) (by omega),
    field 8 2 (by omega) (by omega), field 11 2 (by omega) (by omega),
    field 14 2 (by omega) (by omega), field 17 2 (by omega) (by omega)⟩
  -- from the last field to the first
  have h17 : a.drop 17 = (a.drop 17).take 2 := by
    rw [List.take_of_length_le (by rw [List.length_drop, hlen])]
  have h14 : a.drop 14 = (a.drop 14).take 2 ++ 58 :: (a.drop 17).take 2 := by
    rw [← h17]
    exact cut 14 2 58 (by omega) fun c hc => by simpa using hat _ c hc
  have h11 : a.drop 11 = (a.drop 11).take 2 ++ 58 :: ((a.drop 14).take 2 ++ 58 ::
      (a.drop 17).take 2) := by
    rw [← h14]
    exact cut 11 2 58 (by omega) fun c hc => by simpa using hat _ c hc
  have h8 : a.drop 8 = (a.drop 8).take 2 ++ SP :: ((a.drop 11).take 2 ++ 58 ::
      ((a.drop 14).take 2 ++ 58 :: (a.drop 17).take 2)) := by
    rw [← h11]
    exact cut 8 2 SP (by omega) fun c hc => by simpa using hat _ c hc
  have h5 : a.drop 5 = (a.drop 5).take 2 ++ 45 :: ((a.drop 8).take 2 ++ SP ::
      ((a.drop 11).take 2 ++ 58 :: ((a.drop 14).take 2 ++ 58 :: (a.drop 17).take 2))) := by
    rw [← h8]
    exact cut 5 2 45 (by omega) fun c hc => by simpa using hat _ c hc
  rw [← h5]
  exact cut 0 4 45 (by omega) fun c hc => by simpa using hat _ c hc

/-! ## The clock -/

theorem padded_digits (w n : Nat) : Digits w (padded w n) := by
  induction w generalizing n with
  | zero => exact ⟨rfl, by simp [padded]⟩
  | succ w ih =>
    have hlast : (UInt8.ofNat (48 + n % 10)).toNat = 48 + n % 10 := by
      rw [UInt8.toNat_ofNat']
      omega
    refine ⟨by rw [padded, List.length_append, (ih _).length]; rfl, fun b hb => ?_⟩
    obtain hb | hb := List.mem_append.mp hb
    · exact (ih _).digit b hb
    · rw [List.mem_singleton.mp hb, UInt8.le_iff_toNat_le, UInt8.le_iff_toNat_le, hlast]
      have hmod : n % 10 < 10 := Nat.mod_lt _ (by decide)
      exact ⟨Nat.le_add_right 48 _, by show _ ≤ 57; omega⟩

theorem number_padded {w n : Nat} (h : n < 10 ^ w) : number (padded w n) = n := by
  induction w generalizing n with
  | zero =>
    rw [Nat.pow_zero, Nat.lt_one_iff] at h
    rw [h]
    rfl
  | succ w ih =>
    have hlast : (UInt8.ofNat (48 + n % 10)).toNat - 48 = n % 10 := by
      rw [UInt8.toNat_ofNat']
      omega
    have hdiv : n / 10 < 10 ^ w := by
      rw [Nat.pow_succ] at h
      omega
    have ih := ih hdiv
    unfold number at ih ⊢
    rw [padded, List.map_append, List.map_singleton, Positional.value_concat, hlast, ih]
    omega

theorem toDecimal_digits (n : Nat) : Digits (toDecimal n).length (toDecimal n) :=
  ⟨rfl, fun b hb => JsonText.isDigit_iff.mp (JsonText.toDecimal_isDigit n b hb)⟩

theorem number_eq_ofDigits (s : Bytes) : number s = JsonText.ofDigits s := by
  rw [number, Positional.value, List.foldl_map, JsonText.ofDigits]
  congr 1
  funext v b
  rw [Nat.mul_comm]

theorem number_toDecimal (n : Nat) : number (toDecimal n) = n := by
  rw [number_eq_ofDigits, JsonText.ofDigits_toDecimal]

/-- Between the years 1000 and 9999 there are four digits to write. -/
theorem toDecimal_year {n : Nat} (h : 1000 ≤ n ∧ n ≤ 9999) : (toDecimal n).length = 4 := by
  have hfour := (JsonText.toDecimal_length_le_iff (n := n) (k := 4) (by decide)).mpr (by omega)
  have hthree : ¬ (toDecimal n).length ≤ 3 := by
    rw [JsonText.toDecimal_length_le_iff (by decide)]
    omega
  omega

theorem split_nowDatetime (t : DateTime) : Split (toDecimal t.year).length (nowDatetime t)
    (toDecimal t.year) (padded 2 t.month) (padded 2 t.day) (padded 2 t.hour) (padded 2 t.minute)
    (padded 2 t.second) :=
  ⟨rfl, toDecimal_digits _, padded_digits _ _, padded_digits _ _, padded_digits _ _,
    padded_digits _ _, padded_digits _ _⟩

/-- The clock is read back, in each of its years. -/
theorem Clock.readDatetime {first : Nat} {t : DateTime} (h : Clock first t) :
    readDatetime (nowDatetime t) = t := by
  obtain ⟨-, ⟨-, hmo⟩, ⟨-, hd⟩, hh, hmi, hs⟩ := h
  rw [(split_nowDatetime t).readDatetime, number_toDecimal, number_padded (by omega),
    number_padded (by omega), number_padded (by omega), number_padded (by omega),
    number_padded (by omega)]

theorem Stamp.split {a : Bytes} (h : Stamp 1000 a) :
    ∃ y mo d h mi s, Split 4 a y mo d h mi s := by
  cases h with
  | given h => exact exists_split h
  | @clock t h =>
    have hsplit := split_nowDatetime t
    rw [toDecimal_year h.year] at hsplit
    exact ⟨_, _, _, _, _, _, hsplit⟩

theorem Stamp.le_iff {a b : Bytes} (ha : Stamp 1000 a) (hb : Stamp 1000 b) :
    a ≤ b ↔ readDatetime a ≤ readDatetime b := by
  obtain ⟨y, mo, d, h, mi, s, hsa⟩ := ha.split
  obtain ⟨y', mo', d', h', mi', s', hsb⟩ := hb.split
  rw [← List.not_lt, DateTime.le_iff, hsb.lt_iff hsa]

/-- The verdict of the caches. -/
theorem expired_iff {expireAt : Bytes} {now : DateTime} (h : validExpireAt expireAt = true)
    (hnow : Clock 1000 now) :
    isBusinessExpired expireAt (nowDatetime now) = true ↔ readDatetime expireAt ≤ now := by
  have hne : expireAt ≠ [] := by
    rintro rfl
    exact absurd h (by decide)
  unfold isBusinessExpired
  rw [if_neg hne, decide_eq_true_eq, (Stamp.given h).le_iff (.clock hnow), hnow.readDatetime]

/-- **The order of the texts is the order of time**, from year 1000 on. On dates of the calendar the
caches and MySQL come to the same verdict, at the same time of the wall clock. -/
theorem expiry_order :
    (∀ a b, Stamp 1000 a → Stamp 1000 b → (a ≤ b ↔ readDatetime a ≤ readDatetime b)) ∧
    (∀ expireAt now, validExpireAt expireAt = true → Clock 1000 now →
      (readDatetime expireAt).Real → now.Real →
        isBusinessExpired expireAt (nowDatetime now) =
          mysqlExpired (some (readDatetime expireAt)) now) ∧
    ∀ now, isBusinessExpired [] (nowDatetime now) = mysqlExpired none now := by
  refine ⟨fun a b ha hb => ha.le_iff hb, fun expireAt now h hnow hreal hreal' => ?_, fun now => rfl⟩
  rw [Bool.eq_iff_iff, expired_iff h hnow, mysqlExpired, decide_eq_true_eq,
    DateTime.time_le_iff hreal hreal']

/-- One second before the end of a leap day. -/
def leapDay : DateTime := ⟨2028, 2, 29, 23, 59, 58⟩

theorem leapDay_clock : Clock 1000 leapDay :=
  ⟨by decide, by decide, by decide, by decide, by decide, by decide⟩

theorem expiry_order_leapDay :
    (nowDatetime leapDay ≤ ascii "2028-02-29 23:59:59" ↔
      readDatetime (nowDatetime leapDay) ≤ readDatetime (ascii "2028-02-29 23:59:59")) ∧
    isBusinessExpired (ascii "2028-02-29 23:59:59") (nowDatetime leapDay) =
      mysqlExpired (some (readDatetime (ascii "2028-02-29 23:59:59"))) leapDay :=
  have hvalid : validExpireAt (ascii "2028-02-29 23:59:59") = true := by decide +kernel
  ⟨expiry_order.1 _ _ (.clock leapDay_clock) (.given hvalid),
    expiry_order.2.1 _ _ hvalid leapDay_clock
      ⟨by decide +kernel, by decide +kernel, by decide +kernel, by decide +kernel,
        by decide +kernel, by decide +kernel, by decide +kernel⟩
      ⟨by decide, by decide, by decide, by decide, by decide, by decide, by decide⟩⟩

/-- The last second of year 999. -/
def threeDigits : DateTime := ⟨999, 12, 31, 23, 59, 59⟩

/-- A clock that still writes three digits is late in the order of the texts: `999-…` comes behind
`1000-…`. -/
theorem expiry_order_threeDigits :
    ¬ ∀ a b, Stamp 0 a → Stamp 0 b → (a ≤ b ↔ readDatetime a ≤ readDatetime b) := by
  intro h
  have hclock : Clock 0 threeDigits :=
    ⟨by decide, by decide, by decide, by decide, by decide, by decide⟩
  have hiff := h (nowDatetime threeDigits) (ascii "1000-01-01 00:00:00") (.clock hclock)
    (.given (by decide +kernel))
  have htext : ¬ nowDatetime threeDigits ≤ ascii "1000-01-01 00:00:00" := by decide +kernel
  have htime :
      readDatetime (nowDatetime threeDigits) ≤ readDatetime (ascii "1000-01-01 00:00:00") := by
    rw [hclock.readDatetime, DateTime.le_iff]
    decide +kernel
  exact htext (hiff.mpr htime)

end Handler
end UrlShortener
