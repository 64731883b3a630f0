import Mathlib.Data.List.TakeWhile
import UrlShortener.Base.Bytes

/-!
# UrlShortener.Base.CString

The C library's string scans, on the text before the terminating NUL (`cString`). A pointer into
the text is its offset; `strpbrk` and `strchr` return `none` for the null pointer. Comparison is by
the ASCII lower-case table, as in the C locale.
-/

namespace UrlShortener

/-- What `s` is as a C string: its bytes before the first NUL. -/
def cString (s : Bytes) : Bytes := s.takeWhile (· ≠ NUL)

theorem cString_eq_self {s : Bytes} (h : NUL ∉ s) : cString s = s := by
  rw [cString, List.takeWhile_eq_self_iff]
  intro b hb
  have hne : b ≠ NUL := fun he => h (he ▸ hb)
  simpa using hne

/-- Offset of the first byte of `s` that occurs in `accept`. -/
def strpbrk (s accept : Bytes) : Option Nat := s.findIdx? fun b => decide (b ∈ accept)

/-- Length of the longest prefix of `s` made of bytes of `accept`. -/
def strspn (s accept : Bytes) : Nat := (s.takeWhile fun b => decide (b ∈ accept)).length

/-- Offset of the first `c` in `s`. -/
def strchr (s : Bytes) (c : UInt8) : Option Nat := s.findIdx? fun b => b == c

def tolower (b : UInt8) : UInt8 := if 65 ≤ b ∧ b ≤ 90 then b + 32 else b

def lower (s : Bytes) : Bytes := s.map tolower

/-- `strcasecmp(a, b) == 0`. -/
def strcasecmp (a b : Bytes) : Bool := lower a == lower b

/-- `strncasecmp(a, b, n) == 0`. -/
def strncasecmp (a b : Bytes) (n : Nat) : Bool := lower (a.take n) == lower (b.take n)

/-- The set `" \t"` every scan of a header line uses. -/
def blanks : Bytes := [SP, TAB]

@[simp] theorem lower_length (s : Bytes) : (lower s).length = s.length := by simp [lower]

theorem lower_append (a b : Bytes) : lower (a ++ b) = lower a ++ lower b := by simp [lower]

/-- Skipping blanks leaves a text that does not start with one. -/
theorem drop_strspn_blanks {s : Bytes} (h : ∀ b, s.head? = some b → b ∉ blanks) :
    s.drop (strspn s blanks) = s := by
  cases s with
  | nil => rfl
  | cons b bs =>
    have hb : b ∉ blanks := h b rfl
    simp [strspn, hb]

theorem strspn_single {b : UInt8} {s : Bytes} (hb : b ∈ blanks)
    (h : ∀ c, s.head? = some c → c ∉ blanks) : (b :: s).drop (strspn (b :: s) blanks) = s := by
  have := drop_strspn_blanks h
  simp only [strspn, List.takeWhile_cons, hb, decide_true, if_true, List.length_cons,
    List.drop_succ_cons]
  exact this

/-- A byte that is no letter is nobody's lower case. -/
theorem tolower_eq_iff {b c : UInt8} (hupper : ¬ (65 ≤ c ∧ c ≤ 90))
    (hlower : ¬ (97 ≤ c ∧ c ≤ 122)) : tolower b = c ↔ b = c := by
  unfold tolower
  split
  · rename_i hb
    refine iff_of_false ?_ ?_
    · rintro rfl
      refine hlower ?_
      have h1 := UInt8.le_iff_toNat_le.mp hb.1
      have h2 := UInt8.le_iff_toNat_le.mp hb.2
      rw [UInt8.le_iff_toNat_le, UInt8.le_iff_toNat_le, UInt8.toNat_add]
      simp only [UInt8.reduceToNat] at h1 h2 ⊢
      omega
    · rintro rfl
      exact hupper hb
  · exact Iff.rfl

theorem mem_of_lower_eq {a b : Bytes} {c : UInt8} (hupper : ¬ (65 ≤ c ∧ c ≤ 90))
    (hlower : ¬ (97 ≤ c ∧ c ≤ 122)) (h : lower a = lower b) (hb : c ∈ b) : c ∈ a := by
  have hin : c ∈ lower b := List.mem_map.mpr ⟨c, hb, (tolower_eq_iff hupper hlower).mpr rfl⟩
  rw [← h] at hin
  obtain ⟨d, hd, he⟩ := List.mem_map.mp hin
  rwa [(tolower_eq_iff hupper hlower).mp he] at hd

/-- A NUL in what is compared makes the comparison fail, so that it does not matter that the text is
cut there. -/
theorem strncasecmp_cString {s lit : Bytes} {n : Nat} (hn : lit.length = n)
    (hnul : ∀ b ∈ lit, tolower b ≠ NUL) : strncasecmp (cString s) lit n = strncasecmp s lit n := by
  subst hn
  rw [Bool.eq_iff_iff, strncasecmp, strncasecmp, beq_iff_eq, beq_iff_eq, List.take_length]
  induction lit generalizing s with
  | nil => simp [lower]
  | cons l lit ih =>
    cases s with
    | nil => rfl
    | cons b s =>
      have hl := hnul l (by simp)
      by_cases hb : b = NUL
      · subst hb
        have hzero : tolower NUL ≠ tolower l := fun h => hl (h.symm.trans (by decide))
        simp [cString, lower, hzero]
      · have ih := ih (s := s) fun x hx => hnul x (by simp [hx])
        simp only [cString, lower, List.length_cons, ne_eq, hb, not_false_eq_true, decide_true,
          List.takeWhile_cons_of_pos, List.take_succ_cons, List.map_cons, List.cons.injEq] at ih ⊢
        rw [ih]

theorem drop_past (a s : Bytes) (d : UInt8) : (a ++ d :: s).drop (a.length + 1) = s := by
  rw [List.drop_append, List.drop_eq_nil_of_le (by omega), Nat.add_sub_cancel_left]
  rfl

/-- The first delimiter after a text free of delimiters. -/
theorem strpbrk_append {a s accept : Bytes} {d : UInt8} (ha : ∀ b ∈ a, b ∉ accept)
    (hd : d ∈ accept) : strpbrk (a ++ d :: s) accept = some a.length := by
  induction a with
  | nil => simp [strpbrk, List.findIdx?_cons, hd]
  | cons b bs ih =>
    have hb : b ∉ accept := ha b (by simp)
    have ih := ih fun x hx => ha x (by simp [hx])
    simp only [strpbrk, List.cons_append, List.findIdx?_cons] at ih ⊢
    rw [if_neg (by simpa using hb), ih]
    rfl

theorem strchr_append {a s : Bytes} {c : UInt8} (ha : c ∉ a) :
    strchr (a ++ c :: s) c = some a.length := by
  induction a with
  | nil => simp [strchr, List.findIdx?_cons]
  | cons b bs ih =>
    have hb : ¬ b = c := fun e => ha (by simp [e])
    have ih := ih fun h => ha (by simp [h])
    simp only [strchr, List.cons_append, List.findIdx?_cons] at ih ⊢
    rw [if_neg (by simpa using hb), ih]
    rfl

/-- A prefix test against a literal that ends in its only `d`: it holds of `name d rest` exactly
when `name` is the literal's name, ignoring case. -/
theorem strncasecmp_field {name rest lit : Bytes} {d : UInt8} {n : Nat} (hn : n = lit.length + 1)
    (hd : tolower d = d) (hname : ∀ b ∈ name, tolower b ≠ d) (hlit : ∀ b ∈ lit, tolower b ≠ d) :
    strncasecmp (name ++ d :: rest) (lit ++ [d]) n = strcasecmp name lit := by
  subst hn
  have hlitN : (lit ++ [d]).take (lit.length + 1) = lit ++ [d] := by
    rw [List.take_of_length_le (by simp)]
  simp only [strncasecmp, strcasecmp, hlitN]
  rw [Bool.eq_iff_iff, beq_iff_eq, beq_iff_eq]
  induction lit generalizing name with
  | nil =>
    cases name with
    | nil => simp [lower]
    | cons b bs =>
      have hb := hname b (by simp)
      simp [lower, hd, hb]
  | cons l ls ih =>
    have hl := hlit l (by simp)
    cases name with
    | nil => simp [lower, hd, Ne.symm hl]
    | cons b bs =>
      have := ih (fun x hx => hname x (List.mem_cons_of_mem b hx)) (fun x hx => hlit x (by simp [hx]))
        (by rw [List.take_of_length_le (by simp)])
      simp only [lower, List.cons_append, List.length_cons, List.take_succ_cons, List.map_cons,
        List.cons.injEq] at this ⊢
      rw [this]

end UrlShortener
