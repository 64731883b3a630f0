import UrlShortener.ShortUrl.LocalCache

/-!
# UrlShortener.ShortUrl.RedisCodec

What Redis holds for a code: the key, and the value `v1\n<expire_at>\n<long_url>`.
-/

namespace UrlShortener
namespace ShortUrl

open LocalCache (EntryView isBusinessExpired)

def cacheKey (code : Bytes) : Bytes := ascii "shorturl:" ++ code

theorem cacheKey_injective {a b : Bytes} (h : cacheKey a = cacheKey b) : a = b :=
  List.append_cancel_left h

def encodeRedisValue (v : EntryView) : Bytes :=
  ascii "v1\n" ++ v.expireAt ++ [LF] ++ v.longUrl

def decodeRedisValue (raw : Bytes) : Option EntryView :=
  if raw.take 3 ≠ ascii "v1\n" then none
  else ((raw.drop 3).findIdx? fun b => decide (b = LF)).map fun second =>
    { expireAt := (raw.drop 3).take second, longUrl := (raw.drop 3).drop (second + 1) }

/-- What `interpret_redis_payload` makes of a value. -/
inductive Payload where
  | hit (v : EntryView)
  | expired (v : EntryView)
  | miss
deriving DecidableEq

def interpretRedisPayload (raw wall : Bytes) : Payload :=
  match decodeRedisValue raw with
  | none => .miss
  | some v => if isBusinessExpired v.expireAt wall then .expired v else .hit v

theorem findIdx?_before {a b : Bytes} (h : LF ∉ a) :
    (a ++ LF :: b).findIdx? (fun x => decide (x = LF)) = some a.length := by
  induction a with
  | nil => simp [List.findIdx?_cons]
  | cons x a ih =>
    have hx : x ≠ LF := fun he => h (he ▸ List.mem_cons_self)
    have ha : LF ∉ a := fun hm => h (List.mem_cons_of_mem x hm)
    simp [List.findIdx?_cons, hx, ih ha]

/-- A value is read back as it was written if the expiry has no line feed. -/
theorem decode_encode {v : EntryView} (h : LF ∉ v.expireAt) :
    decodeRedisValue (encodeRedisValue v) = some v := by
  have hlen : (ascii "v1\n").length = 3 := by decide
  have hsplit : encodeRedisValue v = ascii "v1\n" ++ (v.expireAt ++ LF :: v.longUrl) := by
    simp [encodeRedisValue]
  have htake : (encodeRedisValue v).take 3 = ascii "v1\n" := by
    rw [hsplit, ← hlen, List.take_left]
  have hdrop : (encodeRedisValue v).drop 3 = v.expireAt ++ LF :: v.longUrl := by
    rw [hsplit, ← hlen, List.drop_left]
  rw [decodeRedisValue, if_neg (by simp [htake]), hdrop, findIdx?_before h]
  simp

/-! ## Which values are read -/

/-- `raw` is a value that `encode_redis_value` writes, with an expiry without a line feed. -/
structure Encodes (raw : Bytes) (v : EntryView) : Prop where
  expiry : LF ∉ v.expireAt
  raw : raw = encodeRedisValue v

/-- The first line feed cuts a text in two. -/
theorem findIdx?_some {s : Bytes} {k : Nat} (h : s.findIdx? (fun x => decide (x = LF)) = some k) :
    s = s.take k ++ LF :: s.drop (k + 1) ∧ LF ∉ s.take k := by
  induction s generalizing k with
  | nil => cases h
  | cons x s ih =>
    rw [List.findIdx?_cons] at h
    by_cases hx : x = LF
    · rw [if_pos (decide_eq_true hx)] at h
      cases h
      exact ⟨by rw [hx]; rfl, List.not_mem_nil⟩
    · rw [if_neg (by simpa using hx)] at h
      obtain ⟨j, hj, rfl⟩ := Option.map_eq_some_iff.mp h
      obtain ⟨hsplit, hmem⟩ := ih hj
      refine ⟨congrArg (x :: ·) hsplit, ?_⟩
      rw [List.take_succ_cons, List.mem_cons, not_or]
      exact ⟨Ne.symm hx, hmem⟩

/-- **The decoder undoes the encoder and nothing else.** -/
theorem decode_iff {raw : Bytes} {v : EntryView} :
    decodeRedisValue raw = some v ↔ Encodes raw v := by
  constructor
  · intro h
    unfold decodeRedisValue at h
    split at h
    · cases h
    · rename_i htake
      obtain ⟨second, hsecond, rfl⟩ := Option.map_eq_some_iff.mp h
      obtain ⟨hsplit, hmem⟩ := findIdx?_some hsecond
      refine ⟨hmem, ?_⟩
      calc raw = raw.take 3 ++ raw.drop 3 := (List.take_append_drop 3 raw).symm
        _ = ascii "v1\n" ++ ((raw.drop 3).take second ++ LF :: (raw.drop 3).drop (second + 1)) := by
          rw [← hsplit, not_not.mp htake]
        _ = _ := by simp [encodeRedisValue]
  · rintro ⟨hexpiry, rfl⟩
    exact decode_encode hexpiry

theorem Encodes.unique {raw : Bytes} {v w : EntryView} (h : Encodes raw v) (h' : Encodes raw w) :
    v = w := Option.some.inj ((decode_iff.mpr h).symm.trans (decode_iff.mpr h'))

theorem isBusinessExpired_iff {expireAt wall : Bytes} :
    isBusinessExpired expireAt wall = true ↔ expireAt ≠ [] ∧ expireAt ≤ wall := by
  unfold isBusinessExpired
  split
  · rename_i hnil
    simp [hnil]
  · rename_i hne
    simp [hne]

/-- What `interpret_redis_payload` says, by what the value encodes. -/
theorem interpret_eq {raw wall : Bytes} :
    (∀ v, interpretRedisPayload raw wall = .hit v ↔
      Encodes raw v ∧ (v.expireAt = [] ∨ wall < v.expireAt)) ∧
    (∀ v, interpretRedisPayload raw wall = .expired v ↔
      Encodes raw v ∧ v.expireAt ≠ [] ∧ v.expireAt ≤ wall) ∧
    (interpretRedisPayload raw wall = .miss ↔ ¬ ∃ v, Encodes raw v) := by
  unfold interpretRedisPayload
  cases hdecode : decodeRedisValue raw with
  | none =>
    have hno : ∀ v, ¬ Encodes raw v := fun v hv => by
      rw [decode_iff.mpr hv] at hdecode
      cases hdecode
    exact ⟨fun v => iff_of_false (by simp) fun h => hno v h.1,
      fun v => iff_of_false (by simp) fun h => hno v h.1, iff_of_true rfl fun ⟨v, hv⟩ => hno v hv⟩
  | some w =>
    have hw : Encodes raw w := decode_iff.mp hdecode
    have hlive : ¬ (w.expireAt ≠ [] ∧ w.expireAt ≤ wall) ↔ w.expireAt = [] ∨ wall < w.expireAt := by
      rw [not_and_or, not_not, List.not_le]
    simp only
    by_cases hexpired : isBusinessExpired w.expireAt wall = true
    · rw [if_pos hexpired]
      have hdue := isBusinessExpired_iff.mp hexpired
      refine ⟨fun v => iff_of_false (by simp) ?_, fun v => ?_,
        iff_of_false (by simp) fun h => h ⟨w, hw⟩⟩
      · rintro ⟨hv, hwait⟩
        rw [hv.unique hw, ← hlive] at hwait
        exact hwait hdue
      · constructor
        · intro h
          cases h
          exact ⟨hw, hdue⟩
        · rintro ⟨hv, -⟩
          rw [hv.unique hw]
    · rw [if_neg hexpired]
      have hwait := hlive.mp fun h => hexpired (isBusinessExpired_iff.mpr h)
      refine ⟨fun v => ?_, fun v => iff_of_false (by simp) ?_,
        iff_of_false (by simp) fun h => h ⟨w, hw⟩⟩
      · constructor
        · intro h
          cases h
          exact ⟨hw, hwait⟩
        · rintro ⟨hv, -⟩
          rw [hv.unique hw]
      · rintro ⟨hv, hdue⟩
        rw [hv.unique hw] at hdue
        exact hlive.mpr hwait hdue

/-- **The payload codec.** Pairs come back from what was written; whatever else Redis holds is a
miss, and what is read is a hit until its expiry. -/
theorem redis_codec :
    (∀ v, LF ∉ v.expireAt → decodeRedisValue (encodeRedisValue v) = some v) ∧
    (∀ v w, LF ∉ v.expireAt → LF ∉ w.expireAt → encodeRedisValue v = encodeRedisValue w → v = w) ∧
    (∀ raw, (decodeRedisValue raw).isSome = true ↔ ∃! v, Encodes raw v) ∧
    ∀ raw wall,
      (∀ v, interpretRedisPayload raw wall = .hit v ↔
        Encodes raw v ∧ (v.expireAt = [] ∨ wall < v.expireAt)) ∧
      (∀ v, interpretRedisPayload raw wall = .expired v ↔
        Encodes raw v ∧ v.expireAt ≠ [] ∧ v.expireAt ≤ wall) ∧
      (interpretRedisPayload raw wall = .miss ↔ ¬ ∃ v, Encodes raw v) := by
  refine ⟨fun v hv => decode_encode hv, fun v w hv hw he => ?_, fun raw => ?_, fun raw wall => interpret_eq⟩
  · exact Encodes.unique ⟨hv, rfl⟩ ⟨hw, he⟩
  · rw [Option.isSome_iff_exists]
    constructor
    · rintro ⟨v, hv⟩
      have hencodes := decode_iff.mp hv
      exact ⟨v, hencodes, fun w hw => Encodes.unique hw hencodes⟩
    · rintro ⟨v, hv, -⟩
      exact ⟨v, decode_iff.mpr hv⟩

end ShortUrl
end UrlShortener
