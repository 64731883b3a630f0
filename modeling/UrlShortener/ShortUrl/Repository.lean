import UrlShortener.Base.CString
import UrlShortener.ShortUrl.Codes

/-!
# UrlShortener.ShortUrl.Repository

`ShortUrlRepository` over a MySQL whose tables are lists of rows. A statement either fails without
an effect, or is answered, or takes effect while its answer is lost.

`=` and UNIQUE on `short_code` compare by the collation of the column. `sql/001_short_url.sql`
names none, and the default one of `utf8mb4` does not tell upper from lower case, while the
alphabet of the codes has both and the router hashes bytes. A lookup still ends
at no record of another code as long as none is kept in the same table whose code the collation
takes for this one (`Shadowed`).
-/

namespace UrlShortener
namespace ShortUrl

/-- NULL for `expire_at` is the empty string. `created_at` is never read. -/
structure ShortUrlRecord where
  id : UInt64
  shortCode : Bytes
  longUrl : Bytes
  expireAt : Bytes
deriving DecidableEq

inductive CreateStatus where
  | ok
  | duplicateCode
  | dbError (error : Bytes)
deriving DecidableEq

inductive FindStatus where
  | ok (longUrl expireAt : Bytes)
  | notFound
  | expired (longUrl expireAt : Bytes)
  | dbError (error : Bytes)
deriving DecidableEq

/-- How a collation compares strings. -/
structure Collation where
  eq : Bytes → Bytes → Bool
  refl : ∀ a, eq a a = true
  symm : ∀ a b, eq a b = true → eq b a = true
  trans : ∀ a b c, eq a b = true → eq b c = true → eq a c = true

namespace Collation

/-- Byte for byte. -/
def binary : Collation where
  eq a b := decide (a = b)
  refl a := by simp
  symm a b h := by simp_all
  trans a b c h h' := by simp_all

/-- It tells any two strings apart. -/
def Bytewise (coll : Collation) : Prop := ∀ a b, coll.eq a b = true → a = b

theorem bytewise_binary : binary.Bytewise := fun _ _ h => of_decide_eq_true h

/-- ASCII letters in either case are equal, as in every `_ci` collation. -/
def ignoreCase : Collation where
  eq a b := decide (lower a = lower b)
  refl a := by simp
  symm a b h := by simp_all
  trans a b c h h' := by simp_all

end Collation

/-- What became of a statement. -/
inductive Reply where
  | answered
  | failed (error : Bytes)
  /-- It took effect, and the client was told of an error. -/
  | lost (error : Bytes)
deriving DecidableEq

/-- Rows by table name, in the order they were inserted. -/
abbrev Tables := Bytes → List ShortUrlRecord

def noConnection : Bytes := ascii "mysql connection unavailable"

section Operations

variable (coll : Collation) (router : ShardRouter)

/-- PRIMARY KEY (id), UNIQUE KEY (short_code). -/
def conflicts (record row : ShortUrlRecord) : Bool :=
  decide (row.id = record.id) || coll.eq row.shortCode record.shortCode

/-- `INSERT`: `false` for `ER_DUP_ENTRY`. -/
def insert (db : Tables) (record : ShortUrlRecord) : Tables × Bool :=
  let table := router.tableForCode record.shortCode
  if (db table).any (conflicts coll record) then (db, false)
  else (Function.update db table (db table ++ [record]), true)

/-- `mysql` says whether there is a connection at all. -/
def create (db : Tables) (mysql : Bool) (record : ShortUrlRecord) (reply : Reply) :
    Tables × CreateStatus :=
  if !mysql then (db, .dbError noConnection)
  else
    match reply with
    | .failed error => (db, .dbError error)
    | .lost error => ((insert coll router db record).1, .dbError error)
    | .answered =>
      match insert coll router db record with
      | (db, true) => (db, .ok)
      | (db, false) => (db, .duplicateCode)

/-- The row of `SELECT .. WHERE short_code = code LIMIT 1`. -/
def select (db : Tables) (code : Bytes) : Option ShortUrlRecord :=
  (db (router.tableForCode code)).find? fun row => coll.eq row.shortCode code

/-- `now` is what `NOW()` says; datetimes are compared as the text they are written in. The URL is
read as a C string, so that what follows a NUL in the column is left out. -/
def findLongUrl (db : Tables) (mysql : Bool) (code : Bytes) (now : Bytes) (reply : Reply) :
    FindStatus :=
  if !mysql then .dbError noConnection
  else
    match reply with
    | .failed error => .dbError error
    | .lost error => .dbError error
    | .answered =>
      match select coll router db code with
      | none => .notFound
      | some row =>
        -- `std::string url = row[0]`
        let longUrl := cString row.longUrl
        if row.expireAt ≠ [] ∧ row.expireAt ≤ now then .expired longUrl row.expireAt
        else .ok longUrl row.expireAt

/-- One call of `create`. -/
structure Create where
  mysql : Bool := true
  record : ShortUrlRecord
  reply : Reply := .answered

def Tables.step (db : Tables) (c : Create) : Option Tables :=
  some (create coll router db c.mysql c.record c.reply).1

end Operations

/-! ## What the tables keep -/

variable {coll : Collation} {router : ShardRouter} {db db' : Tables} {record : ShortUrlRecord}

structure Keyed (coll : Collation) (router : ShardRouter) (db : Tables) : Prop where
  /-- Every row is where its code is looked up. -/
  routed : ∀ table, ∀ row ∈ db table, router.tableForCode row.shortCode = table
  unique : ∀ table, (db table).Pairwise fun a b => coll.eq a.shortCode b.shortCode = false

theorem create_ok {mysql : Bool} {reply : Reply}
    (h : create coll router db mysql record reply = (db', .ok)) :
    insert coll router db record = (db', true) := by
  unfold create at h
  split at h
  · cases h
  · cases reply with
    | failed error => cases h
    | lost error => cases h
    | answered =>
      rcases hins : insert coll router db record with ⟨db₁, ok⟩
      rw [hins] at h
      cases ok with
      | true =>
        cases h
        rfl
      | false => cases h

theorem create_duplicateCode {mysql : Bool} {reply : Reply}
    (h : create coll router db mysql record reply = (db', .duplicateCode)) : db' = db := by
  unfold create at h
  split at h
  · cases h
  · cases reply with
    | failed error => cases h
    | lost error => cases h
    | answered =>
      simp only [insert] at h
      split at h
      · cases h
      · rename_i hins
        split at hins
        · cases hins
          cases h
          rfl
        · cases hins

theorem keyed_empty : Keyed coll router fun _ => [] := ⟨by simp, by simp⟩

theorem Keyed.insert (h : Keyed coll router db) (record : ShortUrlRecord) :
    Keyed coll router (insert coll router db record).1 := by
  simp only [ShortUrl.insert, apply_ite Prod.fst]
  split
  · exact h
  · rename_i hnew
    have hnew : ∀ row ∈ db (router.tableForCode record.shortCode),
        coll.eq row.shortCode record.shortCode = false := by
      intro row hrow
      by_contra heq
      rw [Bool.not_eq_false] at heq
      exact hnew (List.any_eq_true.mpr ⟨row, hrow, by simp [conflicts, heq]⟩)
    constructor
    · intro table row hrow
      by_cases ht : table = router.tableForCode record.shortCode
      · subst ht
        rw [Function.update_self, List.mem_append, List.mem_singleton] at hrow
        rcases hrow with hrow | rfl
        · exact h.routed _ row hrow
        · rfl
      · rw [Function.update_of_ne ht] at hrow
        exact h.routed table row hrow
    · intro table
      by_cases ht : table = router.tableForCode record.shortCode
      · subst ht
        rw [Function.update_self, List.pairwise_append]
        refine ⟨h.unique _, by simp, ?_⟩
        intro a ha b hb
        rw [List.mem_singleton] at hb
        exact hb ▸ hnew a ha
      · rw [Function.update_of_ne ht]
        exact h.unique table

theorem Keyed.step {c : Create} (h : Keyed coll router db)
    (hs : Tables.step coll router db c = some db') : Keyed coll router db' := by
  cases hs
  unfold create
  split
  · exact h
  · cases c.reply with
    | failed error => exact h
    | lost error => exact h.insert c.record
    | answered =>
      have hins := h.insert c.record
      rcases he : ShortUrl.insert coll router db c.record with ⟨db', ok⟩
      rw [he] at hins
      cases ok <;> exact hins

theorem keyed_run {cs : List Create}
    (hr : Machine.run (Tables.step coll router) (fun _ => []) cs = some db) :
    Keyed coll router db :=
  Machine.run_preserves (Tables.step coll router) (fun _ _ _ h hs => h.step hs) keyed_empty hr

/-- A row is found by every code that the collation takes for its own. -/
theorem Keyed.select_eq (h : Keyed coll router db) {row : ShortUrlRecord} {code : Bytes}
    (hrow : row ∈ db (router.tableForCode code)) (heq : coll.eq row.shortCode code = true) :
    select coll router db code = some row := by
  have hu := h.unique (router.tableForCode code)
  unfold select
  generalize db (router.tableForCode code) = rows at hrow hu
  induction rows with
  | nil => cases hrow
  | cons r rows ih =>
    rw [List.pairwise_cons] at hu
    rcases List.mem_cons.mp hrow with rfl | hmem
    · exact List.find?_cons_of_pos (p := fun row : ShortUrlRecord => coll.eq row.shortCode code) heq
    · have hne : ¬ coll.eq r.shortCode code = true := by
        intro hr
        have hboth := coll.trans _ _ _ hr (coll.symm _ _ heq)
        rw [hu.1 row hmem] at hboth
        cases hboth
      rw [List.find?_cons_of_neg (p := fun row : ShortUrlRecord => coll.eq row.shortCode code) hne]
      exact ih hmem hu.2

theorem select_some {row : ShortUrlRecord} {code : Bytes}
    (h : select coll router db code = some row) :
    row ∈ db (router.tableForCode code) ∧ coll.eq row.shortCode code = true :=
  ⟨List.mem_of_find?_eq_some h,
    List.find?_some (p := fun row : ShortUrlRecord => coll.eq row.shortCode code) h⟩

/-! ## Lookups that stay with their code -/

/-- The record is in some table. -/
def Stored (db : Tables) (row : ShortUrlRecord) : Prop := ∃ table, row ∈ db table

/-- A row of the code's table has another code that the collation takes for this one. -/
def Shadowed (coll : Collation) (router : ShardRouter) (db : Tables) (code : Bytes) : Prop :=
  ∃ row ∈ db (router.tableForCode code), coll.eq row.shortCode code = true ∧ row.shortCode ≠ code

instance (coll : Collation) (router : ShardRouter) (db : Tables) (code : Bytes) :
    Decidable (Shadowed coll router db code) :=
  inferInstanceAs (Decidable (∃ row ∈ db (router.tableForCode code), _ ∧ _))

/-- `find_long_url(code)` returns Ok or Expired only with a record of that very code. -/
def FindsOwn (coll : Collation) (router : ShardRouter) (db : Tables) (code : Bytes) : Prop :=
  ∀ mysql now reply longUrl expireAt,
    (findLongUrl coll router db mysql code now reply = .ok longUrl expireAt ∨
      findLongUrl coll router db mysql code now reply = .expired longUrl expireAt) →
    ∃ row, Stored db row ∧ row.shortCode = code ∧ cString row.longUrl = longUrl ∧
      row.expireAt = expireAt

/-- A record with this id or with this very code is stored. -/
def Taken (db : Tables) (record : ShortUrlRecord) : Prop :=
  ∃ row, Stored db row ∧ (row.id = record.id ∨ row.shortCode = record.shortCode)

/-- `create(record)` returns DuplicateCode only for a record that is taken. -/
def DuplicateOwn (coll : Collation) (router : ShardRouter) (db : Tables)
    (record : ShortUrlRecord) : Prop :=
  ∀ mysql reply, (create coll router db mysql record reply).2 = .duplicateCode → Taken db record

/-- What a lookup that is answered says of the row it selects. -/
theorem findLongUrl_answered (row : ShortUrlRecord) {code : Bytes} (now : Bytes)
    (h : select coll router db code = some row) :
    findLongUrl coll router db true code now .answered = .ok (cString row.longUrl) row.expireAt ∨
      findLongUrl coll router db true code now .answered =
        .expired (cString row.longUrl) row.expireAt := by
  simp only [findLongUrl, h, Bool.not_true, Bool.false_eq_true, if_false]
  split
  · exact Or.inr rfl
  · exact Or.inl rfl

theorem findLongUrl_some {code now longUrl expireAt : Bytes} {mysql : Bool} {reply : Reply}
    (h : findLongUrl coll router db mysql code now reply = .ok longUrl expireAt ∨
      findLongUrl coll router db mysql code now reply = .expired longUrl expireAt) :
    ∃ row, select coll router db code = some row ∧ cString row.longUrl = longUrl ∧
      row.expireAt = expireAt := by
  unfold findLongUrl at h
  cases mysql with
  | false => simp at h
  | true =>
    cases reply with
    | failed error => simp at h
    | lost error => simp at h
    | answered =>
      cases hsel : select coll router db code with
      | none => simp [hsel] at h
      | some row =>
        simp only [hsel, Bool.not_true, Bool.false_eq_true, if_false] at h
        split at h
        · simp only [reduceCtorEq, false_or, FindStatus.expired.injEq] at h
          exact ⟨row, rfl, h⟩
        · simp only [reduceCtorEq, or_false, FindStatus.ok.injEq] at h
          exact ⟨row, rfl, h⟩

theorem Keyed.findsOwn_iff (h : Keyed coll router db) (code : Bytes) :
    FindsOwn coll router db code ↔ ¬ Shadowed coll router db code := by
  constructor
  · rintro hown ⟨row, hrow, heq, hne⟩
    have hsel := h.select_eq hrow heq
    obtain ⟨own, ⟨table, htable⟩, hcode, -⟩ :=
      hown true [] .answered _ _ (findLongUrl_answered row [] hsel)
    -- the record of this code would have been selected instead
    have hown := h.routed table own htable
    rw [hcode] at hown
    have hself : coll.eq own.shortCode code = true := hcode ▸ coll.refl code
    have hsel' := h.select_eq (hown ▸ htable) hself
    rw [hsel] at hsel'
    cases hsel'
    exact hne hcode
  · intro hnot mysql now reply longUrl expireAt hfound
    obtain ⟨row, hsel, hurl, hexp⟩ := findLongUrl_some hfound
    obtain ⟨hrow, heq⟩ := select_some hsel
    have hcode : row.shortCode = code := by
      by_contra hne
      exact hnot ⟨row, hrow, heq, hne⟩
    exact ⟨row, ⟨_, hrow⟩, hcode, hurl, hexp⟩

theorem create_duplicate {mysql : Bool} {reply : Reply}
    (h : (create coll router db mysql record reply).2 = .duplicateCode) :
    ∃ row ∈ db (router.tableForCode record.shortCode), conflicts coll record row = true := by
  unfold create at h
  cases mysql with
  | false => simp at h
  | true =>
    cases reply with
    | failed error => simp at h
    | lost error => simp at h
    | answered =>
      by_contra hnone
      have hany : (db (router.tableForCode record.shortCode)).any (conflicts coll record) = false := by
        rw [← Bool.not_eq_true, List.any_eq_true]
        exact hnone
      simp [insert, hany] at h

theorem duplicateOwn_iff :
    DuplicateOwn coll router db record ↔
      Taken db record ∨ ¬ Shadowed coll router db record.shortCode := by
  constructor
  · intro hown
    by_cases hs : Shadowed coll router db record.shortCode
    · refine Or.inl (hown true .answered ?_)
      obtain ⟨row, hrow, heq, -⟩ := hs
      have hany : (db (router.tableForCode record.shortCode)).any (conflicts coll record) = true :=
        List.any_eq_true.mpr ⟨row, hrow, by simp [conflicts, heq]⟩
      simp [create, insert, hany]
    · exact Or.inr hs
  · rintro (htaken | hnot) mysql reply hdup
    · exact htaken
    · obtain ⟨row, hrow, hc⟩ := create_duplicate hdup
      simp only [conflicts, Bool.or_eq_true, decide_eq_true_eq] at hc
      refine ⟨row, ⟨_, hrow⟩, hc.imp_right fun heq => ?_⟩
      by_contra hne
      exact hnot ⟨row, hrow, heq, hne⟩

/-- **When codes are kept apart.** After any creates, a lookup stays with its code exactly as long
as no record in the same table has another code that the collation takes for it; and a create is
turned away wrongly exactly if there is such a record, and neither its id nor its code is taken. -/
theorem find_own_iff (coll : Collation) (router : ShardRouter) (cs : List Create) (db : Tables)
    (hr : Machine.run (Tables.step coll router) (fun _ => []) cs = some db) :
    (∀ code, FindsOwn coll router db code ↔ ¬ Shadowed coll router db code) ∧
      ∀ record, DuplicateOwn coll router db record ↔
        Taken db record ∨ ¬ Shadowed coll router db record.shortCode :=
  ⟨(keyed_run hr).findsOwn_iff, fun _ => duplicateOwn_iff⟩

/-- A record whose code is that of its id. -/
def minted (id : UInt64) : Create := { record := ⟨id, base62Encode id, ascii "http://x.org/", []⟩ }

theorem find_own_iff_apart : ∃ db,
    Machine.run (Tables.step .ignoreCase { enabled := true }) (fun _ => [])
        [minted 10, minted 11] = some db ∧
      ¬ Shadowed .ignoreCase { enabled := true } db (base62Encode 11) ∧
        FindsOwn .ignoreCase { enabled := true } db (base62Encode 11) := by
  have hrun : (Machine.run (Tables.step .ignoreCase { enabled := true }) (fun _ => [])
      [minted 10, minted 11]).any
        (fun db => decide (¬ Shadowed .ignoreCase { enabled := true } db (base62Encode 11))) = true := by
    decide +kernel
  obtain ⟨db, hr, hnot⟩ := (Option.any_eq_true _ _).mp hrun
  have hnot := of_decide_eq_true hnot
  exact ⟨db, hr, hnot, ((find_own_iff .ignoreCase { enabled := true } _ db hr).1 _).mpr hnot⟩

/-- No lookup and no create ever takes one code for another. -/
def KeepsApart (coll : Collation) (router : ShardRouter) : Prop :=
  ∀ cs db, Machine.run (Tables.step coll router) (fun _ => []) cs = some db →
    (∀ code, FindsOwn coll router db code) ∧ ∀ record, DuplicateOwn coll router db record

theorem not_keepsApart {cs : List Create} {code : Bytes}
    (h : (Machine.run (Tables.step coll router) (fun _ => []) cs).any
      (fun db => decide (Shadowed coll router db code)) = true) : ¬ KeepsApart coll router := by
  intro hall
  obtain ⟨db, hr, hs⟩ := (Option.any_eq_true _ _).mp h
  exact ((keyed_run hr).findsOwn_iff code).mp ((hall cs db hr).1 code) (of_decide_eq_true hs)

/-- The ids 10 and 36 have the codes `a` and `A`. Without shards or with the default 16, once the
first is created a lookup of the second ends at it. -/
theorem find_own_fails :
    ¬ KeepsApart .ignoreCase {} ∧ ¬ KeepsApart .ignoreCase { enabled := true } := by
  constructor
  · refine @not_keepsApart _ _ [minted 10] (base62Encode 36) ?_
    decide +kernel
  · refine @not_keepsApart _ _ [minted 10] (base62Encode 36) ?_
    decide +kernel

/-! ## What is stored for a code -/

section Lookup

open LocalCache (EntryView)

variable {c : Bytes}

def ShortUrlRecord.view (row : ShortUrlRecord) : EntryView := ⟨cString row.longUrl, row.expireAt⟩

/-- What is stored for a code. -/
def lookup (coll : Collation) (router : ShardRouter) (db : Tables) (c : Bytes) : Option EntryView :=
  (select coll router db c).map ShortUrlRecord.view

theorem stored_of_lookup {v : EntryView} (h : lookup coll router db c = some v) :
    ∃ row, Stored db row ∧ coll.eq row.shortCode c = true ∧ row.view = v := by
  obtain ⟨row, hsel, rfl⟩ := Option.map_eq_some_iff.mp h
  obtain ⟨hmem, heq⟩ := select_some hsel
  exact ⟨row, ⟨_, hmem⟩, heq, rfl⟩

theorem not_stored_of_lookup (hk : Keyed coll router db) (h : lookup coll router db c = none)
    (row : ShortUrlRecord) (hs : Stored db row) : row.shortCode ≠ c := by
  rintro rfl
  obtain ⟨table, hmem⟩ := hs
  have hroute := hk.routed table row hmem
  have hsel := hk.select_eq (hroute ▸ hmem) (coll.refl _)
  rw [lookup, hsel] at h
  cases h

/-- A lookup of `c` ends at the record as soon as it is stored. -/
def Matches (coll : Collation) (router : ShardRouter) (record : ShortUrlRecord) (c : Bytes) :
    Prop :=
  router.tableForCode c = router.tableForCode record.shortCode ∧
    coll.eq record.shortCode c = true

instance (coll : Collation) (router : ShardRouter) (record : ShortUrlRecord) (c : Bytes) :
    Decidable (Matches coll router record c) :=
  inferInstanceAs (Decidable (_ ∧ _))

theorem matches_self : Matches coll router record record.shortCode := ⟨rfl, coll.refl _⟩

theorem Collation.Bytewise.of_matches (hbytes : coll.Bytewise) (h : Matches coll router record c) :
    c = record.shortCode :=
  (hbytes _ _ h.2).symm

/-- An insert that goes through had nothing stored for the codes it answers from now on. -/
theorem select_of_insert (h : insert coll router db record = (db', true))
    (hc : Matches coll router record c) : select coll router db c = none := by
  simp only [insert] at h
  split at h
  · cases h
  · rename_i hnew
    rw [select, List.find?_eq_none]
    intro row hrow heq
    rw [hc.1] at hrow
    have hboth := coll.trans _ _ _ heq (coll.symm _ _ hc.2)
    exact hnew (List.any_eq_true.mpr ⟨row, hrow, by simp [conflicts, hboth]⟩)

theorem select_insert (h : insert coll router db record = (db', true)) (c : Bytes) :
    select coll router db' c =
      if Matches coll router record c then some record else select coll router db c := by
  have hnone : Matches coll router record c → select coll router db c = none := select_of_insert h
  simp only [insert] at h
  split at h
  · cases h
  · cases h
    by_cases ht : router.tableForCode c = router.tableForCode record.shortCode
    · have happend : select coll router (Function.update db (router.tableForCode record.shortCode)
          (db (router.tableForCode record.shortCode) ++ [record])) c =
          (select coll router db c).or
            ([record].find? fun row => coll.eq row.shortCode c) := by
        rw [select, select, ht, Function.update_self, List.find?_append]
      rw [happend]
      by_cases heq : coll.eq record.shortCode c = true
      · rw [if_pos ⟨ht, heq⟩, hnone ⟨ht, heq⟩, Option.none_or]
        exact List.find?_cons_of_pos (p := fun row : ShortUrlRecord => coll.eq row.shortCode c) heq
      · rw [if_neg fun hc => heq hc.2,
          List.find?_cons_of_neg (p := fun row : ShortUrlRecord => coll.eq row.shortCode c) heq,
          List.find?_nil, Option.or_none]
    · rw [if_neg fun hc => ht hc.1, select, Function.update_of_ne ht, select]

theorem lookup_insert (h : insert coll router db record = (db', true)) (c : Bytes) :
    lookup coll router db' c =
      if Matches coll router record c then some record.view else lookup coll router db c := by
  rw [lookup, select_insert h]
  split
  · rfl
  · rfl

theorem lookup_insert_self (h : insert coll router db record = (db', true)) :
    lookup coll router db' record.shortCode = some record.view := by
  rw [lookup_insert h, if_pos matches_self]

theorem lookup_of_insert (h : insert coll router db record = (db', true))
    (hc : Matches coll router record c) : lookup coll router db c = none := by
  rw [lookup, select_of_insert h hc]
  rfl

/-- What is stored stays. -/
theorem lookup_insert_of_some (h : insert coll router db record = (db', true)) {v : EntryView}
    (hc : lookup coll router db c = some v) : lookup coll router db' c = some v := by
  rw [lookup_insert h, if_neg ?_]
  · exact hc
  · intro hm
    rw [lookup_of_insert h hm] at hc
    cases hc

/-- A lookup of `c` ends at the row of `c` itself, and this is what it says. -/
def Owns (coll : Collation) (router : ShardRouter) (db : Tables) (c : Bytes) (v : EntryView) :
    Prop :=
  ∃ row, select coll router db c = some row ∧ row.shortCode = c ∧ row.view = v

theorem Owns.lookup {v : EntryView} (h : Owns coll router db c v) :
    lookup coll router db c = some v := by
  obtain ⟨row, hsel, -, rfl⟩ := h
  rw [ShortUrl.lookup, hsel]
  rfl

theorem Owns.insert {v : EntryView} (h : Owns coll router db c v)
    (hins : insert coll router db record = (db', true)) : Owns coll router db' c v := by
  obtain ⟨row, hsel, hrow⟩ := h
  refine ⟨row, ?_, hrow⟩
  rw [select_insert hins, if_neg ?_]
  · exact hsel
  · intro hm
    rw [select_of_insert hins hm] at hsel
    cases hsel

theorem owns_insert_self (hins : insert coll router db record = (db', true)) :
    Owns coll router db' record.shortCode record.view :=
  ⟨record, by rw [select_insert hins, if_pos matches_self], rfl, rfl⟩

theorem stored_insert (h : insert coll router db record = (db', true)) {row : ShortUrlRecord}
    (hs : Stored db' row) : Stored db row ∨ row = record := by
  simp only [insert] at h
  split at h
  · cases h
  · cases h
    obtain ⟨table, hmem⟩ := hs
    by_cases ht : table = router.tableForCode record.shortCode
    · subst ht
      rw [Function.update_self, List.mem_append, List.mem_singleton] at hmem
      exact hmem.imp_left fun hm => ⟨_, hm⟩
    · rw [Function.update_of_ne ht] at hmem
      exact Or.inl ⟨table, hmem⟩

/-- A lookup says what is stored, or that there was an error. -/
theorem findLongUrl_cases (mysql : Bool) (c now : Bytes) (reply : Reply) :
    (∃ error, findLongUrl coll router db mysql c now reply = .dbError error) ∨
      (lookup coll router db c = none ∧
        findLongUrl coll router db mysql c now reply = .notFound) ∨
      ∃ v, lookup coll router db c = some v ∧
        findLongUrl coll router db mysql c now reply =
          if LocalCache.isBusinessExpired v.expireAt now then .expired v.longUrl v.expireAt
          else .ok v.longUrl v.expireAt := by
  unfold findLongUrl
  cases mysql with
  | false => exact Or.inl ⟨_, rfl⟩
  | true =>
    cases reply with
    | failed error => exact Or.inl ⟨error, rfl⟩
    | lost error => exact Or.inl ⟨error, rfl⟩
    | answered =>
      refine Or.inr ?_
      cases hsel : select coll router db c with
      | none => exact Or.inl ⟨by simp [lookup, hsel], by simp⟩
      | some row =>
        refine Or.inr ⟨row.view, by simp [lookup, hsel], ?_⟩
        by_cases hne : row.expireAt = []
        · simp [hne, LocalCache.isBusinessExpired, ShortUrlRecord.view]
        · by_cases hle : row.expireAt ≤ now
          · simp [hne, hle, LocalCache.isBusinessExpired, ShortUrlRecord.view]
          · simp [hne, hle, LocalCache.isBusinessExpired, ShortUrlRecord.view]

end Lookup

end ShortUrl
end UrlShortener
