import UrlShortener.Base.JsonRoundTrip
import UrlShortener.ShortUrl.Repository

/-!
# UrlShortener.ShortUrl.Sharding

The tables of `ShardRouter`. `route_for_code` finds the one of a code by hashing, dividing and
taking a remainder; `all_routes` lists them all in two nested loops. Both number the tables the
same way (`allRoutes_eq`), and different tables have different names, however long the decimal
indices in them become.
-/

namespace UrlShortener
namespace ShortUrl

open JsonText (isDigit ofDigits)

/-! ## Names -/

/-- The index in a name: at least two digits. -/
def paddedDecimal (index : Nat) : Bytes :=
  if index < 10 then ascii "0" ++ toDecimal index else toDecimal index

theorem paddedDecimal_isDigit (index : Nat) : ∀ b ∈ paddedDecimal index, isDigit b = true := by
  intro b hb
  unfold paddedDecimal at hb
  split at hb
  · rcases List.mem_append.mp hb with hb | hb
    · obtain rfl : b = 0x30 := List.mem_singleton.mp hb
      rfl
    · exact JsonText.toDecimal_isDigit index b hb
  · exact JsonText.toDecimal_isDigit index b hb

/-- The zero in front does not change the number. -/
theorem ofDigits_paddedDecimal (index : Nat) : ofDigits (paddedDecimal index) = index := by
  unfold paddedDecimal
  split
  · exact JsonText.ofDigits_toDecimal index
  · exact JsonText.ofDigits_toDecimal index

/-- A run of digits is cut off by the first byte that is none. -/
theorem digits_append_inj {ds ds' r r' : Bytes} {b : UInt8} (hds : ∀ d ∈ ds, isDigit d = true)
    (hds' : ∀ d ∈ ds', isDigit d = true) (hb : isDigit b = false)
    (h : ds ++ b :: r = ds' ++ b :: r') : ds = ds' ∧ r = r' := by
  have hcut : ∀ (ds r : Bytes), (∀ d ∈ ds, isDigit d = true) →
      (ds ++ b :: r).takeWhile isDigit = ds := by
    intro ds r hds
    rw [List.takeWhile_append_of_pos hds, List.takeWhile_cons_of_neg (by simp [hb]), List.append_nil]
  obtain rfl : ds = ds' := by rw [← hcut ds r hds, h, hcut ds' r' hds']
  have htail := List.append_cancel_left h
  exact ⟨rfl, (List.cons.inj htail).2⟩

/-! ## Two nested loops -/

/-- The number of a pair gives the pair back. -/
theorem div_mod_pair {m n j : Nat} (hj : j < n) : (m * n + j) / n = m ∧ (m * n + j) % n = j := by
  rw [Nat.div_mod_unique (Nat.zero_lt_of_lt hj), Nat.mul_comm n m, Nat.add_comm]
  exact ⟨rfl, hj⟩

/-- Two nested loops run through the numbers below the product. -/
theorem range_mul_flatMap {α : Type} (f : Nat → Nat → α) (m n : Nat) :
    ((List.range m).flatMap fun i => (List.range n).map fun j => f i j) =
      (List.range (m * n)).map fun b => f (b / n) (b % n) := by
  induction m with
  | zero => simp
  | succ m ih =>
    rw [List.range_succ, List.flatMap_append, ih, Nat.succ_mul, List.range_add, List.map_append,
      List.map_map, List.flatMap_singleton]
    congr 1
    apply List.map_congr_left
    intro j hj
    obtain ⟨hdiv, hmod⟩ := div_mod_pair (m := m) (List.mem_range.mp hj)
    simp only [Function.comp_apply, hdiv, hmod]

namespace ShardRouter

theorem formatName_eq (start : Bytes) (index : Nat) :
    formatName start index = start ++ paddedDecimal index := rfl

/-- The indices can be read off a qualified name. -/
theorem qualified_inj {databasePrefixed tablePrefixed : Bytes} {db db' table table' : Nat}
    (h : qualified (formatName databasePrefixed db) (formatName tablePrefixed table) =
      qualified (formatName databasePrefixed db') (formatName tablePrefixed table')) :
    db = db' ∧ table = table' := by
  have hquote : isDigit 0x60 = false := rfl
  have htick : ascii "\x60" = [0x60] := rfl
  have hdot : ascii "\x60.\x60" = [0x60, 0x2E, 0x60] := rfl
  simp only [qualified, formatName_eq, htick, hdot, List.append_assoc, List.cons_append,
    List.nil_append, List.cons.injEq, List.append_cancel_left_eq, true_and] at h
  obtain ⟨hdb, h⟩ := digits_append_inj (paddedDecimal_isDigit db) (paddedDecimal_isDigit db') hquote h
  simp only [List.cons.injEq, List.append_cancel_left_eq, true_and] at h
  obtain ⟨htable, -⟩ :=
    digits_append_inj (paddedDecimal_isDigit table) (paddedDecimal_isDigit table') hquote h
  constructor
  · rw [← ofDigits_paddedDecimal db, hdb, ofDigits_paddedDecimal]
  · rw [← ofDigits_paddedDecimal table, htable, ofDigits_paddedDecimal]

/-! ## The routes -/

/-- `all_routes`. -/
def allRoutes (router : ShardRouter) : List ShardRoute :=
  (List.range router.databaseCount).flatMap fun databaseIndex =>
    (List.range router.tableCount).map fun tableIndex => router.route databaseIndex tableIndex

/-- How `route_for_code` reads a bucket. -/
def routeForBucket (router : ShardRouter) (bucket : Nat) : ShardRoute :=
  router.route (bucket / router.tableCount) (bucket % router.tableCount)

variable (router : ShardRouter)

theorem allRoutes_eq : router.allRoutes =
    (List.range (router.databaseCount * router.tableCount)).map router.routeForBucket :=
  range_mul_flatMap router.route _ _

theorem length_allRoutes :
    router.allRoutes.length = router.databaseCount * router.tableCount := by
  rw [allRoutes_eq, List.length_map, List.length_range]

variable {router}

theorem routeForBucket_inj {b b' : Nat}
    (h : (router.routeForBucket b).qualifiedTable = (router.routeForBucket b').qualifiedTable) :
    b = b' := by
  obtain ⟨hdiv, hmod⟩ := qualified_inj h
  rw [← Nat.div_add_mod b router.tableCount, hdiv, hmod, Nat.div_add_mod]

variable (router)

theorem nodup_qualifiedTables : (router.allRoutes.map (·.qualifiedTable)).Nodup := by
  rw [allRoutes_eq, List.map_map]
  exact List.Nodup.map (fun _ _ h => routeForBucket_inj h) List.nodup_range

theorem nodup_allRoutes : router.allRoutes.Nodup :=
  List.Nodup.of_map _ router.nodup_qualifiedTables

/-- The constructor and `init` leave no count at zero. -/
structure Counted : Prop where
  databaseCount_pos : 0 < router.databaseCount
  tableCount_pos : 0 < router.tableCount

theorem counted_init (shardingEnabled : Bool) (shardDatabasePrefix shardTablePrefix : Bytes)
    (shardDatabaseCount shardTableCount : Int) :
    Counted (init shardingEnabled shardDatabasePrefix shardTablePrefix shardDatabaseCount
      shardTableCount) := by
  have hpos : ∀ n : Int, 0 < (max 1 n).toNat := by
    intro n
    have : (1 : Int) ≤ max 1 n := le_max_left 1 n
    omega
  exact ⟨hpos _, hpos _⟩

variable {router}

namespace Counted

theorem bucketCount_pos (h : Counted router) : 0 < router.databaseCount * router.tableCount :=
  Nat.mul_pos h.databaseCount_pos h.tableCount_pos

/-- `route_for_code` takes the bucket the hash falls into. -/
theorem routeForCode_eq (h : Counted router) (code : Bytes) :
    router.routeForCode code = router.routeForBucket
      ((hashCode code).toNat % (router.databaseCount * router.tableCount)) := by
  simp only [routeForCode, if_neg (Nat.ne_of_gt h.bucketCount_pos)]
  rfl

theorem routeForCode_mem (h : Counted router) (code : Bytes) :
    router.routeForCode code ∈ router.allRoutes := by
  rw [h.routeForCode_eq, allRoutes_eq]
  exact List.mem_map_of_mem (List.mem_range.mpr (Nat.mod_lt _ h.bucketCount_pos))

/-- The indices of a route are in range, and its names are made from them. -/
theorem of_mem (h : Counted router) {r : ShardRoute} (hr : r ∈ router.allRoutes) :
    r.databaseIndex < router.databaseCount ∧ r.tableIndex < router.tableCount ∧
      r = router.route r.databaseIndex r.tableIndex := by
  rw [allRoutes_eq] at hr
  obtain ⟨b, hb, rfl⟩ := List.mem_map.mp hr
  have hlt : b < router.databaseCount * router.tableCount := List.mem_range.mp hb
  exact ⟨Nat.div_lt_of_lt_mul (Nat.mul_comm _ _ ▸ hlt), Nat.mod_lt b h.tableCount_pos, rfl⟩

/-- Every pair of indices belongs to one bucket. -/
theorem existsUnique_bucket {db table : Nat} (hdb : db < router.databaseCount)
    (htable : table < router.tableCount) :
    ∃! bucket, bucket < router.databaseCount * router.tableCount ∧
      (router.routeForBucket bucket).databaseIndex = db ∧
      (router.routeForBucket bucket).tableIndex = table := by
  refine ⟨db * router.tableCount + table, ⟨?_, div_mod_pair htable⟩, ?_⟩
  · calc
      db * router.tableCount + table < db * router.tableCount + router.tableCount :=
        Nat.add_lt_add_left htable _
      _ = (db + 1) * router.tableCount := (Nat.succ_mul _ _).symm
      _ ≤ router.databaseCount * router.tableCount := Nat.mul_le_mul_right _ hdb
  · rintro b ⟨-, rfl, rfl⟩
    exact (Nat.div_add_mod' b router.tableCount).symm

end Counted
end ShardRouter

/-! ## The scan of `list_active_codes` -/

/-- The tables selected from, in this order. -/
def scannedTables (router : ShardRouter) : List Bytes :=
  if router.enabled then router.allRoutes.map (·.qualifiedTable) else [ascii "short_url"]

/-- One statement of the scan: what `NOW()` says then, and what became of the statement. -/
structure Query where
  now : Bytes
  reply : Reply := .answered

/-- `expire_at IS NULL OR expire_at > NOW()`. -/
def isActive (now : Bytes) (row : ShortUrlRecord) : Bool :=
  decide (row.expireAt = []) || decide (now < row.expireAt)

/-- `*codes`, and `*error` where the result is false. -/
structure Listing where
  codes : List Bytes
  error : Option Bytes
deriving DecidableEq

/-- The loop over the tables. A code is read as a C string. -/
def listActiveLoop (db : Tables) (query : Bytes → Query) : List Bytes → List Bytes → Listing
  | codes, [] => ⟨codes, none⟩
  | codes, table :: tables =>
    match (query table).reply with
    | .failed error => ⟨codes, some error⟩
    | .lost error => ⟨codes, some error⟩
    | .answered =>
      let rows := (db table).filter (isActive (query table).now)
      listActiveLoop db query (codes ++ rows.map fun row => cString row.shortCode) tables

def listActiveCodes (router : ShardRouter) (db : Tables) (mysql : Bool)
    (query : Bytes → Query) : Listing :=
  if !mysql then ⟨[], some noConnection⟩
  else listActiveLoop db query [] (scannedTables router)

/-- What the scan finds in one table. -/
def activeCodes (db : Tables) (query : Bytes → Query) (table : Bytes) : List Bytes :=
  ((db table).filter (isActive (query table).now)).map fun row => cString row.shortCode

theorem listActiveLoop_ok {db : Tables} {query : Bytes → Query} {codes tables : List Bytes}
    (h : (listActiveLoop db query codes tables).error = none) :
    (listActiveLoop db query codes tables).codes = codes ++ tables.flatMap (activeCodes db query) := by
  induction tables generalizing codes with
  | nil => simp [listActiveLoop]
  | cons table tables ih =>
    unfold listActiveLoop at h ⊢
    cases hreply : (query table).reply with
    | failed error => simp [hreply] at h
    | lost error => simp [hreply] at h
    | answered =>
      simp only [hreply] at h ⊢
      rw [ih h, List.flatMap_cons, List.append_assoc]
      rfl

variable {coll : Collation} {router : ShardRouter} {db db' : Tables} {record : ShortUrlRecord}

theorem listActiveCodes_ok {mysql : Bool} {query : Bytes → Query}
    (h : (listActiveCodes router db mysql query).error = none) :
    (listActiveCodes router db mysql query).codes =
      (scannedTables router).flatMap (activeCodes db query) := by
  unfold listActiveCodes at h ⊢
  split at h
  · cases h
  · rename_i hmysql
    rw [if_neg hmysql, listActiveLoop_ok h, List.nil_append]

theorem nodup_scannedTables (router : ShardRouter) : (scannedTables router).Nodup := by
  unfold scannedTables
  split
  · exact router.nodup_qualifiedTables
  · exact List.nodup_singleton _

theorem tableForCode_mem (h : router.Counted) (code : Bytes) :
    router.tableForCode code ∈ scannedTables router := by
  unfold ShardRouter.tableForCode scannedTables
  split
  · exact List.mem_map_of_mem (h.routeForCode_mem code)
  · exact List.mem_singleton_self _

/-! ## What `create` and `find_long_url` touch -/

theorem insert_of_ne (db : Tables) {table : Bytes}
    (h : table ≠ router.tableForCode record.shortCode) :
    (insert coll router db record).1 table = db table := by
  simp only [insert]
  split
  · rfl
  · exact Function.update_of_ne h _ _

/-- `create` leaves the other tables alone. -/
theorem create_of_ne (db : Tables) (mysql : Bool) (reply : Reply) {table : Bytes}
    (h : table ≠ router.tableForCode record.shortCode) :
    (create coll router db mysql record reply).1 table = db table := by
  unfold create
  split
  · rfl
  · cases reply with
    | failed error => rfl
    | lost error => exact insert_of_ne db h
    | answered =>
      have hins : (insert coll router db record).1 table = db table := insert_of_ne db h
      rcases he : insert coll router db record with ⟨db₁, ok⟩
      rw [he] at hins
      cases ok <;> exact hins

/-- `find_long_url` looks at no other table. -/
theorem findLongUrl_congr {code : Bytes} (mysql : Bool) (now : Bytes) (reply : Reply)
    (h : db (router.tableForCode code) = db' (router.tableForCode code)) :
    findLongUrl coll router db mysql code now reply =
      findLongUrl coll router db' mysql code now reply := by
  unfold findLongUrl select
  rw [h]

/-! ## Every code once -/

/-- A code of the table that has not expired is listed, wherever the scan meets it. -/
theorem mem_listActiveCodes (hcounted : router.Counted) {mysql : Bool} {query : Bytes → Query}
    (hok : (listActiveCodes router db mysql query).error = none) {code : Bytes}
    (hcode : code ∈ activeCodes db query (router.tableForCode code)) :
    code ∈ (listActiveCodes router db mysql query).codes := by
  rw [listActiveCodes_ok hok, List.mem_flatMap]
  exact ⟨_, tableForCode_mem hcounted code, hcode⟩

/-- No code holds a NUL. -/
def NulFree (db : Tables) : Prop := ∀ row, Stored db row → NUL ∉ row.shortCode

theorem insert_rows (db : Tables) (record : ShortUrlRecord) {row : ShortUrlRecord}
    (h : Stored (insert coll router db record).1 row) : Stored db row ∨ row = record := by
  rcases hins : insert coll router db record with ⟨db', inserted⟩
  rw [hins] at h
  cases inserted with
  | true => exact stored_insert hins h
  | false =>
    simp only [insert] at hins
    split at hins
    · cases hins
      exact Or.inl h
    · cases hins

theorem create_rows {mysql : Bool} {reply : Reply} {row : ShortUrlRecord}
    (h : Stored (create coll router db mysql record reply).1 row) :
    Stored db row ∨ row = record := by
  unfold create at h
  split at h
  · exact Or.inl h
  · cases reply with
    | failed error => exact Or.inl h
    | lost error => exact insert_rows db record h
    | answered =>
      have hrows : Stored (insert coll router db record).1 row := by
        rcases he : insert coll router db record with ⟨db₁, ok⟩
        rw [he] at h
        cases ok <;> exact h
      exact insert_rows db record hrows

theorem nulFree_run {cs : List Create} (hcs : ∀ c ∈ cs, NUL ∉ c.record.shortCode)
    (hr : Machine.run (Tables.step coll router) (fun _ => []) cs = some db) : NulFree db := by
  refine Machine.run_invariant (I := NulFree) (Tables.step coll router) ?_ ?_
    (Machine.along_of_forall _ fun c hc _ => hcs c hc) hr
  · intro db c db' h hc hs row hrow
    cases hs
    rcases create_rows hrow with hold | rfl
    · exact h row hold
    · exact hc
  · rintro row ⟨table, hrow⟩
    cases hrow

/-- In the tables that `create` filled, the rows of a code are in one table. -/
theorem Keyed.mem_activeCodes (h : Keyed coll router db) (hnul : NulFree db) {query : Bytes → Query}
    {table code : Bytes} (hmem : code ∈ activeCodes db query table) :
    table = router.tableForCode code := by
  obtain ⟨row, hrow, rfl⟩ := List.mem_map.mp hmem
  have hrow := (List.mem_filter.mp hrow).1
  rw [cString_eq_self (hnul row ⟨table, hrow⟩)]
  exact (h.routed table row hrow).symm

theorem Keyed.nodup_activeCodes (h : Keyed coll router db) (hnul : NulFree db)
    (query : Bytes → Query) (table : Bytes) : (activeCodes db query table).Nodup := by
  have hsame : activeCodes db query table =
      ((db table).filter (isActive (query table).now)).map (·.shortCode) :=
    List.map_congr_left fun row hrow =>
      cString_eq_self (hnul row ⟨table, (List.mem_filter.mp hrow).1⟩)
  rw [hsame, List.Nodup, List.pairwise_map]
  refine ((h.unique table).filter _).imp ?_
  intro a b hab heq
  rw [heq, coll.refl] at hab
  cases hab

/-- A scan that succeeds lists the codes whose row in their own table has not expired, each one
once. -/
theorem Keyed.listActiveCodes (h : Keyed coll router db) (hnul : NulFree db)
    (hcounted : router.Counted) {mysql : Bool} {query : Bytes → Query}
    (hok : (listActiveCodes router db mysql query).error = none) :
    (listActiveCodes router db mysql query).codes.Nodup ∧
    ∀ code, code ∈ (listActiveCodes router db mysql query).codes ↔
      code ∈ activeCodes db query (router.tableForCode code) := by
  constructor
  · rw [listActiveCodes_ok hok, List.nodup_flatMap]
    refine ⟨fun table _ => h.nodup_activeCodes hnul query table, ?_⟩
    refine (nodup_scannedTables router).imp ?_
    intro table table' hne code hcode hcode'
    exact hne ((h.mem_activeCodes hnul hcode).trans (h.mem_activeCodes hnul hcode').symm)
  · intro code
    refine ⟨?_, mem_listActiveCodes hcounted hok⟩
    rw [listActiveCodes_ok hok, List.mem_flatMap]
    rintro ⟨table, -, hcode⟩
    rwa [← h.mem_activeCodes hnul hcode]

/-- **The routes partition the codes**, whatever the prefixes and the counts are. `all_routes` has
one route for each bucket, with a name of its own, and `route_for_code` is the one of the bucket the
hash falls into; `create` writes to, and `find_long_url` reads, that table of the code only;
`list_active_codes` goes through all tables once, and meets each row where its code is looked up. It
therefore lists each code once, as long as no code holds a NUL. -/
theorem routes_partition (router : ShardRouter) (shardingEnabled : Bool)
    (shardDatabasePrefix shardTablePrefix : Bytes) (shardDatabaseCount shardTableCount : Int)
    (hinit : router = ShardRouter.init shardingEnabled shardDatabasePrefix shardTablePrefix
      shardDatabaseCount shardTableCount) :
    router.allRoutes.length = router.databaseCount * router.tableCount ∧
    (router.allRoutes.map (·.qualifiedTable)).Nodup ∧
    (∀ code, router.routeForCode code = router.routeForBucket
      ((ShardRouter.hashCode code).toNat % (router.databaseCount * router.tableCount)) ∧
      router.allRoutes.count (router.routeForCode code) = 1 ∧
      (router.routeForCode code).databaseIndex < router.databaseCount ∧
      (router.routeForCode code).tableIndex < router.tableCount) ∧
    (∀ db < router.databaseCount, ∀ table < router.tableCount,
      ∃! bucket, bucket < router.databaseCount * router.tableCount ∧
        (router.routeForBucket bucket).databaseIndex = db ∧
        (router.routeForBucket bucket).tableIndex = table) ∧
    (∀ code, (scannedTables router).count (router.tableForCode code) = 1) ∧
    (∀ coll db mysql record reply table, table ≠ router.tableForCode record.shortCode →
      (create coll router db mysql record reply).1 table = db table) ∧
    (∀ coll db db' mysql code now reply,
      db (router.tableForCode code) = db' (router.tableForCode code) →
      findLongUrl coll router db mysql code now reply =
        findLongUrl coll router db' mysql code now reply) ∧
    (∀ db mysql query, (listActiveCodes router db mysql query).error = none →
      (listActiveCodes router db mysql query).codes =
        (scannedTables router).flatMap (activeCodes db query)) ∧
    (∀ coll cs db, Machine.run (Tables.step coll router) (fun _ => []) cs = some db →
      ∀ table, ∀ row ∈ db table, table = router.tableForCode row.shortCode) ∧
    ∀ coll cs db mysql query, (∀ c ∈ cs, NUL ∉ c.record.shortCode) →
      Machine.run (Tables.step coll router) (fun _ => []) cs = some db →
      (listActiveCodes router db mysql query).error = none →
      (listActiveCodes router db mysql query).codes.Nodup ∧
      ∀ code, code ∈ (listActiveCodes router db mysql query).codes ↔
        code ∈ activeCodes db query (router.tableForCode code) := by
  have hcounted : router.Counted := hinit ▸ ShardRouter.counted_init _ _ _ _ _
  refine ⟨router.length_allRoutes, router.nodup_qualifiedTables, fun code => ?_,
    fun db hdb table htable => ShardRouter.Counted.existsUnique_bucket hdb htable, fun code => ?_,
    fun coll db mysql record reply table => create_of_ne db mysql reply,
    fun coll db db' mysql code now reply => findLongUrl_congr mysql now reply,
    fun db mysql query => listActiveCodes_ok,
    fun coll cs db hr table row hrow => ((keyed_run hr).routed table row hrow).symm,
    fun coll cs db mysql query hcs hr =>
      (keyed_run hr).listActiveCodes (nulFree_run hcs hr) hcounted⟩
  · have hmem := hcounted.routeForCode_mem code
    obtain ⟨hdb, htable, -⟩ := hcounted.of_mem hmem
    exact ⟨hcounted.routeForCode_eq code, List.count_eq_one_of_mem router.nodup_allRoutes hmem, hdb,
      htable⟩
  · exact List.count_eq_one_of_mem (nodup_scannedTables router) (tableForCode_mem hcounted code)

/-- A prefix that ends in a backtick, a hundred and one databases, and a count below one. -/
def quoted : ShardRouter := ShardRouter.init true (ascii "db`") (ascii "t_") 101 (-3)

theorem routes_partition_quoted : quoted.allRoutes.length = 101 ∧
    (quoted.allRoutes.map (·.qualifiedTable)).Nodup ∧
    (quoted.routeForCode (ascii "a")).qualifiedTable = ascii "`db`79`.`t_00`" ∧
    quoted.routeForCode (ascii "a") = quoted.routeForBucket
      ((ShardRouter.hashCode (ascii "a")).toNat % 101) ∧
    quoted.allRoutes.count (quoted.routeForCode (ascii "a")) = 1 :=
  have h := routes_partition quoted true (ascii "db`") (ascii "t_") 101 (-3) rfl
  have hcode := h.2.2.1 (ascii "a")
  ⟨h.1, h.2.1, by decide +kernel, hcode.1, hcode.2.1⟩

end ShortUrl
end UrlShortener
