import Esdb.RuntimeMaintenance

/-!
# The health of a database

`esdb_database_health_get` reads the settings of a connection one by one. What it reports of a
connection that was just opened is what the open was asked for.
-/
namespace Esdb.RuntimeHealth

open ErrorText Dialogue SqliteApi RuntimeCalls StorageProvider RuntimeOpen

/-- `esdb_database_health` as far as it is read from SQLite and from the options. -/
structure DatabaseHealth where
  pageSize : ℕ
  pageCount : ℕ
  freelistCount : ℕ
  databaseBytes : ℕ
  configuredCacheKib : ℤ
  journalMode : UInt32
  synchronous : UInt32
  storageMode : UInt32
  storageProvider : UInt32
  compressionCodec : UInt32
  compressionLevel : ℤ
  busyTimeoutMs : ℕ
  userVersion : ℕ

/-- `sizeof(esdb_database_health)`. -/
def healthSize : ℕ := 152

/-- The cast to `uint32_t`. -/
def toU32 (n : ℕ) : ℕ := n % 4294967296

/-- The cast to `uint64_t`. -/
def toU64 (n : ℕ) : ℕ := n % 18446744073709551616

def cacheKib (cache : ℤ) (pageSize : ℕ) : ℤ :=
  if cache < 0 then -cache
  else if 0 < cache ∧ 0 < pageSize then (toU64 (cache.toNat * pageSize) / 1024 : ℕ)
  else 0

section

variable (B : Build) (wanted : Bool)

def userVersionGet (database : Database) : Try ℕ := do
  let value ← queryU64 B wanted database.handle "PRAGMA user_version;" .migration
  if 4294967295 < value then
    fail B wanted .migration .migration (some database.handle) Sqlite.range
      (some (literal "user_version exceeds uint32 range"))
  else pure value

/-- `esdb_database_health_get` for an output of the given size. -/
def healthGet (database : Database) (structSize : ℕ) : Try DatabaseHealth := do
  let options := database.options
  let compressed := options.storageMode = Storage.compressed
  if structSize ≠ 0 ∧ structSize ≠ healthSize then
    fail B wanted .invalidArgument .health (some database.handle) Sqlite.misuse
      (some (literal "health struct_size mismatch"))
  else
    let pageSize ← queryU64 B wanted database.handle "PRAGMA page_size;" .health
    let pageCount ← queryU64 B wanted database.handle "PRAGMA page_count;" .health
    let freelistCount ← queryU64 B wanted database.handle "PRAGMA freelist_count;" .health
    let cache ← queryI64 B wanted database.handle "PRAGMA cache_size;" .health
    let synchronous ← queryI64 B wanted database.handle "PRAGMA synchronous;" .health
    let busyTimeout ← queryI64 B wanted database.handle "PRAGMA busy_timeout;" .health
    let userVersion ← userVersionGet B wanted database
    let mode ← withStatement B wanted database.handle (journalReadSql options) .health fun s =>
      readText B wanted database.handle s .health
    pure
      { pageSize := toU32 pageSize
        pageCount := pageCount
        freelistCount := freelistCount
        databaseBytes := toU64 (toU32 pageSize * pageCount)
        configuredCacheKib := cacheKib cache pageSize
        journalMode := parseJournalMode mode
        synchronous := parseSynchronous synchronous
        storageMode := options.storageMode
        storageProvider := if compressed then Provider.zipvfs else Provider.sqlite
        compressionCodec := if compressed then options.compressionCodec else Codec.none
        compressionLevel := if compressed then options.compressionLevel else 0
        busyTimeoutMs := if 0 < busyTimeout then toU32 busyTimeout.toNat else 0
        userVersion := userVersion }

end

/-- A report about a connection. Without the text of its journal mode it says `UNCHANGED`. -/
structure Reports (options : OpenOptions) (c : Conn) (h : DatabaseHealth) : Prop where
  pageSize : h.pageSize = toU32 (c.number .pageSize).toNat
  pageCount : (h.pageCount : ℤ) = c.number .pageCount
  freelistCount : (h.freelistCount : ℤ) = c.number .freelistCount
  databaseBytes : h.databaseBytes = toU64 (h.pageSize * h.pageCount)
  cache : h.configuredCacheKib = cacheKib (c.number .cacheSize) (c.number .pageSize).toNat
  synchronous : h.synchronous = parseSynchronous (c.number .synchronous)
  busyTimeout : h.busyTimeoutMs =
    if 0 < c.number .busyTimeout then toU32 (c.number .busyTimeout).toNat else 0
  userVersion : (h.userVersion : ℤ) = c.number .userVersion
  journal : h.journalMode = parseJournalMode (some (c.mode (journalSetting options))) ∨
    h.journalMode = Journal.unchanged
  storageMode : h.storageMode = options.storageMode
  storage : options.storageMode = Storage.compressed → h.storageProvider = Provider.zipvfs ∧
    h.compressionCodec = options.compressionCodec ∧ h.compressionLevel = options.compressionLevel
  plain : options.storageMode ≠ Storage.compressed → h.storageProvider = Provider.sqlite ∧
    h.compressionCodec = Codec.none ∧ h.compressionLevel = 0

variable {B : Build} {wanted : Bool} {w : Held} {c : Conn} {database : Database} {structSize : ℕ}

theorem meets_userVersionGet {ok : ℕ → Held → Prop} {failed : Failed → Held → Prop}
    (hc : w.conn database.handle = some c)
    (hok : ∀ n : ℕ, (n : ℤ) = c.number .userVersion → ok n w) (hfailed : ∀ e, failed e w) :
    Meets sqlite (userVersionGet B wanted database) ok failed w := by
  refine Meets.bind (meets_queryU64 hc (fun n hn => ?_) hfailed)
  split
  · exact meets_fail (open_some hc) fun _ => hfailed _
  · exact meets_pure.mpr (hok n (hn .userVersion rfl rfl))

theorem meets_healthGet (hc : w.conn database.handle = some c) :
    Meets sqlite (healthGet B wanted database structSize)
      (fun h w' => w' = w ∧ Reports database.options c h) (fun _ w' => w' = w) w := by
  unfold healthGet
  dsimp only
  split
  · exact RuntimeCalls.meets_fail (open_some hc) fun _ => rfl
  refine Meets.bind (meets_queryU64 hc (fun pageSize hpage => ?_) fun _ => rfl)
  refine Meets.bind (meets_queryU64 hc (fun pageCount hcount => ?_) fun _ => rfl)
  refine Meets.bind (meets_queryU64 hc (fun freelistCount hfree => ?_) fun _ => rfl)
  refine Meets.bind (meets_queryI64 hc (fun cache hcache => ?_) fun _ => rfl)
  refine Meets.bind (meets_queryI64 hc (fun synchronous hsync => ?_) fun _ => rfl)
  refine Meets.bind (meets_queryI64 hc (fun busy hbusy => ?_) fun _ => rfl)
  refine Meets.bind (meets_userVersionGet hc (fun version hversion => ?_) fun _ => rfl)
  refine Meets.bind (meets_withStatement hc (fun s rows hs hrows => ?_) fun _ => rfl)
  rw [journalReadSql_eq] at hrows
  refine (meets_readText hc hrows textual_journalSetting).mono ?_ ?_
  · rintro mode _ ⟨hstmt, hmode⟩
    refine ⟨hstmt, meets_pure.mpr ⟨rfl, ?_⟩⟩
    have hpage' := hpage .pageSize rfl rfl
    exact
      { pageSize := by rw [← hpage', Int.toNat_natCast]
        pageCount := hcount .pageCount rfl rfl
        freelistCount := hfree .freelistCount rfl rfl
        databaseBytes := rfl
        cache := by rw [← hpage', Int.toNat_natCast, ← hcache .cacheSize rfl rfl]
        synchronous := by rw [← hsync .synchronous rfl rfl]
        busyTimeout := by rw [← hbusy .busyTimeout rfl rfl]
        userVersion := hversion
        journal := by
          cases mode with
          | none => exact .inr rfl
          | some text => exact .inl (by rw [hmode text rfl])
        storageMode := rfl
        storage := fun h => ⟨if_pos h, if_pos h, if_pos h⟩
        plain := fun h => ⟨if_neg h, if_neg h, if_neg h⟩ }
  · rintro _ _ hstmt
    exact ⟨hstmt, rfl⟩

/-- A report of what was asked for. Where the text of the journal mode was not to be had, it says
`UNCHANGED`. -/
structure Requested (options : OpenOptions) (h : DatabaseHealth) : Prop where
  busyTimeout : h.busyTimeoutMs = options.busyTimeoutMs.toNat
  journal : options.journalMode ≠ Journal.unchanged →
    h.journalMode = options.journalMode ∨ h.journalMode = Journal.unchanged
  synchronous : options.synchronous ≠ Synchronous.unchanged → h.synchronous = options.synchronous
  cache : 0 < options.cacheKib → h.configuredCacheKib = options.cacheKib.toNat
  storageMode : h.storageMode = options.storageMode
  storage : options.storageMode = Storage.compressed → h.storageProvider = Provider.zipvfs ∧
    h.compressionCodec = options.compressionCodec ∧ h.compressionLevel = options.compressionLevel
  plain : options.storageMode ≠ Storage.compressed → h.storageProvider = Provider.sqlite ∧
    h.compressionCodec = Codec.none ∧ h.compressionLevel = 0

theorem Reports.requested {options : OpenOptions} {c : Conn} {h : DatabaseHealth}
    (hreports : Reports options c h) (hconf : Configured options c) : Requested options h where
  busyTimeout := by
    have hbound : options.busyTimeoutMs.toNat < 4294967296 := options.busyTimeoutMs.toNat_lt
    rw [hreports.busyTimeout, hconf.busyTimeout, Int.toNat_natCast, toU32,
      Nat.mod_eq_of_lt hbound]
    split
    · rfl
    · omega
  journal := fun h => hreports.journal.imp_left fun hj => hj.trans (hconf.journal h)
  synchronous := fun h => hreports.synchronous.trans (hconf.synchronous h)
  cache := fun h => by
    have hpos : 0 < options.cacheKib.toNat := UInt32.lt_iff_toNat_lt.mp h
    rw [hreports.cache, hconf.cache h, cacheKib, if_pos (by omega), neg_neg]
  storageMode := hreports.storageMode
  storage := hreports.storage
  plain := hreports.plain

end Esdb.RuntimeHealth
