import Esdb.RuntimeCalls
import Std.Data.String.ToInt

/-!
# Open options and the storage provider

What a caller may ask of an open, and the registry of ZIPVFS codecs a process keeps: one file
system for each codec and level, registered when it is first asked for and never twice.
-/
namespace Esdb.StorageProvider

open ErrorText Dialogue SqliteApi RuntimeCalls

/-! ## Options -/

/-- `esdb_open_options`, with the two reserved words apart. -/
structure OpenOptions where
  structSize : UInt32
  flags : UInt32
  busyTimeoutMs : UInt32
  journalMode : UInt32
  synchronous : UInt32
  cacheKib : UInt32
  walAutocheckpointPages : UInt32
  foreignKeys : UInt32
  storageMode : UInt32
  storageProvider : UInt32
  compressionCodec : UInt32
  compressionLevel : ℤ
  reserved : UInt32 × UInt32
  deriving DecidableEq, Repr

namespace OpenFlag

def readonly : UInt32 := 1
def readwrite : UInt32 := 2
def create : UInt32 := 4
def uri : UInt32 := 8
def fullmutex : UInt32 := 16
def nomutex : UInt32 := 32
def nofollow : UInt32 := 64

end OpenFlag

namespace Journal

def unchanged : UInt32 := 0
def delete : UInt32 := 1
def truncate : UInt32 := 2
def persist : UInt32 := 3
def memory : UInt32 := 4
def wal : UInt32 := 5
def off : UInt32 := 6

end Journal

namespace Synchronous

def unchanged : UInt32 := 0
def off : UInt32 := 1
def normal : UInt32 := 2
def full : UInt32 := 3
def extra : UInt32 := 4

end Synchronous

namespace Storage

def default : UInt32 := 0
def plain : UInt32 := 1
def compressed : UInt32 := 2

end Storage

namespace Provider

def auto : UInt32 := 0
def sqlite : UInt32 := 1
def zipvfs : UInt32 := 2

end Provider

namespace Codec

def none : UInt32 := 0
def zstd : UInt32 := 1
def deflate : UInt32 := 2

end Codec

/-- `ESDB_WAL_AUTOCHECKPOINT_UNCHANGED`, which is `UINT32_MAX`. -/
def walAutocheckpointUnchanged : UInt32 := 4294967295

/-- `sizeof(esdb_open_options)`: fourteen words. -/
def openOptionsSize : UInt32 := 56

def openOptionsInit : OpenOptions where
  structSize := openOptionsSize
  flags := OpenFlag.readwrite ||| OpenFlag.create ||| OpenFlag.fullmutex
  busyTimeoutMs := 5000
  journalMode := Journal.unchanged
  synchronous := Synchronous.unchanged
  cacheKib := 0
  walAutocheckpointPages := walAutocheckpointUnchanged
  foreignKeys := 1
  storageMode := Storage.default
  storageProvider := Provider.auto
  compressionCodec := Codec.none
  compressionLevel := 0
  reserved := (0, 0)

/-! ## The registry of codecs -/

/-- `zipvfs_registry`, keyed by the codec and the level of its entries. -/
abbrev Registry := List CodecConfig

def Registry.find (registry : Registry) (codec : UInt32) (level : ℤ) : Option CodecConfig :=
  List.find? (fun config => decide (config.codec = codec ∧ config.level = level)) registry

section

variable (B : Build)

def zipvfsZstdCompiled : Bool := B.zipvfs && B.zstd

def normalizeLevel (codec : UInt32) (requested : ℤ) : Option ℤ :=
  if codec = Codec.deflate then
    if requested = 0 then some (-1)
    else if requested < 0 ∨ 9 < requested then none
    else some requested
  else if zipvfsZstdCompiled B ∧ codec = Codec.zstd then
    if requested = 0 then some B.zstdDefaultLevel
    else if requested < B.zstdMinLevel ∨ B.zstdMaxLevel < requested then none
    else some requested
  else none

def codecHeader (codec : UInt32) : String :=
  if codec = Codec.deflate then "ESDBZLIB1" else "ESDBZSTD1"

/-- The name `snprintf` writes, which fits. -/
def codecVfsName (codec : UInt32) (level : ℤ) : String :=
  "esdb-zv-" ++ (if codec = Codec.deflate then "deflate" else "zstd") ++ "-" ++ toString level

def codecConfig (codec : UInt32) (level : ℤ) : CodecConfig :=
  ⟨codec, level, codecVfsName codec level, codecHeader codec⟩

def allocated : Asking Bool := call .allocate

variable (wanted : Bool)

def registryExhausted {α : Type} (message : String) : Try α :=
  refuse B wanted .outOfMemory .open none Sqlite.nomem (some (literal message))

/-- Registers an entry that is not there yet, and takes it back where ZIPVFS refuses it. -/
def registerZipvfs (registry : Registry) (config : CodecConfig) :
    Asking (Except Failed String × Registry) := do
  let entries := config :: registry
  match ← call (.createVfs config) with
  | .ok _ => pure (.ok config.vfsName, entries)
  | .error e =>
      let message ← call (.zipvfsErrmsg e)
      let entries := entries.erase config
      let shown :=
        if blank message then literal "failed to register ZIPVFS provider"
        else message.getD (literal "")
      let refused ← (refuse B wanted (mapSqliteStatus e.code) .open none e.code (some shown)).run
      pure (refused, entries)

def ensureZipvfs (registry : Registry) (codec : UInt32) (requestedLevel : ℤ) :
    Asking (Except Failed String × Registry) := do
  match normalizeLevel B codec requestedLevel with
  | none =>
      let refused ←
        (if codec = Codec.zstd ∧ ¬ zipvfsZstdCompiled B then
          refuse B wanted .unsupported .open none Sqlite.misuse
            (some (literal "ZIPVFS Zstd support is not compiled into this ESDB build"))
        else
          refuse B wanted .invalidArgument .open none Sqlite.misuse
            (some (literal "compression level is outside the selected codec range"))).run
      pure (refused, registry)
  | some level =>
      match registry.find codec level with
      | some config => pure (.ok config.vfsName, registry)
      | none =>
          if ← allocated then
            -- the name and the node of the map: `std::bad_alloc`
            if ← allocated then
              if ← allocated then registerZipvfs B wanted registry (codecConfig codec level)
              else
                let refused ←
                  (registryExhausted B wanted "failed to allocate ZIPVFS registry state").run
                pure (refused, registry)
            else
              let refused ←
                (registryExhausted B wanted "failed to allocate ZIPVFS registry state").run
              pure (refused, registry)
          else
            let refused ←
              (registryExhausted B wanted "failed to allocate ZIPVFS codec config").run
            pure (refused, registry)

def storageVfsSelect (registry : Registry) (options : OpenOptions) :
    Asking (Except Failed (Option String) × Registry) := do
  if options.storageMode ≠ Storage.compressed then pure (.ok none, registry)
  else if ¬ B.zipvfs then
    let refused ← (refuse B wanted .unsupported .open none Sqlite.notFound
      (some (literal "no ZIPVFS provider is compiled into this ESDB build"))).run
    pure (refused, registry)
  else
    let (name, registry) ←
      ensureZipvfs B wanted registry options.compressionCodec options.compressionLevel
    match name with
    | .ok name => pure (.ok (some name), registry)
    | .error e =>
        match e.error with
        | some error => pure (.error ⟨error.status, some error⟩, registry)
        | none => pure (.error ⟨.unsupported, none⟩, registry)

def storageVerifyOpen (db : ℕ) (options : OpenOptions) : Try Unit := do
  if options.storageMode ≠ Storage.compressed then pure ()
  else if ¬ B.zipvfs then
    refuse B wanted .unsupported .open (some db) Sqlite.notFound
      (some (literal "compressed database opened without ZIPVFS support"))
  else
    match ← Attempt.lift (call (.fileControlStat db)) with
    | .ok _ => pure ()
    | .error e =>
        if ¬ wanted then .fail _ ⟨mapSqliteStatus e.code, none⟩
        else if e.code = Sqlite.notFound then
          refuse B wanted .unsupported .open (some db) e.code
            (some (literal "compressed storage request did not resolve to a ZIPVFS database"))
        else
          refuse B wanted (mapSqliteStatus e.code) .open (some db) e.code
            (some (literal "ZIPVFS verification failed"))

end

/-! ## The callback of ZIPVFS -/

inductive Methods where
  | zlib | zstd
  deriving DecidableEq, Repr

/-- `strncmp(a, b, n) == 0`. -/
def strncmpEqual (a b : CString) (n : ℕ) : Bool := a.bytes.take n = b.bytes.take n

/-- `zipvfs_autodetect`: the header and the methods a file is read with, or a result code. A new
file has no header. -/
def zipvfsAutodetect (B : Build) (config : CodecConfig) (header : Option CString) :
    Except ℤ (String × Methods) :=
  if header.any fun h => !strncmpEqual h (literal config.header) 13 then .error 26
  else if config.codec = Codec.deflate then .ok (config.header, .zlib)
  else if zipvfsZstdCompiled B ∧ config.codec = Codec.zstd then .ok (config.header, .zstd)
  else .error Sqlite.misuse

/-! ## What the registry is -/

variable {B : Build} {wanted : Bool} {w : Held} {registry : Registry} {codec codec' : UInt32}
  {level level' requested : ℤ} {options : OpenOptions}

theorem codec_of_normalizeLevel (h : normalizeLevel B codec requested = some level) :
    codec = Codec.deflate ∨ codec = Codec.zstd := by
  unfold normalizeLevel at h
  split at h
  · exact .inl ‹_›
  · split at h
    · exact .inr (And.right ‹_›)
    · cases h

/-- Two codecs at two levels never share a name. -/
theorem codecVfsName_inj (hc : codec = Codec.deflate ∨ codec = Codec.zstd)
    (hc' : codec' = Codec.deflate ∨ codec' = Codec.zstd)
    (h : codecVfsName codec level = codecVfsName codec' level') :
    codec = codec' ∧ level = level' := by
  have hlevel : ∀ {s : String} {a b : ℤ}, s ++ "-" ++ toString a = s ++ "-" ++ toString b → a = b :=
    fun {s a b} hab => Int.repr_injective ((String.append_right_inj _).mp hab)
  have hkind : ∀ {a b : ℤ},
      "esdb-zv-" ++ "deflate" ++ "-" ++ toString a ≠ "esdb-zv-" ++ "zstd" ++ "-" ++ toString b := by
    intro a b hab
    have := congrArg String.toList hab
    simp at this
  obtain rfl | rfl := hc <;> obtain rfl | rfl := hc'
  · exact ⟨rfl, hlevel h⟩
  · exact (hkind h).elim
  · exact (hkind h.symm).elim
  · exact ⟨rfl, hlevel h⟩

/-- Every entry is at a level its codec has, and the file systems of ZIPVFS are the entries. -/
structure Registered (B : Build) (registry : Registry) (w : Held) : Prop where
  nodup : registry.Nodup
  made : ∀ config ∈ registry, config = codecConfig config.codec config.level ∧
    ∃ requested, normalizeLevel B config.codec requested = some config.level
  registered : ∀ config ∈ registry, w.vfs config.vfsName = some config
  known : ∀ name config, w.vfs name = some config → config ∈ registry ∧ config.vfsName = name

theorem find_eq_some {config : CodecConfig} (h : registry.find codec level = some config) :
    config ∈ registry ∧ config.codec = codec ∧ config.level = level :=
  ⟨List.mem_of_find?_eq_some h, by simpa using List.find?_some h⟩

/-- A codec and level that are not found have a name that is still free. -/
theorem Registered.free (h : Registered B registry w)
    (hlevel : normalizeLevel B codec requested = some level)
    (hfind : registry.find codec level = none) : w.vfs (codecVfsName codec level) = none := by
  by_contra hsome
  obtain ⟨config, hconfig⟩ := Option.ne_none_iff_exists'.mp hsome
  obtain ⟨hmem, hname⟩ := h.known _ _ hconfig
  obtain ⟨hmade, requested', hlevel'⟩ := h.made _ hmem
  rw [hmade] at hname
  obtain ⟨hcodec, hlevels⟩ := codecVfsName_inj (codec_of_normalizeLevel hlevel')
    (codec_of_normalizeLevel hlevel) hname
  have hno := List.find?_eq_none.mp hfind config hmem
  simp [hcodec, hlevels] at hno

theorem Registered.register (h : Registered B registry w)
    (hlevel : normalizeLevel B codec requested = some level)
    (hfree : w.vfs (codecVfsName codec level) = none) :
    Registered B (codecConfig codec level :: registry) (w.addVfs (codecConfig codec level)) where
  nodup := by
    refine List.nodup_cons.mpr ⟨fun hmem => ?_, h.nodup⟩
    cases hfree.symm.trans (h.registered _ hmem)
  made := by
    intro config hmem
    obtain rfl | hmem := List.mem_cons.mp hmem
    · exact ⟨rfl, requested, hlevel⟩
    · exact h.made config hmem
  registered := by
    intro config hmem
    obtain rfl | hmem := List.mem_cons.mp hmem
    · exact Function.update_self ..
    · have hne : config.vfsName ≠ codecVfsName codec level := fun heq => by
        have := h.registered config hmem
        rw [heq, hfree] at this
        cases this
      exact (Function.update_of_ne hne ..).trans (h.registered config hmem)
  known := by
    intro name config hconfig
    rw [Held.addVfs_vfs] at hconfig
    by_cases hname : name = (codecConfig codec level).vfsName
    · rw [hname, Function.update_self, Option.some.injEq] at hconfig
      subst hconfig
      exact ⟨List.mem_cons_self, hname.symm⟩
    · rw [Function.update_of_ne hname] at hconfig
      obtain ⟨hmem, heq⟩ := h.known name config hconfig
      exact ⟨List.mem_cons_of_mem _ hmem, heq⟩

/-- What asking for a file system leaves: one as it should be, or nothing new. -/
structure Provides {α : Type} (B : Build) (P : Registry → α → Prop) (registry : Registry) (w : Held)
    (r : Except Failed α × Registry) (w' : Held) : Prop where
  registered : Registered B r.2 w'
  grown : registry ⊆ r.2
  others : w' = { w with vfs := w'.vfs }
  provided : ∀ a, r.1 = .ok a → P r.2 a
  failed : ∀ e, r.1 = .error e → r.2 = registry ∧ w' = w

/-- The name of the entry for a codec and a requested level. -/
def Named (B : Build) (codec : UInt32) (requested : ℤ) (registry : Registry) (name : String) :
    Prop :=
  ∃ level, normalizeLevel B codec requested = some level ∧ codecConfig codec level ∈ registry ∧
    name = codecVfsName codec level

/-- The file system an open with these options goes to. -/
def Selected (B : Build) (options : OpenOptions) (registry : Registry) : Option String → Prop
  | none => options.storageMode ≠ Storage.compressed
  | some name => options.storageMode = Storage.compressed ∧
      Named B options.compressionCodec options.compressionLevel registry name

theorem Registered.vfs_isSome (h : Registered B registry w)
    {vfs : Option String} (hvfs : Selected B options registry vfs) {name : String}
    (hname : vfs = some name) : (w.vfs name).isSome := by
  subst hname
  obtain ⟨-, level, -, hmem, rfl⟩ := hvfs
  exact Option.isSome_iff_exists.mpr ⟨_, h.registered _ hmem⟩

theorem Registered.of_vfs {w' : Held} (h : Registered B registry w)
    (hvfs : w'.vfs = w.vfs) : Registered B registry w' where
  nodup := h.nodup
  made := h.made
  registered := hvfs ▸ h.registered
  known := hvfs ▸ h.known

section

variable {α : Type} {P : Registry → α → Prop}

theorem Registered.same (h : Registered B registry w) {a : α} (ha : P registry a) :
    Provides B P registry w (.ok a, registry) w where
  registered := h
  grown := fun _ hmem => hmem
  others := rfl
  provided := fun _ hr => Except.ok.inj hr ▸ ha
  failed := fun _ he => by cases he

theorem Registered.refused (h : Registered B registry w) (e : Failed) :
    Provides B P registry w (.error e, registry) w where
  registered := h
  grown := fun _ hmem => hmem
  others := rfl
  provided := fun _ hname => by cases hname
  failed := fun _ _ => ⟨rfl, rfl⟩

theorem keeps_refused {status : Status} {code : ℤ} {message : Option CString}
    (h : Registered B registry w) :
    Keeps sqlite (do
      let refused ← (refuse B wanted status .open none code message : Try α).run
      pure (refused, registry)) (Provides B P registry w) w :=
  keeps_bind.mpr (keeps_run.mpr (meets_refuse open_none fun _ => h.refused _))

theorem keeps_registerZipvfs (h : Registered B registry w)
    (hlevel : normalizeLevel B codec requested = some level)
    (hfind : registry.find codec level = none) :
    Keeps sqlite (registerZipvfs B wanted registry (codecConfig codec level))
      (Provides B (Named B codec requested) registry w) w := by
  have hfree := h.free hlevel hfind
  refine keeps_bind.mpr (keeps_call.mpr ⟨hfree, fun r w' hreply => ?_⟩)
  cases r with
  | ok u =>
      cases hreply
      exact
        { registered := h.register hlevel hfree
          grown := List.subset_cons_self ..
          others := rfl
          provided := fun _ hname =>
            ⟨level, hlevel, List.mem_cons_self, (Except.ok.inj hname).symm⟩
          failed := fun _ he => by cases he }
  | error e =>
      cases hreply
      refine keeps_bind.mpr (keeps_call.mpr ⟨trivial, ?_⟩)
      rintro message _ rfl
      rw [List.erase_cons_head]
      exact keeps_refused h

theorem keeps_allocated {β : Type} {p p' : Asking β} {post : β → Held → Prop}
    (h : Keeps sqlite p post w) (h' : Keeps sqlite p' post w) :
    Keeps sqlite (do if ← allocated then p else p') post w := by
  refine keeps_bind.mpr (keeps_call.mpr ⟨trivial, ?_⟩)
  rintro (_ | _) _ rfl
  · exact h'
  · exact h

theorem keeps_ensureZipvfs (h : Registered B registry w) :
    Keeps sqlite (ensureZipvfs B wanted registry codec requested)
      (Provides B (Named B codec requested) registry w) w := by
  unfold ensureZipvfs
  split
  · split
    · exact keeps_refused h
    · exact keeps_refused h
  · rename_i level hlevel
    split
    · rename_i config hfind
      obtain ⟨hmem, rfl, rfl⟩ := find_eq_some hfind
      have hmade := (h.made config hmem).1
      exact h.same ⟨config.level, hlevel, hmade ▸ hmem, congrArg CodecConfig.vfsName hmade⟩
    · rename_i hfind
      refine keeps_allocated (keeps_allocated (keeps_allocated ?_ ?_) ?_) ?_
      · exact keeps_registerZipvfs h hlevel hfind
      · exact keeps_refused h
      · exact keeps_refused h
      · exact keeps_refused h

theorem keeps_storageVfsSelect (h : Registered B registry w) :
    Keeps sqlite (storageVfsSelect B wanted registry options)
      (Provides B (Selected B options) registry w) w := by
  unfold storageVfsSelect
  split
  · exact h.same (a := none) ‹_›
  · rename_i hmode
    rw [not_not] at hmode
    split
    · exact keeps_refused h
    · refine keeps_bind.mpr ((keeps_ensureZipvfs h).mono ?_)
      rintro ⟨r, registry'⟩ w' hr
      obtain ⟨hregistered, hgrown, hothers, hprovided, hfailed⟩ := hr
      cases r with
      | ok name =>
          exact
            { registered := hregistered
              grown := hgrown
              others := hothers
              provided := fun vfs hvfs => by
                cases hvfs
                exact ⟨hmode, hprovided name rfl⟩
              failed := fun _ he => by cases he }
      | error e =>
          obtain ⟨hsame, rfl⟩ := hfailed e rfl
          dsimp only at hsame
          subst hsame
          dsimp only
          split
          · exact h.refused _
          · exact h.refused _

end

theorem meets_storageVerifyOpen {db : ℕ} {c : Conn} {ok : Unit → Held → Prop}
    {failed : Failed → Held → Prop} (hc : w.conn db = some c)
    (hok : (options.storageMode = Storage.compressed → c.zipvfs = true) → ok () w)
    (hfailed : ∀ e, failed e w) :
    Meets sqlite (storageVerifyOpen B wanted db options) ok failed w := by
  unfold storageVerifyOpen
  split
  · rename_i hmode
    exact hok fun h => absurd h hmode
  · split
    · exact meets_refuse (open_some hc) fun _ => hfailed _
    · refine Meets.bind (meets_lift.mpr ⟨by simp [May, hc], fun r w' hreply => ?_⟩)
      cases r with
      | ok u =>
          obtain ⟨⟨c', hc', hzipvfs⟩, rfl⟩ := hreply
          cases hc.symm.trans hc'
          exact hok fun _ => hzipvfs
      | error e =>
          cases hreply
          refine keeps_pure.mpr ?_
          dsimp only
          split
          · exact hfailed _
          · split
            · exact meets_refuse (open_some hc) fun _ => hfailed _
            · exact meets_refuse (open_some hc) fun _ => hfailed _

end Esdb.StorageProvider
