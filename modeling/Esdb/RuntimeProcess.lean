import Esdb.RuntimeHealth

/-!
# A process and its databases

A process opens databases, works on them and closes them in any order, while SQLite, ZIPVFS and
the allocator answer each call as they like. What the process holds of SQLite is at every time
what it has handed out, and every call it makes is one it may make.
-/
namespace Esdb.RuntimeProcess

open ErrorText Dialogue SqliteApi RuntimeCalls StorageProvider RuntimeOpen RuntimeMaintenance
  RuntimeHealth

/-- The registry of codecs, and the databases that were opened and not closed. -/
structure Process where
  registry : Registry
  databases : List Database

/-- A call of the public interface. `wanted` says whether it is given an `esdb_error`. -/
inductive Action where
  | «open» (wanted : Bool) (path : Option CString) (options : Option OpenOptions) (out : Bool)
  | close (database : Database)
  | exec (wanted : Bool) (database : Database) (sql : String)
  | integrityCheck (wanted : Bool) (fuel : ℕ) (database : Database) (quick : Bool)
  | backupTo (wanted : Bool) (database : Database) (path : Option CString)
  | health (wanted : Bool) (database : Database) (structSize : ℕ)

/-- A caller uses the databases it has got and not closed. -/
def Legal (p : Process) : Action → Prop
  | .open .. => True
  | .close database | .exec _ database _ | .integrityCheck _ _ database _
  | .backupTo _ database _ | .health _ database _ => database ∈ p.databases

/-- As many steps as a backup can take. -/
def backupFuel : ℕ := 201

def perform (B : Build) (p : Process) : Action → Asking Process
  | .open wanted path options out => do
      let (opened, registry) ← esdbOpen B wanted p.registry path options out
      match opened with
      | .ok database => pure ⟨registry, database :: p.databases⟩
      | .error _ => pure ⟨registry, p.databases⟩
  | .close database => do
      RuntimeOpen.close database
      pure { p with databases := p.databases.erase database }
  | .exec wanted database sql => do
      let _ ← (execSql B wanted database.handle sql .exec).run
      pure p
  | .integrityCheck wanted fuel database quick => do
      let _ ← (RuntimeMaintenance.integrityCheck B wanted fuel database quick).run
      pure p
  | .backupTo wanted database path => do
      let _ ← (RuntimeMaintenance.backupTo B wanted backupFuel database path).run
      pure p
  | .health wanted database structSize => do
      let _ ← (healthGet B wanted database structSize).run
      pure p

/-- A process that has not begun. -/
def nothing : Held where
  records := 0
  messages := 0
  conn := fun _ => none
  stmt := fun _ => none
  backup := fun _ => none
  vfs := fun _ => none
  closed := []

/-- The states between the actions of a process. -/
inductive Runs (B : Build) : Process → Held → Prop where
  | start : Runs B ⟨[], []⟩ nothing
  | step {p p' : Process} {w w' : Held} {a : Action} :
      Runs B p w → Legal p a → Run sqlite (perform B p a) w p' w' → Runs B p' w'

/-- What is open is what was handed out, each database once and in the storage asked for. -/
structure Sound (B : Build) (p : Process) (w : Held) : Prop where
  registry : Registered B p.registry w
  records : w.records = p.databases.length
  messages : w.messages = 0
  stmt : ∀ s, w.stmt s = none
  backup : ∀ b, w.backup b = none
  handles : (p.databases.map Database.handle).Nodup
  held : ∀ d ∈ p.databases, ∃ c, w.conn d.handle = some c ∧ c.refused = false ∧
    Acceptable B d.options ∧ Selected B d.options p.registry c.vfs ∧
    (d.options.storageMode = Storage.compressed → c.zipvfs = true)
  only : ∀ db c, w.conn db = some c → c.refused = true ∨ ∃ d ∈ p.databases, d.handle = db

variable {B : Build} {p p' : Process} {w w' : Held} {a : Action}

theorem sound_start : Sound B ⟨[], []⟩ nothing where
  registry :=
    { nodup := List.nodup_nil
      made := fun _ h => by cases h
      registered := fun _ h => by cases h
      known := fun _ _ h => by cases h }
  records := rfl
  messages := rfl
  stmt := fun _ => rfl
  backup := fun _ => rfl
  handles := List.nodup_nil
  held := fun _ h => by cases h
  only := fun _ _ h => by cases h

theorem Sound.owned (h : Sound B p w) : w.Owned where
  stmt := fun s st hst => by
    rw [h.stmt s] at hst
    cases hst
  backup := fun b bk hbk => by
    rw [h.backup b] at hbk
    cases hbk

theorem selected_mono {options : OpenOptions} {registry registry' : Registry}
    (hgrown : registry ⊆ registry') {vfs : Option String} (h : Selected B options registry vfs) :
    Selected B options registry' vfs := by
  cases vfs with
  | none => exact h
  | some name =>
      obtain ⟨hmode, level, hlevel, hmem, hname⟩ := h
      exact ⟨hmode, level, hlevel, hgrown hmem, hname⟩

/-- What takes nothing keeps the databases. -/
theorem Sound.released (h : Sound B p w) (hw : Released w w') {registry' : Registry}
    (hregistered : Registered B registry' w') (hgrown : p.registry ⊆ registry') :
    Sound B ⟨registry', p.databases⟩ w' where
  registry := hregistered
  records := hw.records.trans h.records
  messages := hw.messages.trans h.messages
  stmt := fun s => by rw [hw.stmt, h.stmt]
  backup := fun b => by rw [hw.backup, h.backup]
  handles := h.handles
  held := by
    intro d hd
    obtain ⟨c, hc, hrefused, hacc, hselected, hzipvfs⟩ := h.held d hd
    refine ⟨c, ?_, hrefused, hacc, selected_mono hgrown hselected, hzipvfs⟩
    rcases hw.conn d.handle with heq | ⟨hnone, -⟩
    · rw [heq, hc]
    · rw [hc] at hnone
      cases hnone
  only := by
    intro db c hc
    rcases hw.conn db with heq | ⟨-, c', hc', hrefused⟩
    · exact h.only db c (heq ▸ hc)
    · cases hc.symm.trans hc'
      exact .inl hrefused

theorem Sound.opened (h : Sound B p w) {path : CString} {options : OpenOptions}
    {vfs : Option String} {database : Database} {registry' : Registry} {w₁ : Held}
    (hw₁ : w₁ = { w with vfs := w₁.vfs }) (hout : HandsOut w₁ path options vfs database w')
    (hacc : Acceptable B options) (hselected : Selected B options registry' vfs)
    (hregistered : Registered B registry' w') (hgrown : p.registry ⊆ registry') :
    Sound B ⟨registry', database :: p.databases⟩ w' := by
  obtain ⟨hoptions, hfresh, c, rfl, hpath, hflags, hvfs, hrefused, hzipvfs, hconf⟩ := hout
  have hconn : w₁.conn = w.conn := by rw [hw₁]
  rw [hconn] at hfresh
  have hne : ∀ d ∈ p.databases, d.handle ≠ database.handle := by
    intro d hd heq
    obtain ⟨c', hc', -⟩ := h.held d hd
    rw [heq, hfresh] at hc'
    cases hc'
  exact
    { registry := hregistered
      records := by
        change w₁.records + 1 = p.databases.length + 1
        rw [hw₁, ← h.records]
      messages := by
        change w₁.messages = 0
        rw [hw₁, h.messages]
      stmt := fun s => by
        change w₁.stmt s = none
        rw [hw₁, h.stmt]
      backup := fun b => by
        change w₁.backup b = none
        rw [hw₁, h.backup]
      handles := by
        refine List.nodup_cons.mpr ⟨fun hmem => ?_, h.handles⟩
        obtain ⟨d, hd, heq⟩ := List.mem_map.mp hmem
        exact hne d hd heq
      held := by
        intro d hd
        rcases List.mem_cons.mp hd with rfl | hd
        · exact ⟨c, Function.update_self .., hrefused, hoptions ▸ hacc,
            hoptions ▸ hvfs ▸ hselected, hoptions ▸ hzipvfs⟩
        · obtain ⟨c', hc', hrefused', hacc', hselected', hzipvfs'⟩ := h.held d hd
          refine ⟨c', ?_, hrefused', hacc', selected_mono hgrown hselected', hzipvfs'⟩
          exact (Function.update_of_ne (hne d hd) ..).trans (hconn ▸ hc')
      only := by
        intro db c' hc'
        by_cases heq : db = database.handle
        · exact .inr ⟨database, List.mem_cons_self, heq.symm⟩
        · have hold := h.only db c' (hconn ▸ (Function.update_of_ne heq ..).symm.trans hc')
          rcases hold with hr | ⟨d, hd, hdb⟩
          · exact .inl hr
          · exact .inr ⟨d, List.mem_cons_of_mem _ hd, hdb⟩ }

theorem Sound.handle_ne (h : Sound B p w) {d d' : Database} (hd : d ∈ p.databases)
    (hd' : d' ∈ p.databases) (hne : d' ≠ d) : d'.handle ≠ d.handle := fun heq =>
  hne (List.inj_on_of_nodup_map h.handles hd' hd heq)

/-- A database that is closed is no longer held, or SQLite has refused. -/
theorem Sound.closed (h : Sound B p w) {d : Database} (hd : d ∈ p.databases)
    {o : Option Conn} (ho : ∀ c, o = some c → c.refused = true) {closed : List Conn} :
    Sound B { p with databases := p.databases.erase d }
      { w.setConn d.handle o with records := w.records - 1, closed := closed } where
  registry := h.registry.of_vfs rfl
  records := by
    change w.records - 1 = (p.databases.erase d).length
    rw [h.records, List.length_erase_of_mem hd]
  messages := h.messages
  stmt := h.stmt
  backup := h.backup
  handles := h.handles.sublist (List.erase_sublist.map _)
  held := by
    intro d' hd'
    have hnodup : p.databases.Nodup := h.handles.of_map _
    obtain ⟨hne, hmem⟩ := hnodup.mem_erase_iff.mp hd'
    obtain ⟨c, hc, hrest⟩ := h.held d' hmem
    exact ⟨c, (Function.update_of_ne (h.handle_ne hd hmem hne) ..).trans hc, hrest⟩
  only := by
    intro db c hc
    by_cases heq : db = d.handle
    · have hc' : (w.setConn d.handle o).conn db = some c := hc
      rw [heq, Held.setConn_self] at hc'
      exact .inl (ho c hc')
    · rcases h.only db c ((Function.update_of_ne heq ..).symm.trans hc) with hr | ⟨d', hd', hdb⟩
      · exact .inl hr
      · refine .inr ⟨d', ?_, hdb⟩
        refine (List.mem_erase_of_ne ?_).mpr hd'
        rintro rfl
        exact heq hdb.symm

theorem Sound.idle (h : Sound B p w) (db : ℕ) : w.Idle db := by
  refine ⟨fun s st hst => ?_, fun b bk hbk => ?_⟩
  · rw [h.stmt s] at hst
    cases hst
  · rw [h.backup b] at hbk
    cases hbk

theorem keeps_close (h : Sound B p w) {d : Database} (hd : d ∈ p.databases) :
    Keeps sqlite (RuntimeOpen.close d)
      (fun _ => Sound B { p with databases := p.databases.erase d }) w := by
  obtain ⟨c, hc, -⟩ := h.held d hd
  have hrecords : 0 < w.records := h.records ▸ List.length_pos_of_mem hd
  refine keeps_bind.mpr (keeps_call.mpr ⟨⟨by simp [hc], h.idle d.handle⟩, fun r w' hreply => ?_⟩)
  cases r with
  | ok u =>
      obtain ⟨c', -, rfl⟩ := hreply
      refine keeps_call.mpr ⟨hrecords, ?_⟩
      rintro _ _ rfl
      exact h.closed hd fun _ h => by cases h
  | error e =>
      obtain ⟨c', -, rfl⟩ := hreply
      refine keeps_call.mpr ⟨hrecords, ?_⟩
      rintro _ _ rfl
      refine h.closed hd fun c'' heq => ?_
      cases heq
      rfl

/-- A statement works on one connection and keeps what it is. -/
theorem Sound.exec (h : Sound B p w) {d : Database} (hd : d ∈ p.databases) {c c' : Conn}
    (hc : w.conn d.handle = some c) (hkept : Kept c c') :
    Sound B p (w.setConn d.handle (some c')) where
  registry := h.registry.of_vfs rfl
  records := h.records
  messages := h.messages
  stmt := h.stmt
  backup := h.backup
  handles := h.handles
  held := by
    intro d' hd'
    obtain ⟨c₀, hc₀, hrefused, hacc, hselected, hzipvfs⟩ := h.held d' hd'
    by_cases heq : d' = d
    · subst heq
      cases hc.symm.trans hc₀
      exact ⟨c', Held.setConn_self .., hkept.refused.trans hrefused, hacc,
        hkept.vfs ▸ hselected, fun hmode => hkept.zipvfs.trans (hzipvfs hmode)⟩
    · exact ⟨c₀, (Function.update_of_ne (h.handle_ne hd hd' heq) ..).trans hc₀, hrefused, hacc,
        hselected, hzipvfs⟩
  only := by
    intro db c₀ hc₀
    by_cases heq : db = d.handle
    · exact .inr ⟨d, hd, heq.symm⟩
    · exact h.only db c₀ ((Function.update_of_ne heq ..).symm.trans hc₀)

/-- One action of a caller, whatever is answered to it. -/
theorem keeps_perform (h : Sound B p w) (hlegal : Legal p a) :
    Keeps sqlite (perform B p a) (Sound B) w := by
  cases a with
  | «open» wanted path options out =>
      refine keeps_bind.mpr ((keeps_esdbOpen h.registry h.owned).mono ?_)
      rintro ⟨r, registry'⟩ w' hopens
      cases r with
      | ok database =>
          obtain ⟨path', vfs, w₁, -, hacc, hselected, hw₁, hout⟩ := hopens.opened database rfl
          exact h.opened hw₁ hout hacc hselected hopens.registered hopens.grown
      | error e => exact h.released (hopens.failed e rfl) hopens.registered hopens.grown
  | close database =>
      exact keeps_bind.mpr ((keeps_close h hlegal).mono fun _ _ hs => hs)
  | exec wanted database sql =>
      obtain ⟨c, hc, -⟩ := h.held database hlegal
      refine keeps_bind.mpr (keeps_run.mpr (meets_execSql hc ?_ ?_))
      · exact fun c' htouch => h.exec hlegal hc (kept_of_touches htouch)
      · exact fun _ c' htouch => h.exec hlegal hc (kept_of_touches htouch)
  | integrityCheck wanted fuel database quick =>
      obtain ⟨c, hc, -⟩ := h.held database hlegal
      refine keeps_bind.mpr (keeps_run.mpr ((meets_integrityCheck hc).mono ?_ ?_))
      · rintro _ _ ⟨rfl, -⟩
        exact h
      · rintro _ _ rfl
        exact h
  | backupTo wanted database path =>
      obtain ⟨c, hc, -⟩ := h.held database hlegal
      refine keeps_bind.mpr (keeps_run.mpr ((meets_backupTo hc h.owned (Nat.le_refl _)).mono ?_ ?_))
      · rintro _ _ ⟨-, _, -, ⟨t, rfl, -⟩⟩
        exact h.released (released_closed w t) (h.registry.of_vfs rfl) fun _ hmem => hmem
      · rintro _ w' ⟨hreleased, hvfs⟩
        exact h.released hreleased (h.registry.of_vfs hvfs) fun _ hmem => hmem
  | health wanted database structSize =>
      obtain ⟨c, hc, -⟩ := h.held database hlegal
      refine keeps_bind.mpr (keeps_run.mpr ((meets_healthGet hc).mono ?_ ?_))
      · rintro _ _ ⟨rfl, -⟩
        exact h
      · rintro _ _ rfl
        exact h

theorem Runs.sound (hrun : Runs B p w) : Sound B p w := by
  induction hrun with
  | start => exact sound_start
  | step _ hlegal hperform ih => exact (keeps_perform ih hlegal).run hperform

/-! ## What holds in every run -/

end Esdb.RuntimeProcess
