import Mathlib.Data.List.Basic

/-!
# Transactions, savepoints and one writer

A connection to a transactional file, as an embedded SQL engine documents it:
autocommit until a transaction is opened, a read snapshot taken by the first
statement, a single writer, a stack of named savepoints, and errors that may or
may not roll the whole transaction back. The content of the file and the
statements on it are parameters.

A write needs the write lock. A transaction that has read may still become the
writer, but only from the newest content, so a writer always extends what is
committed.
-/
namespace Transactional

structure Language where
  Stmt : Type
  Row : Stmt → Type
  Content : Type
  Name : Type
  Error : Type
  writes : Stmt → Bool
  eval : (s : Stmt) → Content → Except Error (Row s × Content)
  eval_reads : ∀ {s d r d'}, writes s = false → eval s d = .ok (r, d') → d' = d
  decContent : DecidableEq Content
  decName : DecidableEq Name

variable {L : Language}

instance : DecidableEq L.Content := L.decContent
instance : DecidableEq L.Name := L.decName

/-- What a transaction has touched: nothing, a snapshot, or its own version. -/
inductive Access (L : Language) where
  | idle
  | reading (snapshot : L.Content)
  | writing (current : L.Content)

/-- `saved` is what the transaction had written when the savepoint was opened. -/
structure Savepoint (L : Language) where
  serial : ℕ
  name : L.Name
  saved : Option L.Content

/-- Savepoints stand most recent first. An implicit transaction was opened by
its outermost savepoint and ends with it. -/
structure Txn (L : Language) where
  serial : ℕ
  access : Access L
  savepoints : List (Savepoint L)
  implicit : Bool

structure Conn (L : Language) where
  txn : Option (Txn L)
  opened : ℕ

inductive Cmd (L : Language) where
  | begin (immediate : Bool)
  | commit
  | rollback
  | savepoint (name : L.Name)
  | release (name : L.Name)
  | rollbackTo (name : L.Name)
  | stmt (s : L.Stmt)

/-- Opening something answers its serial number: an identity nothing else has,
which the engine keeps to itself. -/
abbrev Cmd.Row : Cmd L → Type
  | .stmt s => L.Row s
  | .begin _ => ℕ
  | .savepoint _ => ℕ
  | _ => Unit

inductive Refusal (E : Type) where
  | busy | alreadyOpen | noTransaction | noSavepoint
  | failed (e : E)

/-- What the environment adds to one command: nothing, an error that leaves the
transaction as it is, or an error answered by rolling all of it back. -/
inductive Fault (E : Type) where
  | none
  | fail (e : E)
  | rollback (e : E)

structure Outcome (L : Language) (ρ : Type) where
  file : L.Content
  conn : Conn L
  reply : Except (Refusal L.Error) ρ

namespace Access

def view (file : L.Content) : Access L → L.Content
  | .idle => file
  | .reading d => d
  | .writing d => d

def written : Access L → Option L.Content
  | .writing d => some d
  | _ => none

def canWrite (free : Bool) (file : L.Content) : Access L → Bool
  | .idle => free
  | .reading d => free && d = file
  | .writing _ => true

/-- The access left by a statement that ended with content `d`. -/
def after (writes : Bool) (d : L.Content) : Access L → Access L
  | .writing _ => .writing d
  | a => if writes then .writing d else match a with
    | .idle => .reading d
    | a => a

/-- `ROLLBACK TO` gives back content, never the write lock. -/
def restore (file : L.Content) (saved : Option L.Content) : Access L → Access L
  | .writing _ => .writing (saved.getD file)
  | a => a

def isWriting : Access L → Bool
  | .writing _ => true
  | _ => false

end Access

/-- The most recent savepoint of that name and the ones below it. -/
def findSavepoint (n : L.Name) : List (Savepoint L) → Option (Savepoint L × List (Savepoint L))
  | [] => none
  | sp :: below => if sp.name = n then some (sp, below) else findSavepoint n below

namespace Conn

def closed : Conn L := ⟨none, 0⟩

def autocommit (conn : Conn L) : Bool := conn.txn.isNone

def view (file : L.Content) (conn : Conn L) : L.Content :=
  match conn.txn with
  | none => file
  | some t => t.access.view file

def isWriting (conn : Conn L) : Bool :=
  match conn.txn with
  | none => false
  | some t => t.access.isWriting

def abort (conn : Conn L) : Conn L := { conn with txn := none }

def openTxn (access : Access L) (conn : Conn L) : Conn L :=
  ⟨some ⟨conn.opened, access, [], false⟩, conn.opened + 1⟩

/-- `SAVEPOINT`, which opens a transaction when there is none. -/
def push (n : L.Name) (conn : Conn L) : Conn L :=
  match conn.txn with
  | none => ⟨some ⟨conn.opened, .idle, [⟨conn.opened + 1, n, none⟩], true⟩, conn.opened + 2⟩
  | some t =>
      ⟨some { t with savepoints := ⟨conn.opened, n, t.access.written⟩ :: t.savepoints },
        conn.opened + 1⟩

end Conn

/-! ## Commands -/

def refuse {ρ : Type} (file : L.Content) (conn : Conn L) (r : Refusal L.Error) : Outcome L ρ :=
  ⟨file, conn, .error r⟩

def performBegin (free immediate : Bool) (file : L.Content) (conn : Conn L) : Outcome L ℕ :=
  match conn.txn with
  | some _ => refuse file conn .alreadyOpen
  | none =>
      if !immediate then ⟨file, conn.openTxn .idle, .ok conn.opened⟩
      else if free then ⟨file, conn.openTxn (.writing file), .ok conn.opened⟩
      else refuse file conn .busy

def performSavepoint (n : L.Name) (file : L.Content) (conn : Conn L) : Outcome L ℕ :=
  match conn.txn with
  | none => ⟨file, conn.push n, .ok (conn.opened + 1)⟩
  | some _ => ⟨file, conn.push n, .ok conn.opened⟩

def performCommit (file : L.Content) (conn : Conn L) : Outcome L Unit :=
  match conn.txn with
  | none => refuse file conn .noTransaction
  | some t => ⟨t.access.written.getD file, conn.abort, .ok ()⟩

def performRollback (file : L.Content) (conn : Conn L) : Outcome L Unit :=
  match conn.txn with
  | none => refuse file conn .noTransaction
  | some _ => ⟨file, conn.abort, .ok ()⟩

def performRelease (n : L.Name) (file : L.Content) (conn : Conn L) : Outcome L Unit :=
  match conn.txn with
  | none => refuse file conn .noSavepoint
  | some t =>
      match findSavepoint n t.savepoints with
      | none => refuse file conn .noSavepoint
      | some (_, below) =>
          if t.implicit && below.isEmpty then ⟨t.access.written.getD file, conn.abort, .ok ()⟩
          else ⟨file, { conn with txn := some { t with savepoints := below } }, .ok ()⟩

def performRollbackTo (n : L.Name) (file : L.Content) (conn : Conn L) : Outcome L Unit :=
  match conn.txn with
  | none => refuse file conn .noSavepoint
  | some t =>
      match findSavepoint n t.savepoints with
      | none => refuse file conn .noSavepoint
      | some (sp, below) =>
          ⟨file, { conn with txn := some { t with
            access := t.access.restore file sp.saved, savepoints := sp :: below } }, .ok ()⟩

/-- A failing statement changes nothing, not even what was touched. -/
def performStmt (free : Bool) (s : L.Stmt) (file : L.Content) (conn : Conn L) :
    Outcome L (L.Row s) :=
  match conn.txn with
  | none =>
      if L.writes s && !free then refuse file conn .busy
      else match L.eval s file with
        | .error e => refuse file conn (.failed e)
        | .ok (r, d) => ⟨d, conn, .ok r⟩
  | some t =>
      if L.writes s && !t.access.canWrite free file then refuse file conn .busy
      else match L.eval s (t.access.view file) with
        | .error e => refuse file conn (.failed e)
        | .ok (r, d) =>
            ⟨file, { conn with txn := some { t with access := t.access.after (L.writes s) d } },
              .ok r⟩

def perform (free : Bool) (file : L.Content) (conn : Conn L) : (c : Cmd L) → Outcome L c.Row
  | .begin immediate => performBegin free immediate file conn
  | .commit => performCommit file conn
  | .rollback => performRollback file conn
  | .savepoint n => performSavepoint n file conn
  | .release n => performRelease n file conn
  | .rollbackTo n => performRollbackTo n file conn
  | .stmt s => performStmt free s file conn

/-- What an error that rolls back leaves; `BEGIN` runs into none while a
transaction is open. -/
def Conn.struck (conn : Conn L) : Cmd L → Conn L
  | .begin _ => conn
  | _ => conn.abort

/-- One command under one fault. -/
def exec (free : Bool) (fault : Fault L.Error) (file : L.Content) (conn : Conn L) (c : Cmd L) :
    Outcome L c.Row :=
  match fault with
  | .none => perform free file conn c
  | .fail e => refuse file conn (.failed e)
  | .rollback e => refuse file (conn.struck c) (.failed e)

/-! ## Identity of what is open

Serial numbers are handed out once, so a transaction or savepoint that is open
later is either one that was open before or one opened since.
-/

theorem findSavepoint_mem {n : L.Name} {l below : List (Savepoint L)} {sp : Savepoint L}
    (h : findSavepoint n l = some (sp, below)) : sp ∈ l ∧ ∀ x ∈ below, x ∈ l := by
  induction l with
  | nil => simp [findSavepoint] at h
  | cons a l ih =>
      unfold findSavepoint at h
      split_ifs at h with hn
      · simp only [Option.some.injEq, Prod.mk.injEq] at h
        obtain ⟨rfl, rfl⟩ := h
        exact ⟨List.mem_cons_self, fun x hx => List.mem_cons_of_mem _ hx⟩
      · obtain ⟨h₁, h₂⟩ := ih h
        exact ⟨List.mem_cons_of_mem _ h₁, fun x hx => List.mem_cons_of_mem _ (h₂ x hx)⟩

namespace Conn

structure Numbered (conn : Conn L) : Prop where
  txn : ∀ t, conn.txn = some t → t.serial < conn.opened
  savepoint : ∀ t, conn.txn = some t → ∀ sp ∈ t.savepoints, sp.serial < conn.opened

structure Later (conn conn' : Conn L) : Prop where
  opened_le : conn.opened ≤ conn'.opened
  txn : ∀ t', conn'.txn = some t' → conn.opened ≤ t'.serial ∨
    ∃ t, conn.txn = some t ∧ t'.serial = t.serial ∧ t'.implicit = t.implicit
  savepoint : ∀ t', conn'.txn = some t' → ∀ sp ∈ t'.savepoints, conn.opened ≤ sp.serial ∨
    ∃ t, conn.txn = some t ∧ sp ∈ t.savepoints

theorem numbered_closed : (closed : Conn L).Numbered :=
  ⟨fun _ h => by simp [closed] at h, fun _ h => by simp [closed] at h⟩

theorem Later.refl (conn : Conn L) : conn.Later conn :=
  ⟨Nat.le_refl _, fun t' h => .inr ⟨t', h, rfl, rfl⟩, fun t' h _ hs => .inr ⟨t', h, hs⟩⟩

theorem Later.trans {a b c : Conn L} (h₁ : a.Later b) (h₂ : b.Later c) : a.Later c := by
  refine ⟨Nat.le_trans h₁.opened_le h₂.opened_le, ?_, ?_⟩
  · intro t ht
    rcases h₂.txn t ht with h | ⟨t', ht', he, hi⟩
    · exact .inl (Nat.le_trans h₁.opened_le h)
    · rcases h₁.txn t' ht' with h | ⟨t₀, ht₀, he₀, hi₀⟩
      · exact .inl (he ▸ h)
      · exact .inr ⟨t₀, ht₀, he.trans he₀, hi.trans hi₀⟩
  · intro t ht sp hs
    rcases h₂.savepoint t ht sp hs with h | ⟨t', ht', hs'⟩
    · exact .inl (Nat.le_trans h₁.opened_le h)
    · exact h₁.savepoint t' ht' sp hs'

theorem later_abort (conn : Conn L) : conn.Later conn.abort :=
  ⟨Nat.le_refl _, fun _ h => by simp [abort] at h, fun _ h => by simp [abort] at h⟩

theorem Numbered.abort {conn : Conn L} : conn.abort.Numbered :=
  ⟨fun _ h => by simp [Conn.abort] at h, fun _ h => by simp [Conn.abort] at h⟩

/-- Replacing the open transaction by one with the same identity and no
savepoint it did not have. -/
theorem later_replace {conn : Conn L} {t t' : Txn L} (ht : conn.txn = some t)
    (hs : t'.serial = t.serial) (hi : t'.implicit = t.implicit)
    (hsp : ∀ sp ∈ t'.savepoints, sp ∈ t.savepoints) : conn.Later { conn with txn := some t' } := by
  refine ⟨Nat.le_refl _, ?_, ?_⟩
  · intro u hu
    obtain rfl := Option.some.inj hu
    exact .inr ⟨t, ht, hs, hi⟩
  · intro u hu sp h
    obtain rfl := Option.some.inj hu
    exact .inr ⟨t, ht, hsp sp h⟩

theorem Numbered.replace {conn : Conn L} {t t' : Txn L} (h : conn.Numbered) (ht : conn.txn = some t)
    (hs : t'.serial = t.serial) (hsp : ∀ sp ∈ t'.savepoints, sp ∈ t.savepoints) :
    ({ conn with txn := some t' } : Conn L).Numbered := by
  constructor
  · intro u hu
    obtain rfl := Option.some.inj hu
    exact hs ▸ h.txn t ht
  · intro u hu sp hm
    obtain rfl := Option.some.inj hu
    exact h.savepoint t ht sp (hsp sp hm)

theorem later_openTxn (conn : Conn L) (a : Access L) : conn.Later (conn.openTxn a) := by
  refine ⟨Nat.le_succ _, ?_, ?_⟩
  · intro u hu
    obtain rfl := Option.some.inj hu
    exact .inl (Nat.le_refl _)
  · intro u hu sp hm
    obtain rfl := Option.some.inj hu
    simp at hm

theorem numbered_openTxn (conn : Conn L) (a : Access L) : (conn.openTxn a).Numbered := by
  constructor
  · intro u hu
    obtain rfl := Option.some.inj hu
    exact Nat.lt_succ_self _
  · intro u hu sp hm
    obtain rfl := Option.some.inj hu
    simp at hm

theorem later_push (conn : Conn L) (n : L.Name) : conn.Later (conn.push n) := by
  unfold push
  cases ht : conn.txn with
  | none =>
      refine ⟨by simp, ?_, ?_⟩
      · intro u hu
        obtain rfl := Option.some.inj hu
        exact .inl (Nat.le_refl _)
      · intro u hu sp hm
        obtain rfl := Option.some.inj hu
        obtain rfl := List.mem_singleton.mp hm
        exact .inl (Nat.le_succ _)
  | some t =>
      refine ⟨Nat.le_succ _, ?_, ?_⟩
      · intro u hu
        obtain rfl := Option.some.inj hu
        exact .inr ⟨t, ht, rfl, rfl⟩
      · intro u hu sp hm
        obtain rfl := Option.some.inj hu
        rcases List.mem_cons.mp hm with rfl | hm
        · exact .inl (Nat.le_refl _)
        · exact .inr ⟨t, ht, hm⟩

theorem Numbered.push {conn : Conn L} (h : conn.Numbered) (n : L.Name) :
    (conn.push n).Numbered := by
  unfold Conn.push
  cases ht : conn.txn with
  | none =>
      constructor
      · intro u hu
        obtain rfl := Option.some.inj hu
        exact Nat.lt_add_of_pos_right (by decide)
      · intro u hu sp hm
        obtain rfl := Option.some.inj hu
        obtain rfl := List.mem_singleton.mp hm
        exact Nat.lt_succ_self _
  | some t =>
      constructor
      · intro u hu
        obtain rfl := Option.some.inj hu
        exact Nat.lt_succ_of_lt (h.txn t ht)
      · intro u hu sp hm
        obtain rfl := Option.some.inj hu
        rcases List.mem_cons.mp hm with rfl | hm
        · exact Nat.lt_succ_self _
        · exact Nat.lt_succ_of_lt (h.savepoint t ht sp hm)

end Conn

theorem struck_later (conn : Conn L) (c : Cmd L) :
    conn.Later (conn.struck c) ∧ (conn.Numbered → (conn.struck c).Numbered) := by
  cases c with
  | begin immediate => exact ⟨.refl conn, id⟩
  | _ => exact ⟨conn.later_abort, fun _ => .abort⟩

/-- One command never brings back what has ended, and never reuses a number. -/
theorem perform_later (free : Bool) (file : L.Content) (conn : Conn L) (c : Cmd L) :
    conn.Later (perform free file conn c).conn ∧
      (conn.Numbered → (perform free file conn c).conn.Numbered) := by
  have hrefl : conn.Later conn ∧ (conn.Numbered → conn.Numbered) := ⟨.refl conn, id⟩
  have habort : conn.Later conn.abort ∧ (conn.Numbered → conn.abort.Numbered) :=
    ⟨conn.later_abort, fun _ => .abort⟩
  cases c with
  | begin immediate =>
      simp only [perform, performBegin]
      split
      · exact hrefl
      · split_ifs
        · exact ⟨conn.later_openTxn _, fun _ => conn.numbered_openTxn _⟩
        · exact ⟨conn.later_openTxn _, fun _ => conn.numbered_openTxn _⟩
        · exact hrefl
  | commit =>
      simp only [perform, performCommit]
      split
      · exact hrefl
      · exact habort
  | rollback =>
      simp only [perform, performRollback]
      split
      · exact hrefl
      · exact habort
  | savepoint n =>
      simp only [perform, performSavepoint]
      split <;> exact ⟨conn.later_push n, fun h => h.push n⟩
  | release n =>
      simp only [perform, performRelease]
      split
      · exact hrefl
      · next t ht =>
          split
          · exact hrefl
          · next sp below hf =>
              split_ifs
              · exact habort
              · exact ⟨Conn.later_replace ht rfl rfl (findSavepoint_mem hf).2,
                  fun h => h.replace ht rfl (findSavepoint_mem hf).2⟩
  | rollbackTo n =>
      simp only [perform, performRollbackTo]
      split
      · exact hrefl
      · next t ht =>
          split
          · exact hrefl
          · next sp below hf =>
              have hmem : ∀ x ∈ sp :: below, x ∈ t.savepoints := by
                intro x hx
                rcases List.mem_cons.mp hx with rfl | hx
                · exact (findSavepoint_mem hf).1
                · exact (findSavepoint_mem hf).2 x hx
              exact ⟨Conn.later_replace ht rfl rfl hmem, fun h => h.replace ht rfl hmem⟩
  | stmt s =>
      simp only [perform, performStmt]
      split
      · split_ifs
        · exact hrefl
        · split <;> exact hrefl
      · next t ht =>
          split_ifs
          · exact hrefl
          · split
            · exact hrefl
            · exact ⟨Conn.later_replace ht rfl rfl fun _ h => h, fun h => h.replace ht rfl fun _ h => h⟩

/-- An implicit transaction still has the savepoint that opened it. -/
def Conn.Rooted (conn : Conn L) : Prop :=
  ∀ t, conn.txn = some t → t.implicit = true → t.savepoints ≠ []

theorem Conn.rooted_closed {conn : Conn L} (h : conn.txn = none) : conn.Rooted := by
  intro t ht
  simp [h] at ht

theorem Conn.Rooted.replace {t : Txn L} {a : Access L}
    {sps : List (Savepoint L)} {n : ℕ} (h : t.implicit = true → sps ≠ []) :
    Conn.Rooted ⟨some { t with access := a, savepoints := sps }, n⟩ := by
  intro t' ht' hi
  obtain rfl := Option.some.inj ht'
  exact h hi

theorem Conn.Rooted.exec {conn : Conn L} (h : conn.Rooted) (free : Bool) (fault : Fault L.Error)
    (file : L.Content) (c : Cmd L) : (exec free fault file conn c).conn.Rooted := by
  cases fault with
  | fail e => exact h
  | rollback e =>
      cases c with
      | begin immediate => exact h
      | _ => exact rooted_closed rfl
  | none =>
      cases c with
      | begin immediate =>
          simp only [Transactional.exec, perform, performBegin]
          have hopen : ∀ a : Access L, (conn.openTxn a).Rooted := by
            intro a t ht hi
            obtain rfl := Option.some.inj ht
            cases hi
          split
          · exact h
          · split_ifs
            · exact hopen _
            · exact hopen _
            · exact h
      | commit =>
          simp only [Transactional.exec, perform, performCommit]
          split
          · exact h
          · exact rooted_closed rfl
      | rollback =>
          simp only [Transactional.exec, perform, performRollback]
          split
          · exact h
          · exact rooted_closed rfl
      | savepoint n =>
          simp only [Transactional.exec, perform, performSavepoint, push]
          split
          · intro t ht hi
            obtain rfl := Option.some.inj ht
            simp
          · intro t ht hi
            obtain rfl := Option.some.inj ht
            simp
      | release n =>
          simp only [Transactional.exec, perform, performRelease]
          split
          · exact h
          · next t ht =>
              split
              · exact h
              · split_ifs with hlast
                · exact rooted_closed rfl
                · refine Rooted.replace fun hi => ?_
                  simpa [hi] using hlast
      | rollbackTo n =>
          simp only [Transactional.exec, perform, performRollbackTo]
          split
          · exact h
          · split
            · exact h
            · exact Rooted.replace fun _ => by simp
      | stmt s =>
          simp only [Transactional.exec, perform, performStmt]
          split
          · split_ifs
            · exact h
            · split <;> exact h
          · next t ht =>
              split_ifs
              · exact h
              · split
                · exact h
                · exact Rooted.replace fun hi => h t ht hi

end Transactional
