import Esdb.TransactionalProgram
import Mathlib.Logic.Relation

/-!
# Acting on content

What a piece of a program did, whichever mode the connection was in: in
autocommit mode it acted on the file, between moves of others; inside a
transaction it acted on the content of that transaction. Acts inside one
transaction compose, and an act that changes nothing composes with any other.
-/
namespace Transactional

variable {L : Language} {W F α : Type}

/-- One statement on content. -/
def Language.Executes (L : Language) (d d' : L.Content) : Prop :=
  ∃ (s : L.Stmt) (r : L.Row s), L.eval s d = .ok (r, d')

/-- Some statements on content, possibly not all of what was meant to be done. -/
def Language.Unfinished (L : Language) : L.Content → L.Content → Prop :=
  Relation.ReflTransGen L.Executes

theorem unfinished_of_reaches {q : Query L F α} {d d' : L.Content} (h : q.Reaches d d') :
    L.Unfinished d d' := by
  refine Query.Reaches.preserves h ?_ Relation.ReflTransGen.refl
  intro s r d₁ d₂ he hd
  exact hd.tail ⟨s, r, he⟩

theorem Language.Unfinished.preserves {d d' : L.Content} (h : L.Unfinished d d')
    {P : L.Content → Prop}
    (hP : ∀ {s : L.Stmt} {r : L.Row s} {d d' : L.Content}, L.eval s d = .ok (r, d') → P d → P d')
    (hd : P d) : P d' := by
  induction h with
  | refl => exact hd
  | tail _ hs ih =>
      obtain ⟨s, r, he⟩ := hs
      exact hP he ih

/-- The connection has acted on its content along `P`, and has left these
savepoints on top of those it found. A transaction that is still idle has seen
no content, so what was done is right for all of it. -/
def Acts (C : Contract L W) (P : L.Content → L.Content → Prop) (above : List (Savepoint L))
    (σ σ' : State L W) : Prop :=
  match σ.conn.txn with
  | none => above = [] ∧ σ'.conn.txn = none ∧
      ∃ d d', C.rely σ.file d ∧ P d d' ∧ C.rely d' σ'.file
  | some t => ∃ a : Access L,
      σ'.conn.txn = some { t with access := a, savepoints := above ++ t.savepoints } ∧
        Touched C t.access σ.file a σ'.file ∧ P (origin t.access a σ'.file) (a.view σ'.file) ∧
        (a = .idle → ∀ d, P d d)

/-- The transaction that was open has been rolled back by a fault that the
contract allows there, and the connection is in autocommit mode since. -/
def Aborts (C : Contract L W) (σ σ' : State L W) : Prop :=
  σ.conn.txn.isSome ∧ σ'.conn.txn = none ∧ ∃ σ₀ : State L W, C.Aborted σ₀ ∧
    σ₀.wrapper = σ.wrapper ∧ C.rely σ.file σ₀.file ∧ C.rely σ₀.file σ'.file

variable {C : Contract L W} {P Q : L.Content → L.Content → Prop} {above : List (Savepoint L)}
  {σ σ₁ σ' : State L W}

theorem Acts.mono (h : Acts C P above σ σ') (hpq : ∀ d d', P d d' → Q d d') :
    Acts C Q above σ σ' := by
  unfold Acts at h ⊢
  cases ht : σ.conn.txn with
  | none =>
      simp only [ht] at h ⊢
      obtain ⟨ha, hn, d, d', h₁, hp, h₂⟩ := h
      exact ⟨ha, hn, d, d', h₁, hpq _ _ hp, h₂⟩
  | some t =>
      simp only [ht] at h ⊢
      obtain ⟨a, hc, htt, hp, hi⟩ := h
      exact ⟨a, hc, htt, hpq _ _ hp, fun h d => hpq _ _ (hi h d)⟩

theorem Touched.moves {t : Txn L} {conn : Conn L} {a : Access L} {f f' : L.Content}
    (ht : conn.txn = some t) (h : Touched C t.access f a f') : C.Moves conn f f' := by
  unfold Contract.Moves
  split_ifs with hw
  · cases ha : t.access with
    | writing d =>
        rw [ha] at h
        cases a <;> simp_all [Touched]
    | _ => simp [Conn.isWriting, ht, ha, Access.isWriting] at hw
  · exact h.rely

/-- Moving on from a state that has been touched changes nothing about it. -/
theorem Touched.carry {a₀ a : Access L} {f₀ f f' : L.Content} (h : Touched C a₀ f₀ a f)
    {conn : Conn L} {t : Txn L} (hc : conn.txn = some t) (ha : t.access = a)
    (hm : C.Moves conn f f') (hp : P (origin a₀ a f) (a.view f)) (hi : a = .idle → ∀ d, P d d) :
    Touched C a₀ f₀ a f' ∧ P (origin a₀ a f') (a.view f') := by
  obtain ⟨ht, hs⟩ := h.settled hc ha hm
  refine ⟨ht, ?_⟩
  by_cases hidle : a = .idle
  · subst hidle
    cases a₀ with
    | idle => exact hi rfl f'
    | _ => simp [Touched] at h
  · rw [(hs hidle).1, (hs hidle).2]
    exact hp

theorem Acts.refl (C : Contract L W) (σ : State L W) : Acts C Eq [] σ σ := by
  unfold Acts
  cases ht : σ.conn.txn with
  | none => exact ⟨rfl, rfl, σ.file, σ.file, C.rely_refl _, rfl, C.rely_refl _⟩
  | some t => exact ⟨t.access, rfl, touched_refl _ _, origin_self _ _, fun _ _ => rfl⟩

/-- What was done stays done while others move the file. -/
theorem Acts.settled (h : Acts C P above σ σ') {f : L.Content} {w : W}
    (hm : C.Moves σ'.conn σ'.file f) : Acts C P above σ { σ' with file := f, wrapper := w } := by
  unfold Acts at h ⊢
  cases ht : σ.conn.txn with
  | none =>
      simp only [ht] at h ⊢
      obtain ⟨ha, hn, d, d', h₁, hp, h₂⟩ := h
      exact ⟨ha, hn, d, d', h₁, hp, C.rely_trans h₂ hm.rely⟩
  | some t =>
      simp only [ht] at h ⊢
      obtain ⟨a, hc, htt, hp, hi⟩ := h
      obtain ⟨htt, hp⟩ := htt.carry hc rfl hm hp hi
      exact ⟨a, hc, htt, hp, hi⟩

theorem Acts.moved {f : L.Content} {w : W} (hm : C.Moves σ.conn σ.file f) :
    Acts C Eq [] σ { σ with file := f, wrapper := w } := (Acts.refl C σ).settled hm

theorem Acts.autocommit (h : Acts C P [] σ σ') : σ'.conn.txn = none ↔ σ.conn.txn = none := by
  unfold Acts at h
  cases ht : σ.conn.txn with
  | none =>
      simp only [ht] at h
      simp [h.2.1]
  | some t =>
      simp only [ht] at h
      obtain ⟨a, hc, -⟩ := h
      simp [hc]

theorem Acts.rely (h : Acts C Eq [] σ σ') : C.rely σ.file σ'.file := by
  unfold Acts at h
  cases ht : σ.conn.txn with
  | none =>
      simp only [ht] at h
      obtain ⟨-, -, d, d', h₁, rfl, h₂⟩ := h
      exact C.rely_trans h₁ h₂
  | some t =>
      simp only [ht] at h
      obtain ⟨a, -, htt, -⟩ := h
      exact htt.rely

theorem Acts.rely_of_txn (h : Acts C P above σ σ') (ht : σ.conn.txn.isSome) :
    C.rely σ.file σ'.file := by
  unfold Acts at h
  obtain ⟨t, ht⟩ := Option.isSome_iff_exists.mp ht
  simp only [ht] at h
  obtain ⟨a, -, htt, -⟩ := h
  exact htt.rely

/-- Where the second of two acts of a transaction starts is what the first left. -/
theorem origin_trans {a₀ a₁ a₂ : Access L} {f₀ f₁ f₂ : L.Content} (h₁ : Touched C a₀ f₀ a₁ f₁)
    (h₂ : Touched C a₁ f₁ a₂ f₂) (hi : a₁ ≠ .idle) :
    origin a₁ a₂ f₂ = a₁.view f₁ ∧ origin a₀ a₂ f₂ = origin a₀ a₁ f₁ := by
  cases a₀ <;> cases a₁ <;> simp only [Touched] at h₁ <;> cases a₂ <;>
    simp only [Touched, origin, Access.view] at h₂ ⊢ <;> grind

/-- Acts inside one transaction compose. -/
theorem Acts.trans (h₁ : Acts C P [] σ σ₁) (h₂ : Acts C Q above σ₁ σ') (ht : σ.conn.txn.isSome) :
    Acts C (Relation.Comp P Q) above σ σ' := by
  unfold Acts at h₁ h₂ ⊢
  obtain ⟨t, ht⟩ := Option.isSome_iff_exists.mp ht
  simp only [ht] at h₁ ⊢
  obtain ⟨a₁, hc₁, htt₁, hp, hi₁⟩ := h₁
  simp only [hc₁] at h₂
  obtain ⟨a₂, hc₂, htt₂, hq, hi₂⟩ := h₂
  refine ⟨a₂, hc₂, touched_trans htt₁ htt₂, ?_, ?_⟩
  · by_cases hidle : a₁ = .idle
    · subst hidle
      have ha₀ : t.access = .idle := by
        cases ha : t.access <;> simp_all [Touched]
      rw [ha₀]
      exact ⟨_, hi₁ rfl _, hq⟩
    · obtain ⟨ho₁, ho₂⟩ := origin_trans htt₁ htt₂ hidle
      rw [ho₂]
      exact ⟨_, hp, ho₁ ▸ hq⟩
  · rintro rfl
    have hidle : a₁ = .idle := by
      by_contra hne
      exact htt₂.not_idle hne rfl
    exact fun d => ⟨d, hi₁ hidle d, hi₂ rfl d⟩

theorem Acts.quiet_trans (h₁ : Acts C Eq [] σ σ₁) (h₂ : Acts C Q above σ₁ σ') :
    Acts C Q above σ σ' := by
  cases ht : σ.conn.txn with
  | some t =>
      refine (h₁.trans h₂ (by simp [ht])).mono ?_
      rintro d d' ⟨_, rfl, hq⟩
      exact hq
  | none =>
      have hn₁ := h₁.autocommit.mpr ht
      have hrely := h₁.rely
      unfold Acts at h₂ ⊢
      simp only [ht]
      simp only [hn₁] at h₂
      obtain ⟨ha, hn, d, d', hr, hq, hr'⟩ := h₂
      exact ⟨ha, hn, d, d', C.rely_trans hrely hr, hq, hr'⟩

theorem Acts.trans_quiet (h₁ : Acts C P [] σ σ₁) (h₂ : Acts C Eq above σ₁ σ') :
    Acts C P above σ σ' := by
  cases ht : σ.conn.txn with
  | some t =>
      refine (h₁.trans h₂ (by simp [ht])).mono ?_
      rintro d d' ⟨_, hp, rfl⟩
      exact hp
  | none =>
      have hn₁ := h₁.autocommit.mpr ht
      unfold Acts at h₁ h₂ ⊢
      simp only [ht] at h₁ ⊢
      simp only [hn₁] at h₂
      obtain ⟨-, -, d, d', hr, hp, hr'⟩ := h₁
      obtain ⟨ha, hn, e, e', he, rfl, he'⟩ := h₂
      exact ⟨ha, hn, d, d', hr, hp, C.rely_trans hr' (C.rely_trans he he')⟩

/-- A property of content that others keep and that acts along `P` keep. -/
theorem Acts.view {K : L.Content → Prop} (h : Acts C P above σ σ')
    (hrely : ∀ d d', C.rely d d' → K d → K d') (hp : ∀ d d', P d d' → K d → K d')
    (hk : K σ.view) : K σ'.view := by
  unfold State.view Conn.view at *
  unfold Acts at h
  cases ht : σ.conn.txn with
  | none =>
      simp only [ht] at h hk
      obtain ⟨-, hn, d, d', h₁, hpd, h₂⟩ := h
      simp only [hn]
      exact hrely _ _ h₂ (hp _ _ hpd (hrely _ _ h₁ hk))
  | some t =>
      simp only [ht] at h hk
      obtain ⟨a, hc, htt, hpd, -⟩ := h
      simp only [hc]
      refine hp _ _ hpd ?_
      cases ha : t.access <;> cases a <;>
        simp only [ha, Touched, origin, Access.view] at htt hk ⊢
      · exact hrely _ _ htt hk
      · exact hrely _ _ htt.1 hk
      · exact hrely _ _ htt hk
      · exact htt.1 ▸ hk
      · exact htt.1 ▸ hk
      · exact hk

/-- What every act along `P` establishes, others keep. -/
theorem Acts.establishes {K : L.Content → Prop} (h : Acts C P above σ σ')
    (hrely : ∀ d d', C.rely d d' → K d → K d') (hp : ∀ d d', P d d' → K d') : K σ'.view := by
  unfold State.view Conn.view
  unfold Acts at h
  cases ht : σ.conn.txn with
  | none =>
      simp only [ht] at h
      obtain ⟨-, hn, d, d', h₁, hpd, h₂⟩ := h
      simp only [hn]
      exact hrely _ _ h₂ (hp _ _ hpd)
  | some t =>
      simp only [ht] at h
      obtain ⟨a, hc, htt, hpd, -⟩ := h
      simp only [hc]
      exact hp _ _ hpd

/-- By itself a connection acts on the content it saw. -/
theorem acts_alone {allows : State L W → Cmd L → Fault L.Error → Prop}
    (h : Acts (alone allows) P above σ σ') : P σ.view σ'.view := by
  unfold State.view Conn.view
  unfold Acts at h
  cases ht : σ.conn.txn with
  | none =>
      simp only [ht] at h ⊢
      obtain ⟨-, hn, d, d', h₁, hpd, h₂⟩ := h
      obtain rfl : σ.file = d := h₁
      obtain rfl : d' = σ'.file := h₂
      simpa only [hn] using hpd
  | some t =>
      simp only [ht] at h ⊢
      obtain ⟨a, hc, htt, hpd, -⟩ := h
      have hfile : σ.file = σ'.file := htt.rely
      simp only [hc, hfile]
      cases ha : t.access <;> cases a <;>
        simp only [ha, Touched, origin, Access.view] at htt hpd ⊢
      · exact hpd
      · exact (show σ'.file = _ from htt.2.symm) ▸ hpd
      · exact hpd
      · exact htt.1 ▸ hpd
      · exact htt.1 ▸ hpd
      · exact hpd

theorem Aborts.view {K : L.Content → Prop} (h : Aborts C σ σ')
    (hrely : ∀ d d', C.rely d d' → K d → K d')
    (hk : ∀ σ₀ : State L W, C.Aborted σ₀ → σ₀.wrapper = σ.wrapper → K σ₀.file) : K σ'.view := by
  obtain ⟨-, hn, σ₀, ha, hw, -, hr⟩ := h
  unfold State.view Conn.view
  simp only [hn]
  exact hrely _ _ hr (hk σ₀ ha hw)

/-- After others have moved the file and before the transaction was rolled back. -/
theorem Acts.aborts (h₁ : Acts C P above σ σ₁) (ht : σ.conn.txn.isSome) (hw : σ₁.wrapper = σ.wrapper)
    (h₂ : Aborts C σ₁ σ') : Aborts C σ σ' := by
  have hrely := h₁.rely_of_txn ht
  obtain ⟨-, hn, σ₀, ha, hw', hr, hr'⟩ := h₂
  exact ⟨ht, hn, σ₀, ha, hw'.trans hw, C.rely_trans hrely hr, hr'⟩

/-- An act that did nothing or something has done the one or the other. -/
theorem Acts.eq_or (h : Acts C (fun d d' => d = d' ∨ P d d') above σ σ') :
    Acts C Eq above σ σ' ∨ Acts C P above σ σ' := by
  unfold Acts at h ⊢
  cases ht : σ.conn.txn with
  | none =>
      simp only [ht] at h ⊢
      obtain ⟨ha, hn, d, d', h₁, hd | hp, h₂⟩ := h
      · exact .inl ⟨ha, hn, d, d', h₁, hd, h₂⟩
      · exact .inr ⟨ha, hn, d, d', h₁, hp, h₂⟩
  | some t =>
      simp only [ht] at h ⊢
      obtain ⟨a, hc, htt, hd | hp, hi⟩ := h
      · exact .inl ⟨a, hc, htt, hd, fun _ _ => trivial⟩
      · by_cases hidle : a = .idle
        · subst hidle
          refine .inl ⟨.idle, hc, htt, ?_, fun _ _ => trivial⟩
          cases ha : t.access <;> simp_all [Touched, origin, Access.view]
        · exact .inr ⟨a, hc, htt, hp, fun h => (hidle h).elim⟩

theorem Acts.rooted (h : Acts C P above σ σ') (hroot : σ.conn.Rooted) : σ'.conn.Rooted := by
  unfold Acts at h
  cases ht : σ.conn.txn with
  | none =>
      simp only [ht] at h
      intro t' ht'
      simp [h.2.1] at ht'
  | some t =>
      simp only [ht] at h
      obtain ⟨a, hc, -⟩ := h
      intro t' ht' hi
      rw [hc] at ht'
      obtain rfl := Option.some.inj ht'
      simp [hroot t ht hi]

theorem Aborts.rooted (h : Aborts C σ σ') : σ'.conn.Rooted := by
  intro t' ht'
  simp [h.2.1] at ht'

/-! ## One statement -/

/-- A query of one statement, after which nothing more is asked. -/
inductive Query.Single : Query L F α → L.Stmt → Prop
  | intro (h : Refusal L.Error → F) (s : L.Stmt) (k : L.Row s → Query L F α)
      (hk : ∀ r, (∃ x, k r = .ret x) ∨ ∃ e, k r = .fail e) : Single (.stmt h s k) s

/-- How a query of the statement `s` may end, whichever mode the connection is in:
it is answered, its row is rejected, the statement fails on the content, the lock
is taken, or a fault. -/
inductive Answer (C : Contract L W) (q : Query L F α) (s : L.Stmt) (σ : State L W) :
    Except F α → State L W → Prop
  | done {x : α} {σ' : State L W} (hw : σ'.wrapper = σ.wrapper)
      (h : Acts C (fun d d' => q.denote d = .ok (x, d')) [] σ σ') : Answer C q s σ (.ok x) σ'
  | rejected {e : F} {σ' : State L W} (hw : σ'.wrapper = σ.wrapper)
      (h : Acts C (fun d d' => q.denote d = .error e ∧ q.Reaches d d') [] σ σ')
      (hd : L.writes s = false → q.denote σ'.view = .error e) : Answer C q s σ (.error e) σ'
  | denied {e : F} {σ' : State L W} (hw : σ'.wrapper = σ.wrapper) (h : Acts C Eq [] σ σ')
      (hd : q.denote σ'.view = .error e) : Answer C q s σ (.error e) σ'
  | busy {e : F} {σ' : State L W} (hw : σ'.wrapper = σ.wrapper) (h : Acts C Eq [] σ σ')
      (hs : L.writes s = true) : Answer C q s σ (.error e) σ'
  | faulted {e : F} {σ' : State L W} (e' : L.Error) (hw : σ'.wrapper = σ.wrapper)
      (h : Acts C Eq [] σ σ') (ha : σ'.conn.txn = none ∨ C.allows σ' (.stmt s) (.fail e')) : Answer C q s σ (.error e) σ'
  | aborted {e : F} {σ' : State L W} (hw : σ'.wrapper = σ.wrapper) (h : Aborts C σ σ') :
      Answer C q s σ (.error e) σ'

theorem Conn.abort_closed {conn : Conn L} (h : conn.txn = none) : conn.abort = conn := by
  cases conn
  simp_all [Conn.abort]

section Single

variable {q : Query L F α} {s : L.Stmt} {h : Refusal L.Error → F} {k : L.Row s → Query L F α}

/-- The statement was answered and its row is looked at. -/
theorem answer_row (hk : ∀ r, (∃ x, k r = .ret x) ∨ ∃ e, k r = .fail e) {d d' : L.Content}
    {r : L.Row s} (he : L.eval s d = .ok (r, d'))
    (hact : ∀ R : L.Content → L.Content → Prop, R d d' → Acts C R [] σ σ')
    (hw : σ'.wrapper = σ.wrapper) (hv : L.writes s = false → σ'.view = d) :
    wp C ((k r).toOp W) (Answer C (.stmt h s k) s σ) σ' ∧ (Query.stmt h s k).Reaches d d' := by
  have hreach : (Query.stmt h s k).Reaches d d' := .next he (.start _ _)
  have hdenote : (Query.stmt h s k).denote d = (k r).denote d' := by simp [Query.denote, he]
  refine ⟨?_, hreach⟩
  rcases hk r with ⟨x, hx⟩ | ⟨e, hx⟩
  · rw [hx] at hdenote ⊢
    exact .done hw (hact _ hdenote)
  · rw [hx] at hdenote ⊢
    exact .rejected hw (hact _ ⟨hdenote, hreach⟩) fun hs => hv hs ▸ hdenote

theorem wp_single (hq : q.Single s) (hg : ∀ d d', q.Reaches d d' → C.guar d d') (σ : State L W) :
    wp C (q.toOp W) (Answer C q s σ) σ := by
  obtain ⟨h, s, k, hk⟩ := hq
  unfold Query.toOp
  intro file free fault hm ha
  have hquiet : Acts C Eq [] σ { σ with file := file } := Acts.moved (w := σ.wrapper) hm
  cases fault with
  | fail e => exact ⟨C.guar_refl file, .faulted e rfl hquiet (.inr ha)⟩
  | rollback e =>
      refine ⟨C.guar_refl file, ?_⟩
      cases ht : σ.conn.txn with
      | none =>
          have hself := Conn.abort_closed ht
          simp only [exec, refuse, Conn.struck, hself]
          exact .faulted e rfl hquiet (.inl ht)
      | some t =>
          refine .aborted rfl ⟨by simp [ht], rfl, { σ with file := file, conn := σ.conn.abort },
            ⟨σ.conn, .stmt s, e, by simp [ht], rfl, ha⟩, rfl, hm.rely, C.rely_refl _⟩
  | none =>
      simp only [exec, perform]
      cases ht : σ.conn.txn with
      | none =>
          have hview : ∀ file : L.Content, State.view { σ with file := file } = file := by
            intro file
            simp [State.view, Conn.view, ht]
          rcases performStmt_closed free s file ht with ⟨hw, hp⟩ | ⟨e, he, hp⟩ | ⟨r, d, he, hp⟩
          · rw [hp]
            exact ⟨C.guar_refl file, .busy rfl hquiet hw⟩
          · rw [hp]
            refine ⟨C.guar_refl file, .denied rfl hquiet ?_⟩
            simp only [refuse, hview, Query.denote, he]
          · rw [hp]
            have hact : ∀ R : L.Content → L.Content → Prop, R file d →
                Acts C R [] σ { σ with file := d } := by
              intro R hr
              simp only [Acts, ht]
              exact ⟨trivial, trivial, file, d, hm.rely, hr, C.rely_refl _⟩
            have hrow := answer_row (h := h) hk he hact rfl
              (fun hs => (hview d).trans (L.eval_reads hs he))
            exact ⟨hg _ _ hrow.2, hrow.1⟩
      | some t =>
          rcases performStmt_txn free s file ht with ⟨hw, hp⟩ | ⟨e, he, hp⟩ | ⟨r, d, he, hw, hp⟩
          · rw [hp]
            exact ⟨C.guar_refl file, .busy rfl hquiet hw⟩
          · rw [hp]
            refine ⟨C.guar_refl file, .denied rfl hquiet ?_⟩
            have hview : State.view { σ with file := file } = t.access.view file := by
              simp [State.view, Conn.view, ht]
            simp only [refuse, hview, Query.denote, he]
          · rw [hp]
            refine ⟨C.guar_refl file, ?_⟩
            have hr : L.writes s = false → d = t.access.view file := fun hs => L.eval_reads hs he
            have hafter := touched_after (C := C) hw hr
            have hact : ∀ R : L.Content → L.Content → Prop, R (t.access.view file) d →
                Acts C R [] σ { σ with
                  file := file
                  conn := σ.conn.withAccess t (t.access.after (L.writes s) d) } := by
              intro R hd
              simp only [Acts, ht]
              refine ⟨_, rfl, touched_trans (touched_moves ht hm) hafter.1, ?_, ?_⟩
              · have ho := (origin_after hw hr (touched_refl (C := C) _ file)).2
                rw [ho, hafter.2]
                exact hd
              · exact fun hidle => (after_ne_idle _ _ _ hidle).elim
            refine (answer_row (h := h) hk he hact rfl fun hs => ?_).1
            have hd : d = t.access.view file := hr hs
            simp only [State.view, Conn.view, Conn.withAccess]
            rw [hafter.2, hd]

end Single

/-- A query of one statement has done nothing or what its statement does. -/
theorem Query.Single.reaches {q : Query L F α} {s : L.Stmt} (h : q.Single s) {d d' : L.Content}
    (hr : q.Reaches d d') : d' = d ∨ ∃ r, L.eval s d = .ok (r, d') := by
  obtain ⟨g, s, k, hk⟩ := h
  cases hr with
  | start => exact .inl rfl
  | @next _ _ _ r _ _ _ he hr =>
      rcases hk r with ⟨x, hx⟩ | ⟨e, hx⟩
      · rw [hx] at hr
        cases hr
        exact .inr ⟨r, he⟩
      · rw [hx] at hr
        cases hr
        exact .inr ⟨r, he⟩

/-- A query of one statement that writes nothing. -/
structure Query.Reading (q : Query L F α) (s : L.Stmt) : Prop where
  single : q.Single s
  reads : L.writes s = false

theorem Query.Reading.reaches {q : Query L F α} {s : L.Stmt} (h : q.Reading s) {d d' : L.Content}
    (hr : q.Reaches d d') : d' = d := by
  rcases h.single.reaches hr with rfl | ⟨r, he⟩
  · rfl
  · exact L.eval_reads h.reads he

theorem Query.Reading.denote {q : Query L F α} {s : L.Stmt} (h : q.Reading s) {d d' : L.Content}
    {x : α} (hd : q.denote d = .ok (x, d')) : d' = d := h.reaches (.of_denote hd)

/-- A read answers about the content and changes nothing. It fails on that
content, for a fault, or with the transaction gone. -/
theorem wp_reading {q : Query L F α} {s : L.Stmt} (hq : q.Reading s) (σ : State L W) :
    wp C (q.toOp W) (fun r σ' => σ'.wrapper = σ.wrapper ∧ match r with
      | .ok x => Acts C (fun d d' => d = d' ∧ q.denote d = .ok (x, d)) [] σ σ'
      | .error e => Aborts C σ σ' ∨ Acts C Eq [] σ σ' ∧ (q.denote σ'.view = .error e ∨
          σ'.conn.txn = none ∨ ∃ e', C.allows σ' (.stmt s) (.fail e'))) σ := by
  refine wp_mono (wp_single hq.single (fun d d' hr => hq.reaches hr ▸ C.guar_refl d) σ) ?_
  intro r σ' h
  cases h with
  | done hw h =>
      refine ⟨hw, h.mono fun d d' hd => ?_⟩
      obtain rfl := hq.denote hd
      exact ⟨rfl, hd⟩
  | rejected hw h hd =>
      exact ⟨hw, .inr ⟨h.mono fun d d' hr => (hq.reaches hr.2).symm, .inl (hd hq.reads)⟩⟩
  | denied hw h hd => exact ⟨hw, .inr ⟨h, .inl hd⟩⟩
  | busy hw h hs => simp [hq.reads] at hs
  | faulted e' hw h ha => exact ⟨hw, .inr ⟨h, .inr (ha.imp id fun ha => ⟨e', ha⟩)⟩⟩
  | aborted hw h => exact ⟨hw, .inl h⟩

/-- An answer is about the content that the connection sees at the end. -/
theorem wp_reading_view {q : Query L F α} {s : L.Stmt} (hq : q.Reading s) (σ : State L W) :
    wp C (q.toOp W) (fun r σ' => ∀ x, r = .ok x → q.denote σ'.view = .ok (x, σ'.view)) σ := by
  obtain ⟨⟨h, s, k, hk⟩, hs⟩ := hq
  have hrow : ∀ {σ' : State L W} {d : L.Content} {r : L.Row s}, L.eval s σ'.view = .ok (r, d) →
      wp C ((k r).toOp W) (fun r σ' => ∀ x, r = .ok x →
        (Query.stmt h s k).denote σ'.view = .ok (x, σ'.view)) σ' := by
    intro σ' d r he
    obtain rfl := L.eval_reads hs he
    have hdenote : (Query.stmt h s k).denote σ'.view = (k r).denote σ'.view := by
      simp [Query.denote, he]
    rcases hk r with ⟨x, hx⟩ | ⟨e, hx⟩
    · rw [hx] at hdenote ⊢
      intro y hy
      obtain rfl := Except.ok.inj hy
      exact hdenote
    · rw [hx]
      exact fun y hy => by cases hy
  unfold Query.toOp
  intro file free fault hm ha
  cases fault with
  | fail e => exact ⟨C.guar_refl file, fun x hx => by cases hx⟩
  | rollback e => exact ⟨C.guar_refl file, fun x hx => by cases hx⟩
  | none =>
      simp only [exec, perform]
      cases ht : σ.conn.txn with
      | none =>
          rcases performStmt_closed free s file ht with ⟨hw, hp⟩ | ⟨e, he, hp⟩ | ⟨r, d, he, hp⟩
          · rw [hp]
            exact ⟨C.guar_refl file, fun x hx => by cases hx⟩
          · rw [hp]
            exact ⟨C.guar_refl file, fun x hx => by cases hx⟩
          · rw [hp]
            obtain rfl := L.eval_reads hs he
            have hview : L.eval s (State.view { σ with file := d }) = .ok (r, d) := by
              simpa [State.view, Conn.view, ht] using he
            exact ⟨C.guar_refl d, hrow hview⟩
      | some t =>
          rcases performStmt_txn free s file ht with ⟨hw, hp⟩ | ⟨e, he, hp⟩ | ⟨r, d, he, hw, hp⟩
          · rw [hp]
            exact ⟨C.guar_refl file, fun x hx => by cases hx⟩
          · rw [hp]
            exact ⟨C.guar_refl file, fun x hx => by cases hx⟩
          · rw [hp]
            have hd : d = t.access.view file := L.eval_reads hs he
            have hafter := touched_after (C := C) hw fun _ => hd
            have hview : L.eval s (State.view { σ with
                file := file
                conn := σ.conn.withAccess t (t.access.after (L.writes s) d) }) = .ok (r, d) := by
              simp only [State.view, Conn.view, Conn.withAccess]
              rw [hafter.2, hd]
              exact he.trans (by rw [hd])
            exact ⟨C.guar_refl file, hrow hview⟩

end Transactional
