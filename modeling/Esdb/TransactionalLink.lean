import Esdb.TransactionalAct

/-!
# How a connection's content relates to the file

A snapshot is an earlier state of the file, what a transaction has written is a
later one, and so is what its savepoints have saved. For any preorder that others
move the file along and that the connection's own statements respect, these
relations hold throughout, and whatever is committed moves the file along it too.
-/
namespace Transactional

variable {L : Language} {W F α : Type}

structure Linked (R : L.Content → L.Content → Prop) (file : L.Content) (conn : Conn L) : Prop where
  reading : ∀ t s, conn.txn = some t → t.access = .reading s → R s file
  writing : ∀ t d, conn.txn = some t → t.access = .writing d → R file d
  saved : ∀ t, conn.txn = some t → ∀ sp ∈ t.savepoints, ∀ d, sp.saved = some d →
    t.access.isWriting = true ∧ R file d

/-- A preorder on content. -/
structure Preorders (R : L.Content → L.Content → Prop) : Prop where
  refl : ∀ d, R d d
  trans : ∀ {a b c}, R a b → R b c → R a c

variable {R : L.Content → L.Content → Prop} {file : L.Content} {conn : Conn L}

theorem linked_closed (h : conn.txn = none) : Linked R file conn :=
  ⟨fun t s ht => by simp [h] at ht, fun t d ht => by simp [h] at ht,
    fun t ht => by simp [h] at ht⟩

theorem Linked.written (h : Linked R file conn) (hR : Preorders R) {t : Txn L}
    (ht : conn.txn = some t) : R file (t.access.written.getD file) := by
  cases ha : t.access with
  | idle => exact hR.refl file
  | reading s => exact hR.refl file
  | writing d => exact h.writing t d ht ha

/-- The same transaction with other savepoints below or the access unchanged. -/
theorem Linked.savepoints (h : Linked R file conn) {t : Txn L} (ht : conn.txn = some t)
    {sps : List (Savepoint L)} (hs : ∀ sp ∈ sps, sp ∈ t.savepoints ∨ sp.saved = t.access.written)
    {n : ℕ} : Linked R file ⟨some { t with savepoints := sps }, n⟩ := by
  constructor
  · intro t' s ht' ha
    obtain rfl := Option.some.inj ht'
    exact h.reading t s ht ha
  · intro t' d ht' ha
    obtain rfl := Option.some.inj ht'
    exact h.writing t d ht ha
  · intro t' ht' sp hsp d hd
    obtain rfl := Option.some.inj ht'
    rcases hs sp hsp with hmem | hnew
    · exact h.saved t ht sp hmem d hd
    · rw [hd] at hnew
      cases ha : t.access with
      | writing d' =>
          simp only [ha, Access.written, Option.some.injEq] at hnew
          subst hnew
          exact ⟨rfl, h.writing t d ht ha⟩
      | _ => simp [ha, Access.written] at hnew

theorem Linked.push (h : Linked R file conn) (n : L.Name) : Linked R file (conn.push n) := by
  unfold Conn.push
  cases ht : conn.txn with
  | none =>
      constructor
      · intro t s ht' ha
        obtain rfl := Option.some.inj ht'
        cases ha
      · intro t d ht' ha
        obtain rfl := Option.some.inj ht'
        cases ha
      · intro t ht' sp hsp d hd
        obtain rfl := Option.some.inj ht'
        obtain rfl := List.mem_singleton.mp hsp
        cases hd
  | some t =>
      refine h.savepoints ht ?_
      intro sp hsp
      rcases List.mem_cons.mp hsp with rfl | hsp
      · exact .inr rfl
      · exact .inl hsp

theorem Linked.restore (h : Linked R file conn) (hR : Preorders R) {t : Txn L}
    (ht : conn.txn = some t) {sp : Savepoint L} {below : List (Savepoint L)}
    (hsp : ∀ x ∈ sp :: below, x ∈ t.savepoints) {n : ℕ} :
    Linked R file ⟨some { t with
      access := t.access.restore file sp.saved, savepoints := sp :: below }, n⟩ := by
  have hback : ∀ d, t.access.isWriting = true → sp.saved.getD file = d → R file d := by
    rintro d - rfl
    cases hs : sp.saved with
    | none => exact hR.refl file
    | some d => exact (h.saved t ht sp (hsp sp List.mem_cons_self) d hs).2
  constructor
  · intro t' s ht' ha
    obtain rfl := Option.some.inj ht'
    cases hacc : t.access with
    | writing d => simp [hacc, Access.restore] at ha
    | idle => simp [hacc, Access.restore] at ha
    | reading s' =>
        simp only [hacc, Access.restore] at ha
        exact h.reading t s ht (hacc ▸ ha)
  · intro t' d ht' ha
    obtain rfl := Option.some.inj ht'
    cases hacc : t.access with
    | writing d' =>
        simp only [hacc, Access.restore, Access.writing.injEq] at ha
        exact hback d (by simp [hacc, Access.isWriting]) ha
    | _ => simp [hacc, Access.restore] at ha
  · intro t' ht' x hx d hd
    obtain rfl := Option.some.inj ht'
    obtain ⟨hw, hr⟩ := h.saved t ht x (hsp x hx) d hd
    refine ⟨?_, hr⟩
    cases hacc : t.access <;> simp_all [Access.restore, Access.isWriting]

/-- Others move the file. -/
theorem Linked.moved (h : Linked R file conn) (hR : Preorders R) {file' : L.Content}
    (hm : if conn.isWriting then file' = file else R file file') : Linked R file' conn := by
  split_ifs at hm with hw
  · exact hm ▸ h
  · have hnot : ∀ t, conn.txn = some t → t.access.isWriting = false := by
      intro t ht
      simpa [Conn.isWriting, ht] using hw
    constructor
    · exact fun t s ht ha => hR.trans (h.reading t s ht ha) hm
    · intro t d ht ha
      have := hnot t ht
      simp [ha, Access.isWriting] at this
    · intro t ht sp hsp d hd
      have := (h.saved t ht sp hsp d hd).1
      simp [hnot t ht] at this

theorem Linked.after (h : Linked R file conn) (hR : Preorders R) {t : Txn L}
    (ht : conn.txn = some t) {free w : Bool} {d : L.Content}
    (hw : w = true → t.access.canWrite free file = true) (hr : w = false → d = t.access.view file)
    (hd : R (t.access.view file) d) :
    Linked R file { conn with txn := some { t with access := t.access.after w d } } := by
  constructor
  · intro t' s ht' ha
    obtain rfl := Option.some.inj ht'
    cases hacc : t.access with
    | idle =>
        cases w with
        | false =>
            simp only [hacc, Access.after, Bool.false_eq_true, if_false, Access.reading.injEq] at ha
            rw [← ha, hr rfl, hacc]
            exact hR.refl file
        | true => simp [hacc, Access.after] at ha
    | reading s' =>
        cases w with
        | false =>
            simp only [hacc, Access.after, Bool.false_eq_true, if_false] at ha
            exact h.reading t s ht (hacc ▸ ha)
        | true => simp [hacc, Access.after] at ha
    | writing d' => simp [hacc, Access.after] at ha
  · intro t' d' ht' ha
    obtain rfl := Option.some.inj ht'
    cases hacc : t.access with
    | idle =>
        cases w with
        | false => simp [hacc, Access.after] at ha
        | true =>
            simp only [hacc, Access.after, if_true, Access.writing.injEq] at ha
            rw [hacc] at hd
            exact ha ▸ hd
    | reading s' =>
        cases w with
        | false => simp [hacc, Access.after] at ha
        | true =>
            have hs := hw rfl
            simp only [hacc, Access.canWrite, Bool.and_eq_true, decide_eq_true_eq] at hs
            simp only [hacc, Access.after, if_true, Access.writing.injEq] at ha
            rw [hacc] at hd
            exact ha ▸ hs.2 ▸ hd
    | writing d₀ =>
        simp only [hacc, Access.after, Access.writing.injEq] at ha
        rw [hacc] at hd
        exact hR.trans (h.writing t d₀ ht hacc) (ha ▸ hd)
  · intro t' ht' sp hsp d' hd'
    obtain rfl := Option.some.inj ht'
    obtain ⟨hwr, hr'⟩ := h.saved t ht sp hsp d' hd'
    refine ⟨?_, hr'⟩
    cases hacc : t.access <;> simp_all [Access.after, Access.isWriting]

theorem linked_openTxn (hR : Preorders R) {a : Access L} (ha : a = .idle ∨ a = .writing file) :
    Linked R file (conn.openTxn a) := by
  constructor
  · intro t s ht hs
    obtain rfl := Option.some.inj ht
    rcases ha with rfl | rfl <;> simp at hs
  · intro t d ht hs
    obtain rfl := Option.some.inj ht
    rcases ha with rfl | rfl
    · simp at hs
    · simp only [Access.writing.injEq] at hs
      exact hs ▸ hR.refl file
  · intro t ht sp hsp
    obtain rfl := Option.some.inj ht
    simp at hsp

/-- A command keeps the relations and moves the file along them. -/
theorem Linked.perform (h : Linked R file conn) (hR : Preorders R) (free : Bool) (c : Cmd L)
    (hc : ∀ s, c = .stmt s → ∀ r d d', L.eval s d = .ok (r, d') → R d d') :
    R file (perform free file conn c).file ∧
      Linked R (perform free file conn c).file (perform free file conn c).conn := by
  have hstay : R file file ∧ Linked R file conn := ⟨hR.refl file, h⟩
  have hclose : ∀ file', R file file' → R file file' ∧ Linked R file' conn.abort :=
    fun file' hf => ⟨hf, linked_closed rfl⟩
  cases c with
  | begin immediate =>
      simp only [Transactional.perform, performBegin]
      split
      · exact hstay
      · split_ifs
        · exact ⟨hR.refl file, linked_openTxn hR (.inl rfl)⟩
        · exact ⟨hR.refl file, linked_openTxn hR (.inr rfl)⟩
        · exact hstay
  | commit =>
      simp only [Transactional.perform, performCommit]
      cases ht : conn.txn with
      | none => exact hstay
      | some t => exact hclose _ (h.written hR ht)
  | rollback =>
      simp only [Transactional.perform, performRollback]
      cases ht : conn.txn with
      | none => exact hstay
      | some t => exact hclose _ (hR.refl file)
  | savepoint n =>
      simp only [Transactional.perform, performSavepoint]
      split <;> exact ⟨hR.refl file, h.push n⟩
  | release n =>
      simp only [Transactional.perform, performRelease]
      cases ht : conn.txn with
      | none => exact hstay
      | some t =>
          dsimp only
          cases hf : findSavepoint n t.savepoints with
          | none => exact hstay
          | some p =>
              dsimp only
              split_ifs
              · exact hclose _ (h.written hR ht)
              · exact ⟨hR.refl file,
                  h.savepoints ht fun sp hsp => .inl ((findSavepoint_mem hf).2 sp hsp)⟩
  | rollbackTo n =>
      simp only [Transactional.perform, performRollbackTo]
      cases ht : conn.txn with
      | none => exact hstay
      | some t =>
          dsimp only
          cases hf : findSavepoint n t.savepoints with
          | none => exact hstay
          | some p =>
              refine ⟨hR.refl file, h.restore hR ht ?_⟩
              intro x hx
              rcases List.mem_cons.mp hx with rfl | hx
              · exact (findSavepoint_mem hf).1
              · exact (findSavepoint_mem hf).2 x hx
  | stmt s =>
      simp only [Transactional.perform]
      cases ht : conn.txn with
      | none =>
          rcases performStmt_closed free s file ht with ⟨-, hp⟩ | ⟨e, -, hp⟩ | ⟨r, d, he, hp⟩
          · rw [hp]
            exact hstay
          · rw [hp]
            exact hstay
          · rw [hp]
            exact ⟨hc s rfl r file d he, linked_closed ht⟩
      | some t =>
          rcases performStmt_txn free s file ht with ⟨-, hp⟩ | ⟨e, -, hp⟩ | ⟨r, d, he, hw, hp⟩
          · rw [hp]
            exact hstay
          · rw [hp]
            exact hstay
          · rw [hp]
            exact ⟨hR.refl file, h.after hR ht hw (fun hs => L.eval_reads hs he)
              (hc s rfl r _ d he)⟩

theorem Linked.exec (h : Linked R file conn) (hR : Preorders R) (free : Bool)
    (fault : Fault L.Error) (c : Cmd L)
    (hc : ∀ s, c = .stmt s → ∀ r d d', L.eval s d = .ok (r, d') → R d d') :
    R file (exec free fault file conn c).file ∧
      Linked R (exec free fault file conn c).file (exec free fault file conn c).conn := by
  cases fault with
  | none => exact h.perform hR free c hc
  | fail e => exact ⟨hR.refl file, h⟩
  | rollback e =>
      refine ⟨hR.refl file, ?_⟩
      cases c with
      | begin immediate => exact h
      | _ => exact linked_closed rfl

/-- What a property of content that the preorder respects survives: everything
but going back to content that lacks it. -/
theorem Linked.exec_keeps {K : L.Content → Prop} (h : Linked R file conn)
    (hK : ∀ d d', R d d' → K d → K d') (hk : K (conn.view file)) (free : Bool)
    (fault : Fault L.Error) (c : Cmd L)
    (hc : ∀ s, c = .stmt s → ∀ r d d', L.eval s d = .ok (r, d') → R d d')
    (hback : ∀ e, fault = .rollback e → conn.txn.isSome → K file)
    (hroll : c = .rollback → conn.txn.isSome → K file)
    (hto : ∀ n, c = .rollbackTo n → ∀ t sp below, conn.txn = some t →
      findSavepoint n t.savepoints = some (sp, below) →
      K ((t.access.restore file sp.saved).view file)) :
    K ((Transactional.exec free fault file conn c).conn.view
      (Transactional.exec free fault file conn c).file) := by
  -- Ending the transaction keeps what it wrote; a snapshot gives way to the file.
  have hend : ∀ t, conn.txn = some t → K (t.access.written.getD file) := by
    intro t ht
    simp only [Conn.view, ht] at hk
    cases ha : t.access with
    | idle => rwa [ha] at hk
    | reading s =>
        rw [ha] at hk
        exact hK _ _ (h.reading t s ht ha) hk
    | writing d => rwa [ha] at hk
  cases fault with
  | fail e => exact hk
  | rollback e =>
      cases ht : conn.txn with
      | none =>
          have hself := Conn.abort_closed ht
          cases c with
          | begin immediate => exact hk
          | _ =>
              simp only [Transactional.exec, refuse, Conn.struck, hself]
              exact hk
      | some t =>
          have hfile := hback e rfl (by simp [ht])
          cases c with
          | begin immediate => exact hk
          | _ => exact hfile
  | none =>
      cases c with
      | begin immediate =>
          simp only [Transactional.exec, Transactional.perform, performBegin]
          cases ht : conn.txn with
          | some t => exact hk
          | none =>
              simp only [Conn.view, ht] at hk
              dsimp only
              split_ifs
              · exact hk
              · exact hk
              · simpa only [refuse, Conn.view, ht] using hk
      | commit =>
          simp only [Transactional.exec, Transactional.perform, performCommit]
          cases ht : conn.txn with
          | none => exact hk
          | some t => exact hend t ht
      | rollback =>
          simp only [Transactional.exec, Transactional.perform, performRollback]
          cases ht : conn.txn with
          | none => exact hk
          | some t => exact hroll rfl (by simp [ht])
      | savepoint n =>
          simp only [Transactional.exec, Transactional.perform, performSavepoint, Conn.push]
          cases ht : conn.txn with
          | none => simpa only [Conn.view, ht, Access.view] using hk
          | some t => simpa only [Conn.view, ht] using hk
      | release n =>
          simp only [Transactional.exec, Transactional.perform, performRelease]
          cases ht : conn.txn with
          | none => exact hk
          | some t =>
              dsimp only
              cases hf : findSavepoint n t.savepoints with
              | none => exact hk
              | some p =>
                  dsimp only
                  split_ifs
                  · exact hend t ht
                  · simpa only [Conn.view, ht] using hk
      | rollbackTo n =>
          simp only [Transactional.exec, Transactional.perform, performRollbackTo]
          cases ht : conn.txn with
          | none => exact hk
          | some t =>
              dsimp only
              cases hf : findSavepoint n t.savepoints with
              | none => exact hk
              | some p => exact hto n rfl t p.1 p.2 ht hf
      | stmt s =>
          simp only [Transactional.exec, Transactional.perform]
          cases ht : conn.txn with
          | none =>
              have hview : ∀ d, conn.view d = d := fun d => by simp [Conn.view, ht]
              rcases performStmt_closed free s file ht with ⟨-, hp⟩ | ⟨e, -, hp⟩ | ⟨r, d, he, hp⟩
              · rw [hp]
                exact hk
              · rw [hp]
                exact hk
              · rw [hp, hview]
                exact hK _ _ (hc s rfl r file d he) (hview file ▸ hk)
          | some t =>
              rcases performStmt_txn free s file ht with ⟨-, hp⟩ | ⟨e, -, hp⟩ | ⟨r, d, he, hw, hp⟩
              · rw [hp]
                exact hk
              · rw [hp]
                exact hk
              · rw [hp]
                have hview := (touched_after (C := alone fun _ _ _ => True) (W := Unit) hw
                  (fun hs => L.eval_reads hs he)).2
                simp only [Conn.view, ht] at hk
                simp only [Conn.view]
                rw [hview]
                exact hK _ _ (hc s rfl r _ d he) hk

/-! ## Acts -/

variable {C : Contract L W} {P : L.Content → L.Content → Prop} {above : List (Savepoint L)}
  {σ σ' : State L W}

theorem Linked.acts (h : Linked R σ.file σ.conn) (hR : Preorders R)
    (hrely : ∀ d d', C.rely d d' → R d d') (hp : ∀ d d', P d d' → R d d')
    (ha : Acts C P above σ σ')
    (hs : ∀ t, σ.conn.txn = some t → ∀ sp ∈ above, sp.saved = t.access.written) :
    Linked R σ'.file σ'.conn := by
  unfold Acts at ha
  cases ht : σ.conn.txn with
  | none =>
      simp only [ht] at ha
      exact linked_closed ha.2.1
  | some t =>
      simp only [ht] at ha
      obtain ⟨a, hc, htt, hpd, -⟩ := ha
      have hacc := hp _ _ hpd
      constructor
      · intro t' s ht' ha'
        rw [hc] at ht'
        obtain rfl := Option.some.inj ht'
        obtain rfl : a = .reading s := ha'
        cases h₀ : t.access with
        | idle =>
            rw [h₀] at htt
            exact hrely _ _ htt.2
        | reading s₀ =>
            rw [h₀] at htt
            obtain ⟨rfl, hf⟩ := htt
            exact hR.trans (h.reading t s ht h₀) (hrely _ _ hf)
        | writing d => simp [h₀, Touched] at htt
      · intro t' d ht' ha'
        rw [hc] at ht'
        obtain rfl := Option.some.inj ht'
        obtain rfl : a = .writing d := ha'
        cases h₀ : t.access with
        | writing d₀ =>
            rw [h₀] at htt hacc
            have hf : σ'.file = σ.file := htt
            rw [hf]
            exact hR.trans (h.writing t d₀ ht h₀) hacc
        | idle =>
            rw [h₀] at hacc
            exact hacc
        | reading s₀ =>
            rw [h₀] at hacc
            exact hacc
      · intro t' ht' sp hsp d hd
        rw [hc] at ht'
        obtain rfl := Option.some.inj ht'
        have hwriting : t.access.isWriting = true → a.isWriting = true ∧ σ'.file = σ.file := by
          intro hw
          cases h₀ : t.access <;> cases a <;> simp_all [Access.isWriting, Touched]
        rcases List.mem_append.mp hsp with hsp | hsp
        · have hsaved := hs t ht sp hsp
          rw [hd] at hsaved
          cases h₀ : t.access with
          | writing d₀ =>
              obtain ⟨hw, hf⟩ := hwriting (by simp [h₀, Access.isWriting])
              simp only [h₀, Access.written, Option.some.injEq] at hsaved
              subst hsaved
              exact ⟨hw, hf ▸ h.writing t d ht h₀⟩
          | _ => simp [h₀, Access.written] at hsaved
        · obtain ⟨hw, hr⟩ := h.saved t ht sp hsp d hd
          obtain ⟨hw', hf⟩ := hwriting hw
          exact ⟨hw', hf ▸ hr⟩

/-- What a connection sees is, one way or the other, in line with the file. -/
theorem Linked.view (h : Linked R σ.file σ.conn) (hR : Preorders R) :
    R σ.view σ.file ∨ R σ.file σ.view := by
  unfold State.view Conn.view
  cases ht : σ.conn.txn with
  | none => exact .inl (hR.refl _)
  | some t =>
      cases ha : t.access with
      | idle => exact .inl (by simpa [ha, Access.view] using hR.refl σ.file)
      | reading s => exact .inl (by simpa [ha, Access.view] using h.reading t s ht ha)
      | writing d => exact .inr (by simpa [ha, Access.view] using h.writing t d ht ha)

end Transactional
