import Esdb.TransactionalWorld

/-!
# What all parties keep

A property of the file that every party keeps is one that each of them may count on:
when it opens the file, when it issues a job and when a command of its meets a fault.
Programs need only be right where the property holds.
-/
namespace Transactional

variable {L : Language} {W J α ι : Type} {P : L.Content → Prop}

/-- The contract as it stands where the file has the property. -/
def Contract.under (C : Contract L W) (P : L.Content → Prop) : Contract L W where
  rely d d' := d = d' ∨ P d ∧ C.rely d d'
  guar d d' := d = d' ∨ P d ∧ C.guar d d'
  allows := C.allows
  rely_refl _ := .inl rfl
  rely_trans := by
    intro a b c hab hbc
    rcases hab with rfl | ⟨ha, hab⟩
    · exact hbc
    rcases hbc with rfl | ⟨-, hbc⟩
    · exact .inr ⟨ha, hab⟩
    · exact .inr ⟨ha, C.rely_trans hab hbc⟩
  guar_refl _ := .inl rfl

theorem wp_and {C : Contract L W} {p : Prog L W α} {post post' : α → State L W → Prop}
    {σ : State L W} (h : wp C p post σ) (h' : wp C p post' σ) :
    wp C p (fun a σ' => post a σ' ∧ post' a σ') σ := by
  induction p generalizing σ with
  | ret a => exact ⟨h, h'⟩
  | call c k ih =>
      intro file free fault hm ha
      obtain ⟨hg, hk⟩ := h file free fault hm ha
      exact ⟨hg, ih _ hk (h' file free fault hm ha).2⟩
  | autocommit k ih => exact ih _ h h'
  | get k ih => exact ih _ h h'
  | set w k ih => exact ih h h'

section Under

variable {C : Contract L W}

theorem under_keeps (hkept : ∀ d d', C.rely d d' → P d → P d') {d d' : L.Content}
    (h : (C.under P).rely d d') (hd : P d) : P d' := by
  rcases h with rfl | ⟨-, h⟩
  · exact hd
  · exact hkept _ _ h hd

theorem under_moves {conn : Conn L} {d d' : L.Content}
    (h : (C.under P).Moves conn d d') : C.Moves conn d d' := by
  unfold Contract.Moves at h ⊢
  split_ifs at h ⊢
  · exact h
  · rcases h with rfl | ⟨-, h⟩
    · exact C.rely_refl _
    · exact h

/-- A move ends where it began or it began where the property held. -/
theorem under_moves_from {conn : Conn L} {d d' : L.Content}
    (h : (C.under P).Moves conn d d') : d' = d ∨ P d := by
  unfold Contract.Moves at h
  split_ifs at h
  · exact .inl h
  · rcases h with rfl | ⟨hd, -⟩
    · exact .inl rfl
    · exact .inr hd

/-- Where the file has the property, the program is right among those that keep it. -/
theorem wp_under {p : Prog L W α} {post : α → State L W → Prop} {σ : State L W}
    (hkept : ∀ d d', C.rely d d' → P d → P d') (hguar : ∀ d d', C.guar d d' → C.rely d d') (h : wp C p post σ) (hP : P σ.file) :
    wp (C.under P) p (fun a σ' => post a σ' ∧ P σ'.file) σ := by
  induction p generalizing σ with
  | ret a => exact ⟨h, hP⟩
  | call c k ih =>
      intro file free fault hm ha
      have hfile : P file := under_keeps hkept hm.rely hP
      obtain ⟨hg, hk⟩ := h file free fault (under_moves hm) ha
      exact ⟨.inr ⟨hfile, hg⟩, ih _ hk (hkept _ _ (hguar _ _ hg) hfile)⟩
  | autocommit k ih => exact ih _ h hP
  | get k ih => exact ih _ h hP
  | set w k ih => exact ih (σ := { σ with wrapper := w }) h hP

end Under

/-- The parties where they find the property. -/
def System.under (S : System L W J α) (P : L.Content → Prop) : System L W J α where
  program := S.program
  legal j σ := S.legal j σ ∧ P σ.file
  fresh := S.fresh
  allows σ c fault := S.allows σ c fault ∧ P σ.file

variable {S : System L W J α} {C : Contract L W} {I : State L W → Prop}
  {post : J → State L W → α → State L W → Prop}

/-- The parties keep the property, and their programs are right where it holds. -/
structure CorrectUnder (S : System L W J α) (C : Contract L W) (P : L.Content → Prop)
    (I : State L W → Prop) (post : J → State L W → α → State L W → Prop) : Prop where
  kept : ∀ d d', C.rely d d' → P d → P d'
  guar : ∀ d d', C.guar d d' → C.rely d d'
  allows : ∀ σ c f, P σ.file → S.allows σ c f → C.allows σ c f
  fresh : ∀ file wrapper, P file → S.fresh wrapper → I ⟨file, Conn.closed, wrapper⟩
  moved : ∀ σ file, P σ.file → I σ → C.Moves σ.conn σ.file file → I { σ with file := file }
  issue : ∀ j σ, P σ.file → I σ → S.legal j σ → wp C (S.program j) (post j σ) σ
  finish : ∀ j σ₀ a σ, P σ.file → post j σ₀ a σ → I σ

theorem CorrectUnder.correct (hC : CorrectUnder S C P I post) :
    Correct (S.under P) (C.under P) (fun σ => P σ.file → I σ)
      (fun j σ₀ a σ => P σ.file → post j σ₀ a σ) where
  guar := fun d d' h => h.imp id fun h => ⟨h.1, hC.guar _ _ h.2⟩
  allows := fun σ c f h => hC.allows σ c f h.2 h.1
  fresh := fun file wrapper hf hP => hC.fresh file wrapper hP hf
  moved := by
    intro σ file hI hm hfile
    rcases under_moves_from hm with rfl | hP
    · exact hI hfile
    · exact hC.moved σ file hP (hI hP) (under_moves hm)
  issue := by
    intro j σ hI hl
    have h := hC.issue j σ hl.2 (hI hl.2) hl.1
    exact wp_mono (wp_under hC.kept hC.guar h hl.2) fun a σ' hpost _ => hpost.1
  finish := fun j σ₀ a σ hpost hP => hC.finish j σ₀ a σ hP (hpost hP)

theorem Next.mono {allows allows' : State L W → Cmd L → Fault L.Error → Prop} {available : Prop}
    {p p' : Prog L W α} {σ σ' : State L W} (hn : Next allows available p σ p' σ')
    (h : ∀ c fault, allows σ c fault → allows' σ c fault) : Next allows' available p σ p' σ' := by
  cases hn with
  | call free fault hfree ha => exact .call free fault hfree (h _ _ ha)
  | autocommit => exact .autocommit
  | get => exact .get
  | set => exact .set

namespace World

variable [DecidableEq ι] {w w' : World ι L W J α} {file : L.Content}

theorem Step.under (hs : Step S w w') (hP : P w.file) : Step (S.under P) w w' := by
  cases hs with
  | issue i j hi hl => exact .issue i j hi ⟨hl, hP⟩
  | proceed i r hr hn => exact .proceed i r hr (hn.mono fun c fault ha => ⟨ha, hP⟩)
  | finish i j σ₀ a hr => exact .finish i j σ₀ a hr
  | reopen i wrapper hf => exact .reopen i wrapper hf

/-- From a file with the property, every step is one of parties that find it. -/
theorem Reaches.under (hC : CorrectUnder S C P I post) (h : Reaches S file w) (hP : P file) :
    Reaches (S.under P) file w ∧ P w.file := by
  induction h with
  | opened hf hw => exact ⟨.opened hf hw, hf ▸ hP⟩
  | step h hs ih =>
      have hr := ih.1.step (hs.under ih.2)
      exact ⟨hr, under_keeps hC.kept (hr.sound hC.correct).2 hP⟩

theorem Reaches.kept (hC : CorrectUnder S C P I post) (h : Reaches S file w) (hP : P file) :
    P w.file := (h.under hC hP).2

theorem Reaches.rely (hC : CorrectUnder S C P I post) (h : Reaches S file w) (hP : P file) :
    C.rely file w.file := by
  rcases ((h.under hC hP).1.sound hC.correct).2 with he | ⟨-, hr⟩
  · exact he ▸ C.rely_refl _
  · exact hr

/-- Two parties never hold the write lock. -/
theorem Reaches.single (hC : CorrectUnder S C P I post) (h : Reaches S file w) (hP : P file)
    (i j : ι) (hi : (w.party i).conn.isWriting = true) (hj : (w.party j).conn.isWriting = true) :
    i = j := ((h.under hC hP).1.sound hC.correct).1.single i j hi hj

theorem Reaches.idle (hC : CorrectUnder S C P I post) (h : Reaches S file w) (hP : P file)
    {i : ι} (hi : (w.party i).running = none) : I (w.state i) := by
  obtain ⟨hr, hw⟩ := h.under hC hP
  exact (hr.sound hC.correct).1.idle i hi hw

/-- Each step moves the file as its party guarantees. -/
theorem Reaches.guar (hC : CorrectUnder S C P I post) (h : Reaches S file w) (hP : P file)
    (hs : Step S w w') : C.guar w.file w'.file := by
  obtain ⟨hr, hw⟩ := h.under hC hP
  rcases ((hr.sound hC.correct).1.step hC.correct (hs.under hw)).2 with he | ⟨-, hg⟩
  · exact he ▸ C.guar_refl _
  · exact hg

/-- A job that has come to its end met its postcondition over a file with the
property, which others may have moved since. -/
theorem Reaches.finished (hC : CorrectUnder S C P I post) (h : Reaches S file w) (hP : P file)
    {i : ι} {j : J} {σ₀ : State L W} {a : α}
    (hr : (w.party i).running = some ⟨j, σ₀, .ret a⟩) :
    ∃ f, P f ∧ post j σ₀ a { w.state i with file := f } ∧ C.Moves (w.party i).conn f w.file := by
  obtain ⟨hreach, hw⟩ := h.under hC hP
  obtain ⟨f, hpost, hm⟩ := (hreach.sound hC.correct).1.finished hr
  have hf : P f := by
    rcases under_moves_from hm with he | hf
    · exact he ▸ hw
    · exact hf
  exact ⟨f, hf, hpost hf, under_moves hm⟩

/-- A party that is left alone comes to the end of a job. -/
theorem Reaches.runs (h : Reaches S file w) {i : ι} (j : J) (hi : (w.party i).running = none)
    (hl : S.legal j (w.state i)) (hav : w.Available i)
    (ha : (S.program j).Admits (alone S.allows) [] (w.state i)) :
    Reaches S file (w.update i ((S.program j).run [] (w.state i)).2
      (some ⟨j, w.state i, .ret ((S.program j).run [] (w.state i)).1⟩)) := by
  have h₁ := h.step (.issue i j hi hl)
  have hr : ((w.update i (w.state i) (some ⟨j, w.state i, S.program j⟩)).party i).running =
      some ⟨j, w.state i, (S.program j).bind .ret⟩ := by
    rw [update_party_self, Prog.bind_ret]
  have h₂ := h₁.solo hr (available_update hav _ _) (by rw [state_update_self]; exact ha)
  rw [state_update_self, update_update] at h₂
  exact h₂

/-- The same, and what it then has for another job. -/
theorem Reaches.job (h : Reaches S file w) {i : ι} (j : J) (hi : (w.party i).running = none)
    (hl : S.legal j (w.state i)) (hav : w.Available i)
    (ha : (S.program j).Admits (alone S.allows) [] (w.state i)) :
    Reaches S file (w.update i ((S.program j).run [] (w.state i)).2 none) := by
  have h₁ := (h.runs j hi hl hav ha).step (.finish i j (w.state i) _ (by rw [update_party_self]))
  rw [state_update_self, update_update] at h₁
  exact h₁

end World

end Transactional
