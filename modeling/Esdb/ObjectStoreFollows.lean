import Esdb.ObjectStoreShared

/-!
# Subscriptions on a shared file

A subscription of the store is a cursor on a journal that many connections write and
any of them may prune. It has been shown, in order and once each, changes that the
file has; and of those between where it started and where it stands it has missed only
such as were pruned.
-/
namespace Esdb.ObjectStore

open Transactional AscendingLog Esdb.Runtime Esdb.ScriptSubscription

/-- The changes ever made to the stores that the filter admits. -/
def offered (filter : Option Bytes) (d : Tables) : List OwnedChange :=
  ((d.log.filterMap (Tables.viewChange d.storeRows)).filter fun v => match filter with
    | none => true
    | some name => v.storeName = name).map shownChange

structure Follows (d : Tables) (sub : ObjectSubscription) : Prop where
  forward : sub.start ≤ sub.revision
  within : sub.revision = sub.start ∨ (sub.revision : ℤ) ≤ d.top
  shown : sub.delivered.Sublist
    (between OwnedChange.revision (offered sub.filter d) sub.start sub.revision)
  missed : ∀ x ∈ between OwnedChange.revision (offered sub.filter d) sub.start sub.revision,
    x ∉ sub.delivered → (x.revision : ℤ) ≤ d.pruned

variable {d d' : Tables} {filter : Option Bytes} {sub : ObjectSubscription}

theorem follows_new (d : Tables) (filter : Option Bytes) (start : ℕ) :
    Follows d ⟨filter, start, start, []⟩ where
  forward := Nat.le_refl _
  within := .inl rfl
  shown := List.nil_sublist _
  missed := fun x hx => by
    rw [between_eq_nil (Nat.le_refl _)] at hx
    exact (List.not_mem_nil hx).elim

theorem ascending_offered (h : Journal d) (filter : Option Bytes) :
    Ascending OwnedChange.revision (offered filter d) := by
  unfold Ascending offered
  rw [List.pairwise_map]
  apply List.Pairwise.filter
  rw [List.pairwise_filterMap]
  apply List.Pairwise.imp_of_mem _ h.ascending
  intro c c' hc hc' hlt v hv v' hv'
  have hpos := (h.range c hc).1
  simp only [shownChange, viewChange_revision hv, viewChange_revision hv']
  omega

theorem viewChange_grows (h : Filled d) (hg : Grows d d') (hj : Journal d') {c : ChangeRow}
    (hc : c ∈ d.log) : Tables.viewChange d'.storeRows c = Tables.viewChange d.storeRows c := by
  obtain ⟨s, hs, hid⟩ := (h.logged c hc).store
  have hold := h.journal.storeIds.lookup_of_mem hs
  have hnew := hj.storeIds.lookup_of_mem (hg.stores.subset hs)
  rw [hid] at hold hnew
  rw [Tables.viewChange, Tables.viewChange, hold, hnew]

/-- Later changes come with higher revisions, after the ones there were. -/
theorem offered_grows (h : Sound d) (hg : Grows d d') (hj : Journal d') (filter : Option Bytes) :
    ∃ extra, offered filter d' = offered filter d ++ extra ∧
      ∀ x ∈ extra, d.top < (x.revision : ℤ) := by
  obtain ⟨tail, htail⟩ := hg.log
  have hold : d.log.filterMap (Tables.viewChange d'.storeRows) =
      d.log.filterMap (Tables.viewChange d.storeRows) := by
    rcases h with rfl | h
    · rfl
    · exact List.filterMap_congr fun c hc => viewChange_grows h hg hj hc
  refine ⟨_, by rw [offered, ← htail, List.filterMap_append, List.filter_append, List.map_append,
    hold, offered], ?_⟩
  intro x hx
  obtain ⟨v, hv, rfl⟩ := List.mem_map.mp hx
  obtain ⟨c, hc, hview⟩ := List.mem_filterMap.mp (List.mem_filter.mp hv).1
  have hrev := viewChange_revision hview
  have hmem : c ∈ d'.log := htail ▸ List.mem_append_right _ hc
  have hpos := (hj.range c hmem).1
  have htop : d.top < c.revision := by
    by_cases hlog : d.log = []
    · rw [Tables.top, hlog]
      exact hpos
    · obtain ⟨last, hlast, hle⟩ := lastRowid_mem hlog
      have hasc := hj.ascending
      rw [← htail, List.pairwise_append] at hasc
      have := hasc.2.2 last hlast c hc
      rw [Tables.top, ← hle]
      exact this
  simp only [shownChange, hrev]
  omega

theorem Grows.top (hg : Grows d d') (hj : Journal d') : d.top ≤ d'.top := by
  by_cases hlog : d.log = []
  · rw [Tables.top, hlog]
    exact hj.top_nonneg
  · obtain ⟨last, hlast, hle⟩ := lastRowid_mem hlog
    rw [Tables.top, ← hle]
    exact hj.le_top (hg.log.subset hlast)

theorem Follows.grows (h : Follows d sub) (hd : Sound d) (hg : Grows d d') (hj : Journal d') :
    Follows d' sub := by
  obtain ⟨extra, he, hnew⟩ := offered_grows hd hg hj sub.filter
  have htop := hg.top hj
  have hsame : between OwnedChange.revision (offered sub.filter d') sub.start sub.revision =
      between OwnedChange.revision (offered sub.filter d) sub.start sub.revision := by
    rcases h.within with hw | hw
    · rw [hw, between_eq_nil (Nat.le_refl _), between_eq_nil (Nat.le_refl _)]
    · have hnone : between OwnedChange.revision extra sub.start sub.revision = [] := by
        rw [List.eq_nil_iff_forall_not_mem]
        intro x hx
        obtain ⟨hmem, -, hle⟩ := mem_between.mp hx
        have := hnew x hmem
        omega
      rw [between, he, List.filter_append]
      exact (congrArg _ hnone).trans (List.append_nil _)
  refine ⟨h.forward, h.within.imp id fun hw => Int.le_trans hw htop, hsame ▸ h.shown, ?_⟩
  intro x hx hn
  exact Int.le_trans (h.missed x (hsame ▸ hx) hn) hg.pruned

/-! ## A poll -/

theorem offered_le_top (h : Journal d) {x : OwnedChange} (hx : x ∈ offered filter d) :
    (x.revision : ℤ) ≤ d.top := by
  obtain ⟨v, hv, rfl⟩ := List.mem_map.mp hx
  obtain ⟨c, hc, hview⟩ := List.mem_filterMap.mp (List.mem_filter.mp hv).1
  have hrev := viewChange_revision hview
  have hpos := (h.range c hc).1
  have hle := h.le_top hc
  simp only [shownChange, hrev]
  omega

/-- What a query delivers is what comes first after the cursor, of what is left. -/
theorem delivers_offered (h : Journal d) {a limit : ℕ} {callback : ℕ → Verdict}
    {accepted : List OwnedChange} (hd : Delivers filter a limit callback d accepted) :
    accepted <+: (after OwnedChange.revision (offered filter d) a).filter
      fun x => d.pruned < (x.revision : ℤ) := by
  obtain ⟨stores, changes, snapshot, n, hs, hc, hown, hcount, rfl⟩ := hd
  have hrows : changes = d.log.filter (d.pruned < ·.revision) := by
    rw [← h.changes, Tables.changeRows, hc]
    rfl
  have hstores : d.storeRows = stores := by rw [Tables.storeRows, hs]; rfl
  have hall : (((changes.filter fun c => (a : ℤ) < c.revision).filterMap
        (Tables.viewChange stores)).filter fun v => match filter with
          | none => true
          | some name => v.storeName = name).map shownChange =
      (after OwnedChange.revision (offered filter d) a).filter
        fun x => d.pruned < (x.revision : ℤ) := by
    rw [hrows, List.filter_filter, after, offered, hstores, List.filter_filter]
    apply shown_filter
    intro c hmem v hv _
    have hpos := (h.range c hmem).1
    have hrev := viewChange_revision hv
    have hcast : ((v.revision.toNat : ℕ) : ℤ) = c.revision := by omega
    have hlt : a < v.revision.toNat ↔ (a : ℤ) < c.revision := by omega
    simp only [shownChange, hcast, hlt]
    exact Bool.and_comm _ _
  rw [own_changes hown, ← hall]
  refine (List.take_prefix n _).trans ?_
  rw [Tables.viewChanges, List.map_take]
  exact List.take_prefix _ _

theorem Follows.accept (h : Follows d sub) (hj : Journal d) {accepted : List OwnedChange}
    (hp : accepted <+: (after OwnedChange.revision (offered sub.filter d) sub.revision).filter
      fun x => d.pruned < (x.revision : ℤ)) : Follows d (ObjectSubscription.accept accepted sub) := by
  have hasc := ascending_offered hj sub.filter
  cases hlast : accepted.getLast? with
  | none =>
      obtain rfl := List.getLast?_eq_none_iff.mp hlast
      simpa [ObjectSubscription.accept, lastRevision] using h
  | some x =>
      have hcursor : lastRevision sub.revision accepted = x.revision := by
        simp [lastRevision, hlast]
      have hx := List.mem_filter.mp (hp.subset (List.mem_of_getLast? hlast))
      obtain ⟨hmem, hlt⟩ := mem_after.mp hx.1
      have heq : accepted = (between OwnedChange.revision (offered sub.filter d) sub.revision
          x.revision).filter fun x => d.pruned < (x.revision : ℤ) := by
        rw [((hasc.after _).filter _).eq_filter hp hlast, after, between,
          List.filter_filter, List.filter_filter, List.filter_filter]
        apply List.filter_congr
        intro y _
        grind
      have hsplit := hasc.between_append h.forward (Nat.le_of_lt hlt)
      unfold ObjectSubscription.accept
      rw [hcursor]
      refine ⟨Nat.le_trans h.forward (Nat.le_of_lt hlt), .inr (offered_le_top hj hmem), ?_, ?_⟩
      · rw [hsplit]
        exact h.shown.append (heq ▸ List.filter_sublist)
      · intro y hy hn
        rw [hsplit, List.mem_append] at hy
        rw [List.mem_append, not_or] at hn
        rcases hy with hy | hy
        · exact h.missed y hy hn.1
        · by_contra hle
          refine hn.2 ?_
          rw [heq]
          exact List.mem_filter.mpr ⟨hy, by simpa using hle⟩

end Esdb.ObjectStore
