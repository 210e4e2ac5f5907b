import Esdb.MemoryStoreJournal

/-!
# A patch is the fold of its puts

`patch` stages copies of the records and of the journal and swaps them in at the
end; `put` edits both in place. With every allocation succeeding the two agree on
the final Store, and a patch that fails leaves nothing behind.
-/
namespace Esdb.MemoryStore

/-- Every allocation succeeds. -/
def always {Site : Type} : Site → Bool := fun _ => true

/-- `put` on the entries in order, with the reply of each. -/
def putEach : List PatchEntry → StoreState → List (Except Failure ℕ) × StoreState
  | [], s => ([], s)
  | e :: rest, s =>
      let r := put always e.key e.value s
      let q := putEach rest r.2
      (r.1 :: q.1, q.2)

def succeeded {α : Type} (reply : Except Failure α) : Bool := reply.toBool

theorem put_always_ok {key : Option Bytes} {value : Option Value} {k : Bytes} {v : Value}
    {s : StoreState} (h : checkAssignment key value = some (k, v)) (hr : s.revision < revisionMax) :
    put always key value s = (.ok (s.revision + 1), s.publish (.put k v)) := by
  have hr' : ¬ s.revision ≥ revisionMax := by omega
  cases hk : s.records[k]? <;>
    simp [put, h, always, hr', hk, retainChange, StoreState.publish, Mutation.change,
      Mutation.update]

theorem put_succeeded_iff (key : Option Bytes) (value : Option Value) (s : StoreState) :
    succeeded (put always key value s).1 = true ↔
      (checkAssignment key value).isSome = true ∧ s.revision < revisionMax := by
  constructor
  · intro h
    rcases put_cases always key value s with ⟨f, hp⟩ | ⟨k, v, hc, hr, hp⟩
    · rw [hp] at h
      cases h
    · exact ⟨by rw [hc]; rfl, hr⟩
  · rintro ⟨hc, hr⟩
    obtain ⟨⟨k, v⟩, hc⟩ := Option.isSome_iff_exists.mp hc
    rw [put_always_ok hc hr]
    rfl

/-- The puts all succeed when the entries are well formed and the revisions they
need are still free; the Store then holds what they publish one by one. -/
theorem putEach_spec (entries : List PatchEntry) (s : StoreState) :
    ((∀ r ∈ (putEach entries s).1, succeeded r = true) ↔
      (∀ e ∈ entries, (checkAssignment e.key e.value).isSome = true) ∧
        (s.revision + entries.length ≤ revisionMax ∨ entries = [])) ∧
      ((∀ r ∈ (putEach entries s).1, succeeded r = true) →
        (putEach entries s).2 = s.publishAll (patchMutations entries)) := by
  induction entries generalizing s with
  | nil => simp [putEach, patchMutations, StoreState.publishAll]
  | cons e rest ih =>
      by_cases hok : succeeded (put always e.key e.value s).1 = true
      · obtain ⟨hsome, hr⟩ := (put_succeeded_iff _ _ _).mp hok
        obtain ⟨⟨k, v⟩, hc⟩ := Option.isSome_iff_exists.mp hsome
        have hput := put_always_ok hc hr
        obtain ⟨hiff, hend⟩ := ih (s.publish (.put k v))
        obtain ⟨hk, hv⟩ := checkAssignment_eq_some hc
        have hlog : patchMutations (e :: rest) = .put k v :: patchMutations rest := by
          simp only [patchMutations, List.filterMap_cons, hk, hv]
        rw [publish_revision] at hiff
        simp only [putEach, hput, List.forall_mem_cons, hlog, List.length_cons, hsome,
          true_and]
        constructor
        · rw [hiff]
          constructor
          · rintro ⟨-, h, hroom⟩
            refine ⟨h, .inl ?_⟩
            rcases hroom with hroom | rfl
            · omega
            · simp only [List.length_nil]
              omega
          · rintro ⟨h, hroom⟩
            refine ⟨rfl, h, .inl ?_⟩
            rcases hroom with hroom | hnil
            · omega
            · cases hnil
        · rintro ⟨-, h⟩
          exact hend h
      · have hfail : ¬ ∀ r ∈ (putEach (e :: rest) s).1, succeeded r = true := by
          intro h
          exact hok (h _ (by simp [putEach]))
        refine ⟨⟨fun h => (hfail h).elim, ?_⟩, fun h => (hfail h).elim⟩
        rintro ⟨h, hroom⟩
        refine absurd ((put_succeeded_iff _ _ _).mpr ⟨h e (by simp), ?_⟩) hok
        rcases hroom with hroom | hnil
        · rw [List.length_cons] at hroom
          omega
        · cases hnil

theorem mapM_isSome_iff (entries : List PatchEntry) :
    (entries.mapM fun e => checkAssignment e.key e.value).isSome = true ↔
      ∀ e ∈ entries, (checkAssignment e.key e.value).isSome = true := by
  induction entries with
  | nil => simp
  | cons e rest ih =>
      rw [List.mapM_cons, List.forall_mem_cons, ← ih]
      cases checkAssignment e.key e.value <;>
        cases rest.mapM (fun e => checkAssignment e.key e.value) <;> simp

theorem patchLoop_always (i : ℕ) (assignments : List (Bytes × Value)) (s : StoreState) :
    patchLoop always i assignments s =
      some (s.publishAll (assignments.map fun a => .put a.1 a.2)) := by
  induction assignments generalizing i s with
  | nil => rfl
  | cons a rest ih =>
      obtain ⟨key, value⟩ := a
      have h := ih (i + 1) (s.publish (.put key value))
      simpa [patchLoop, always, StoreState.publishAll, StoreState.publish, Mutation.change,
        Mutation.update] using h

theorem patch_succeeded_iff {entries : List PatchEntry} (s : StoreState)
    (hl : entries.length ≤ patchMaxEntries) :
    succeeded (patch always entries s).1 = true ↔
      (∀ e ∈ entries, (checkAssignment e.key e.value).isSome = true) ∧
        (s.revision + entries.length ≤ revisionMax ∨ entries = []) := by
  rw [← mapM_isSome_iff]
  have hl' : ¬ entries.length > patchMaxEntries := by omega
  have hdomain : patchMaxEntries ≤ revisionMax := by decide
  cases hm : entries.mapM (fun e => checkAssignment e.key e.value) with
  | none => simp [patch, hl', hm, succeeded, Except.toBool]
  | some assignments =>
      by_cases hz : entries.length = 0
      · have he : entries = [] := List.eq_nil_of_length_eq_zero hz
        subst he
        cases hm
        simp [patch, succeeded, Except.toBool]
      · by_cases hr : s.revision > revisionMax - entries.length
        · have hne : entries ≠ [] := fun h => hz (by rw [h]; rfl)
          simp only [patch, if_neg hl', hm, if_neg hz, if_pos hr, succeeded, Except.toBool,
            Option.isSome_some, true_and, hne, or_false, Bool.false_eq_true, false_iff]
          omega
        · have hfit : s.revision + entries.length ≤ revisionMax := by omega
          simp [patch, hl', hm, hz, hr, always, patchLoop_always, succeeded, Except.toBool, hfit]

/-- A patch succeeds exactly when performing its puts one after the other would,
and then both end in the same records, journal, floor and revision. A patch that
does not succeed changes nothing, although the puts before the failing one
would have. -/
theorem patch_refines_puts (s : StoreState) (entries : List PatchEntry)
    (hl : entries.length ≤ 1024) :
    (succeeded (patch always entries s).1 = true ↔
        ∀ r ∈ (putEach entries s).1, succeeded r = true) ∧
      (succeeded (patch always entries s).1 = true →
        (patch always entries s).2 = (putEach entries s).2) ∧
      (succeeded (patch always entries s).1 = false → (patch always entries s).2 = s) := by
  have hiff : succeeded (patch always entries s).1 = true ↔
      ∀ r ∈ (putEach entries s).1, succeeded r = true :=
    (patch_succeeded_iff s hl).trans (putEach_spec entries s).1.symm
  refine ⟨hiff, fun hok => ?_, fun hfail => ?_⟩
  · rw [(putEach_spec entries s).2 (hiff.mp hok)]
    rcases patch_cases always entries s with ⟨f, hp⟩ | ⟨-, -, hp⟩
    · rw [hp] at hok
      cases hok
    · rw [hp]
  · rcases patch_cases always entries s with ⟨f, hp⟩ | ⟨-, -, hp⟩
    · rw [hp]
    · rw [hp] at hfail
      cases hfail

/-- A patch that assigns one key twice, on a fresh Store. -/
theorem patch_refines_puts_repeated_key :
    let entries : List PatchEntry :=
      [⟨some [97], some ⟨Value.null, []⟩⟩, ⟨some [97], some ⟨Value.bool, [1]⟩⟩]
    entries.length ≤ 1024 ∧
      (succeeded (patch always entries initial).1 = true ↔
        ∀ r ∈ (putEach entries initial).1, succeeded r = true) ∧
      (succeeded (patch always entries initial).1 = true →
        (patch always entries initial).2 = (putEach entries initial).2) ∧
      (succeeded (patch always entries initial).1 = false →
        (patch always entries initial).2 = initial) := by
  intro entries
  exact ⟨by decide, patch_refines_puts initial entries (by decide)⟩

end Esdb.MemoryStore
