import Mathlib.Data.List.Basic
import Mathlib.Data.Set.Basic
import Mathlib.Order.Defs.Unbundled

/-!
# Reading by key

A collection that changes is read window by window: each scan begins beyond the last key
that was delivered, and gives the first keys it finds there. However the collection changes
between the scans, the keys come in order, and a key that never leaves the collection is
delivered once the scans have passed it.
-/
namespace KeysetChain

variable {S κ : Type} (lt : κ → κ → Prop)

/-- The key stands beyond the cursor. -/
def Beyond (cursor : Option κ) (k : κ) : Prop := ∀ c ∈ cursor, lt c k

/-- The first keys that are present beyond the cursor, and where the end is reported all of
them. -/
structure Window (present : Set κ) (cursor : Option κ) (keys : List κ) (ended : Prop) : Prop where
  ascending : keys.Pairwise lt
  sound : ∀ k ∈ keys, k ∈ present ∧ Beyond lt cursor k
  gapless : ∀ k ∈ present, Beyond lt cursor k → ∀ k' ∈ keys, lt k k' → k ∈ keys
  complete : ended → ∀ k ∈ present, Beyond lt cursor k → k ∈ keys

/-- Scans among other steps: the states that were passed, the keys delivered, and whether the
end has been reported. -/
inductive Chain (moves : S → S → Prop) (scans : Option κ → S → List κ → Prop → S → Prop) :
    List S → S → List κ → Prop → Prop
  | start (s : S) : Chain moves scans [s] s [] False
  | move {past : List S} {s s' : S} {keys : List κ} {ended : Prop}
      (h : Chain moves scans past s keys ended) (hm : moves s s') :
      Chain moves scans (s' :: past) s' keys ended
  | scan {past : List S} {s s' : S} {keys page : List κ} {ended now : Prop}
      (h : Chain moves scans past s keys ended) (hs : scans keys.getLast? s page now s') :
      Chain moves scans (s' :: past) s' (keys ++ page) (ended ∨ now)

/-- What a chain of scans has read. -/
structure Complete (content : S → Set κ) (past : List S) (keys : List κ) (ended : Prop) :
    Prop where
  ascending : keys.Pairwise lt
  sound : ∀ k ∈ keys, ∃ s ∈ past, k ∈ content s
  passed : ∀ k, (∀ s ∈ past, k ∈ content s) → ¬Beyond lt keys.getLast? k → k ∈ keys
  all : ended → ∀ k, (∀ s ∈ past, k ∈ content s) → k ∈ keys

variable {lt} {content : S → Set κ} {present : Set κ} {past : List S} {s : S}
  {keys page all : List κ} {ended now : Prop} {k : κ} {cursor : Option κ}

theorem beyond_none : Beyond lt none k := fun _ h => nomatch h

theorem beyond_some {c : κ} : Beyond lt (some c) k ↔ lt c k :=
  ⟨fun h => h c rfl, fun h _ hc => Option.some.inj hc ▸ h⟩

/-- Where the last key of an ascending list stands. -/
theorem eq_or_lt_last (h : keys.Pairwise lt) {c : κ} (hc : keys.getLast? = some c) (hk : k ∈ keys) :
    k = c ∨ lt k c := by
  obtain ⟨front, rfl⟩ := List.getLast?_eq_some_iff.mp hc
  rcases List.mem_append.mp hk with hk | hk
  · exact .inr ((List.pairwise_append.mp h).2.2 k hk c List.mem_cons_self)
  · exact .inl (List.mem_singleton.mp hk)

section
variable [IsStrictTotalOrder κ lt]

/-- The beginning of the sorted keys. -/
theorem window_take (hsorted : all.Pairwise lt)
    (hall : ∀ k, k ∈ all ↔ k ∈ present ∧ Beyond lt cursor k) (n : ℕ)
    (hended : ended → all.length ≤ n) : Window lt present cursor (all.take n) ended where
  ascending := hsorted.sublist (List.take_sublist n all)
  sound := fun k hk => (hall k).mp (List.mem_of_mem_take hk)
  gapless := by
    intro k hk hbeyond k' hk' hlt
    have hmem := (hall k).mpr ⟨hk, hbeyond⟩
    rw [← List.take_append_drop n all, List.mem_append] at hmem
    refine hmem.resolve_right fun hdrop => ?_
    rw [← List.take_append_drop n all, List.pairwise_append] at hsorted
    exact asymm hlt (hsorted.2.2 k' hk' k hdrop)
  complete := by
    intro he k hk hbeyond
    rw [List.take_of_length_le (hended he)]
    exact (hall k).mpr ⟨hk, hbeyond⟩

theorem Window.append (hw : Window lt present keys.getLast? page now) (h : keys.Pairwise lt) :
    (keys ++ page).Pairwise lt := by
  rw [List.pairwise_append]
  refine ⟨h, hw.ascending, fun a ha b hb => ?_⟩
  cases hc : keys.getLast? with
  | none =>
      rw [List.getLast?_eq_none_iff] at hc
      rw [hc] at ha
      cases ha
  | some c =>
      have hcb : lt c b := (hw.sound b hb).2 c hc
      rcases eq_or_lt_last h hc ha with rfl | hlt
      · exact hcb
      · exact IsTrans.trans _ _ _ hlt hcb

/-- What is passed by a window stands in it or was passed before. -/
theorem Window.mem_of_passed (hw : Window lt present keys.getLast? page now) (hk : k ∈ present)
    (hbeyond : Beyond lt keys.getLast? k) (hpassed : ¬Beyond lt (keys ++ page).getLast? k) :
    k ∈ page := by
  cases hc : page.getLast? with
  | none =>
      rw [List.getLast?_eq_none_iff] at hc
      rw [hc, List.append_nil] at hpassed
      exact absurd hbeyond hpassed
  | some c =>
      rw [List.getLast?_append, hc, Option.some_or, beyond_some] at hpassed
      have hmem : c ∈ page := List.mem_of_getLast? hc
      rcases trichotomous_of lt k c with hlt | rfl | hlt
      · exact hw.gapless k hk hbeyond c hmem hlt
      · exact hmem
      · exact absurd hlt hpassed

/-- Where the end is reported, no greater key is present. -/
theorem Window.last (hw : Window lt present keys.getLast? page now) (hnow : now)
    (hk : k ∈ present) : ¬Beyond lt (keys ++ page).getLast? k := by
  intro hbeyond
  cases hc : page.getLast? with
  | none =>
      rw [List.getLast?_eq_none_iff] at hc
      rw [hc, List.append_nil] at hbeyond
      have := hw.complete hnow k hk hbeyond
      rw [hc] at this
      cases this
  | some c =>
      rw [List.getLast?_append, hc, Option.some_or, beyond_some] at hbeyond
      have hbefore : Beyond lt keys.getLast? k := fun d hd =>
        IsTrans.trans _ _ _ ((hw.sound c (List.mem_of_getLast? hc)).2 d hd) hbeyond
      rcases eq_or_lt_last hw.ascending hc (hw.complete hnow k hk hbefore) with rfl | hlt
      · exact irrefl k hbeyond
      · exact asymm hlt hbeyond

/-- A chain reads all that stays, where every scan gives a window of what it leaves. -/
theorem Chain.complete {moves : S → S → Prop} {scans : Option κ → S → List κ → Prop → S → Prop}
    (hscans : ∀ cursor s page now s', scans cursor s page now s' →
      Window lt (content s') cursor page now)
    (h : Chain moves scans past s keys ended) : Complete lt content past keys ended := by
  induction h with
  | start s =>
      exact ⟨List.Pairwise.nil, fun k hk => (List.not_mem_nil hk).elim,
        fun k _ hpassed => absurd beyond_none hpassed, False.elim⟩
  | move h hm ih =>
      refine ⟨ih.ascending, fun k hk => ?_, fun k hall => ih.passed k fun s hs => ?_,
        fun he k hall => ih.all he k fun s hs => ?_⟩
      · obtain ⟨s, hs, hmem⟩ := ih.sound k hk
        exact ⟨s, List.mem_cons_of_mem _ hs, hmem⟩
      · exact hall s (List.mem_cons_of_mem _ hs)
      · exact hall s (List.mem_cons_of_mem _ hs)
  | @scan past s s' keys page ended now h hs ih =>
      have hw := hscans _ _ _ _ _ hs
      have hold : ∀ k, (∀ t ∈ s' :: past, k ∈ content t) → ∀ t ∈ past, k ∈ content t :=
        fun k hall t ht => hall t (List.mem_cons_of_mem _ ht)
      refine ⟨hw.append ih.ascending, fun k hk => ?_, fun k hall hpassed => ?_,
        fun he k hall => ?_⟩
      · rcases List.mem_append.mp hk with hk | hk
        · obtain ⟨t, ht, hmem⟩ := ih.sound k hk
          exact ⟨t, List.mem_cons_of_mem _ ht, hmem⟩
        · exact ⟨s', List.mem_cons_self, (hw.sound k hk).1⟩
      · rw [List.mem_append]
        by_cases hbeyond : Beyond lt keys.getLast? k
        · exact .inr (hw.mem_of_passed (hall s' List.mem_cons_self) hbeyond hpassed)
        · exact .inl (ih.passed k (hold k hall) hbeyond)
      · rw [List.mem_append]
        rcases he with he | hnow
        · exact .inl (ih.all he k (hold k hall))
        · by_cases hbeyond : Beyond lt keys.getLast? k
          · exact .inr (hw.complete hnow k (hall s' List.mem_cons_self) hbeyond)
          · exact .inl (ih.passed k (hold k hall) hbeyond)

end

end KeysetChain
