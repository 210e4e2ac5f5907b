import Mathlib.Data.List.Basic

/-!
# A bounded window over an append-only numbered log

The log itself is never stored. A window keeps its most recent entries and the
number of the last entry it gave up, the floor. Appending may push the oldest
entries out, one at a time, and a reader that has seen the log up to some
position can be served from the window exactly when that position is not below
the floor.
-/
namespace BoundedLog

variable {α : Type} (seq : α → ℕ)

/-- Entry number `i + 1` stands at index `i`. -/
def Numbered (log : List α) : Prop :=
  ∀ (i : ℕ) (h : i < log.length), seq log[i] = i + 1

theorem numbered_nil : Numbered seq ([] : List α) := by
  intro i h
  simp at h

variable {seq}

theorem Numbered.push {log : List α} (h : Numbered seq log) {a : α}
    (ha : seq a = log.length + 1) : Numbered seq (log ++ [a]) := by
  intro i hi
  by_cases hlt : i < log.length
  · rw [List.getElem_append_left hlt]
    exact h i hlt
  · have he : i = log.length := by
      simp only [List.length_append, List.length_singleton] at hi
      omega
    subst he
    simpa using ha

theorem Numbered.seq_stretch {log : List α} (h : Numbered seq log) (a n : ℕ)
    (hn : a + n ≤ log.length) : ((log.drop a).take n).map seq = List.range' (a + 1) n := by
  apply List.ext_getElem
  · simp only [List.length_map, List.length_take, List.length_drop, List.length_range']
    omega
  · intro i h₁ h₂
    simp only [List.length_range'] at h₂
    simp only [List.getElem_map, List.getElem_take, List.getElem_drop, List.getElem_range',
      h (a + i) (by omega)]
    omega

theorem Numbered.seq_drop {log : List α} (h : Numbered seq log) (n : ℕ) :
    (log.drop n).map seq = List.range' (n + 1) (log.length - n) := by
  by_cases hn : n ≤ log.length
  · rw [← h.seq_stretch n (log.length - n) (by omega), List.take_of_length_le]
    exact Nat.le_of_eq (List.length_drop ..)
  · rw [List.drop_eq_nil_of_le (by omega), Nat.sub_eq_zero_of_le (by omega)]
    rfl

theorem Numbered.le_seq_of_mem_drop {log : List α} (h : Numbered seq log) {n : ℕ} {a : α}
    (ha : a ∈ log.drop n) : n < seq a := by
  have hm : seq a ∈ (log.drop n).map seq := List.mem_map_of_mem ha
  rw [h.seq_drop, List.mem_range'_1] at hm
  omega

theorem Numbered.seq_le_of_mem_take {log : List α} (h : Numbered seq log) {n : ℕ} {a : α}
    (ha : a ∈ log.take n) : seq a ≤ n := by
  obtain ⟨i, hi, rfl⟩ := List.mem_iff_getElem.mp ha
  rw [List.length_take] at hi
  rw [List.getElem_take, h i (by omega)]
  omega

variable (seq)

/-- Give up the oldest entries while more than `cap` are kept. -/
def evict (cap : ℕ) : List α → ℕ → List α × ℕ
  | [], floor => ([], floor)
  | a :: rest, floor =>
      if (a :: rest).length > cap then evict cap rest (seq a) else (a :: rest, floor)

variable {seq}

/-- Eviction moves the floor up to the first position that leaves at most
`cap` entries, and nowhere when there is room already. -/
theorem evict_drop {log : List α} (h : Numbered seq log) (cap floor : ℕ)
    (hf : floor ≤ log.length) :
    evict seq cap (log.drop floor) floor =
      (log.drop (max floor (log.length - cap)), max floor (log.length - cap)) := by
  induction hn : log.length - floor generalizing floor with
  | zero =>
      have he : floor = log.length := by omega
      subst he
      simp [evict]
  | succ n ih =>
      have hlt : floor < log.length := by omega
      rw [List.drop_eq_getElem_cons hlt]
      simp only [evict, List.length_cons, List.length_drop]
      split_ifs with hcap
      · rw [h floor hlt, ih (floor + 1) hlt (by omega)]
        have hm : max (floor + 1) (log.length - cap) = max floor (log.length - cap) := by omega
        rw [hm]
      · have hm : max floor (log.length - cap) = floor := by omega
        rw [hm, List.drop_eq_getElem_cons hlt]

/-- `kept` is what a window with this floor holds of `log`. -/
structure IsWindow (cap : ℕ) (log : List α) (floor : ℕ) (kept : List α) : Prop where
  suffix : kept = log.drop floor
  floor_le : floor ≤ log.length
  bounded : kept.length ≤ cap

theorem isWindow_nil (cap : ℕ) : IsWindow cap ([] : List α) 0 [] := ⟨rfl, Nat.le_refl _, Nat.zero_le _⟩

theorem IsWindow.length_eq {cap floor : ℕ} {log kept : List α} (w : IsWindow cap log floor kept) :
    kept.length = log.length - floor := by
  rw [w.suffix, List.length_drop]

theorem IsWindow.push {cap floor : ℕ} {log kept : List α} (w : IsWindow cap log floor kept)
    {a : α} (h : Numbered seq (log ++ [a])) :
    IsWindow cap (log ++ [a]) (evict seq cap (kept ++ [a]) floor).2
      (evict seq cap (kept ++ [a]) floor).1 := by
  have hk : kept ++ [a] = (log ++ [a]).drop floor := by
    rw [w.suffix, List.drop_append_of_le_length w.floor_le]
  have hf : floor ≤ (log ++ [a]).length := by
    have := w.floor_le
    simp only [List.length_append, List.length_singleton]
    omega
  rw [hk, evict_drop h cap floor hf]
  refine ⟨rfl, ?_, ?_⟩
  · simp only
    omega
  · simp only [List.length_drop]
    omega

/-- A reader standing at `after` finds the rest of the log in the window,
provided nothing after that position has been given up. -/
theorem IsWindow.since {cap floor after : ℕ} {log kept : List α}
    (w : IsWindow cap log floor kept) (h : Numbered seq log) (hf : floor ≤ after) :
    kept.filter (fun a => decide (after < seq a)) = log.drop after := by
  have hsplit : kept = (log.take after).drop floor ++ log.drop after := by
    rw [w.suffix]
    conv_lhs => rw [← List.take_append_drop after log]
    by_cases hlen : after ≤ log.length
    · rw [List.drop_append_of_le_length (by rw [List.length_take]; omega)]
    · have ht : log.take after = log := List.take_of_length_le (by omega)
      have hd : log.drop after = [] := List.drop_eq_nil_of_le (by omega)
      simp [ht, hd]
  have hold : ((log.take after).drop floor).filter (fun a => decide (after < seq a)) = [] := by
    rw [List.filter_eq_nil_iff]
    intro a ha
    have := h.seq_le_of_mem_take (List.mem_of_mem_drop ha)
    simp only [decide_eq_true_eq]
    omega
  have hnew : (log.drop after).filter (fun a => decide (after < seq a)) = log.drop after := by
    rw [List.filter_eq_self]
    intro a ha
    simpa using h.le_seq_of_mem_drop ha
  rw [hsplit, List.filter_append, hold, hnew, List.nil_append]

/-- What has left the window is exactly what is numbered at or below the floor. -/
theorem IsWindow.mem_seq_iff {cap floor : ℕ} {log kept : List α}
    (w : IsWindow cap log floor kept) (h : Numbered seq log) (n : ℕ) :
    n ∈ kept.map seq ↔ floor < n ∧ n ≤ log.length := by
  have := w.floor_le
  rw [w.suffix, h.seq_drop, List.mem_range'_1]
  omega

end BoundedLog
