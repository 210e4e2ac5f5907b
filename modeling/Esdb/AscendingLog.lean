import Mathlib.Data.List.Basic

/-!
# Reading a log by number

The entries of a log carry ascending numbers, not necessarily consecutive ones. A
reader at some number is served from what stands above it, and has read what
stands between the number it started from and the one it has reached.
-/
namespace AscendingLog

variable {α : Type} (seq : α → ℕ)

def Ascending (log : List α) : Prop := log.Pairwise (seq · < seq ·)

/-- The entries numbered above `a`. -/
def after (log : List α) (a : ℕ) : List α := log.filter fun x => a < seq x

/-- The entries numbered above `a` and not above `b`. -/
def between (log : List α) (a b : ℕ) : List α := log.filter fun x => a < seq x && seq x ≤ b

variable {seq} {log : List α} {a b c : ℕ}

theorem mem_after {x : α} : x ∈ after seq log a ↔ x ∈ log ∧ a < seq x := by
  simp [after]

theorem mem_between {x : α} : x ∈ between seq log a b ↔ x ∈ log ∧ a < seq x ∧ seq x ≤ b := by
  simp [between]

theorem Ascending.filter (h : Ascending seq log) (p : α → Bool) : Ascending seq (log.filter p) :=
  List.Pairwise.filter p h

theorem Ascending.after (h : Ascending seq log) (a : ℕ) : Ascending seq (after seq log a) :=
  h.filter _

theorem Ascending.between (h : Ascending seq log) (a b : ℕ) :
    Ascending seq (between seq log a b) := h.filter _

/-- Nothing stands between a number and one that is not above it. -/
theorem between_eq_nil (h : b ≤ a) : between seq log a b = [] := by
  rw [between, List.filter_eq_nil_iff]
  intro x _
  simp only [Bool.and_eq_true, decide_eq_true_eq]
  omega

/-- What is numbered up to `b` comes before what is numbered above it. -/
theorem Ascending.split (h : Ascending seq log) (b : ℕ) :
    log = log.filter (fun x => seq x ≤ b) ++ log.filter (fun x => b < seq x) := by
  induction log with
  | nil => rfl
  | cons x log ih =>
      obtain ⟨hx, hlog⟩ := List.pairwise_cons.mp h
      by_cases hb : seq x ≤ b
      · rw [List.filter_cons_of_pos (by simpa using hb),
          List.filter_cons_of_neg (by simpa using hb), List.cons_append, ← ih hlog]
      · have hnone : log.filter (fun x => seq x ≤ b) = [] := by
          rw [List.filter_eq_nil_iff]
          intro y hy
          have := hx y hy
          simp only [decide_eq_true_eq]
          omega
        have hall : log.filter (fun x => b < seq x) = log := by
          rw [List.filter_eq_self]
          intro y hy
          have := hx y hy
          simp only [decide_eq_true_eq]
          omega
        rw [List.filter_cons_of_neg (by simpa using hb),
          List.filter_cons_of_pos (by simpa using hb), hnone, hall, List.nil_append]

theorem Ascending.after_eq_append (h : Ascending seq log) (hab : a ≤ b) :
    AscendingLog.after seq log a = AscendingLog.between seq log a b ++ AscendingLog.after seq log b := by
  conv_lhs => rw [AscendingLog.after, h.split b, List.filter_append]
  congr 1
  · rw [List.filter_filter]
    rfl
  · rw [List.filter_filter, AscendingLog.after]
    apply List.filter_congr
    intro x _
    rw [Bool.and_eq_right_iff_imp]
    simp only [decide_eq_true_eq]
    omega

theorem Ascending.between_append (h : Ascending seq log) (hab : a ≤ b) (hbc : b ≤ c) :
    AscendingLog.between seq log a c =
      AscendingLog.between seq log a b ++ AscendingLog.between seq log b c := by
  have hac := h.after_eq_append (Nat.le_trans hab hbc)
  rw [h.after_eq_append hab, h.after_eq_append hbc, ← List.append_assoc] at hac
  exact (List.append_cancel_right hac).symm

/-- The first entry above `a` is all there is up to its own number. -/
theorem Ascending.next (h : Ascending seq log) {x : α} {rest : List α}
    (hx : AscendingLog.after seq log a = x :: rest) :
    a < seq x ∧ AscendingLog.between seq log a (seq x) = [x] ∧
      AscendingLog.after seq log (seq x) = rest := by
  have hmem : x ∈ AscendingLog.after seq log a := hx ▸ List.mem_cons_self
  have hlt : a < seq x := (mem_after.mp hmem).2
  have hsplit := h.after_eq_append (Nat.le_of_lt hlt)
  rw [hx] at hsplit
  cases hb : AscendingLog.between seq log a (seq x) with
  | nil =>
      rw [hb, List.nil_append] at hsplit
      have hself : x ∈ AscendingLog.after seq log (seq x) := hsplit ▸ List.mem_cons_self
      exact absurd (mem_after.mp hself).2 (Nat.lt_irrefl _)
  | cons y others =>
      rw [hb, List.cons_append, List.cons.injEq] at hsplit
      obtain ⟨rfl, hrest⟩ := hsplit
      have hnone : others = [] := by
        rw [List.eq_nil_iff_forall_not_mem]
        intro z hz
        have hasc := h.between a (seq x)
        rw [hb] at hasc
        have hgt := (List.pairwise_cons.mp hasc).1 z hz
        have hle : z ∈ AscendingLog.between seq log a (seq x) := hb ▸ List.mem_cons_of_mem _ hz
        have := (mem_between.mp hle).2.2
        omega
      subst hnone
      exact ⟨hlt, rfl, hrest.symm⟩

/-- A window that begins with the first entries above `a`, one entry later. -/
theorem Ascending.window (h : Ascending seq log) {x : α} {rest : List α}
    (hx : x :: rest <+: AscendingLog.after seq log a) :
    a < seq x ∧ AscendingLog.between seq log a (seq x) = [x] ∧
      rest <+: AscendingLog.after seq log (seq x) := by
  obtain ⟨tail, htail⟩ := hx
  obtain ⟨hlt, hone, hrest⟩ := h.next htail.symm
  exact ⟨hlt, hone, tail, hrest.symm⟩

/-- What comes first, up to some entry, is all there is up to its number. -/
theorem Ascending.eq_filter (h : Ascending seq log) {front : List α}
    (hp : front <+: log) {x : α} (hx : front.getLast? = some x) :
    front = log.filter fun y => seq y ≤ seq x := by
  obtain ⟨rest, rfl⟩ := hp
  obtain ⟨init, rfl⟩ := List.getLast?_eq_some_iff.mp hx
  obtain ⟨hfront, -, hrest⟩ := List.pairwise_append.mp h
  have hle : ∀ y ∈ init ++ [x], seq y ≤ seq x := by
    intro y hy
    rcases List.mem_append.mp hy with hy | hy
    · exact Nat.le_of_lt ((List.pairwise_append.mp hfront).2.2 y hy x List.mem_cons_self)
    · exact Nat.le_of_eq (congrArg seq (List.mem_singleton.mp hy))
  have hlast : ∀ y ∈ rest, ¬ seq y ≤ seq x := by
    intro y hy
    have := hrest x (List.mem_append_right _ List.mem_cons_self) y hy
    omega
  rw [List.filter_append, List.filter_eq_self.mpr (by simpa using hle),
    List.filter_eq_nil_iff.mpr (by simpa using hlast), List.append_nil]

/-- More log does not change what stands up to the number of an entry. -/
theorem Ascending.between_grown {log' : List α} (h : Ascending seq log') (hp : log <+: log')
    {x : α} (hx : x ∈ log) (hb : b ≤ seq x) :
    AscendingLog.between seq log' a b = AscendingLog.between seq log a b := by
  obtain ⟨tail, rfl⟩ := hp
  have hafter := (List.pairwise_append.mp h).2.2
  have hnone : AscendingLog.between seq tail a b = [] := by
    rw [List.eq_nil_iff_forall_not_mem]
    intro y hy
    obtain ⟨hmem, -, hle⟩ := mem_between.mp hy
    have := hafter x hx y hmem
    omega
  simp only [AscendingLog.between, List.filter_append] at hnone ⊢
  rw [hnone, List.append_nil]

end AscendingLog
