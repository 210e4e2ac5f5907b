import Mathlib.Data.List.TakeWhile

/-!
# Texts with separators

A text is cut at the first separator into a field and what is pending from there on. A
list of fields without the separator is written with one in front of each, or joined with
one between each two, and is read back field by field or by splitting at all of them.
-/
namespace Delimited

variable {α : Type*} {stop : α} {w s : List α}

/-- Each field behind a separator. -/
def led (stop : α) (fields : List (List α)) : List α := fields.flatMap (stop :: ·)

theorem led_nil : led stop [] = [] := rfl

theorem led_cons (fields : List (List α)) :
    led stop (w :: fields) = stop :: w ++ led stop fields := List.flatMap_cons

theorem intercalate_cons (fields : List (List α)) :
    [stop].intercalate (w :: fields) = w ++ led stop fields := by
  induction fields generalizing w with
  | nil => simp [led]
  | cons v fields ih =>
      rw [List.intercalate_cons_cons, ih, led_cons, List.append_assoc]
      rfl

theorem led_pending (fields : List (List α)) {rest : List α}
    (hrest : rest = [] ∨ ∃ s, rest = stop :: s) :
    led stop fields ++ rest = [] ∨ ∃ s, led stop fields ++ rest = stop :: s := by
  cases fields with
  | nil => exact hrest
  | cons w fields => exact .inr ⟨_, rfl⟩

/-- With an empty field at the end, each field closes with the separator too. -/
theorem led_closed (fields : List (List α)) :
    led stop (fields ++ [[]]) = stop :: fields.flatMap (· ++ [stop]) := by
  induction fields with
  | nil => rfl
  | cons w fields ih =>
      rw [List.cons_append, led_cons, ih, List.flatMap_cons, List.append_assoc]
      rfl

theorem notMem_led {c : α} {fields : List (List α)} (hc : c ≠ stop) (h : ∀ w ∈ fields, c ∉ w) :
    c ∉ led stop fields := by
  intro hmem
  obtain ⟨w, hw, hcw⟩ := List.mem_flatMap.mp hmem
  rcases List.mem_cons.mp hcw with rfl | hcw
  · exact hc rfl
  · exact h w hw hcw

theorem notMem_intercalate {c : α} {fields : List (List α)} (hc : c ≠ stop)
    (h : ∀ w ∈ fields, c ∉ w) : c ∉ [stop].intercalate fields := by
  cases fields with
  | nil => exact List.not_mem_nil
  | cons w fields =>
      rw [intercalate_cons, List.mem_append, not_or]
      obtain ⟨hw, hfields⟩ := List.forall_mem_cons.mp h
      exact ⟨hw, notMem_led hc hfields⟩

variable [DecidableEq α]

def field (stop : α) (s : List α) : List α := s.takeWhile (· ≠ stop)

/-- The separator and what follows it; nothing when there is none. -/
def pending (stop : α) (s : List α) : List α := s.dropWhile (· ≠ stop)

def behind (stop : α) (s : List α) : List α := (pending stop s).drop 1

theorem field_append_pending (stop : α) (s : List α) : field stop s ++ pending stop s = s :=
  List.takeWhile_append_dropWhile

theorem notMem_field (stop : α) (s : List α) : stop ∉ field stop s := by
  intro h
  have hne := List.mem_takeWhile_imp h
  simp at hne

theorem pending_eq (stop : α) (s : List α) :
    pending stop s = [] ∧ behind stop s = [] ∨ pending stop s = stop :: behind stop s := by
  unfold behind
  cases h : pending stop s with
  | nil => exact .inl ⟨rfl, rfl⟩
  | cons c rest =>
      have hhead := List.head?_dropWhile_not (· ≠ stop) s
      rw [← pending, h, List.head?_cons] at hhead
      have hc : c = stop := by simpa using hhead
      exact .inr (by rw [hc]; rfl)

theorem field_append (h : stop ∉ w) (s : List α) : field stop (w ++ stop :: s) = w := by
  have hw : ∀ c ∈ w, decide (c ≠ stop) = true := by
    intro c hc
    exact decide_eq_true (ne_of_mem_of_not_mem hc h)
  rw [field, List.takeWhile_append_of_pos hw]
  simp

theorem behind_append (h : stop ∉ w) (s : List α) : behind stop (w ++ stop :: s) = s := by
  have hsplit := field_append_pending stop (w ++ stop :: s)
  rw [field_append h] at hsplit
  rw [behind, List.append_cancel_left hsplit]
  rfl

theorem field_self (h : stop ∉ w) : field stop w = w := by
  have hw : ∀ c ∈ w, decide (c ≠ stop) = true := by
    intro c hc
    exact decide_eq_true (ne_of_mem_of_not_mem hc h)
  exact List.takeWhile_eq_self_iff.mpr hw

theorem pending_self (h : stop ∉ w) : pending stop w = [] := by
  have hsplit := field_append_pending stop w
  rw [field_self h] at hsplit
  exact List.append_right_eq_self.mp hsplit

/-- A text that holds the separator is its first field, the separator and the rest. -/
theorem eq_of_mem (h : stop ∈ s) : s = field stop s ++ stop :: behind stop s := by
  rcases pending_eq stop s with ⟨hnone, -⟩ | hsome
  · have hsplit := field_append_pending stop s
    rw [hnone, List.append_nil] at hsplit
    have hno := notMem_field stop s
    rw [hsplit] at hno
    exact absurd h hno
  · rw [← hsome, field_append_pending]

/-- A field, and what stands behind it when that is nothing or begins with the separator. -/
theorem field_pending {rest : List α} (h : stop ∉ w) (hrest : rest = [] ∨ ∃ s, rest = stop :: s) :
    field stop (w ++ rest) = w ∧ pending stop (w ++ rest) = rest := by
  have hfield : field stop (w ++ rest) = w := by
    rcases hrest with rfl | ⟨s, rfl⟩
    · rw [List.append_nil, field_self h]
    · exact field_append h s
  refine ⟨hfield, ?_⟩
  have hsplit := field_append_pending stop (w ++ rest)
  rw [hfield] at hsplit
  exact List.append_cancel_left hsplit

/-- No piece of a split text has the separator. -/
theorem notMem_splitOn (stop : α) (s : List α) : ∀ w ∈ s.splitOn stop, stop ∉ w := by
  induction s with
  | nil =>
      intro w hw
      rw [List.splitOn_nil, List.mem_singleton] at hw
      rw [hw]
      exact List.not_mem_nil
  | cons c s ih =>
      intro w hw
      rw [List.splitOn_cons_eq_if_modifyHead] at hw
      split_ifs at hw with hc
      · rcases List.mem_cons.mp hw with rfl | hw
        · exact List.not_mem_nil
        · exact ih w hw
      · cases hsplit : s.splitOn stop with
        | nil => exact absurd hsplit (List.splitOn_ne_nil stop s)
        | cons v rest =>
            rw [hsplit] at hw ih
            obtain ⟨hv, hrest⟩ := List.forall_mem_cons.mp ih
            rcases List.mem_cons.mp hw with rfl | hw
            · exact List.not_mem_cons_of_ne_of_not_mem (fun h => hc (beq_iff_eq.mpr h.symm)) hv
            · exact hrest w hw

end Delimited
