import Mathlib.Data.List.Nodup

/-!
# Rows under a key

A table is a list of rows and a key a function of the row. Storing a row under
a key replaces whatever stood there. The order of the rows carries nothing.
-/
namespace KeyedRows

variable {ρ κ : Type} [DecidableEq κ] (key : ρ → κ)

/-- `INSERT … ON CONFLICT DO UPDATE`. -/
def upsert (row : ρ) (rows : List ρ) : List ρ :=
  rows.filter (key · ≠ key row) ++ [row]

def remove (k : κ) (rows : List ρ) : List ρ := rows.filter (key · ≠ k)

def lookup (k : κ) (rows : List ρ) : Option ρ := rows.find? (key · = k)

/-- No two rows have the same key. -/
def Unique (rows : List ρ) : Prop := (rows.map key).Nodup

/-- Each row has a partner under its key in the other table. -/
def Matched (R : ρ → ρ → Prop) (rows rows' : List ρ) : Prop :=
  (∀ x ∈ rows, ∃ y ∈ rows', key x = key y ∧ R x y) ∧
    ∀ y ∈ rows', ∃ x ∈ rows, key x = key y ∧ R x y

variable {key}

theorem mem_upsert {row x : ρ} {rows : List ρ} :
    x ∈ upsert key row rows ↔ x = row ∨ (x ∈ rows ∧ key x ≠ key row) := by
  simp only [upsert, List.mem_append, List.mem_filter, List.mem_singleton, decide_eq_true_eq]
  exact or_comm

theorem mem_remove {k : κ} {x : ρ} {rows : List ρ} :
    x ∈ remove key k rows ↔ x ∈ rows ∧ key x ≠ k := by
  simp [remove]

omit [DecidableEq κ] in
theorem unique_nil : Unique key [] := List.nodup_nil

omit [DecidableEq κ] in
theorem Unique.filter {rows : List ρ} (h : Unique key rows) (p : ρ → Bool) :
    Unique key (rows.filter p) :=
  (List.filter_sublist.map key).nodup h

theorem Unique.remove {rows : List ρ} (h : Unique key rows) (k : κ) :
    Unique key (remove key k rows) := h.filter _

theorem Unique.upsert {rows : List ρ} (h : Unique key rows) (row : ρ) :
    Unique key (upsert key row rows) := by
  unfold KeyedRows.upsert Unique
  rw [List.map_append]
  refine (h.filter _).append (List.nodup_singleton _) ?_
  intro k hk hrow
  simp only [List.map_cons, List.map_nil, List.mem_singleton] at hrow
  obtain ⟨x, hx, rfl⟩ := List.mem_map.mp hk
  simp only [List.mem_filter, decide_eq_true_eq] at hx
  exact hx.2 hrow

omit [DecidableEq κ] in
theorem Unique.eq_of_key {rows : List ρ} (h : Unique key rows) {x y : ρ} (hx : x ∈ rows)
    (hy : y ∈ rows) (hk : key x = key y) : x = y :=
  List.inj_on_of_nodup_map h hx hy hk

theorem lookup_eq_some {k : κ} {rows : List ρ} {x : ρ} (h : lookup key k rows = some x) :
    x ∈ rows ∧ key x = k := by
  refine ⟨List.mem_of_find?_eq_some h, ?_⟩
  simpa using List.find?_some h

theorem lookup_eq_none {k : κ} {rows : List ρ} (h : lookup key k rows = none) :
    ∀ x ∈ rows, key x ≠ k := by
  intro x hx
  simpa using List.find?_eq_none.mp h x hx

theorem Unique.lookup_of_mem {rows : List ρ} (h : Unique key rows) {x : ρ} (hx : x ∈ rows) :
    lookup key (key x) rows = some x := by
  cases hl : lookup key (key x) rows with
  | none => exact (lookup_eq_none hl x hx rfl).elim
  | some y =>
      obtain ⟨hy, hk⟩ := lookup_eq_some hl
      rw [h.eq_of_key hy hx hk]

/-- The order of the keys is the order of the rows. -/
theorem Unique.eq_of_perm {rows moved : List ρ} (h : Unique key rows) (hperm : rows.Perm moved)
    (hkeys : rows.map key = moved.map key) : rows = moved := by
  have hfound : ∀ {l : List ρ}, (∀ x ∈ l, x ∈ rows) →
      (l.map key).map (lookup key · rows) = l.map some := by
    intro l hl
    rw [List.map_map]
    exact List.map_congr_left fun x hx => h.lookup_of_mem (hl x hx)
  have hsome : rows.map some = moved.map some := by
    rw [← hfound fun x hx => hx, ← hfound fun x hx => hperm.mem_iff.mpr hx, hkeys]
  exact List.map_injective_iff.mpr (fun _ _ => Option.some.inj) hsome

/-! ## Two tables -/

omit [DecidableEq κ] in
/-- Partners can be brought side by side. -/
theorem matched_iff {R : ρ → ρ → Prop} {rows rows' : List ρ} (h : Unique key rows)
    (h' : Unique key rows') : Matched key R rows rows' ↔
      ∃ moved, rows.Perm moved ∧ List.Forall₂ (fun x y => key x = key y ∧ R x y) moved rows' := by
  constructor
  · rintro ⟨hleft, hright⟩
    induction rows' generalizing rows with
    | nil =>
        refine ⟨[], ?_, .nil⟩
        rw [List.perm_nil, List.eq_nil_iff_forall_not_mem]
        intro x hx
        obtain ⟨y, hy, -⟩ := hleft x hx
        cases hy
    | cons y rows' ih =>
        obtain ⟨x, hx, hkey, hr⟩ := hright y List.mem_cons_self
        obtain ⟨front, back, rfl⟩ := List.append_of_mem hx
        have hperm : (front ++ x :: back).Perm (x :: (front ++ back)) := List.perm_middle
        have hunique : Unique key (x :: (front ++ back)) := (hperm.map key).nodup_iff.mp h
        unfold Unique at hunique h'
        rw [List.map_cons, List.nodup_cons] at hunique h'
        obtain ⟨moved, hmoved, hpairs⟩ : ∃ moved, (front ++ back).Perm moved ∧
            List.Forall₂ (fun x y => key x = key y ∧ R x y) moved rows' := ih hunique.2 h'.2
          (fun z hz => by
            obtain ⟨w, hw, hzw, hrel⟩ := hleft z (hperm.mem_iff.mpr (List.mem_cons_of_mem _ hz))
            rcases List.mem_cons.mp hw with rfl | hw
            · have hsame : key x ∈ (front ++ back).map key := by
                rw [hkey, ← hzw]
                exact List.mem_map_of_mem hz
              exact absurd hsame hunique.1
            · exact ⟨w, hw, hzw, hrel⟩)
          (fun w hw => by
            obtain ⟨z, hz, hzw, hrel⟩ := hright w (List.mem_cons_of_mem _ hw)
            rcases List.mem_cons.mp (hperm.mem_iff.mp hz) with rfl | hz
            · have hsame : key y ∈ rows'.map key := by
                rw [← hkey, hzw]
                exact List.mem_map_of_mem hw
              exact absurd hsame h'.1
            · exact ⟨z, hz, hzw, hrel⟩)
        exact ⟨x :: moved, hperm.trans (hmoved.cons x), .cons ⟨hkey, hr⟩ hpairs⟩
  · rintro ⟨moved, hperm, hpairs⟩
    suffices hmoved : Matched key R moved rows' from
      ⟨fun x hx => hmoved.1 x (hperm.mem_iff.mp hx), fun y hy => by
        obtain ⟨x, hx, hrel⟩ := hmoved.2 y hy
        exact ⟨x, hperm.mem_iff.mpr hx, hrel⟩⟩
    clear hperm h h'
    induction hpairs with
    | nil => exact ⟨List.forall_mem_nil _, List.forall_mem_nil _⟩
    | cons hxy _ ih =>
        constructor
        · refine List.forall_mem_cons.mpr ⟨⟨_, List.mem_cons_self, hxy⟩, fun x hx => ?_⟩
          obtain ⟨y, hy, hrel⟩ := ih.1 x hx
          exact ⟨y, List.mem_cons_of_mem _ hy, hrel⟩
        · refine List.forall_mem_cons.mpr ⟨⟨_, List.mem_cons_self, hxy⟩, fun y hy => ?_⟩
          obtain ⟨x, hx, hrel⟩ := ih.2 y hy
          exact ⟨x, List.mem_cons_of_mem _ hx, hrel⟩

/-! ## At most one row -/

/-- At most one row is changed, removed or added. -/
def TouchesOne (before after : List ρ) : Prop :=
  ∃ (front back : List ρ) (old new : Option ρ),
    before = front ++ old.toList ++ back ∧ after = front ++ new.toList ++ back

theorem TouchesOne.refl (rows : List ρ) : TouchesOne rows rows :=
  ⟨rows, [], none, none, by simp, by simp⟩

theorem touchesOne_concat (rows : List ρ) (row : ρ) : TouchesOne rows (rows ++ [row]) :=
  ⟨rows, [], none, some row, by simp, by simp⟩

/-- A selection that has no two rows has one place at most. -/
theorem split_of_pairwise {p : ρ → Bool} {rows : List ρ}
    (h : rows.Pairwise fun x y => p x = true → p y = false) :
    ∃ (front back : List ρ) (row : Option ρ), rows = front ++ row.toList ++ back ∧
      (∀ x ∈ front, p x = false) ∧ (∀ x ∈ back, p x = false) ∧ ∀ x ∈ row, p x = true := by
  induction rows with
  | nil => exact ⟨[], [], none, rfl, by simp, by simp, by simp⟩
  | cons x rows ih =>
      rw [List.pairwise_cons] at h
      cases hx : p x with
      | true =>
          refine ⟨[], rows, some x, rfl, by simp, fun y hy => h.1 y hy hx, fun y hy => ?_⟩
          obtain rfl := Option.mem_some_iff.mp hy
          exact hx
      | false =>
          obtain ⟨front, back, row, rfl, hfront, hback, hrow⟩ := ih h.2
          refine ⟨x :: front, back, row, rfl, fun y hy => ?_, hback, hrow⟩
          rcases List.mem_cons.mp hy with rfl | hy
          · exact hx
          · exact hfront y hy

/-- Changing the rows of such a selection. -/
theorem touchesOne_map {p : ρ → Bool} {rows : List ρ}
    (h : rows.Pairwise fun x y => p x = true → p y = false) (f : ρ → ρ) :
    TouchesOne rows (rows.map fun x => if p x then f x else x) := by
  obtain ⟨front, back, row, rfl, hfront, hback, hrow⟩ := split_of_pairwise h
  have hkeep : ∀ {l : List ρ}, (∀ x ∈ l, p x = false) →
      (l.map fun x => if p x then f x else x) = l := by
    intro l hl
    conv_rhs => rw [← List.map_id l]
    refine List.map_congr_left fun x hx => ?_
    rw [hl x hx, if_neg Bool.false_ne_true]
    rfl
  refine ⟨front, back, row, row.map f, rfl, ?_⟩
  rw [List.map_append, List.map_append, hkeep hfront, hkeep hback]
  cases row with
  | none => rfl
  | some x => simp [hrow x rfl]

/-- Removing them. -/
theorem touchesOne_filter {p : ρ → Bool} {rows : List ρ}
    (h : rows.Pairwise fun x y => p x = true → p y = false) :
    TouchesOne rows (rows.filter fun x => !p x) := by
  obtain ⟨front, back, row, rfl, hfront, hback, hrow⟩ := split_of_pairwise h
  have hkeep : ∀ {l : List ρ}, (∀ x ∈ l, p x = false) → (l.filter fun x => !p x) = l := by
    intro l hl
    rw [List.filter_eq_self]
    intro x hx
    rw [hl x hx]
    rfl
  refine ⟨front, back, row, none, rfl, ?_⟩
  rw [List.filter_append, List.filter_append, hkeep hfront, hkeep hback]
  cases row with
  | none => rfl
  | some x => simp [hrow x rfl]

end KeyedRows
