import Mathlib.Data.List.Basic
import Mathlib.Data.List.Nodup
import Mathlib.Data.List.Pairwise
import Mathlib.Data.List.Perm.Subperm
import Mathlib.Logic.Function.Basic

/-!
# Chains of equality joins over keyed tables

A base table is joined with one table after another, each on equalities between its own
columns and columns that are there already, and the rows are filtered by equalities with
constants at the end. The keys of the tables and the equalities decide, without a look
at the data, whether two result rows can differ: `Single` is the closure that decides
it, and both halves of that are proved here.
-/
namespace EquiJoin

variable {T C V : Type}

/-- No value is the null value, which equals nothing. -/
abbrev Row (C V : Type) := C → Option V

/-- The rows picked so far. A table that is not joined yet, or was joined without a
match, has none. -/
abbrev Combo (T C V : Type) := T → Option (Row C V)

structure Join (T C : Type) where
  outer : Bool
  table : T
  on : List ((T × C) × (T × C))

def Combo.cell (e : Combo T C V) (r : T × C) : Option V := (e r.1).bind fun row => row r.2

def Combo.holds [DecidableEq V] (e : Combo T C V) (p : (T × C) × (T × C)) : Bool :=
  (e.cell p.1).isSome && e.cell p.1 == e.cell p.2

section
variable [DecidableEq T] [DecidableEq V]

def Join.matches (db : T → List (Row C V)) (j : Join T C) (e : Combo T C V) :
    List (Combo T C V) :=
  ((db j.table).map fun row => Function.update e j.table (some row)).filter
    fun e' => j.on.all e'.holds

def Join.extend (db : T → List (Row C V)) (j : Join T C) (e : Combo T C V) :
    List (Combo T C V) :=
  if (j.matches db e).isEmpty && j.outer then [Function.update e j.table none]
  else j.matches db e

def start (db : T → List (Row C V)) (base : T) : List (Combo T C V) :=
  (db base).map fun row => Function.update (fun _ => none) base (some row)

def combos (db : T → List (Row C V)) (base : T) (joins : List (Join T C)) :
    List (Combo T C V) :=
  joins.foldl (fun es j => es.flatMap (j.extend db)) (start db base)

def Combo.passes (e : Combo T C V) (conds : List ((T × C) × Option V)) : Bool :=
  conds.all fun cond => cond.2.isSome && e.cell cond.1 == cond.2

def rows (db : T → List (Row C V)) (base : T) (joins : List (Join T C))
    (conds : List ((T × C) × Option V)) : List (Combo T C V) :=
  (combos db base joins).filter fun e => e.passes conds

end

/-! ## Keys -/

def Agree (key : List C) (row row' : Row C V) : Prop :=
  ∀ c ∈ key, ∃ v, row c = some v ∧ row' c = some v

def Unique (keys : T → List (List C)) (db : T → List (Row C V)) : Prop :=
  ∀ t, (db t).Pairwise fun row row' => ∀ key ∈ keys t, ¬ Agree key row row'

theorem Agree.symm {key : List C} {row row' : Row C V} (h : Agree key row row') :
    Agree key row' row := by
  intro c hc
  obtain ⟨v, h₁, h₂⟩ := h c hc
  exact ⟨v, h₂, h₁⟩

theorem Unique.eq {keys : T → List (List C)} {db : T → List (Row C V)} (h : Unique keys db)
    {t : T} {row row' : Row C V} (hr : row ∈ db t) (hr' : row' ∈ db t) {key : List C}
    (hk : key ∈ keys t) (ha : Agree key row row') : row = row' := by
  by_contra hne
  have : Std.Symm fun row row' : Row C V => ∀ key ∈ keys t, ¬ Agree key row row' :=
    ⟨fun _ _ hn key hkey ha => hn key hkey ha.symm⟩
  exact (h t).forall hr hr' hne key hk ha

/-! ## What the equalities fix -/

section
variable (keys : T → List (List C)) (base : T) (joins : List (Join T C)) (conds : List (T × C))

/-- The tables that have a row in every result row. -/
inductive Present : T → Prop
  | base : Present base
  | inner (j : Join T C) (hj : j ∈ joins) (h : j.outer = false) : Present j.table
  | cond (r : T × C) (hr : r ∈ conds) : Present r.1
  | left (j : Join T C) (hj : j ∈ joins) (p : (T × C) × (T × C)) (hp : p ∈ j.on)
      (h : Present j.table) : Present p.1.1
  | right (j : Join T C) (hj : j ∈ joins) (p : (T × C) × (T × C)) (hp : p ∈ j.on)
      (h : Present j.table) : Present p.2.1

/-- The columns in which two result rows that have the table at all cannot differ. -/
inductive Fixed : T × C → Prop
  | cond (r : T × C) (hr : r ∈ conds) : Fixed r
  | key (t : T) (key : List C) (hk : key ∈ keys t) (h : ∀ c ∈ key, Fixed (t, c)) (c : C) :
      Fixed (t, c)
  | left (j : Join T C) (hj : j ∈ joins) (p : (T × C) × (T × C)) (hp : p ∈ j.on)
      (h : Fixed p.2) (ht : p.1.1 = j.table ∨ Present base joins conds j.table) : Fixed p.1
  | right (j : Join T C) (hj : j ∈ joins) (p : (T × C) × (T × C)) (hp : p ∈ j.on)
      (h : Fixed p.1) (ht : p.2.1 = j.table ∨ Present base joins conds j.table) : Fixed p.2

/-- A key of the table is fixed. -/
def Single (t : T) : Prop := ∃ key ∈ keys t, ∀ c ∈ key, Fixed keys base joins conds (t, c)

end

/-- Each join brings in a new table, and each of its equalities relates that table with
one that was there. -/
def Scoped : List T → List (Join T C) → Prop
  | _, [] => True
  | scope, j :: js =>
      j.table ∉ scope ∧
      (∀ p ∈ j.on, (p.1.1 = j.table ∧ p.2.1 ∈ scope) ∨ (p.2.1 = j.table ∧ p.1.1 ∈ scope)) ∧
      Scoped (scope ++ [j.table]) js

/-! ## Fixed keys leave one row -/

variable {keys : T → List (List C)} {db : T → List (Row C V)} {base : T}

theorem cell_eq_some {e : Combo T C V} {r : T × C} {v : V} :
    e.cell r = some v ↔ ∃ row, e r.1 = some row ∧ row r.2 = some v := by
  unfold Combo.cell
  rw [Option.bind_eq_some_iff]

/-- The joins in `done` speak of tables in `scope` only. -/
def Within (scope : List T) (done : List (Join T C)) : Prop :=
  ∀ j ∈ done, j.table ∈ scope ∧ ∀ p ∈ j.on, p.1.1 ∈ scope ∧ p.2.1 ∈ scope

theorem Scoped.within {scope : List T} {done : List (Join T C)} {j : Join T C}
    {js : List (Join T C)} (h : Scoped scope (j :: js)) (hw : Within scope done) :
    Within (scope ++ [j.table]) (done ++ [j]) := by
  obtain ⟨-, hon, -⟩ := h
  have hin : j.table ∈ scope ++ [j.table] := List.mem_append_right _ (List.mem_singleton.mpr rfl)
  intro j' hj'
  rcases List.mem_append.mp hj' with hj' | hj'
  · obtain ⟨ht, hp⟩ := hw j' hj'
    exact ⟨List.mem_append_left _ ht, fun p hmem =>
      ⟨List.mem_append_left _ (hp p hmem).1, List.mem_append_left _ (hp p hmem).2⟩⟩
  · rw [List.mem_singleton] at hj'
    subst hj'
    refine ⟨hin, fun p hp => ?_⟩
    rcases hon p hp with ⟨h₁, h₂⟩ | ⟨h₁, h₂⟩
    · exact ⟨h₁ ▸ hin, List.mem_append_left _ h₂⟩
    · exact ⟨List.mem_append_left _ h₂, h₁ ▸ hin⟩

section
variable [DecidableEq V]

theorem holds_iff {e : Combo T C V} {p : (T × C) × (T × C)} :
    e.holds p = true ↔ ∃ v, e.cell p.1 = some v ∧ e.cell p.2 = some v := by
  unfold Combo.holds
  rw [Bool.and_eq_true, beq_iff_eq, Option.isSome_iff_exists]
  constructor
  · rintro ⟨⟨v, hv⟩, he⟩
    exact ⟨v, hv, he ▸ hv⟩
  · rintro ⟨v, h₁, h₂⟩
    exact ⟨⟨v, h₁⟩, h₁.trans h₂.symm⟩

theorem passes_iff {e : Combo T C V} {conds : List ((T × C) × Option V)} :
    e.passes conds = true ↔ ∀ cond ∈ conds, ∃ v, cond.2 = some v ∧ e.cell cond.1 = some v := by
  unfold Combo.passes
  rw [List.all_eq_true]
  apply forall_congr'
  intro cond
  apply imp_congr_right
  intro _
  rw [Bool.and_eq_true, beq_iff_eq, Option.isSome_iff_exists]
  constructor
  · rintro ⟨⟨v, hv⟩, he⟩
    exact ⟨v, hv, he.trans hv⟩
  · rintro ⟨v, hv, he⟩
    exact ⟨⟨v, hv⟩, he.trans hv.symm⟩

/-- What holds of every combination after the joins in `done`. -/
structure Picked (db : T → List (Row C V)) (base : T) (done : List (Join T C))
    (e : Combo T C V) : Prop where
  mem : ∀ t row, e t = some row → row ∈ db t
  first : e base ≠ none
  inner : ∀ j ∈ done, j.outer = false → e j.table ≠ none
  on : ∀ j ∈ done, e j.table ≠ none → ∀ p ∈ j.on, e.holds p = true
  scope : ∀ t, e t ≠ none → t ∈ base :: done.map Join.table

/-- Two combinations that have different rows of one table. -/
def Apart (keys : T → List (List C)) (e e' : Combo T C V) : Prop :=
  ∃ t row row', e t = some row ∧ e' t = some row' ∧ ∀ key ∈ keys t, ¬ Agree key row row'

variable {joins : List (Join T C)} {conds : List ((T × C) × Option V)} {e e' : Combo T C V}

/-- A table that must have a row has one in every result row. -/
theorem Present.row {t : T} (ht : Present base joins (conds.map Prod.fst) t)
    (h : Picked db base joins e) (hc : e.passes conds = true) : e t ≠ none := by
  have hcell : ∀ {r : T × C} {v : V}, e.cell r = some v → e r.1 ≠ none := by
    intro r v hv
    obtain ⟨row, hrow, -⟩ := cell_eq_some.mp hv
    rw [hrow]
    exact Option.some_ne_none row
  induction ht with
  | base => exact h.first
  | inner j hj hinner => exact h.inner j hj hinner
  | cond r hr =>
    obtain ⟨cond, hcond, rfl⟩ := List.mem_map.mp hr
    obtain ⟨v, -, hv⟩ := passes_iff.mp hc cond hcond
    exact hcell hv
  | left j hj p hp _ ih =>
    obtain ⟨v, hv, -⟩ := holds_iff.mp (h.on j hj ih p hp)
    exact hcell hv
  | right j hj p hp _ ih =>
    obtain ⟨v, -, hv⟩ := holds_iff.mp (h.on j hj ih p hp)
    exact hcell hv

/-- In a fixed column two result rows agree, if they do not have the same row of the
table anyway. -/
theorem Fixed.agree (hu : Unique keys db) {r : T × C}
    (hr : Fixed keys base joins (conds.map Prod.fst) r)
    (h : Picked db base joins e) (hc : e.passes conds = true)
    (h' : Picked db base joins e') (hc' : e'.passes conds = true)
    {row row' : Row C V} (he : e r.1 = some row) (he' : e' r.1 = some row') :
    (∃ v, row r.2 = some v ∧ row' r.2 = some v) ∨ ∃ key ∈ keys r.1, Agree key row row' := by
  -- an equality that holds in both rows carries agreement from one side to the other
  have hcross : ∀ {a b : T × C} {row row' : Row C V}, e a.1 = some row → e' a.1 = some row' →
      (∀ {s s' : Row C V}, e b.1 = some s → e' b.1 = some s' →
        (∃ v, s b.2 = some v ∧ s' b.2 = some v) ∨ ∃ key ∈ keys b.1, Agree key s s') →
      (∃ v, e.cell a = some v ∧ e.cell b = some v) →
      (∃ v, e'.cell a = some v ∧ e'.cell b = some v) →
      ∃ v, row a.2 = some v ∧ row' a.2 = some v := by
    intro a b row row' hea hea' hb hab hab'
    obtain ⟨v, hva, hvb⟩ := hab
    obtain ⟨v', hva', hvb'⟩ := hab'
    obtain ⟨s, hs, hsv⟩ := cell_eq_some.mp hvb
    obtain ⟨s', hs', hsv'⟩ := cell_eq_some.mp hvb'
    obtain ⟨w, hw, hwv⟩ := cell_eq_some.mp hva
    obtain ⟨w', hw', hwv'⟩ := cell_eq_some.mp hva'
    rw [hea] at hw
    rw [hea'] at hw'
    obtain rfl := Option.some.inj hw
    obtain rfl := Option.some.inj hw'
    have hvv : v = v' := by
      rcases hb hs hs' with ⟨u, hu₁, hu₂⟩ | ⟨key, hkey, hagree⟩
      · rw [hsv] at hu₁
        rw [hsv'] at hu₂
        exact (Option.some.inj hu₁).trans (Option.some.inj hu₂).symm
      · have hss := hu.eq (h.mem _ _ hs) (h'.mem _ _ hs') hkey hagree
        rw [hss, hsv'] at hsv
        exact (Option.some.inj hsv).symm
    exact ⟨v, hwv, hvv ▸ hwv'⟩
  have hsome : ∀ {e : Combo T C V} {t : T} {row : Row C V}, e t = some row → e t ≠ none := by
    intro e t row hrow
    rw [hrow]
    exact Option.some_ne_none row
  induction hr generalizing row row' with
  | cond r hr =>
    left
    obtain ⟨cond, hcond, rfl⟩ := List.mem_map.mp hr
    obtain ⟨v, hv, hcell⟩ := passes_iff.mp hc cond hcond
    obtain ⟨v', hv', hcell'⟩ := passes_iff.mp hc' cond hcond
    obtain ⟨w, hw, hwv⟩ := cell_eq_some.mp hcell
    obtain ⟨w', hw', hwv'⟩ := cell_eq_some.mp hcell'
    rw [he] at hw
    rw [he'] at hw'
    rw [hv] at hv'
    obtain rfl := Option.some.inj hw
    obtain rfl := Option.some.inj hw'
    obtain rfl := Option.some.inj hv'
    exact ⟨v, hwv, hwv'⟩
  | key t key hk _ c ih =>
    right
    by_cases hall : Agree key row row'
    · exact ⟨key, hk, hall⟩
    · unfold Agree at hall
      simp only [not_forall] at hall
      obtain ⟨c', hc', hnot⟩ := hall
      rcases ih c' hc' he he' with hv | hkey
      · exact absurd hv hnot
      · exact hkey
  | left j hj p hp _ ht ih =>
    left
    have hrow : e j.table ≠ none ∧ e' j.table ≠ none := by
      rcases ht with ht | ht
      · rw [← ht]
        exact ⟨hsome he, hsome he'⟩
      · exact ⟨ht.row h hc, ht.row h' hc'⟩
    exact hcross he he' (fun hs hs' => ih hs hs') (holds_iff.mp (h.on j hj hrow.1 p hp))
      (holds_iff.mp (h'.on j hj hrow.2 p hp))
  | right j hj p hp _ ht ih =>
    left
    have hrow : e j.table ≠ none ∧ e' j.table ≠ none := by
      rcases ht with ht | ht
      · rw [← ht]
        exact ⟨hsome he, hsome he'⟩
      · exact ⟨ht.row h hc, ht.row h' hc'⟩
    have hflip : ∀ {e : Combo T C V}, (∃ v, e.cell p.1 = some v ∧ e.cell p.2 = some v) →
        ∃ v, e.cell p.2 = some v ∧ e.cell p.1 = some v := fun ⟨v, h₁, h₂⟩ => ⟨v, h₂, h₁⟩
    exact hcross he he' (fun hs hs' => ih hs hs') (hflip (holds_iff.mp (h.on j hj hrow.1 p hp)))
      (hflip (holds_iff.mp (h'.on j hj hrow.2 p hp)))

end

section
variable [DecidableEq T]

theorem cell_update {e : Combo T C V} {t : T} {row : Option (Row C V)} {r : T × C}
    (h : r.1 ≠ t) : Combo.cell (Function.update e t row) r = e.cell r := by
  unfold Combo.cell
  rw [Function.update_of_ne h]

variable [DecidableEq V]

theorem holds_update {e : Combo T C V} {t : T} {row : Option (Row C V)}
    {p : (T × C) × (T × C)} (h₁ : p.1.1 ≠ t) (h₂ : p.2.1 ≠ t) :
    Combo.holds (Function.update e t row) p = e.holds p := by
  unfold Combo.holds
  rw [cell_update h₁, cell_update h₂]

theorem mem_extend {j : Join T C} {e e' : Combo T C V} (h : e' ∈ j.extend db e) :
    (∃ row ∈ db j.table, e' = Function.update e j.table (some row) ∧
        ∀ p ∈ j.on, e'.holds p = true) ∨
      (j.outer = true ∧ e' = Function.update e j.table none) := by
  unfold Join.extend at h
  split_ifs at h with hempty
  · rw [List.mem_singleton] at h
    rw [Bool.and_eq_true] at hempty
    exact Or.inr ⟨hempty.2, h⟩
  · unfold Join.matches at h
    rw [List.mem_filter, List.mem_map, List.all_eq_true] at h
    obtain ⟨⟨row, hrow, rfl⟩, hon⟩ := h
    exact Or.inl ⟨row, hrow, rfl, hon⟩

theorem Picked.extend {done : List (Join T C)} {j : Join T C} {e e' : Combo T C V}
    (h : Picked db base done e) (hfresh : j.table ∉ base :: done.map Join.table)
    (hwithin : Within (base :: done.map Join.table) done) (he : e' ∈ j.extend db e) :
    Picked db base (done ++ [j]) e' := by
  have hother : ∀ t, t ≠ j.table → e' t = e t := by
    intro t ht
    rcases mem_extend he with ⟨row, -, rfl, -⟩ | ⟨-, rfl⟩
    · exact Function.update_of_ne ht ..
    · exact Function.update_of_ne ht ..
  have hdone : ∀ t ∈ base :: done.map Join.table, t ≠ j.table := by
    rintro t ht rfl
    exact hfresh ht
  constructor
  · intro t row ht
    by_cases htj : t = j.table
    · subst htj
      rcases mem_extend he with ⟨row', hrow, rfl, -⟩ | ⟨-, rfl⟩
      · rw [Function.update_self] at ht
        obtain rfl := Option.some.inj ht
        exact hrow
      · rw [Function.update_self] at ht
        exact nomatch ht
    · exact h.mem t row (hother t htj ▸ ht)
  · rw [hother base (hdone base (List.mem_cons_self ..))]
    exact h.first
  · intro j' hj' hinner
    rcases List.mem_append.mp hj' with hj' | hj'
    · rw [hother _ (hdone _ (List.mem_cons_of_mem _ (List.mem_map_of_mem hj')))]
      exact h.inner j' hj' hinner
    · rw [List.mem_singleton] at hj'
      subst hj'
      rcases mem_extend he with ⟨row, -, rfl, -⟩ | ⟨houter, -⟩
      · rw [Function.update_self]
        exact Option.some_ne_none row
      · rw [hinner] at houter
        exact nomatch houter
  · intro j' hj' hrow p hp
    rcases List.mem_append.mp hj' with hj' | hj'
    · obtain ⟨hin, hon⟩ := hwithin j' hj'
      have hsame : e'.holds p = e.holds p := by
        rcases mem_extend he with ⟨row, -, rfl, -⟩ | ⟨-, rfl⟩
        · exact holds_update (hdone _ (hon p hp).1) (hdone _ (hon p hp).2)
        · exact holds_update (hdone _ (hon p hp).1) (hdone _ (hon p hp).2)
      rw [hsame]
      rw [hother _ (hdone _ hin)] at hrow
      exact h.on j' hj' hrow p hp
    · rw [List.mem_singleton] at hj'
      subst hj'
      rcases mem_extend he with ⟨row, -, -, hon⟩ | ⟨-, rfl⟩
      · exact hon p hp
      · rw [Function.update_self] at hrow
        exact absurd rfl hrow
  · intro t ht
    rw [List.map_append, ← List.cons_append]
    by_cases htj : t = j.table
    · exact List.mem_append_right _ (by simp [htj])
    · rw [hother t htj] at ht
      exact List.mem_append_left _ (h.scope t ht)

theorem apart_extend (hu : Unique keys db) {done : List (Join T C)} {j : Join T C}
    {es : List (Combo T C V)} (hpicked : ∀ e ∈ es, Picked db base done e)
    (hfresh : j.table ∉ base :: done.map Join.table) (h : es.Pairwise (Apart keys)) :
    (es.flatMap (j.extend db)).Pairwise (Apart keys) := by
  rw [List.pairwise_flatMap]
  constructor
  · intro e _
    unfold Join.extend
    split_ifs
    · exact List.pairwise_singleton ..
    · unfold Join.matches
      apply List.Pairwise.filter
      rw [List.pairwise_map]
      apply (hu j.table).imp
      intro row row' hne
      exact ⟨j.table, row, row', Function.update_self .., Function.update_self .., hne⟩
  · apply h.imp_of_mem
    rintro e₁ e₂ h₁ h₂ ⟨t, row, row', ht₁, ht₂, hne⟩ e₁' he₁ e₂' he₂
    have htj : t ≠ j.table := by
      rintro rfl
      exact hfresh ((hpicked e₁ h₁).scope _ (by rw [ht₁]; exact Option.some_ne_none row))
    have hkeep : ∀ {e e' : Combo T C V}, e' ∈ j.extend db e → e' t = e t := by
      intro e e' he
      rcases mem_extend he with ⟨row, -, rfl, -⟩ | ⟨-, rfl⟩
      · exact Function.update_of_ne htj ..
      · exact Function.update_of_ne htj ..
    exact ⟨t, row, row', (hkeep he₁).trans ht₁, (hkeep he₂).trans ht₂, hne⟩

/-- What the joins so far have kept, the joins to come keep. -/
theorem foldl_picked (hu : Unique keys db) (done joins : List (Join T C))
    (es : List (Combo T C V)) (hscoped : Scoped (base :: done.map Join.table) joins)
    (hwithin : Within (base :: done.map Join.table) done)
    (hpicked : ∀ e ∈ es, Picked db base done e) (hapart : es.Pairwise (Apart keys)) :
    (∀ e ∈ joins.foldl (fun es j => es.flatMap (j.extend db)) es,
        Picked db base (done ++ joins) e) ∧
      (joins.foldl (fun es j => es.flatMap (j.extend db)) es).Pairwise (Apart keys) := by
  induction joins generalizing done es with
  | nil =>
    rw [List.append_nil]
    exact ⟨hpicked, hapart⟩
  | cons j js ih =>
    have hnext : base :: (done ++ [j]).map Join.table =
        (base :: done.map Join.table) ++ [j.table] := by simp
    have hrest := ih (done ++ [j]) (es.flatMap (j.extend db))
      (by rw [hnext]; exact hscoped.2.2)
      (by rw [hnext]; exact hscoped.within hwithin)
      (by
        intro e' he'
        obtain ⟨e, he, hext⟩ := List.mem_flatMap.mp he'
        exact (hpicked e he).extend hscoped.1 hwithin hext)
      (apart_extend hu hpicked hscoped.1 hapart)
    rw [List.append_assoc, List.singleton_append] at hrest
    exact hrest

variable (base) in
theorem start_picked (hu : Unique keys db) :
    (∀ e ∈ start db base, Picked db base [] e) ∧ (start db base).Pairwise (Apart keys) := by
  constructor
  · intro e he
    obtain ⟨row, hrow, rfl⟩ := List.mem_map.mp he
    constructor
    · intro t row' ht
      by_cases htb : t = base
      · subst htb
        rw [Function.update_self] at ht
        obtain rfl := Option.some.inj ht
        exact hrow
      · rw [Function.update_of_ne htb] at ht
        exact nomatch ht
    · rw [Function.update_self]
      exact Option.some_ne_none row
    · exact fun _ h => nomatch h
    · exact fun _ h => nomatch h
    · intro t ht
      by_contra hmem
      have htb : t ≠ base := by
        rintro rfl
        exact hmem (List.mem_cons_self ..)
      rw [Function.update_of_ne htb] at ht
      exact ht rfl
  · unfold start
    rw [List.pairwise_map]
    apply (hu base).imp
    intro row row' hne
    exact ⟨base, row, row', Function.update_self .., Function.update_self .., hne⟩

/-- Where every table has a fixed key there is at most one result row. -/
theorem rows_le_one (hu : Unique keys db) {joins : List (Join T C)}
    (hscoped : Scoped [base] joins) (conds : List ((T × C) × Option V))
    (hsingle : ∀ t ∈ base :: joins.map Join.table,
      Single keys base joins (conds.map Prod.fst) t) :
    (rows db base joins conds).length ≤ 1 := by
  obtain ⟨hstart, hapart⟩ := start_picked base hu
  obtain ⟨hpicked, hpair⟩ := foldl_picked hu [] joins (start db base) hscoped
    (fun _ h => nomatch h) hstart hapart
  rw [List.nil_append] at hpicked
  have hfalse : (rows db base joins conds).Pairwise fun _ _ => False := by
    apply (hpair.filter _).imp_of_mem
    rintro e e' he he' ⟨t, row, row', ht, ht', hne⟩
    obtain ⟨hmem, hc⟩ := List.mem_filter.mp he
    obtain ⟨hmem', hc'⟩ := List.mem_filter.mp he'
    have h := hpicked e hmem
    have h' := hpicked e' hmem'
    have hscope := h.scope t (by rw [ht]; exact Option.some_ne_none row)
    obtain ⟨key, hkey, hfixed⟩ := hsingle t hscope
    refine hne key hkey fun c hcol => ?_
    rcases (hfixed c hcol).agree hu h hc h' hc' ht ht' with hv | ⟨key', hkey', hagree⟩
    · exact hv
    · exact absurd hagree (hne key' hkey')
  rcases hrows : rows db base joins conds with _ | ⟨e, _ | ⟨e', es⟩⟩
  · exact Nat.zero_le 1
  · exact Nat.le_refl 1
  · rw [hrows, List.pairwise_cons] at hfalse
    exact (hfalse.1 e' (List.mem_cons_self ..)).elim

end

/-! ## Without fixed keys there are as many rows as one likes

The tables below hold a single row where a key is fixed, and `n` rows elsewhere. Row `k`
has the value `a` in the fixed columns and a value of its own in the others, and the rows
numbered `k` of all tables fit together.
-/

section
variable (keys) (base) (joins : List (Join T C)) (conds : List (T × C)) (a : T × C → V)
  (b : ℕ → T × C → V)

open Classical in
noncomputable def spreadRow (k : ℕ) (t : T) : Row C V := fun c =>
  some (if Fixed keys base joins conds (t, c) then a (t, c) else b k (t, c))

open Classical in
noncomputable def spread (n : ℕ) (t : T) : List (Row C V) :=
  if Single keys base joins conds t then [spreadRow keys base joins conds a b 0 t]
  else (List.range n).map fun k => spreadRow keys base joins conds a b k t

end

section
variable {joins : List (Join T C)} {conds : List (T × C)} {a : T × C → V} {b : ℕ → T × C → V}
  {n : ℕ}

theorem spreadRow_single (k : ℕ) {t : T} (h : Single keys base joins conds t) :
    spreadRow keys base joins conds a b k t = spreadRow keys base joins conds a b 0 t := by
  obtain ⟨key, hkey, hfixed⟩ := h
  funext c
  unfold spreadRow
  rw [if_pos (.key t key hkey hfixed c), if_pos (.key t key hkey hfixed c)]

theorem spreadRow_mem {k : ℕ} (hk : k < n) (t : T) :
    spreadRow keys base joins conds a b k t ∈ spread keys base joins conds a b n t := by
  unfold spread
  split_ifs with h
  · rw [List.mem_singleton]
    exact spreadRow_single k h
  · exact List.mem_map_of_mem (List.mem_range.mpr hk)

theorem mem_spread {t : T} {row : Row C V} (h : row ∈ spread keys base joins conds a b n t) :
    ∃ k, row = spreadRow keys base joins conds a b k t := by
  unfold spread at h
  split_ifs at h
  · exact ⟨0, List.mem_singleton.mp h⟩
  · obtain ⟨k, -, rfl⟩ := List.mem_map.mp h
    exact ⟨k, rfl⟩

theorem spreadRow_ne (hb : ∀ k k' r, b k r = b k' r → k = k') {t : T}
    (h : ¬ Single keys base joins conds t) {key : List C} (hkey : key ∈ keys t) {k k' : ℕ}
    (hne : k ≠ k') : ∃ c ∈ key, spreadRow keys base joins conds a b k t c ≠
      spreadRow keys base joins conds a b k' t c := by
  unfold Single at h
  simp only [not_exists, not_and, not_forall] at h
  obtain ⟨c, hc, hfixed⟩ := h key hkey
  refine ⟨c, hc, fun he => hne (hb k k' (t, c) ?_)⟩
  unfold spreadRow at he
  rw [if_neg hfixed, if_neg hfixed] at he
  exact Option.some.inj he

theorem unique_spread (hb : ∀ k k' r, b k r = b k' r → k = k') :
    Unique keys (spread keys base joins conds a b n) := by
  intro t
  unfold spread
  split_ifs with h
  · exact List.pairwise_singleton ..
  · rw [List.pairwise_map]
    apply List.nodup_range.imp
    intro k k' hne key hkey hagree
    obtain ⟨c, hc, hdiff⟩ := spreadRow_ne (a := a) hb h hkey hne
    obtain ⟨v, hv, hv'⟩ := hagree c hc
    exact hdiff (hv.trans hv'.symm)

variable (keys) (base) (conds) in
/-- An equality of a join, seen from the column of the table that it brings in. -/
theorem Scoped.edge [DecidableEq V] {scope : List T} {j : Join T C} (hj : j ∈ joins)
    (hon : ∀ p ∈ j.on, (p.1.1 = j.table ∧ p.2.1 ∈ scope) ∨ (p.2.1 = j.table ∧ p.1.1 ∈ scope))
    (ha : ∀ j ∈ joins, ∀ p ∈ j.on, a p.1 = a p.2)
    (hb : ∀ k, ∀ j ∈ joins, ∀ p ∈ j.on, b k p.1 = b k p.2)
    {p : (T × C) × (T × C)} (hp : p ∈ j.on) :
    ∃ r s : T × C, r.1 = j.table ∧ s.1 ∈ scope ∧ a r = a s ∧ (∀ k, b k r = b k s) ∧
      (Fixed keys base joins conds s → Fixed keys base joins conds r) ∧
      (Present base joins conds j.table → Present base joins conds s.1 ∧
        (Fixed keys base joins conds r → Fixed keys base joins conds s)) ∧
      ∀ e : Combo T C V, e.holds p = true ↔ ∃ v, e.cell r = some v ∧ e.cell s = some v := by
  rcases hon p hp with ⟨hown, hprior⟩ | ⟨hown, hprior⟩
  · exact ⟨p.1, p.2, hown, hprior, ha j hj p hp, fun k => hb k j hj p hp,
      fun h => .left j hj p hp h (Or.inl hown),
      fun ht => ⟨.right j hj p hp ht, fun h => .right j hj p hp h (Or.inr ht)⟩,
      fun e => holds_iff⟩
  · refine ⟨p.2, p.1, hown, hprior, (ha j hj p hp).symm, fun k => (hb k j hj p hp).symm,
      fun h => .right j hj p hp h (Or.inl hown),
      fun ht => ⟨.left j hj p hp ht, fun h => .left j hj p hp h (Or.inr ht)⟩,
      fun e => holds_iff.trans ?_⟩
    exact ⟨fun ⟨v, h₁, h₂⟩ => ⟨v, h₂, h₁⟩, fun ⟨v, h₁, h₂⟩ => ⟨v, h₂, h₁⟩⟩

/-- The rows numbered `k` of the tables that must have a row, and of any others. -/
def Follows (keys : T → List (List C)) (base : T) (joins : List (Join T C))
    (conds : List (T × C)) (a : T × C → V) (b : ℕ → T × C → V) (k : ℕ) (scope : List T)
    (e : Combo T C V) : Prop :=
  ∀ t ∈ scope, e t = some (spreadRow keys base joins conds a b k t) ∨
    (e t = none ∧ ¬ Present base joins conds t)

theorem spreadRow_eq {k : ℕ} {r s : T × C} (ha : a r = a s) (hb : b k r = b k s)
    (h : Fixed keys base joins conds r ↔ Fixed keys base joins conds s) :
    spreadRow keys base joins conds a b k r.1 r.2 =
      spreadRow keys base joins conds a b k s.1 s.2 := by
  unfold spreadRow
  by_cases hr : Fixed keys base joins conds r
  · rw [if_pos hr, if_pos (h.mp hr), ha]
  · rw [if_neg hr, if_neg (fun hs => hr (h.mpr hs)), hb]

theorem cell_spreadRow {e : Combo T C V} {r : T × C} {k : ℕ}
    (h : e r.1 = some (spreadRow keys base joins conds a b k r.1)) :
    e.cell r = spreadRow keys base joins conds a b k r.1 r.2 := by
  unfold Combo.cell
  rw [h]
  rfl

end

section
variable [DecidableEq T] [DecidableEq V] {joins : List (Join T C)} {conds : List (T × C)}
  {a : T × C → V} {b : ℕ → T × C → V} {n : ℕ}

theorem extend_row {j : Join T C} {e : Combo T C V} {row : Row C V} (hrow : row ∈ db j.table)
    (h : ∀ p ∈ j.on, Combo.holds (Function.update e j.table (some row)) p = true) :
    Function.update e j.table (some row) ∈ j.extend db e := by
  have hmem : Function.update e j.table (some row) ∈ j.matches db e := by
    unfold Join.matches
    rw [List.mem_filter, List.mem_map, List.all_eq_true]
    exact ⟨⟨row, hrow, rfl⟩, h⟩
  unfold Join.extend
  have hne : (j.matches db e).isEmpty = false := by
    rw [List.isEmpty_eq_false_iff]
    exact List.ne_nil_of_mem hmem
  rw [hne]
  exact hmem

/-- Of a table that is in every result row, and of one whose equalities have single
tables on their other side, row `k` fits. -/
theorem extend_spreadRow {j : Join T C} (hj : j ∈ joins) {scope : List T}
    (hfresh : j.table ∉ scope)
    (hon : ∀ p ∈ j.on, (p.1.1 = j.table ∧ p.2.1 ∈ scope) ∨ (p.2.1 = j.table ∧ p.1.1 ∈ scope))
    (ha : ∀ j ∈ joins, ∀ p ∈ j.on, a p.1 = a p.2)
    (hb : ∀ k, ∀ j ∈ joins, ∀ p ∈ j.on, b k p.1 = b k p.2) {k : ℕ} (hk : k < n)
    {e : Combo T C V} (he : Follows keys base joins conds a b k scope e)
    (ht : Present base joins conds j.table ∨
      ∀ t ∈ scope, Single keys base joins conds t ∧ e t ≠ none) :
    Function.update e j.table (some (spreadRow keys base joins conds a b k j.table)) ∈
      j.extend (spread keys base joins conds a b n) e := by
  apply extend_row (spreadRow_mem hk j.table)
  intro p hp
  obtain ⟨r, s, hr, hs, har, hbr, hback, hpresent, hholds⟩ :=
    Scoped.edge keys base conds hj hon ha hb hp
  have hsj : s.1 ≠ j.table := by
    rintro hsj
    exact hfresh (hsj ▸ hs)
  have hrow : e s.1 = some (spreadRow keys base joins conds a b k s.1) := by
    rcases he s.1 hs with hrow | ⟨hnone, hnot⟩
    · exact hrow
    · rcases ht with ht | ht
      · exact absurd (hpresent ht).1 hnot
      · exact absurd hnone (ht s.1 hs).2
  have hiff : Fixed keys base joins conds r ↔ Fixed keys base joins conds s := by
    refine ⟨fun h => ?_, hback⟩
    rcases ht with ht | ht
    · exact (hpresent ht).2 h
    · obtain ⟨key, hkey, hfixed⟩ := (ht s.1 hs).1
      exact .key s.1 key hkey hfixed s.2
  rw [hholds]
  have hcell : Combo.cell (Function.update e j.table
      (some (spreadRow keys base joins conds a b k j.table))) r =
      spreadRow keys base joins conds a b k r.1 r.2 := by
    apply cell_spreadRow
    rw [hr]
    exact Function.update_self ..
  rw [hcell, cell_update hsj, cell_spreadRow hrow, ← spreadRow_eq har (hbr k) hiff]
  exact ⟨_, rfl, rfl⟩

/-- A join takes a combination of rows numbered `k` to another. -/
theorem Follows.extend {j : Join T C} (hj : j ∈ joins) {scope : List T}
    (hfresh : j.table ∉ scope)
    (hon : ∀ p ∈ j.on, (p.1.1 = j.table ∧ p.2.1 ∈ scope) ∨ (p.2.1 = j.table ∧ p.1.1 ∈ scope))
    (ha : ∀ j ∈ joins, ∀ p ∈ j.on, a p.1 = a p.2)
    (hb : ∀ k, ∀ j ∈ joins, ∀ p ∈ j.on, b k p.1 = b k p.2)
    (hinj : ∀ k k' r, b k r = b k' r → k = k') {k : ℕ} (hk : k < n)
    {e : Combo T C V} (he : Follows keys base joins conds a b k scope e) :
    ∃ e' ∈ j.extend (spread keys base joins conds a b n) e,
      Follows keys base joins conds a b k (scope ++ [j.table]) e' ∧
        ∀ t ∈ scope, e' t = e t := by
  have hkeep : ∀ (row : Option (Row C V)), ∀ t ∈ scope, Function.update e j.table row t = e t := by
    intro row t ht
    apply Function.update_of_ne
    rintro rfl
    exact hfresh ht
  have hfollows : ∀ row : Option (Row C V),
      (row = some (spreadRow keys base joins conds a b k j.table) ∨
        (row = none ∧ ¬ Present base joins conds j.table)) →
      Follows keys base joins conds a b k (scope ++ [j.table]) (Function.update e j.table row) := by
    intro row hrow t ht
    rcases List.mem_append.mp ht with ht | ht
    · rw [hkeep row t ht]
      exact he t ht
    · rw [List.mem_singleton] at ht
      subst ht
      rw [Function.update_self]
      exact hrow
  by_cases hpresent : Present base joins conds j.table
  · exact ⟨_, extend_spreadRow hj hfresh hon ha hb hk he (Or.inl hpresent),
      hfollows _ (Or.inl rfl), hkeep _⟩
  have houter : j.outer = true := by
    by_contra hinner
    exact hpresent (.inner j hj (by simpa using hinner))
  by_cases hempty : (j.matches (spread keys base joins conds a b n) e).isEmpty = true
  · refine ⟨Function.update e j.table none, ?_, hfollows none (Or.inr ⟨rfl, hpresent⟩), hkeep _⟩
    unfold Join.extend
    rw [hempty, houter]
    exact List.mem_singleton.mpr rfl
  -- where any row of the table fits, row `k` does
  rw [List.isEmpty_iff] at hempty
  obtain ⟨e', he'⟩ := List.exists_mem_of_ne_nil _ hempty
  unfold Join.matches at he'
  rw [List.mem_filter, List.mem_map, List.all_eq_true] at he'
  obtain ⟨⟨row, hrow, rfl⟩, hfits⟩ := he'
  obtain ⟨k', rfl⟩ := mem_spread hrow
  refine ⟨_, extend_row (spreadRow_mem hk j.table) ?_, hfollows _ (Or.inl rfl), hkeep _⟩
  intro p hp
  obtain ⟨r, s, hr, hs, har, hbr, hback, -, hholds⟩ :=
    Scoped.edge keys base conds hj hon ha hb hp
  have hsj : s.1 ≠ j.table := by
    rintro hsj
    exact hfresh (hsj ▸ hs)
  have hown : ∀ i : ℕ, Combo.cell (Function.update e j.table
      (some (spreadRow keys base joins conds a b i j.table))) r =
      spreadRow keys base joins conds a b i r.1 r.2 := by
    intro i
    apply cell_spreadRow
    rw [hr]
    exact Function.update_self ..
  obtain ⟨v, hv, hvs⟩ := (hholds _).mp (hfits p hp)
  rw [hown] at hv
  rw [hholds, hown]
  rw [cell_update hsj] at hvs ⊢
  refine ⟨v, ?_, hvs⟩
  by_cases hfixed : Fixed keys base joins conds r
  · unfold spreadRow at hv ⊢
    rw [if_pos hfixed] at hv ⊢
    exact hv
  · have hrow : e s.1 = some (spreadRow keys base joins conds a b k s.1) := by
      rcases he s.1 hs with hrow | ⟨hnone, -⟩
      · exact hrow
      · obtain ⟨w, hw, -⟩ := cell_eq_some.mp hvs
        rw [hnone] at hw
        exact nomatch hw
    rw [cell_spreadRow hrow] at hvs
    unfold spreadRow at hv hvs
    rw [if_neg hfixed] at hv
    rw [if_neg (fun h => hfixed (hback h)), ← hbr k] at hvs
    obtain rfl := hinj k' k r (Option.some.inj (hv.trans hvs.symm))
    unfold spreadRow
    rw [if_neg hfixed]
    exact hv

/-- Among the combinations there is one of rows numbered `k` for each `k`. Up to the
first table without a fixed key all of them have rows, and that table keeps its row. -/
def Reaches (keys : T → List (List C)) (base : T) (joins : List (Join T C))
    (conds : List (T × C)) (a : T × C → V) (b : ℕ → T × C → V) (n : ℕ) (scope : List T)
    (es : List (Combo T C V)) : Prop :=
  ((∀ t ∈ scope, Single keys base joins conds t) ∧ ∀ k < n, ∃ e ∈ es, ∀ t ∈ scope,
      e t = some (spreadRow keys base joins conds a b k t)) ∨
    ∃ t ∈ scope, ¬ Single keys base joins conds t ∧ ∀ k < n, ∃ e ∈ es,
      Follows keys base joins conds a b k scope e ∧
        e t = some (spreadRow keys base joins conds a b k t)

theorem Reaches.extend {j : Join T C} (hj : j ∈ joins) {scope : List T}
    (hfresh : j.table ∉ scope)
    (hon : ∀ p ∈ j.on, (p.1.1 = j.table ∧ p.2.1 ∈ scope) ∨ (p.2.1 = j.table ∧ p.1.1 ∈ scope))
    (ha : ∀ j ∈ joins, ∀ p ∈ j.on, a p.1 = a p.2)
    (hb : ∀ k, ∀ j ∈ joins, ∀ p ∈ j.on, b k p.1 = b k p.2)
    (hinj : ∀ k k' r, b k r = b k' r → k = k') {es : List (Combo T C V)}
    (h : Reaches keys base joins conds a b n scope es) :
    Reaches keys base joins conds a b n (scope ++ [j.table])
      (es.flatMap (j.extend (spread keys base joins conds a b n))) := by
  rcases h with ⟨hsingle, h⟩ | ⟨t, ht, hnot, h⟩
  · have hall : ∀ k < n, ∃ e ∈ es.flatMap (j.extend (spread keys base joins conds a b n)),
        ∀ t ∈ scope ++ [j.table], e t = some (spreadRow keys base joins conds a b k t) := by
      intro k hk
      obtain ⟨e, he, hrow⟩ := h k hk
      have hsome : ∀ t ∈ scope, Single keys base joins conds t ∧ e t ≠ none := by
        intro t ht
        refine ⟨hsingle t ht, ?_⟩
        rw [hrow t ht]
        exact Option.some_ne_none _
      refine ⟨_, List.mem_flatMap.mpr ⟨e, he, extend_spreadRow hj hfresh hon ha hb hk
        (fun t ht => Or.inl (hrow t ht)) (Or.inr hsome)⟩, ?_⟩
      intro t ht
      rcases List.mem_append.mp ht with ht | ht
      · have hne : t ≠ j.table := by
          rintro rfl
          exact hfresh ht
        rw [Function.update_of_ne hne]
        exact hrow t ht
      · rw [List.mem_singleton] at ht
        subst ht
        exact Function.update_self ..
    by_cases hjs : Single keys base joins conds j.table
    · refine Or.inl ⟨fun t ht => ?_, hall⟩
      rcases List.mem_append.mp ht with ht | ht
      · exact hsingle t ht
      · rw [List.mem_singleton.mp ht]
        exact hjs
    · have hin : j.table ∈ scope ++ [j.table] :=
        List.mem_append_right _ (List.mem_singleton.mpr rfl)
      refine Or.inr ⟨j.table, hin, hjs, fun k hk => ?_⟩
      obtain ⟨e, he, hrow⟩ := hall k hk
      exact ⟨e, he, fun t ht => Or.inl (hrow t ht), hrow _ hin⟩
  · refine Or.inr ⟨t, List.mem_append_left _ ht, hnot, fun k hk => ?_⟩
    obtain ⟨e, he, hfollows, hrow⟩ := h k hk
    obtain ⟨e', he', hfollows', hkeep⟩ := hfollows.extend hj hfresh hon ha hb hinj hk
    exact ⟨e', List.mem_flatMap.mpr ⟨e, he, he'⟩, hfollows', (hkeep t ht).trans hrow⟩

theorem foldl_reaches (ha : ∀ j ∈ joins, ∀ p ∈ j.on, a p.1 = a p.2)
    (hb : ∀ k, ∀ j ∈ joins, ∀ p ∈ j.on, b k p.1 = b k p.2)
    (hinj : ∀ k k' r, b k r = b k' r → k = k') (rest : List (Join T C))
    (hrest : ∀ j ∈ rest, j ∈ joins) (scope : List T) (hscoped : Scoped scope rest)
    (es : List (Combo T C V)) (h : Reaches keys base joins conds a b n scope es) :
    Reaches keys base joins conds a b n (scope ++ rest.map Join.table)
      (rest.foldl (fun es j => es.flatMap (j.extend (spread keys base joins conds a b n))) es) := by
  induction rest generalizing scope es with
  | nil => simpa using h
  | cons j js ih =>
    have hnext := ih (fun j' hj' => hrest j' (List.mem_cons_of_mem _ hj')) (scope ++ [j.table])
      hscoped.2.2 _ (h.extend (hrest j (List.mem_cons_self ..)) hscoped.1 hscoped.2.1 ha hb hinj)
    rw [List.append_assoc, List.singleton_append] at hnext
    exact hnext

/-- Where some table has no fixed key, tables that keep all keys can give as many result
rows as one likes, all for one choice of constants. -/
theorem rows_unbounded (hscoped : Scoped [base] joins)
    (hconds : ∀ r ∈ conds, r.1 ∈ base :: joins.map Join.table)
    (hkeys : ∀ t ∈ base :: joins.map Join.table, keys t ≠ [])
    (ha : ∀ j ∈ joins, ∀ p ∈ j.on, a p.1 = a p.2)
    (hb : ∀ k, ∀ j ∈ joins, ∀ p ∈ j.on, b k p.1 = b k p.2)
    (hinj : ∀ k k' r, b k r = b k' r → k = k')
    (hnot : ¬ ∀ t ∈ base :: joins.map Join.table, Single keys base joins conds t) (n : ℕ) :
    n ≤ (rows (spread keys base joins conds a b n) base joins
      (conds.map fun r => (r, some (a r)))).length := by
  have hstart : Reaches keys base joins conds a b n [base]
      (start (spread keys base joins conds a b n) base) := by
    have hall : ∀ k < n, ∃ e ∈ start (spread keys base joins conds a b n) base,
        ∀ t ∈ [base], e t = some (spreadRow keys base joins conds a b k t) := by
      intro k hk
      refine ⟨_, List.mem_map_of_mem (spreadRow_mem hk base), fun t ht => ?_⟩
      rw [List.mem_singleton.mp ht]
      exact Function.update_self ..
    by_cases hsingle : Single keys base joins conds base
    · exact Or.inl ⟨fun t ht => List.mem_singleton.mp ht ▸ hsingle, hall⟩
    · refine Or.inr ⟨base, List.mem_singleton.mpr rfl, hsingle, fun k hk => ?_⟩
      obtain ⟨e, he, hrow⟩ := hall k hk
      exact ⟨e, he, fun t ht => Or.inl (hrow t ht), hrow base (List.mem_singleton.mpr rfl)⟩
  rcases foldl_reaches ha hb hinj joins (fun j hj => hj) [base] hscoped _ hstart with
    ⟨hsingle, -⟩ | ⟨t, ht, hsingle, hrow⟩
  · exact absurd hsingle hnot
  have hpass : ∀ {k : ℕ} {e : Combo T C V},
      Follows keys base joins conds a b k ([base] ++ joins.map Join.table) e →
      e.passes (conds.map fun r => (r, some (a r))) = true := by
    intro k e hfollows
    rw [passes_iff]
    intro cond hcond
    obtain ⟨r, hr, rfl⟩ := List.mem_map.mp hcond
    refine ⟨a r, rfl, ?_⟩
    rcases hfollows r.1 (hconds r hr) with hrow | ⟨-, hpresent⟩
    · rw [cell_spreadRow hrow]
      unfold spreadRow
      rw [if_pos (.cond r hr)]
    · exact absurd (.cond r hr) hpresent
  -- the rows numbered `k` of the table `t` tell the combinations apart
  obtain ⟨key, hkey⟩ := List.exists_mem_of_ne_nil _ (hkeys t ht)
  choose! pick hpick hfollows hpickrow using hrow
  have hdistinct : ((List.range n).map pick).Nodup := by
    apply List.Nodup.map_on _ List.nodup_range
    intro k hk k' hk' he
    by_contra hne
    obtain ⟨c, -, hdiff⟩ := spreadRow_ne (a := a) hinj hsingle hkey hne
    have hk := hpickrow k (List.mem_range.mp hk)
    rw [he, hpickrow k' (List.mem_range.mp hk')] at hk
    exact hdiff (congrFun (Option.some.inj hk) c).symm
  have hsub : (List.range n).map pick ⊆ rows (spread keys base joins conds a b n) base joins
      (conds.map fun r => (r, some (a r))) := by
    intro e he
    obtain ⟨k, hk, rfl⟩ := List.mem_map.mp he
    have hk := List.mem_range.mp hk
    exact List.mem_filter.mpr ⟨hpick k hk, hpass (hfollows k hk)⟩
  have := (hdistinct.subperm hsub).length_le
  rwa [List.length_map, List.length_range] at this

end

end EquiJoin
