import Esdb.CanonicalJson
import Esdb.KeyedRows

/-!
# Two physical snapshots

`diffPhysicalSchemas` walks two snapshots value by value, the objects of a collection by
their names, while the hash is taken of their canonical texts. Both see the same: a
snapshot holds nothing that one of them covers and the other does not.
-/
namespace Esdb.SnapshotDiff

open JsonText CanonicalJson KeyedRows

/-! ## Snapshots -/

/-- The names of the fields that `snapshotDatabase` writes; no object inherits a property of
such a name. -/
def fieldNames : List Text := ["format", "normalizer", "tables", "indexes", "views", "triggers",
  "name", "table_kind", "without_rowid", "strict", "columns", "foreign_keys", "automatic_indexes",
  "definition", "cid", "declared_type", "affinity", "not_null", "default", "primary_key_ordinal",
  "hidden", "target_table", "on_update", "on_delete", "match", "ordinal", "from", "to", "unique",
  "partial", "origin", "table", "column", "descending", "collation"].map fun s => ascii s.toList

/-- The values in a snapshot. -/
inductive Shaped : Json Text → Prop
  | null : Shaped .null
  | bool (b : Bool) : Shaped (.bool b)
  | str (s : Text) : Shaped (.str s)
  | arr {xs : List (Json Text)} (elements : ∀ x ∈ xs, Shaped x) : Shaped (.arr xs)
  | obj {ms : List (Text × Json Text)} (keys : (ms.map Prod.fst).Nodup)
      (fields : ∀ p ∈ ms, p.1 ∈ fieldNames) (members : ∀ p ∈ ms, Shaped p.2) : Shaped (.obj ms)

theorem Shaped.distinct {v : Json Text} (h : Shaped v) : Distinct v := by
  induction h with
  | null => exact .null
  | bool b => exact .bool
  | str s => exact .str
  | arr elements ih => exact .arr ih
  | obj keys fields members ih => exact .obj keys ih

def textValue (s : String) : Json Text := .str (ascii s.toList)

def nameKey : Text := ascii "name".toList

/-- A table, an index, a view or a trigger: its name and its other fields. -/
structure Item where
  name : Text
  fields : List (Text × Json Text)
  shaped : Shaped (.obj ((nameKey, .str name) :: fields))

def Item.json (item : Item) : Json Text := .obj ((nameKey, .str item.name) :: item.fields)

/-- The objects of one kind, in the order of their names, which are different. -/
structure Collection where
  items : List Item
  sorted : items.Pairwise fun a b => a.name < b.name

def Collection.json (c : Collection) : Json Text := .arr (c.items.map Item.json)

structure Snapshot where
  tables : Collection
  indexes : Collection
  views : Collection
  triggers : Collection

/-- `PHYSICAL_SCHEMA_FORMAT` and `PHYSICAL_NORMALIZER_VERSION` stand in every snapshot. -/
def Snapshot.json (s : Snapshot) : Json Text :=
  .obj [(ascii "format".toList, textValue "esdb.physical-schema/v1"),
    (ascii "normalizer".toList, textValue "sqlite-introspection-v1"),
    (ascii "tables".toList, s.tables.json), (ascii "indexes".toList, s.indexes.json),
    (ascii "views".toList, s.views.json), (ascii "triggers".toList, s.triggers.json)]

/-! ## The difference of two values -/

inductive Mismatch where
  | value (object path : Text) (expected actual : Json Text)
  | missingObject (object : Text)
  | extraObject (object : Text)

/-- `Array.from(new Set([...a, ...b])).sort()`. -/
def unionSorted (a b : List Text) : List Text := (a ++ b).eraseDups.insertionSort (· ≤ ·)

theorem mem_unionSorted {a b : List Text} {k : Text} : k ∈ unionSorted a b ↔ k ∈ a ∨ k ∈ b := by
  rw [unionSorted, (List.perm_insertionSort _ _).mem_iff, List.mem_eraseDups, List.mem_append]

/-- `===`; an object is identical to no other. Numbers, of which a snapshot has none, are
their numerals. -/
def identical : Json Text → Json Text → Bool
  | .null, .null => true
  | .bool a, .bool b => a = b
  | .num a, .num b => a = b
  | .str s, .str t => s = t
  | _, _ => false

def memberOf (ms : List (Text × Json Text)) (key : Text) : Option (Json Text) :=
  (lookup Prod.fst key ms).map Prod.snd

theorem sizeOf_memberOf {ms : List (Text × Json Text)} {key : Text} {v : Json Text}
    (h : memberOf ms key = some v) : sizeOf v < sizeOf ms := by
  obtain ⟨p, hp, rfl⟩ := Option.map_eq_some_iff.mp h
  have hmem := (lookup_eq_some hp).1
  have := List.sizeOf_lt_of_mem hmem
  obtain ⟨k, v⟩ := p
  simp only [Prod.mk.sizeOf_spec] at this ⊢
  omega

mutual

def pushValueDiff (object path : Text) (expected actual : Json Text) : List Mismatch :=
  if identical expected actual then []
  else
    match expected, actual with
    | .arr xs, .arr ys =>
        (if xs.length ≠ ys.length then
          [.value object (path ++ ascii ".length".toList)
            (.str (ascii (Nat.toDigits 10 xs.length))) (.str (ascii (Nat.toDigits 10 ys.length)))]
        else []) ++ pushElementDiffs object path 0 xs ys
    | .obj ms, .obj ns =>
        (unionSorted (ms.map Prod.fst) (ns.map Prod.fst)).flatMap fun key =>
          match _hm : memberOf ms key, memberOf ns key with
          | none, some w => [.value object (memberPath path key) .null w]
          | some v, none => [.value object (memberPath path key) v .null]
          | some v, some w => pushValueDiff object (memberPath path key) v w
          | none, none => []
    | expected, actual => [.value object path expected actual]
termination_by sizeOf expected
decreasing_by
  · simp
  · have := sizeOf_memberOf _hm
    simp
    omega

def pushElementDiffs (object path : Text) (i : ℕ) :
    List (Json Text) → List (Json Text) → List Mismatch
  | x :: xs, y :: ys =>
      pushValueDiff object (elementPath path i) x y ++ pushElementDiffs object path (i + 1) xs ys
  | _, _ => []
termination_by xs => sizeOf xs

end

/-! ## Collections and snapshots -/

/-- The entry that a `Map` of the items has under the name. -/
def itemOf (items : List Item) (name : Text) : Option Item := lookup Item.name name items.reverse

def diffNamedCollection (label : String) (expected actual : List Item) : List Mismatch :=
  (unionSorted (expected.map Item.name) (actual.map Item.name)).flatMap fun name =>
    let object := ascii label.toList ++ unit ':' :: name
    match itemOf expected name, itemOf actual name with
    | _, none => [.missingObject object]
    | none, some _ => [.extraObject object]
    | some e, some a => pushValueDiff object [unit '$'] e.json a.json

structure Report (H : Type) where
  ok : Bool
  expectedHash : H
  actualHash : H
  mismatches : List Mismatch

/-- `physicalSchemaHash`; `sha256Hex` is a parameter. -/
def physicalSchemaHash {H : Type} (sha256Hex : Text → H) (snapshot : Snapshot) :
    Except CanonicalError H :=
  (canonicalize snapshot.json).map sha256Hex

def mismatches (expected actual : Snapshot) : List Mismatch :=
  diffNamedCollection "table" expected.tables.items actual.tables.items ++
    diffNamedCollection "index" expected.indexes.items actual.indexes.items ++
    diffNamedCollection "view" expected.views.items actual.views.items ++
    diffNamedCollection "trigger" expected.triggers.items actual.triggers.items

def diffPhysicalSchemas {H : Type} (sha256Hex : Text → H) (expected actual : Snapshot) :
    Except CanonicalError (Report H) :=
  (physicalSchemaHash sha256Hex expected).bind fun expectedHash =>
    (physicalSchemaHash sha256Hex actual).map fun actualHash =>
      ⟨(mismatches expected actual).isEmpty, expectedHash, actualHash, mismatches expected actual⟩

/-! ## When there is no difference -/

theorem memberOf_eq_some {ms : List (Text × Json Text)} (h : (ms.map Prod.fst).Nodup) {k : Text}
    {v : Json Text} : memberOf ms k = some v ↔ (k, v) ∈ ms := by
  constructor
  · intro hm
    obtain ⟨⟨k', v'⟩, hp, rfl⟩ := Option.map_eq_some_iff.mp hm
    obtain ⟨hmem, rfl⟩ := lookup_eq_some hp
    exact hmem
  · intro hmem
    have hlookup : lookup Prod.fst k ms = some (k, v) := Unique.lookup_of_mem h hmem
    rw [memberOf, hlookup]
    rfl

theorem memberOf_eq_none {ms : List (Text × Json Text)} {k : Text} :
    memberOf ms k = none ↔ k ∉ ms.map Prod.fst := by
  rw [memberOf, Option.map_eq_none_iff]
  constructor
  · intro h hmem
    obtain ⟨p, hp, rfl⟩ := List.mem_map.mp hmem
    exact lookup_eq_none h p hp rfl
  · intro h
    cases hl : lookup Prod.fst k ms with
    | none => rfl
    | some p =>
        obtain ⟨hmem, rfl⟩ := lookup_eq_some hl
        exact absurd (List.mem_map_of_mem hmem) h

variable {object : Text}

theorem pushElementDiffs_nil {xs ys : List (Json Text)} {path : Text} {i : ℕ}
    (ih : ∀ x ∈ xs, ∀ y ∈ ys, ∀ path, pushValueDiff object path x y = [] ↔ Same x y) :
    (xs.length = ys.length ∧ pushElementDiffs object path i xs ys = []) ↔
      List.Forall₂ Same xs ys := by
  induction xs generalizing ys i with
  | nil =>
      cases ys with
      | nil => simp [pushElementDiffs]
      | cons y ys => simp
  | cons x xs hxs =>
      cases ys with
      | nil => simp
      | cons y ys =>
          rw [pushElementDiffs, List.append_eq_nil_iff, List.forall₂_cons,
            ih x List.mem_cons_self y List.mem_cons_self, List.length_cons, List.length_cons,
            Nat.succ_inj, ← hxs fun x hx y hy =>
              ih x (List.mem_cons_of_mem _ hx) y (List.mem_cons_of_mem _ hy)]
          exact and_left_comm

theorem identical_obj {ms ns : List (Text × Json Text)} :
    identical (.obj ms) (.obj ns) = false := rfl

theorem identical_arr {xs ys : List (Json Text)} : identical (.arr xs) (.arr ys) = false := rfl

theorem pushMemberDiffs_nil {ms ns : List (Text × Json Text)} {path : Text}
    (hm : (ms.map Prod.fst).Nodup) (hn : (ns.map Prod.fst).Nodup)
    (ih : ∀ p ∈ ms, ∀ q ∈ ns, ∀ path, pushValueDiff object path p.2 q.2 = [] ↔ Same p.2 q.2) :
    pushValueDiff object path (.obj ms) (.obj ns) = [] ↔ Same (.obj ms) (.obj ns) := by
  have hmatched : Matched Prod.fst (fun p q => Same p.2 q.2) ms ns ↔ _ := matched_iff hm hn
  rw [same_obj_iff, ← hmatched, pushValueDiff, identical_obj, if_neg Bool.false_ne_true,
    List.flatMap_eq_nil_iff]
  constructor
  · intro h
    constructor
    · rintro ⟨k, v⟩ hmem
      have hkey := h k (mem_unionSorted.mpr (.inl (List.mem_map_of_mem hmem)))
      have hv := (memberOf_eq_some hm).mpr hmem
      split at hkey
      · cases hkey
      · cases hkey
      · next v' w hv' hw =>
          obtain rfl := Option.some.inj (hv.symm.trans hv')
          have hmem' := (memberOf_eq_some hn).mp hw
          exact ⟨(k, w), hmem', rfl, (ih (k, v) hmem (k, w) hmem' _).mp hkey⟩
      · next hnone _ =>
          rw [hv] at hnone
          cases hnone
    · rintro ⟨k, w⟩ hmem
      have hkey := h k (mem_unionSorted.mpr (.inr (List.mem_map_of_mem hmem)))
      have hw := (memberOf_eq_some hn).mpr hmem
      split at hkey
      · cases hkey
      · cases hkey
      · next v w' hv hw' =>
          obtain rfl := Option.some.inj (hw.symm.trans hw')
          have hmem' := (memberOf_eq_some hm).mp hv
          exact ⟨(k, v), hmem', rfl, (ih (k, v) hmem' (k, w) hmem _).mp hkey⟩
      · next _ hnone =>
          rw [hw] at hnone
          cases hnone
  · rintro ⟨hleft, hright⟩ key -
    split
    · next w hnone hw =>
        obtain ⟨⟨k, v⟩, hmem, rfl, -⟩ := hright (key, w) ((memberOf_eq_some hn).mp hw)
        exact absurd (List.mem_map_of_mem hmem) (memberOf_eq_none.mp hnone)
    · next v hv hnone =>
        obtain ⟨⟨k, w⟩, hmem, rfl, -⟩ := hleft (key, v) ((memberOf_eq_some hm).mp hv)
        exact absurd (List.mem_map_of_mem hmem) (memberOf_eq_none.mp hnone)
    · next v w hv hw =>
        have hv' := (memberOf_eq_some hm).mp hv
        have hw' := (memberOf_eq_some hn).mp hw
        obtain ⟨⟨k, w₀⟩, hmem, rfl, hsame⟩ := hleft (key, v) hv'
        have hw₀ := (memberOf_eq_some hn).mpr hmem
        obtain rfl := Option.some.inj (hw₀.symm.trans hw)
        exact (ih (key, v) hv' (key, w₀) hw' _).mpr hsame
    · rfl

/-- Unless both are arrays or both objects, nothing but what is identical has no difference. -/
theorem pushValueDiff_other {v w : Json Text} {path : Text}
    (harr : ∀ xs ys, v = .arr xs → w = .arr ys → False)
    (hobj : ∀ ms ns, v = .obj ms → w = .obj ns → False) :
    pushValueDiff object path v w = [] ↔ identical v w = true := by
  rw [pushValueDiff]
  · by_cases h : identical v w = true
    · rw [if_pos h]
      exact ⟨fun _ => h, fun _ => rfl⟩
    · rw [if_neg h]
      exact ⟨fun h' => absurd h' (List.cons_ne_nil _ _), fun h' => absurd h' h⟩
  · exact harr
  · exact hobj

theorem identical_bool {a b : Bool} : identical (.bool a) (.bool b) = true ↔ a = b :=
  decide_eq_true_iff

theorem identical_num {a b : Text} : identical (.num a) (.num b) = true ↔ a = b :=
  decide_eq_true_iff

theorem identical_str {a b : Text} : identical (.str a) (.str b) = true ↔ a = b :=
  decide_eq_true_iff

/-- Values differ nowhere when they are the same up to the order of keys. -/
theorem pushValueDiff_nil {v w : Json Text} {path : Text} (hv : Distinct v) (hw : Distinct w) :
    pushValueDiff object path v w = [] ↔ Same v w := by
  induction v using Json.induction generalizing w path with
  | null =>
      rw [pushValueDiff_other (fun _ _ h => by cases h) (fun _ _ h => by cases h)]
      cases w with
      | null => exact ⟨fun _ => .null, fun _ => rfl⟩
      | _ => exact ⟨fun h => absurd h Bool.false_ne_true, fun h => by cases h⟩
  | bool b =>
      rw [pushValueDiff_other (fun _ _ h => by cases h) (fun _ _ h => by cases h)]
      cases w with
      | bool c =>
          rw [identical_bool]
          constructor
          · rintro rfl
            exact .bool
          · intro h
            cases h with
            | bool => rfl
      | _ => exact ⟨fun h => absurd h Bool.false_ne_true, fun h => by cases h⟩
  | num n =>
      rw [pushValueDiff_other (fun _ _ h => by cases h) (fun _ _ h => by cases h)]
      cases w with
      | num m =>
          rw [identical_num]
          constructor
          · rintro rfl
            exact .num
          · intro h
            cases h with
            | num => rfl
      | _ => exact ⟨fun h => absurd h Bool.false_ne_true, fun h => by cases h⟩
  | str s =>
      rw [pushValueDiff_other (fun _ _ h => by cases h) (fun _ _ h => by cases h)]
      cases w with
      | str t =>
          rw [identical_str]
          constructor
          · rintro rfl
            exact .str
          · intro h
            cases h with
            | str => rfl
      | _ => exact ⟨fun h => absurd h Bool.false_ne_true, fun h => by cases h⟩
  | arr xs ih =>
      cases w with
      | arr ys =>
          cases hv with
          | arr hxs =>
              cases hw with
              | arr hys =>
                  have hsame : Same (.arr xs) (.arr ys) ↔ List.Forall₂ Same xs ys := by
                    constructor
                    · intro h
                      cases h with
                      | arr h => exact h
                    · exact .arr
                  rw [pushValueDiff, identical_arr, if_neg Bool.false_ne_true,
                    List.append_eq_nil_iff, hsame, ← pushElementDiffs_nil (i := 0)
                      fun x hx y hy path => ih x hx (hxs x hx) (hys y hy)]
                  refine and_congr_left' ?_
                  by_cases hlength : xs.length = ys.length
                  · rw [if_neg (not_not.mpr hlength)]
                    exact ⟨fun _ => hlength, fun _ => rfl⟩
                  · rw [if_pos hlength]
                    exact ⟨fun h => absurd h (List.cons_ne_nil _ _), fun h => absurd h hlength⟩
      | _ =>
          rw [pushValueDiff_other (fun _ _ _ h => by cases h) (fun _ _ h => by cases h)]
          exact ⟨fun h => absurd h Bool.false_ne_true, fun h => by cases h⟩
  | obj ms ih =>
      cases w with
      | obj ns =>
          cases hv with
          | obj hkeys hms =>
              cases hw with
              | obj hkeys' hns =>
                  exact pushMemberDiffs_nil hkeys hkeys' fun p hp q hq path =>
                    ih p hp (hms p hp) (hns q hq)
      | _ =>
          rw [pushValueDiff_other (fun _ _ h => by cases h) (fun _ _ _ h => by cases h)]
          exact ⟨fun h => absurd h Bool.false_ne_true, fun h => by cases h⟩

/-! ## Collections in the order of their names -/

theorem Collection.unique (c : Collection) : KeyedRows.Unique Item.name c.items := by
  unfold KeyedRows.Unique
  rw [List.nodup_iff_pairwise_ne, List.pairwise_map]
  refine c.sorted.imp fun h heq => ?_
  rw [heq] at h
  exact Std.Irrefl.irrefl _ h

theorem itemOf_eq_some {items : List Item} (h : KeyedRows.Unique Item.name items) {name : Text}
    {item : Item} : itemOf items name = some item ↔ item ∈ items ∧ item.name = name := by
  have hreverse : KeyedRows.Unique Item.name items.reverse := by
    unfold KeyedRows.Unique
    rw [List.map_reverse, List.nodup_reverse]
    exact h
  constructor
  · intro hi
    obtain ⟨hmem, rfl⟩ := lookup_eq_some hi
    exact ⟨List.mem_reverse.mp hmem, rfl⟩
  · rintro ⟨hmem, rfl⟩
    exact hreverse.lookup_of_mem (List.mem_reverse.mpr hmem)

theorem itemOf_eq_none {items : List Item} {name : Text} (h : itemOf items name = none) :
    name ∉ items.map Item.name := by
  intro hmem
  obtain ⟨item, hitem, rfl⟩ := List.mem_map.mp hmem
  exact lookup_eq_none h item (List.mem_reverse.mpr hitem) rfl

theorem Item.distinct (item : Item) : Distinct item.json := item.shaped.distinct

/-- Each item has one of its name on the other side, and differs nowhere from it. -/
theorem diffNamedCollection_matched {label : String} {expected actual : List Item}
    (he : KeyedRows.Unique Item.name expected) (ha : KeyedRows.Unique Item.name actual) :
    diffNamedCollection label expected actual = [] ↔
      Matched Item.name (fun e a => Same e.json a.json) expected actual := by
  rw [diffNamedCollection, List.flatMap_eq_nil_iff]
  constructor
  · intro h
    constructor
    · intro e hmem
      have hname := h e.name (mem_unionSorted.mpr (.inl (List.mem_map_of_mem hmem)))
      have he' := (itemOf_eq_some he).mpr ⟨hmem, rfl⟩
      cases hfound : itemOf actual e.name with
      | none =>
          simp only [he', hfound] at hname
          cases hname
      | some a =>
          obtain ⟨hmem', hsame⟩ := (itemOf_eq_some ha).mp hfound
          simp only [he', hfound] at hname
          exact ⟨a, hmem', hsame.symm, (pushValueDiff_nil e.distinct a.distinct).mp hname⟩
    · intro a hmem
      have hname := h a.name (mem_unionSorted.mpr (.inr (List.mem_map_of_mem hmem)))
      have ha' := (itemOf_eq_some ha).mpr ⟨hmem, rfl⟩
      cases hfound : itemOf expected a.name with
      | none =>
          simp only [ha', hfound] at hname
          cases hname
      | some e =>
          obtain ⟨hmem', hsame⟩ := (itemOf_eq_some he).mp hfound
          simp only [ha', hfound] at hname
          exact ⟨e, hmem', hsame, (pushValueDiff_nil e.distinct a.distinct).mp hname⟩
  · rintro ⟨hleft, hright⟩ name hname
    cases hexpected : itemOf expected name with
    | none =>
        cases hactual : itemOf actual name with
        | none =>
            rcases mem_unionSorted.mp hname with hmem | hmem
            · exact absurd hmem (itemOf_eq_none hexpected)
            · exact absurd hmem (itemOf_eq_none hactual)
        | some a =>
            obtain ⟨hmem, rfl⟩ := (itemOf_eq_some ha).mp hactual
            obtain ⟨e, hmem', hsame, -⟩ := hright a hmem
            rw [← hsame] at hexpected
            exact absurd (List.mem_map_of_mem hmem') (itemOf_eq_none hexpected)
    | some e =>
        obtain ⟨hmem, rfl⟩ := (itemOf_eq_some he).mp hexpected
        obtain ⟨a, hmem', hsame, hvalue⟩ := hleft e hmem
        have hactual := (itemOf_eq_some ha).mpr ⟨hmem', hsame.symm⟩
        simp only [hactual]
        exact (pushValueDiff_nil e.distinct a.distinct).mpr hvalue

theorem sameText {s t : Text} (h : Same (.str s : Json Text) (.str t)) : s = t := by
  cases h with
  | str => rfl

/-- Items that are the same have one name. -/
theorem Item.name_eq {e a : Item} (h : Same e.json a.json) : e.name = a.name := by
  have hkeys (item : Item) :
      KeyedRows.Unique Prod.fst ((nameKey, Json.str item.name) :: item.fields) := by
    cases item.shaped with
    | obj keys _ _ => exact keys
  have hmatched := (matched_iff (hkeys e) (hkeys a)).mpr (same_obj_iff.mp h)
  obtain ⟨q, hq, hkey, hvalue⟩ := hmatched.1 _ List.mem_cons_self
  obtain rfl : q = (nameKey, .str a.name) := (hkeys a).eq_of_key hq List.mem_cons_self hkey.symm
  exact sameText hvalue

/-- In the order of their names the items are side by side. -/
theorem diffNamedCollection_nil {label : String} {expected actual : Collection} :
    diffNamedCollection label expected.items actual.items = [] ↔
      Same expected.json actual.json := by
  have hitems : Same expected.json actual.json ↔
      List.Forall₂ (fun e a => Same (Item.json e) (Item.json a)) expected.items actual.items := by
    rw [← List.forall₂_map_right_iff, ← List.forall₂_map_left_iff]
    constructor
    · intro h
      cases h with
      | arr h => exact h
    · exact .arr
  rw [hitems, diffNamedCollection_matched expected.unique actual.unique,
    matched_iff expected.unique actual.unique]
  constructor
  · rintro ⟨moved, hperm, hpairs⟩
    have hnames : moved.map Item.name = actual.items.map Item.name :=
      map_eq_of_forall₂ hpairs fun _ _ _ h => h.1
    have hsorted : moved.Pairwise fun a b => a.name < b.name := by
      rw [← List.pairwise_map (f := Item.name) (R := (· < ·)), hnames, List.pairwise_map]
      exact actual.sorted
    have heq : expected.items = moved :=
      hperm.eq_of_pairwise
        (fun (a b : Item) _ _ (hab : a.name < b.name) hba => absurd hba (Std.Asymm.asymm _ _ hab))
        expected.sorted hsorted
    rw [heq]
    exact hpairs.imp fun _ _ h => h.2
  · intro h
    exact ⟨expected.items, .refl _, h.imp fun _ _ h => ⟨Item.name_eq h, h⟩⟩

/-! ## Two snapshots -/

/-- Objects whose keys stand in one order. -/
theorem same_obj_keys {ms ns : List (Text × Json Text)} (hm : (ms.map Prod.fst).Nodup)
    (hkeys : ms.map Prod.fst = ns.map Prod.fst) :
    Same (.obj ms) (.obj ns) ↔ List.Forall₂ Same (ms.map Prod.snd) (ns.map Prod.snd) := by
  constructor
  · intro h
    cases h with
    | @obj _ _ ps order keys values =>
        have hunique : KeyedRows.Unique Prod.fst ms := hm
        rw [hunique.eq_of_perm order (hkeys.trans keys.symm)]
        exact values
  · exact .obj (.refl ms) hkeys

theorem Collection.distinct (c : Collection) : Distinct c.json := by
  refine .arr fun x hx => ?_
  obtain ⟨item, -, rfl⟩ := List.mem_map.mp hx
  exact item.distinct

/-- The keys of every snapshot. -/
def snapshotKeys : List Text :=
  ["format", "normalizer", "tables", "indexes", "views", "triggers"].map fun s => ascii s.toList

theorem Snapshot.keys (s : Snapshot) :
    ∃ ms, s.json = .obj ms ∧ ms.map Prod.fst = snapshotKeys ∧ ms.map Prod.snd =
      [textValue "esdb.physical-schema/v1", textValue "sqlite-introspection-v1", s.tables.json,
        s.indexes.json, s.views.json, s.triggers.json] :=
  ⟨_, rfl, rfl, rfl⟩

theorem snapshotKeys_nodup : snapshotKeys.Nodup := by
  decide

theorem Snapshot.distinct (s : Snapshot) : Distinct s.json := by
  obtain ⟨ms, hjson, hkeys, hvalues⟩ := s.keys
  rw [hjson]
  refine .obj (hkeys ▸ snapshotKeys_nodup) fun p hp => ?_
  have hvalue : p.2 ∈ ms.map Prod.snd := List.mem_map_of_mem hp
  rw [hvalues] at hvalue
  simp only [List.mem_cons, List.not_mem_nil, or_false] at hvalue
  rcases hvalue with h | h | h | h | h | h <;> rw [h]
  · exact .str
  · exact .str
  · exact s.tables.distinct
  · exact s.indexes.distinct
  · exact s.views.distinct
  · exact s.triggers.distinct

theorem Snapshot.same_iff (s t : Snapshot) : Same s.json t.json ↔
    Same s.tables.json t.tables.json ∧ Same s.indexes.json t.indexes.json ∧
      Same s.views.json t.views.json ∧ Same s.triggers.json t.triggers.json := by
  obtain ⟨ms, hjson, hkeys, hvalues⟩ := s.keys
  obtain ⟨ns, hjson', hkeys', hvalues'⟩ := t.keys
  rw [hjson, hjson', same_obj_keys (hkeys ▸ snapshotKeys_nodup) (hkeys.trans hkeys'.symm), hvalues,
    hvalues']
  simp only [List.forall₂_cons, List.forall₂_nil_left_iff, and_true]
  exact ⟨fun h => h.2.2, fun h => ⟨.str, .str, h⟩⟩

/-- What is walked is all that is hashed. -/
theorem mismatches_nil (s t : Snapshot) : mismatches s t = [] ↔ Same s.json t.json := by
  rw [Snapshot.same_iff, mismatches, List.append_eq_nil_iff, List.append_eq_nil_iff,
    List.append_eq_nil_iff, diffNamedCollection_nil, diffNamedCollection_nil,
    diffNamedCollection_nil, diffNamedCollection_nil, and_assoc, and_assoc]

variable {H : Type} {sha256Hex : Text → H}

theorem diffPhysicalSchemas_eq_ok {s t : Snapshot} {r : Report H} :
    diffPhysicalSchemas sha256Hex s t = .ok r ↔ ∃ a b, canonicalize s.json = .ok a ∧
      canonicalize t.json = .ok b ∧
        r = ⟨(mismatches s t).isEmpty, sha256Hex a, sha256Hex b, mismatches s t⟩ := by
  rw [diffPhysicalSchemas, physicalSchemaHash, physicalSchemaHash]
  cases hs : canonicalize s.json with
  | error e => exact ⟨(fun h => by cases h), (fun ⟨_, _, h, _⟩ => by cases h)⟩
  | ok a =>
      cases ht : canonicalize t.json with
      | error e => exact ⟨(fun h => by cases h), (fun ⟨_, _, _, h, _⟩ => by cases h)⟩
      | ok b =>
          constructor
          · intro h
            exact ⟨a, b, rfl, rfl, (Except.ok.inj h).symm⟩
          · rintro ⟨_, _, ⟨⟩, ⟨⟩, rfl⟩
            rfl

/-- Two snapshots that can be hashed differ nowhere when they have one canonical text. -/
theorem mismatches_nil_iff {s t : Snapshot} {a b : Text} (hs : canonicalize s.json = .ok a)
    (ht : canonicalize t.json = .ok b) : mismatches s t = [] ↔ a = b := by
  rw [mismatches_nil]
  exact (canonicalize_eq_iff id ⟨s.json, s.distinct⟩ ⟨t.json, t.distinct⟩ hs ht).symm

/-- The difference of two snapshots is none exactly when their canonical texts are equal, and
exactly when their hashes are, where different texts have different ones. -/
theorem diffPhysicalSchemas_ok (sha256Hex : Text → H) (hsha : Function.Injective sha256Hex)
    (s t : Snapshot) :
    ((∃ r, diffPhysicalSchemas sha256Hex s t = .ok r ∧ r.ok = true) ↔
      ∃ a, canonicalize s.json = .ok a ∧ canonicalize t.json = .ok a) ∧
    ((∃ r, diffPhysicalSchemas sha256Hex s t = .ok r ∧ r.ok = true) ↔
      ∃ h, physicalSchemaHash sha256Hex s = .ok h ∧ physicalSchemaHash sha256Hex t = .ok h) := by
  have hcanonical : (∃ r, diffPhysicalSchemas sha256Hex s t = .ok r ∧ r.ok = true) ↔
      ∃ a, canonicalize s.json = .ok a ∧ canonicalize t.json = .ok a := by
    constructor
    · rintro ⟨r, hr, hok⟩
      obtain ⟨a, b, hs, ht, rfl⟩ := diffPhysicalSchemas_eq_ok.mp hr
      have heq := (mismatches_nil_iff hs ht).mp (List.isEmpty_iff.mp hok)
      exact ⟨a, hs, heq ▸ ht⟩
    · rintro ⟨a, hs, ht⟩
      refine ⟨_, diffPhysicalSchemas_eq_ok.mpr ⟨a, a, hs, ht, rfl⟩, ?_⟩
      exact List.isEmpty_iff.mpr ((mismatches_nil_iff hs ht).mpr rfl)
  refine ⟨hcanonical, hcanonical.trans ?_⟩
  rw [physicalSchemaHash, physicalSchemaHash]
  constructor
  · rintro ⟨a, hs, ht⟩
    rw [hs, ht]
    exact ⟨sha256Hex a, rfl, rfl⟩
  · rintro ⟨h, hs, ht⟩
    cases hca : canonicalize s.json with
    | error e =>
        rw [hca] at hs
        cases hs
    | ok a =>
        cases hcb : canonicalize t.json with
        | error e =>
            rw [hcb] at ht
            cases ht
        | ok b =>
            rw [hca] at hs
            rw [hcb] at ht
            have heq : sha256Hex a = sha256Hex b :=
              (Except.ok.inj hs).trans (Except.ok.inj ht).symm
            exact ⟨a, rfl, congrArg Except.ok (hsha heq).symm⟩

/-- A table whose fields stand in the one order or in the other. -/
def strictTable (columnsFirst : Bool) : Item where
  name := [unit 't']
  fields :=
    if columnsFirst then [(ascii "columns".toList, .arr []), (ascii "strict".toList, .bool true)]
    else [(ascii "strict".toList, .bool true), (ascii "columns".toList, .arr [])]
  shaped := by
    cases columnsFirst <;>
    · refine .obj (by decide) (by decide) ?_
      simp only [↓reduceIte, Bool.false_eq_true, List.forall_mem_cons, Shaped.str,
        Shaped.bool, Shaped.arr, and_self, List.not_mem_nil, IsEmpty.forall_iff,
        implies_true]

def oneTable (columnsFirst : Bool) : Snapshot :=
  ⟨⟨[strictTable columnsFirst], List.pairwise_singleton _ _⟩, ⟨[], .nil⟩, ⟨[], .nil⟩, ⟨[], .nil⟩⟩

theorem diffPhysicalSchemas_oneTable :
    (∃ r, diffPhysicalSchemas id (oneTable true) (oneTable false) = .ok r ∧ r.ok = true) ∧
      ∃ a, canonicalize (oneTable true).json = .ok a ∧
        canonicalize (oneTable false).json = .ok a := by
  have h := diffPhysicalSchemas_ok id Function.injective_id (oneTable true) (oneTable false)
  have hcanonical : ∃ a, canonicalize (oneTable true).json = .ok a ∧
      canonicalize (oneTable false).json = .ok a := by
    have htext : (canonicalize (oneTable true).json).toOption.isSome = true ∧
        (canonicalize (oneTable false).json).toOption =
          (canonicalize (oneTable true).json).toOption := by
      decide +kernel
    cases hs : canonicalize (oneTable true).json with
    | error e =>
        rw [hs] at htext
        cases htext.1
    | ok a =>
        cases ht : canonicalize (oneTable false).json with
        | error e =>
            rw [hs, ht] at htext
            cases htext.2
        | ok b =>
            rw [hs, ht] at htext
            exact ⟨a, rfl, congrArg Except.ok (Option.some.inj htext.2)⟩
  exact ⟨h.1.mpr hcanonical, hcanonical⟩

end Esdb.SnapshotDiff
