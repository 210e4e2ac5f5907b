import Esdb.CanonicalJson
import Esdb.KeyedRows

/-!
# Seals

A schema document carries the hash of what it means: the canonical text of the document
without its seal, its generator and its annotations. The copy that is hashed is filled by
assignments, and an assignment to `__proto__` makes no member.
-/
namespace Esdb.SchemaSeal

open JsonText CanonicalJson KeyedRows

variable {N : Type}

/-- An object of scripts, as `JSON.parse` makes it. -/
structure Document (N : Type) where
  members : List (Text × Json N)
  distinct : Distinct (.obj members)

def Document.value (doc : Document N) : Value N := ⟨.obj doc.members, doc.distinct⟩

theorem Document.unique (doc : Document N) : KeyedRows.Unique Prod.fst doc.members := by
  cases doc.distinct with
  | obj keys _ => exact keys

/-! ## The functions -/

def integrityKey : Text := ascii "integrity".toList

/-- The keys that `hashProjection` passes over. -/
def excludedKeys : List Text :=
  [integrityKey, ascii "generator".toList, ascii "annotations".toList]

def protoKey : Text := ascii "__proto__".toList

/-- `projection[key] = value`, where `projection` began as `{}`: the accessor `__proto__` of all
objects takes the value and makes no member of it. It is met once at most, the keys of a
document being different, and what it changes is not seen by `Object.keys`. -/
def assign (projection : List (Text × Json N)) (p : Text × Json N) : List (Text × Json N) :=
  if p.1 = protoKey then projection else setMember projection p

/-- The object that `hashProjection` hashes. -/
def projection (doc : List (Text × Json N)) : List (Text × Json N) :=
  doc.foldl (fun made p => if p.1 ∈ excludedKeys then made else assign made p) []

/-- What goes into the hash. -/
def preImage (doc : Document N) : Except CanonicalError Text :=
  canonicalize (.obj (projection doc.members))

variable (sha256Hex : Text → Text)

def hashProjection (doc : Document N) : Except CanonicalError Text :=
  (preImage doc).map sha256Hex

def sealed (hash : Text) : Json N :=
  .obj [(ascii "algorithm".toList, .str (ascii "sha256".toList)),
    (ascii "canonical".toList, .str (ascii "esdb-canonical-json-v1".toList)),
    (ascii "hash".toList, .str hash)]

theorem setMember_keys (ms : List (Text × Json N)) (p : Text × Json N) :
    (setMember ms p).map Prod.fst =
      if p.1 ∈ ms.map Prod.fst then ms.map Prod.fst else ms.map Prod.fst ++ [p.1] := by
  rw [setMember]
  by_cases hmem : p.1 ∈ ms.map Prod.fst
  · rw [if_pos hmem, if_pos hmem, List.map_map]
    refine List.map_congr_left fun q _ => ?_
    by_cases hq : q.1 = p.1
    · rw [Function.comp_apply, if_pos hq, hq]
    · rw [Function.comp_apply, if_neg hq]
  · rw [if_neg hmem, if_neg hmem, List.map_append]
    rfl

theorem mem_setMember {ms : List (Text × Json N)} {p q : Text × Json N}
    (h : q ∈ setMember ms p) : q = p ∨ q ∈ ms ∧ q.1 ≠ p.1 := by
  rw [setMember] at h
  by_cases hmem : p.1 ∈ ms.map Prod.fst
  · rw [if_pos hmem] at h
    obtain ⟨r, hr, hq⟩ := List.mem_map.mp h
    by_cases hkey : r.1 = p.1
    · rw [if_pos hkey] at hq
      exact .inl hq.symm
    · rw [if_neg hkey] at hq
      exact .inr (hq ▸ ⟨hr, hkey⟩)
  · rw [if_neg hmem] at h
    rcases List.mem_append.mp h with hq | hq
    · exact .inr ⟨hq, fun hkey => hmem (hkey ▸ List.mem_map_of_mem hq)⟩
    · exact .inl (List.mem_singleton.mp hq)

theorem self_mem_setMember (ms : List (Text × Json N)) (p : Text × Json N) :
    p ∈ setMember ms p := by
  rw [setMember]
  by_cases hmem : p.1 ∈ ms.map Prod.fst
  · rw [if_pos hmem]
    obtain ⟨q, hq, hkey⟩ := List.mem_map.mp hmem
    exact List.mem_map.mpr ⟨q, hq, if_pos hkey⟩
  · rw [if_neg hmem]
    exact List.mem_append_right ms List.mem_cons_self

theorem distinct_setMember {ms : List (Text × Json N)} (h : Distinct (.obj ms))
    {p : Text × Json N} (hp : Distinct p.2) : Distinct (.obj (setMember ms p)) := by
  cases h with
  | obj keys members =>
      refine .obj ?_ fun q hq => ?_
      · rw [setMember_keys]
        by_cases hmem : p.1 ∈ ms.map Prod.fst
        · rw [if_pos hmem]
          exact keys
        · rw [if_neg hmem]
          exact keys.append (List.nodup_singleton _) (by simpa using hmem)
      · rcases mem_setMember hq with rfl | ⟨hq, -⟩
        · exact hp
        · exact members q hq

theorem distinct_sealed (hash : Text) : Distinct (sealed hash : Json N) := by
  refine .obj ?_ ?_
  · exact (by decide : ([ascii "algorithm".toList, ascii "canonical".toList,
      ascii "hash".toList] : List Text).Nodup)
  · refine List.forall_mem_cons.mpr ⟨.str, List.forall_mem_cons.mpr ⟨.str, ?_⟩⟩
    exact List.forall_mem_singleton.mpr .str

/-- The document with the seal of this hash. -/
def Document.withSeal (doc : Document N) (hash : Text) : Document N :=
  ⟨setMember doc.members (integrityKey, sealed hash),
    distinct_setMember doc.distinct (distinct_sealed hash)⟩

/-- `seal`. -/
def Document.seal (doc : Document N) : Except CanonicalError (Document N) :=
  (hashProjection sha256Hex doc).map doc.withSeal

structure Verdict where
  ok : Bool
  expected : Text
  actual : Option Text
  deriving DecidableEq

def member (ms : List (Text × Json N)) (key : Text) : Option (Json N) :=
  (lookup Prod.fst key ms).map Prod.snd

/-- `doc.integrity.hash`, if it is a text. -/
def sealHash (doc : Document N) : Option Text :=
  match member doc.members integrityKey with
  | some (.obj ms) =>
      match member ms (ascii "hash".toList) with
      | some (.str hash) => some hash
      | _ => none
  | _ => none

def verifySeal (doc : Document N) : Except CanonicalError Verdict :=
  (hashProjection sha256Hex doc).map fun expected =>
    ⟨sealHash doc = some expected, expected, sealHash doc⟩

/-! ## What is hashed -/

/-- The part of a document that has these keys. -/
def Document.only (doc : Document N) (p : Text → Bool) : Document N where
  members := doc.members.filter fun q => p q.1
  distinct := by
    cases doc.distinct with
    | obj keys members =>
        refine .obj ?_ fun q hq => members q (List.mem_filter.mp hq).1
        exact (List.filter_sublist.map Prod.fst).nodup keys

def included (key : Text) : Bool := key ∉ excludedKeys

/-- The copy is the document without the keys that are passed over, and without `__proto__`. -/
theorem projection_eq (doc : Document N) :
    projection doc.members = (doc.only fun key => included key && key ≠ protoKey).members := by
  have hturn : (fun (made : List (Text × Json N)) (p : Text × Json N) =>
      if p.1 ∈ excludedKeys then made else assign made p) = fun made p =>
        if (included p.1 && decide (p.1 ≠ protoKey)) = true then setMember made p else made := by
    funext made p
    by_cases hexcluded : p.1 ∈ excludedKeys
    · simp [included, hexcluded]
    · by_cases hproto : p.1 = protoKey
      · simp [included, assign, hproto]
      · simp [included, assign, hexcluded, hproto]
  rw [projection, hturn, ← List.foldl_filter]
  exact ofMembers_eq ((List.filter_sublist.map Prod.fst).nodup doc.unique)

theorem isOk_iff {ε α : Type} {x : Except ε α} : x.isOk = true ↔ ∃ a, x = .ok a := by
  cases x with
  | error e => exact ⟨nofun, nofun⟩
  | ok a => exact ⟨fun _ => ⟨a, rfl⟩, fun _ => rfl⟩

theorem isOk_map {ε α β : Type} (f : α → β) (x : Except ε α) : (x.map f).isOk = x.isOk := by
  cases x <;> rfl

theorem isOk_bind {ε α β : Type} {f : α → Except ε β} {x : Except ε α} :
    (x.bind f).isOk = true ↔ ∃ a, x = .ok a ∧ (f a).isOk = true := by
  cases x with
  | error e => exact ⟨nofun, nofun⟩
  | ok a => exact ⟨fun h => ⟨a, rfl, h⟩, fun ⟨b, hb, h⟩ => Except.ok.inj hb ▸ h⟩

theorem encodeParts_ok {path : Text} {ps : List (Text × Except CanonicalError Text)} :
    (encodeParts path ps).isOk = true ↔
      ∀ p ∈ ps, (encodeString p.1 path).isOk = true ∧ p.2.isOk = true := by
  induction ps with
  | nil => exact ⟨fun _ => List.forall_mem_nil _, fun _ => rfl⟩
  | cons p ps ih =>
      rw [encodeParts, List.forall_mem_cons, isOk_bind, ← ih, isOk_iff, isOk_iff]
      simp only [isOk_bind, isOk_map]
      constructor
      · rintro ⟨k, hk, v, hv, hrest⟩
        exact ⟨⟨⟨k, hk⟩, v, hv⟩, hrest⟩
      · rintro ⟨⟨⟨k, hk⟩, v, hv⟩, hrest⟩
        exact ⟨k, hk, v, hv, hrest⟩

/-- An object is accepted with its members. -/
theorem canonicalize_obj_ok {ms : List (Text × Json N)} :
    (canonicalize (.obj ms)).isOk = true ↔ ∀ p ∈ ms, (encodeString p.1 [unit '$']).isOk = true ∧
      (encodeValue p.2 (memberPath [unit '$'] p.1) 1).isOk = true := by
  rw [canonicalize, encodeValue, if_neg (by decide), encodeMembers_eq]
  simp only [isOk_map, encodeParts_ok, List.mem_insertionSort, List.forall_mem_map]

/-- What is accepted is accepted in part. -/
theorem only_ok {doc : Document N} (h : (canonicalize doc.value.json).isOk = true)
    (p : Text → Bool) : (canonicalize (doc.only p).value.json).isOk = true :=
  canonicalize_obj_ok.mpr fun q hq => canonicalize_obj_ok.mp h q (List.mem_filter.mp hq).1

/-! ## Sealed documents -/

theorem setMember_filter {ms : List (Text × Json N)} {p : Text × Json N} {f : Text → Bool}
    (hp : f p.1 = false) :
    ((setMember ms p).filter fun q => f q.1) = ms.filter fun q => f q.1 := by
  rw [setMember]
  by_cases hmem : p.1 ∈ ms.map Prod.fst
  · rw [if_pos hmem]
    clear hmem
    induction ms with
    | nil => rfl
    | cons q ms ih =>
        by_cases hkey : q.1 = p.1
        · rw [List.map_cons, if_pos hkey, List.filter_cons_of_neg (by simp [hp]),
            List.filter_cons_of_neg (by simp [hkey, hp]), ih]
        · rw [List.map_cons, if_neg hkey, List.filter_cons, List.filter_cons, ih]
  · rw [if_neg hmem, List.filter_append, List.filter_cons_of_neg (by simp [hp]), List.filter_nil,
      List.append_nil]

theorem setMember_setMember (ms : List (Text × Json N)) (p : Text × Json N) :
    setMember (setMember ms p) p = setMember ms p := by
  have hmem : p.1 ∈ (setMember ms p).map Prod.fst := List.mem_map_of_mem (self_mem_setMember ms p)
  rw [setMember, if_pos hmem]
  refine (List.map_congr_left fun q hq => ?_).trans (List.map_id _)
  rcases mem_setMember hq with rfl | ⟨-, hkey⟩
  · rw [if_pos rfl, id]
  · rw [if_neg hkey, id]

variable (doc : Document N) (hash : Text)

/-- A seal is not hashed. -/
theorem preImage_withSeal : preImage (doc.withSeal hash) = preImage doc := by
  have hkey : (included integrityKey && decide (integrityKey ≠ protoKey)) = false := by decide
  have hsame : projection (doc.withSeal hash).members = projection doc.members := by
    rw [projection_eq, projection_eq]
    exact setMember_filter (f := fun key => included key && decide (key ≠ protoKey)) hkey
  rw [preImage, hsame, preImage]

theorem withSeal_withSeal : (doc.withSeal hash).withSeal hash = doc.withSeal hash := by
  simp only [Document.withSeal, setMember_setMember]

theorem sealHash_withSeal : sealHash (doc.withSeal hash) = some hash := by
  have hseal : member (doc.withSeal hash).members integrityKey = some (sealed hash) := by
    have hfound := (doc.withSeal hash).unique.lookup_of_mem
      (self_mem_setMember doc.members (integrityKey, sealed hash))
    exact congrArg (Option.map Prod.snd) hfound
  rw [sealHash, hseal]
  rfl

/-! ## What the hash tells apart -/

/-- Parts of documents are the same when each member has its like in the other document. -/
theorem same_only_iff {a b : Document N} {p : Text → Bool} :
    Same (a.only p).value.json (b.only p).value.json ↔
      (∀ x ∈ a.members, p x.1 = true → ∃ y ∈ b.members, x.1 = y.1 ∧ Same x.2 y.2) ∧
        ∀ y ∈ b.members, p y.1 = true → ∃ x ∈ a.members, x.1 = y.1 ∧ Same x.2 y.2 := by
  have hmatched : Matched Prod.fst (fun x y => Same x.2 y.2) (a.only p).members (b.only p).members ↔
      _ := matched_iff (a.only p).unique (b.only p).unique
  refine (same_obj_iff.trans hmatched.symm).trans ?_
  simp only [Matched, Document.only, List.mem_filter, and_imp]
  constructor
  · rintro ⟨hleft, hright⟩
    refine ⟨fun x hx hp => ?_, fun y hy hp => ?_⟩
    · obtain ⟨y, ⟨hy, -⟩, hxy⟩ := hleft x hx hp
      exact ⟨y, hy, hxy⟩
    · obtain ⟨x, ⟨hx, -⟩, hxy⟩ := hright y hy hp
      exact ⟨x, hx, hxy⟩
  · rintro ⟨hleft, hright⟩
    refine ⟨fun x hx hp => ?_, fun y hy hp => ?_⟩
    · obtain ⟨y, hy, hkey, hxy⟩ := hleft x hx hp
      exact ⟨y, ⟨hy, hkey ▸ hp⟩, hkey, hxy⟩
    · obtain ⟨x, hx, hkey, hxy⟩ := hright y hy hp
      exact ⟨x, ⟨hx, hkey ▸ hp⟩, hkey, hxy⟩

/-- The keys of the copy, and `__proto__`. -/
theorem same_included_iff {a b : Document N} :
    Same (a.only included).value.json (b.only included).value.json ↔
      Same (a.only fun key => included key && key ≠ protoKey).value.json
          (b.only fun key => included key && key ≠ protoKey).value.json ∧
        Same (a.only (· = protoKey)).value.json (b.only (· = protoKey)).value.json := by
  have hproto : included protoKey = true := by decide
  simp only [same_only_iff, Bool.and_eq_true, decide_eq_true_eq]
  constructor
  · rintro ⟨hleft, hright⟩
    refine ⟨⟨fun x hx hp => hleft x hx hp.1, fun y hy hp => hright y hy hp.1⟩,
      fun x hx hp => hleft x hx ?_, fun y hy hp => hright y hy ?_⟩
    · rw [hp, hproto]
    · rw [hp, hproto]
  · rintro ⟨⟨hleft, hright⟩, hleft', hright'⟩
    refine ⟨fun x hx hp => ?_, fun y hy hp => ?_⟩
    · by_cases hkey : x.1 = protoKey
      · exact hleft' x hx hkey
      · exact hleft x hx ⟨hp, hkey⟩
    · by_cases hkey : y.1 = protoKey
      · exact hright' y hy hkey
      · exact hright y hy ⟨hp, hkey⟩

theorem preImage_only : preImage doc =
    canonicalize (doc.only fun key => included key && key ≠ protoKey).value.json := by
  rw [preImage, projection_eq]
  rfl

section

variable {a b : Document N} (ha : (canonicalize a.value.json).isOk = true)
  (hb : (canonicalize b.value.json).isOk = true)
include ha hb

theorem preImage_eq_iff [Inhabited N] : preImage a = preImage b ↔
    Same (a.only fun key => included key && key ≠ protoKey).value.json
      (b.only fun key => included key && key ≠ protoKey).value.json := by
  obtain ⟨s, hs⟩ := isOk_iff.mp (only_ok ha fun key => included key && key ≠ protoKey)
  obtain ⟨t, ht⟩ := isOk_iff.mp (only_ok hb fun key => included key && key ≠ protoKey)
  rw [preImage_only, preImage_only, hs, ht,
    ← canonicalize_eq_iff (fun _ => default) (Document.value _) (Document.value _) hs ht]
  exact ⟨Except.ok.inj, congrArg Except.ok⟩

/-- A sealed document passes the check and is sealed already. What is hashed tells two documents
apart by all that is not passed over, unless they differ under `__proto__` alone. -/
theorem hashProjection_exact [Inhabited N] (sha256Hex : Text → Text) :
    (∃ made hash, a.seal sha256Hex = .ok made ∧
        made.members.filter (included ·.1) = a.members.filter (included ·.1) ∧
        verifySeal sha256Hex made = .ok ⟨true, hash, some hash⟩ ∧
        made.seal sha256Hex = .ok made) ∧
      ((preImage a = preImage b ↔
          Same (a.only included).value.json (b.only included).value.json) ↔
        (Same (a.only fun key => included key && key ≠ protoKey).value.json
            (b.only fun key => included key && key ≠ protoKey).value.json →
          Same (a.only (· = protoKey)).value.json (b.only (· = protoKey)).value.json)) := by
  constructor
  · obtain ⟨t, ht⟩ := isOk_iff.mp (only_ok ha fun key => included key && key ≠ protoKey)
    have hhash : hashProjection sha256Hex a = .ok (sha256Hex t) := by
      rw [hashProjection, preImage_only, ht]
      rfl
    have hsealed (hash : Text) :
        hashProjection sha256Hex (a.withSeal hash) = .ok (sha256Hex t) := by
      rw [hashProjection, preImage_withSeal, ← hhash, hashProjection]
    refine ⟨a.withSeal (sha256Hex t), sha256Hex t, ?_, ?_, ?_, ?_⟩
    · rw [Document.seal, hhash]
      rfl
    · have hkey : included integrityKey = false := by decide
      exact setMember_filter hkey
    · rw [verifySeal, hsealed, Except.map, sealHash_withSeal, decide_eq_true rfl]
    · rw [Document.seal, hsealed, Except.map, withSeal_withSeal]
  · rw [preImage_eq_iff ha hb, same_included_iff]
    exact ⟨fun h hrest => (h.mp hrest).2, fun h => ⟨fun hrest => ⟨hrest, h hrest⟩, And.left⟩⟩

end

/-- `{"__proto__": {"a": "x"}}`, as `JSON.parse` makes it. -/
def prototyped : Document Text where
  members := [(protoKey, .obj [(ascii ['a'], .str (ascii ['x']))])]
  distinct := by
    refine .obj (List.nodup_singleton _) (List.forall_mem_singleton.mpr ?_)
    exact .obj (List.nodup_singleton _) (List.forall_mem_singleton.mpr .str)

def empty : Document Text where
  members := []
  distinct := .obj List.nodup_nil (List.forall_mem_nil _)

/-- Two documents with one hash. -/
theorem hashProjection_prototyped : (canonicalize prototyped.value.json).isOk = true ∧
    (canonicalize empty.value.json).isOk = true ∧ preImage prototyped = preImage empty ∧
      ¬Same (prototyped.only included).value.json (empty.only included).value.json := by
  refine ⟨rfl, rfl, rfl, fun hsame => ?_⟩
  obtain ⟨y, hy, -⟩ := (same_only_iff.mp hsame).1 _ List.mem_cons_self (by decide)
  exact absurd hy List.not_mem_nil

def titled : Document Text where
  members := [(ascii "title".toList, .str (ascii ['x']))]
  distinct := .obj (List.nodup_singleton _) (List.forall_mem_singleton.mpr .str)

/-- A document under another hash than the empty one. -/
theorem hashProjection_titled :
    (preImage titled = preImage empty ↔
      Same (titled.only included).value.json (empty.only included).value.json) ∧
      ∃ (made : Document Text) (hash : Text),
        verifySeal id made = .ok ⟨true, hash, some hash⟩ ∧ made.seal id = .ok made := by
  have hexact := hashProjection_exact (a := titled) (b := empty) rfl rfl id
  obtain ⟨made, hash, -, -, hverify, hseal⟩ := hexact.1
  refine ⟨hexact.2.mpr fun hrest => ?_, made, hash, hverify, hseal⟩
  obtain ⟨y, hy, -⟩ := (same_only_iff.mp hrest).1 _ List.mem_cons_self (by decide)
  exact absurd hy List.not_mem_nil

end Esdb.SchemaSeal
