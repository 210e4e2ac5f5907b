import Esdb.MemoryStoreReads
import Esdb.ObjectSubscription
import Esdb.ResultWire

/-!
# Values and windows of the stores as texts

A value is one line; a window of records or changes is a head with the counts and then a line
for each of them. Keys and store names are in hex, so no field can hold a separator, and a
line is never empty.
-/
namespace Esdb.Wire

open Decimal Utf8Readers Delimited
open ObjectStore (OwnedRecord)
open MemoryStore (StoreChange ChangeOperation)
open ScriptSubscription (Window)

/-! ## The adapter's side -/

section Adapter

variable (stream : BitVec 64 → List Char)

/-- `objectStoreGet` and `storeGet`, for what the store found. -/
def getReply : Option Value → Option (List Char)
  | none => some "V1:-1:".toList
  | some value => valueWire stream value

/-- `RecordWireContext`. -/
structure RecordWireContext where
  body : List Char
  failed : Bool
  count : ℕ

/-- `append_record_wire` and `append_memory_record_wire`. -/
def appendRecordWire (context : RecordWireContext) (record : OwnedRecord) : RecordWireContext :=
  match valueWire stream record.value with
  | none => { context with failed := true }
  | some wire =>
      { context with
        body := context.body ++ (natText record.revision ++ ':' :: (upperHex record.key ++
          ':' :: (wire.drop 3 ++ ['\n'])))
        count := context.count + 1 }

/-- `objectStoreScan` and `storeScan`, for the records that the callback was shown. -/
def scanReply (delivered : List OwnedRecord) : Option (List Char) :=
  let context := delivered.foldl (appendRecordWire stream) ⟨[], false, 0⟩
  if context.failed || delivered.length != context.count then none
  else some ("V1:".toList ++ natText context.count ++ '\n' :: context.body)

end Adapter

def operationCode : ChangeOperation → ℕ
  | .put => 1
  | .delete => 2
  | .clear => 3

/-- The line of `append_change_wire`. -/
def changeLine (change : Runtime.OwnedChange) : List Char :=
  natText change.revision ++ ':' :: (natText change.operation ++ ':' :: (natText change.valueType ++
    ':' :: (upperHex change.storeName ++ ':' :: (upperHex change.key ++ ['\n']))))

/-- The line of `append_memory_change_wire`. -/
def memoryChangeLine (change : StoreChange) : List Char :=
  natText change.revision ++ ':' :: (natText (operationCode change.operation) ++
    ':' :: (natText change.valueType ++ ':' :: ((change.key.map upperHex).getD [] ++ ['\n'])))

/-- `objectStoreChanges` and `storeChanges`. -/
def changesReply {α : Type} (line : α → List Char) (window : Window α) : List Char :=
  "V1:".toList ++ natText window.lastRevision ++ ':' :: (natText window.changes.length ++
    '\n' :: window.changes.flatMap line)

/-! ## The script's side -/

structure ScriptRecord (D S : Type) where
  revision : List Char
  key : List ℕ
  value : StoreValue D S

structure ScanResult (D S : Type) where
  count : ℤ
  records : List (ScriptRecord D S)
  lastKey : Option (List ℕ)

/-- A change in the script. Those of a memory Store have no store, and a clear has no key. -/
structure ScriptChange (D : Type) where
  revision : List Char
  operation : Number D
  valueType : Number D
  store : Option (List ℕ)
  key : Option (List ℕ)

structure ChangeResult (D : Type) where
  lastRevision : List Char
  count : ℤ
  changes : List (ScriptChange D)

/-- `canonicalUnsigned` with its label. -/
def revisionText (label : String) (text : List Char) : Except String (List Char) :=
  match canonicalUnsigned text maxRevision with
  | .error e => .error (label ++ e)
  | .ok revision => .ok revision

/-- The loop over the lines of a body. -/
def parseLines {α : Type} (line : List Char → Except String α) (body : List Char) :
    Except String (List α) :=
  if body = [] then .ok [] else ((body.splitOn '\n').filter (· ≠ [])).mapM line

section Script

variable {D S : Type} (host : Host D S)

/-- `decodeStoreValue` on a type that is any number. -/
def decodeTyped (type : Number D) (payload : List Char) : Except String (StoreValue D S) :=
  match type with
  | .whole v => decodeStoreValue host ⟨true, v, payload⟩
  | .negativeZero => decodeStoreValue host ⟨true, 0, payload⟩
  | _ => .error "unsupported Store value type"

def parseRecordLine (line : List Char) : Except String (ScriptRecord D S) :=
  match line.splitOn ':' with
  | [revision, key, type, payload] => do
      let revision ← revisionText "record revision" revision
      let key ← utf8FromHex key
      let value ← decodeTyped host (scriptNumber host type) payload
      .ok ⟨revision, key, value⟩
  | _ => .error "malformed scan record"

def parseScanWire (wire : List Char) : Except String (ScanResult D S) :=
  if (field '\n' wire).take 3 ≠ "V1:".toList then .error "invalid scan wire version"
  else
    match (scriptNumber host ((field '\n' wire).drop 3)).within 0 10000 with
    | none => .error "invalid scan record count"
    | some count => do
        let records ← parseLines (parseRecordLine host) (behind '\n' wire)
        if (records.length : ℤ) ≠ count then .error "scan record count does not match payload"
        else
          .ok ⟨count, records, if count ≠ 0 then records.getLast?.map (·.key) else none⟩

def parseChangeLine (line : List Char) : Except String (ScriptChange D) :=
  match line.splitOn ':' with
  | [revision, operation, type, store, key] => do
      let revision ← revisionText "change revision" revision
      let store ← utf8FromHex store
      let key ← utf8FromHex key
      .ok ⟨revision, scriptNumber host operation, scriptNumber host type, some store, some key⟩
  | _ => .error "malformed Store change record"

def Number.isThree : Number D → Bool
  | .whole v => v = 3
  | _ => false

/-- `operation == 3 ? null : utf8FromHex(key)`. -/
def unclearedKey (operation : Number D) (key : List Char) : Except String (Option (List ℕ)) :=
  if operation.isThree then .ok none else (utf8FromHex key).map some

def parseMemoryChangeLine (line : List Char) : Except String (ScriptChange D) :=
  match line.splitOn ':' with
  | [revision, operation, type, key] => do
      let revision ← revisionText "change revision" revision
      let key ← unclearedKey (scriptNumber host operation) key
      .ok ⟨revision, scriptNumber host operation, scriptNumber host type, none, key⟩
  | _ => .error "malformed memory Store change record"

/-- `parseChangeWire` and `parseMemoryChangeWire`, which differ in how they read a line. -/
def parseChanges (name : String) (line : List Char → Except String (ScriptChange D)) (wire : List Char) :
    Except String (ChangeResult D) :=
  if (field '\n' wire).take 3 ≠ "V1:".toList then .error ("invalid " ++ name ++ " change wire version")
  else
    match ((field '\n' wire).drop 3).splitOn ':' with
    | [last, count] => do
        let last ← revisionText "last revision" last
        match (scriptNumber host count).within 0 10000 with
        | none => .error ("invalid " ++ name ++ " change count")
        | some count => do
            let changes ← parseLines line (behind '\n' wire)
            if (changes.length : ℤ) ≠ count then
              .error (name ++ " change count does not match payload")
            else .ok ⟨last, count, changes⟩
    | _ => .error ("malformed " ++ name ++ " change header")

def parseChangeWire (wire : List Char) : Except String (ChangeResult D) :=
  parseChanges host "Store" (parseChangeLine host) wire

def parseMemoryChangeWire (wire : List Char) : Except String (ChangeResult D) :=
  parseChanges host "memory Store" (parseMemoryChangeLine host) wire

end Script

/-! ## Lines -/

/-- Lines that close with a newline are read one by one. -/
theorem parseLines_closed {α : Type} {line : List Char → Except String α} {lines : List (List Char)}
    {items : List α} (hne : ∀ l ∈ lines, l ≠ []) (hnewline : ∀ l ∈ lines, '\n' ∉ l)
    (h : List.Forall₂ (fun l item => line l = .ok item) lines items) :
    parseLines line (lines.flatMap (· ++ ['\n'])) = .ok items := by
  cases lines with
  | nil =>
      cases h
      rfl
  | cons first rest =>
      have htext : (first :: rest).flatMap (· ++ ['\n']) =
          ['\n'].intercalate (first :: (rest ++ [[]])) := by
        rw [intercalate_cons, led_closed, List.flatMap_cons, List.append_assoc]
        rfl
      have hsplit : ((first :: rest).flatMap (· ++ ['\n'])).splitOn '\n' =
          (first :: rest) ++ [[]] := by
        rw [htext]
        refine List.splitOn_intercalate '\n' ?_ (List.cons_ne_nil _ _)
        rw [List.forall_mem_cons, List.forall_mem_append]
        obtain ⟨hfirst, hrest⟩ := List.forall_mem_cons.mp hnewline
        exact ⟨hfirst, hrest, by simp⟩
      have hfilter : ((first :: rest) ++ [[]]).filter (· ≠ []) = first :: rest := by
        rw [List.filter_append, List.filter_eq_self.mpr (by simpa using hne)]
        simp
      have hnil : (first :: rest).flatMap (· ++ ['\n']) ≠ [] := by
        rw [List.flatMap_cons]
        simp
      rw [parseLines, if_neg hnil, hsplit, hfilter, mapM_ok h]

/-- Items whose lines are read as what shows them. -/
theorem parseLines_items {α β : Type} {line : List Char → Except String β} {text : α → List Char}
    {R : α → β → Prop} {items : List α}
    (h : ∀ a ∈ items, ∃ l b, text a = l ++ ['\n'] ∧ l ≠ [] ∧ '\n' ∉ l ∧ line l = .ok b ∧ R a b) :
    ∃ shown, parseLines line (items.flatMap text) = .ok shown ∧ List.Forall₂ R items shown := by
  obtain ⟨lines, shown, hbody, hne, hnewline, hread, hshown⟩ : ∃ lines shown,
      items.flatMap text = lines.flatMap (· ++ ['\n']) ∧ (∀ l ∈ lines, l ≠ []) ∧
        (∀ l ∈ lines, '\n' ∉ l) ∧ List.Forall₂ (fun l b => line l = .ok b) lines shown ∧
        List.Forall₂ R items shown := by
    induction items with
    | nil => exact ⟨[], [], rfl, List.forall_mem_nil _, List.forall_mem_nil _, .nil, .nil⟩
    | cons a items ih =>
        obtain ⟨⟨l, b, htext, hne, hnewline, hread, hR⟩, hitems⟩ := List.forall_mem_cons.mp h
        obtain ⟨lines, shown, hbody, hnes, hnewlines, hreads, hshown⟩ := ih hitems
        refine ⟨l :: lines, b :: shown, ?_, List.forall_mem_cons.mpr ⟨hne, hnes⟩,
          List.forall_mem_cons.mpr ⟨hnewline, hnewlines⟩, .cons hread hreads, .cons hR hshown⟩
        rw [List.flatMap_cons, htext, hbody, List.flatMap_cons]
  exact ⟨shown, by rw [hbody, parseLines_closed hne hnewline hread], hshown⟩

/-! ## Fields -/

theorem revisionText_natText {label : String} {n : ℕ} (h : n ≤ revisionMax) :
    revisionText label (natText n) = .ok (natText n) := by
  have hmax : maxRevision = natText revisionMax := by decide
  have hsmall : ¬revisionMax < n := by omega
  rw [revisionText, hmax, canonicalUnsigned_natText, if_neg hsmall]

/-- The key of a record or a change, as the stores check them. -/
theorem utf8FromHex_valid {key : Bytes} (h : validUtf8 key = true) :
    ∃ text, utf8FromHex (upperHex key) = .ok text ∧ SameText key text := by
  obtain ⟨cs, rfl⟩ := (validUtf8_iff key).mp h
  exact ⟨_, utf8FromHex_text cs, cs, rfl, rfl⟩

theorem validUtf8_of_cString {key : Bytes} {bound : ℕ} (h : validCString (some key) bound = true) :
    validUtf8 key = true := by
  simp only [validCString, Bool.and_eq_true] at h
  exact h.2

theorem colon_notMem_upperHex {bytes : Bytes} : ':' ∉ upperHex bytes := fun h =>
  absurd (nibble_upperHex h) (by decide)

/-! ## Scans -/

section Scans

variable {D S : Type} {stream : BitVec 64 → List Char} {host : Host D S}

/-- A record with a value of those types, a key that is text, and a revision of the domain. -/
structure PlainRecord (record : OwnedRecord) : Prop where
  revision : record.revision ≤ revisionMax
  key : validUtf8 record.key = true
  value : Simple record.value

structure ShownRecord (record : OwnedRecord) (shown : ScriptRecord D S) : Prop where
  revision : shown.revision = natText record.revision
  key : SameText record.key shown.key
  value : Shown record.value shown.value

/-- The script has the window: as many records, each as it was, and the key to go on from. -/
structure ShownScan (records : List OwnedRecord) (result : ScanResult D S) : Prop where
  count : result.count = records.length
  items : List.Forall₂ ShownRecord records result.records
  cursor : Option.Rel (fun (record : OwnedRecord) key => SameText record.key key)
    records.getLast? result.lastKey

def recordText (stream : BitVec 64 → List Char) (record : OwnedRecord) : List Char :=
  natText record.revision ++ ':' :: (upperHex record.key ++ ':' ::
    (((valueWire stream record.value).getD []).drop 3 ++ ['\n']))

theorem valueWire_simple (stream : BitVec 64 → List Char) {value : Value} (h : Simple value) :
    ∃ wire, valueWire stream value = some wire := by
  obtain ⟨payload, shown, hpayload, -⟩ := @decodeStoreValue_payload Unit Unit plainHost stream _ h
  exact ⟨_, by rw [valueWire, hpayload, Option.map_some]⟩

theorem appendRecordWire_simple (context : RecordWireContext) {record : OwnedRecord}
    (h : Simple record.value) : appendRecordWire stream context record =
      ⟨context.body ++ recordText stream record, context.failed, context.count + 1⟩ := by
  obtain ⟨wire, hwire⟩ := valueWire_simple stream h
  rw [appendRecordWire, recordText, hwire]
  rfl

theorem foldl_appendRecordWire {records : List OwnedRecord}
    (h : ∀ record ∈ records, Simple record.value) (context : RecordWireContext) :
    records.foldl (appendRecordWire stream) context =
      ⟨context.body ++ records.flatMap (recordText stream), context.failed,
        context.count + records.length⟩ := by
  induction records generalizing context with
  | nil => simp
  | cons record records ih =>
      obtain ⟨hrecord, hrecords⟩ := List.forall_mem_cons.mp h
      rw [List.foldl_cons, appendRecordWire_simple context hrecord, ih hrecords, List.flatMap_cons,
        List.append_assoc, List.length_cons]
      simp only [RecordWireContext.mk.injEq, true_and]
      omega

theorem scanReply_simple {records : List OwnedRecord}
    (h : ∀ record ∈ records, Simple record.value) : scanReply stream records =
      some ("V1:".toList ++ natText records.length ++
        '\n' :: records.flatMap (recordText stream)) := by
  simp only [scanReply, foldl_appendRecordWire h, List.nil_append, Nat.zero_add, bne_self_eq_false,
    Bool.or_false, Bool.false_eq_true, if_false]

/-- The line of a record is read as that record. -/
theorem parseRecordLine_recordText (stream : BitVec 64 → List Char) (host : Host D S)
    {record : OwnedRecord} (h : PlainRecord record) :
    ∃ line shown, recordText stream record = line ++ ['\n'] ∧ line ≠ [] ∧ '\n' ∉ line ∧
      parseRecordLine host line = .ok shown ∧ ShownRecord record shown := by
  obtain ⟨payload, value, hpayload, hchars, hdecode, hvalue⟩ :=
    decodeStoreValue_payload (D := D) (S := S) stream h.value
  obtain ⟨key, hkey, hsame⟩ := utf8FromHex_valid h.key
  have hwire : valueWire stream record.value = some (valueLine record.value.type payload) := by
    rw [valueWire, hpayload, Option.map_some]
  have hcolon : ':' ∉ payload := fun hmem => absurd (hchars _ hmem) (by decide)
  have hnewline : '\n' ∉ payload := fun hmem => absurd (hchars _ hmem) (by decide)
  let fields := [natText record.revision, upperHex record.key, natText record.value.type, payload]
  have htext : recordText stream record = [':'].intercalate fields ++ ['\n'] := by
    rw [recordText, hwire, Option.getD_some, drop_valueLine, intercalate_cons]
    simp only [led_cons, led_nil, List.append_assoc, List.cons_append, List.append_nil]
  have hsplit : ([':'].intercalate fields).splitOn ':' = fields := by
    refine List.splitOn_intercalate ':' ?_ (List.cons_ne_nil _ _)
    simp only [fields, List.forall_mem_cons, colon_notMem_natText, colon_notMem_upperHex, hcolon,
      not_false_eq_true, true_and]
    exact List.forall_mem_nil _
  refine ⟨_, ⟨natText record.revision, key, value⟩, htext, ?_, ?_, ?_, rfl, hsame, hvalue⟩
  · rw [intercalate_cons]
    simp [natText_ne_nil]
  · refine notMem_intercalate (by decide) ?_
    simp only [fields, List.forall_mem_cons, newline_notMem_natText, newline_notMem_upperHex,
      hnewline, not_false_eq_true, true_and]
    exact List.forall_mem_nil _
  · have htype : scriptNumber host (natText record.value.type) = .whole record.value.type :=
      scriptNumber_natText (h.value.type_le.trans (by decide))
    rw [parseRecordLine, hsplit]
    dsimp only [fields]
    rw [revisionText_natText h.revision, hkey, htype]
    dsimp only [Bind.bind, Except.bind, decodeTyped]
    rw [hdecode]

theorem getLast_rel {α β : Type} {R : α → β → Prop} {as : List α} {bs : List β}
    (h : List.Forall₂ R as bs) : Option.Rel R as.getLast? bs.getLast? := by
  induction h with
  | nil => exact .none
  | cons hab _ ih =>
      rw [List.getLast?_cons, List.getLast?_cons]
      revert ih
      generalize List.getLast? _ = a
      generalize List.getLast? _ = b
      rintro (_ | _)
      · exact .some ‹_›
      · exact .some hab

/-- A window of records comes back as it was. -/
theorem parseScanWire_scanReply (stream : BitVec 64 → List Char) (host : Host D S)
    {records : List OwnedRecord} (hcount : records.length ≤ 10000)
    (h : ∀ record ∈ records, PlainRecord record) :
    ∃ wire result, scanReply stream records = some wire ∧ parseScanWire host wire = .ok result ∧
      ShownScan records result := by
  obtain ⟨shown, hbody, hshown⟩ := parseLines_items fun record hrecord =>
    parseRecordLine_recordText stream host (h record hrecord)
  have hlength : (shown.length : ℤ) = records.length := by rw [hshown.length_eq]
  have hhead : '\n' ∉ "V1:".toList ++ natText records.length := by
    rw [List.mem_append, not_or]
    exact ⟨by decide, newline_notMem_natText⟩
  have hnumber : (scriptNumber host (natText records.length)).within 0 10000 =
      some (records.length : ℤ) := by
    rw [scriptNumber_natText (hcount.trans (by decide)), Number.within, if_pos (by omega)]
  have hdrop : ("V1:".toList ++ natText records.length).drop 3 = natText records.length := rfl
  have htake : ("V1:".toList ++ natText records.length).take 3 = "V1:".toList := rfl
  refine ⟨_, ⟨records.length, shown,
    if (records.length : ℤ) ≠ 0 then shown.getLast?.map (·.key) else none⟩,
    scanReply_simple fun record hrecord => (h record hrecord).value, ?_, rfl, hshown, ?_⟩
  · rw [parseScanWire, field_append hhead, behind_append hhead, htake,
      if_neg (fun hne => hne rfl), hdrop, hnumber]
    dsimp only
    rw [hbody]
    dsimp only [Bind.bind, Except.bind]
    rw [if_neg (fun hne => hne hlength)]
  · cases records with
    | nil =>
        cases hshown
        exact .none
    | cons record records =>
        have hne : ((record :: records).length : ℤ) ≠ 0 := by
          rw [List.length_cons]
          omega
        have hlast := getLast_rel hshown
        rw [if_pos hne]
        generalize (record :: records).getLast? = last at hlast ⊢
        generalize shown.getLast? = lastShown at hlast ⊢
        cases hlast with
        | none => exact .none
        | some hrecord => exact .some hrecord.key

end Scans

/-! ## Changes -/

section Changes

variable {D S : Type} {host : Host D S}

/-- The script has the window: the changes as `shown` says, and the revision to go on from. -/
structure ShownChanges {α : Type} (shown : α → ScriptChange D → Prop) (window : Window α)
    (result : ChangeResult D) : Prop where
  cursor : result.lastRevision = natText window.lastRevision
  count : result.count = window.changes.length
  items : List.Forall₂ shown window.changes result.changes

/-- A window of changes comes back as it was, when its lines do. -/
theorem parseChanges_changesReply {α : Type} {text : α → List Char}
    {line : List Char → Except String (ScriptChange D)} {shown : α → ScriptChange D → Prop}
    (name : String) {window : Window α} (hlast : window.lastRevision ≤ revisionMax)
    (hcount : window.changes.length ≤ 10000)
    (h : ∀ c ∈ window.changes, ∃ l b, text c = l ++ ['\n'] ∧ l ≠ [] ∧ '\n' ∉ l ∧ line l = .ok b ∧
      shown c b) :
    ∃ result, parseChanges host name line (changesReply text window) = .ok result ∧
      ShownChanges shown window result := by
  obtain ⟨changes, hbody, hshown⟩ := parseLines_items h
  have hlength : (changes.length : ℤ) = window.changes.length := by rw [hshown.length_eq]
  have hnumber : (scriptNumber host (natText window.changes.length)).within 0 10000 =
      some (window.changes.length : ℤ) := by
    rw [scriptNumber_natText (hcount.trans (by decide)), Number.within, if_pos (by omega)]
  let fields := [natText window.lastRevision, natText window.changes.length]
  let head := "V1:".toList ++ [':'].intercalate fields
  have htext : changesReply text window = head ++ '\n' :: window.changes.flatMap text := by
    simp only [changesReply, head, fields, intercalate_cons, led_cons, led_nil, List.append_assoc,
      List.cons_append, List.append_nil]
  have hhead : '\n' ∉ head := by
    rw [List.mem_append, not_or]
    refine ⟨by decide, notMem_intercalate (by decide) ?_⟩
    simp only [fields, List.forall_mem_cons, newline_notMem_natText, not_false_eq_true, true_and]
    exact List.forall_mem_nil _
  have hsplit : (head.drop 3).splitOn ':' = fields := by
    refine List.splitOn_intercalate ':' ?_ (List.cons_ne_nil _ _)
    simp only [fields, List.forall_mem_cons, colon_notMem_natText, not_false_eq_true, true_and]
    exact List.forall_mem_nil _
  have htake : head.take 3 = "V1:".toList := rfl
  refine ⟨⟨natText window.lastRevision, window.changes.length, changes⟩, ?_, rfl, rfl, hshown⟩
  rw [htext, parseChanges, field_append hhead, behind_append hhead, htake,
    if_neg (fun hne => hne rfl), hsplit]
  dsimp only [fields]
  rw [revisionText_natText hlast]
  dsimp only [Bind.bind, Except.bind]
  rw [hnumber]
  dsimp only
  rw [hbody]
  dsimp only
  rw [if_neg (fun hne => hne hlength)]

structure ShownChange (change : Runtime.OwnedChange) (shown : ScriptChange D) : Prop where
  revision : shown.revision = natText change.revision
  operation : shown.operation = .whole change.operation
  valueType : shown.valueType = .whole change.valueType
  store : Option.Rel SameText (some change.storeName) shown.store
  key : Option.Rel SameText (some change.key) shown.key

structure ShownMemoryChange (change : StoreChange) (shown : ScriptChange D) : Prop where
  revision : shown.revision = natText change.revision
  operation : shown.operation = .whole (operationCode change.operation)
  valueType : shown.valueType = .whole change.valueType
  store : shown.store = none
  key : Option.Rel SameText change.key shown.key

/-- A change as the journal of an object store has them. -/
structure PlainChange (change : Runtime.OwnedChange) : Prop where
  revision : change.revision ≤ revisionMax
  operation : change.operation ≤ 2
  valueType : change.valueType ≤ Value.object
  store : validUtf8 change.storeName = true
  key : validUtf8 change.key = true

/-- A change as a memory Store shows them: only a clear has no key. -/
structure PlainMemoryChange (change : StoreChange) : Prop where
  revision : change.revision ≤ revisionMax
  valueType : change.valueType ≤ Value.object
  cleared : change.operation = .clear ↔ change.key = none
  key : ∀ key ∈ change.key, validUtf8 key = true

theorem parseChangeLine_changeLine (host : Host D S) {change : Runtime.OwnedChange}
    (h : PlainChange change) :
    ∃ line shown, changeLine change = line ++ ['\n'] ∧ line ≠ [] ∧ '\n' ∉ line ∧
      parseChangeLine host line = .ok shown ∧ ShownChange change shown := by
  obtain ⟨store, hstore, hsameStore⟩ := utf8FromHex_valid h.store
  obtain ⟨key, hkey, hsameKey⟩ := utf8FromHex_valid h.key
  let fields := [natText change.revision, natText change.operation, natText change.valueType,
    upperHex change.storeName, upperHex change.key]
  have htext : changeLine change = [':'].intercalate fields ++ ['\n'] := by
    simp only [changeLine, fields, intercalate_cons, led_cons, led_nil, List.append_assoc,
      List.cons_append, List.append_nil]
  have hsplit : ([':'].intercalate fields).splitOn ':' = fields := by
    refine List.splitOn_intercalate ':' ?_ (List.cons_ne_nil _ _)
    simp only [fields, List.forall_mem_cons, colon_notMem_natText, colon_notMem_upperHex,
      not_false_eq_true, true_and]
    exact List.forall_mem_nil _
  refine ⟨_, ⟨natText change.revision, .whole change.operation, .whole change.valueType, some store,
    some key⟩, htext, ?_, ?_, ?_, rfl, rfl, rfl, .some hsameStore, .some hsameKey⟩
  · rw [intercalate_cons]
    simp [natText_ne_nil]
  · refine notMem_intercalate (by decide) ?_
    simp only [fields, List.forall_mem_cons, newline_notMem_natText, newline_notMem_upperHex,
      not_false_eq_true, true_and]
    exact List.forall_mem_nil _
  · have hoperation : scriptNumber host (natText change.operation) = .whole change.operation :=
      scriptNumber_natText (h.operation.trans (by decide))
    have htype : scriptNumber host (natText change.valueType) = .whole change.valueType :=
      scriptNumber_natText (h.valueType.trans (by decide))
    rw [parseChangeLine, hsplit]
    dsimp only [fields]
    rw [revisionText_natText h.revision, hstore, hkey, hoperation, htype]
    rfl

theorem parseMemoryChangeLine_memoryChangeLine (host : Host D S) {change : StoreChange}
    (h : PlainMemoryChange change) :
    ∃ line shown, memoryChangeLine change = line ++ ['\n'] ∧ line ≠ [] ∧ '\n' ∉ line ∧
      parseMemoryChangeLine host line = .ok shown ∧ ShownMemoryChange change shown := by
  let keyText := (change.key.map upperHex).getD []
  have hchars {c : Char} (hc : (nibble c).isSome = false) : c ∉ keyText := by
    intro hmem
    cases hkey : change.key with
    | none =>
        simp only [keyText, hkey] at hmem
        cases hmem
    | some key =>
        simp only [keyText, hkey] at hmem
        exact Bool.false_ne_true (hc.symm.trans (nibble_upperHex hmem))
  have hcolon : ':' ∉ keyText := hchars rfl
  have hnewline : '\n' ∉ keyText := hchars rfl
  let fields := [natText change.revision, natText (operationCode change.operation),
    natText change.valueType, keyText]
  have htext : memoryChangeLine change = [':'].intercalate fields ++ ['\n'] := by
    simp only [memoryChangeLine, fields, keyText, intercalate_cons, led_cons, led_nil,
      List.append_assoc, List.cons_append, List.append_nil]
  have hsplit : ([':'].intercalate fields).splitOn ':' = fields := by
    refine List.splitOn_intercalate ':' ?_ (List.cons_ne_nil _ _)
    simp only [fields, List.forall_mem_cons, colon_notMem_natText, hcolon, not_false_eq_true,
      true_and]
    exact List.forall_mem_nil _
  have hoperation : scriptNumber host (natText (operationCode change.operation)) =
      .whole (operationCode change.operation) :=
    scriptNumber_natText (by cases change.operation <;> decide)
  have htype : scriptNumber host (natText change.valueType) = .whole change.valueType :=
    scriptNumber_natText (h.valueType.trans (by decide))
  obtain ⟨key, hkey, hsame⟩ : ∃ key,
      unclearedKey (Number.whole (operationCode change.operation) : Number D) keyText = .ok key ∧
        Option.Rel SameText change.key key := by
    cases hkey : change.key with
    | none =>
        rw [h.cleared.mpr hkey]
        exact ⟨none, rfl, .none⟩
    | some key =>
        obtain ⟨text, hread, hsame⟩ := utf8FromHex_valid (h.key key hkey)
        have hcode : (Number.whole (operationCode change.operation) : Number D).isThree = false := by
          cases hop : change.operation with
          | put => rfl
          | delete => rfl
          | clear => cases (h.cleared.mp hop).symm.trans hkey
        have hkeyText : keyText = upperHex key := by
          simp only [keyText, hkey]
          rfl
        refine ⟨some text, ?_, .some hsame⟩
        rw [unclearedKey, hcode, if_neg Bool.false_ne_true, hkeyText, hread]
        rfl
  refine ⟨_, ⟨natText change.revision, .whole (operationCode change.operation),
    .whole change.valueType, none, key⟩, htext, ?_, ?_, ?_, rfl, rfl, rfl, rfl, hsame⟩
  · rw [intercalate_cons]
    simp [natText_ne_nil]
  · refine notMem_intercalate (by decide) ?_
    simp only [fields, List.forall_mem_cons, newline_notMem_natText, hnewline, not_false_eq_true,
      true_and]
    exact List.forall_mem_nil _
  · rw [parseMemoryChangeLine, hsplit]
    dsimp only [fields]
    rw [revisionText_natText h.revision, hoperation, htype]
    dsimp only [Bind.bind, Except.bind]
    rw [hkey]

end Changes

/-! ## The windows of a memory Store -/

section Memory

open MemoryStore

variable {log : List Mutation} {st : StoreState}

theorem plainMemoryChange_of_checked {m : Mutation} (h : m.Checked) {revision : ℕ}
    (hr : revision ≤ revisionMax) : PlainMemoryChange (m.change revision).shown := by
  cases m with
  | put key value =>
      refine ⟨hr, of_decide_eq_true h.2, Iff.intro (fun he => nomatch he) (fun he => nomatch he), ?_⟩
      rintro k ⟨⟩
      exact (Bool.and_eq_true_iff.mp h.1).2
  | delete key =>
      refine ⟨hr, Nat.zero_le _, Iff.intro (fun he => nomatch he) (fun he => nomatch he), ?_⟩
      rintro k ⟨⟩
      exact (Bool.and_eq_true_iff.mp h).2
  | clear => exact ⟨hr, Nat.zero_le _, Iff.intro (fun _ => rfl) (fun _ => rfl), fun k hk => nomatch hk⟩

theorem plain_history (hlog : ∀ m ∈ log, m.Checked) (hlength : log.length ≤ revisionMax) :
    ∀ c ∈ history log, PlainMemoryChange c.shown := by
  intro c hc
  obtain ⟨i, hi, rfl⟩ := List.mem_mapIdx.mp hc
  exact plainMemoryChange_of_checked (hlog _ (List.getElem_mem hi)) (by omega)

theorem deliver_le {callback : ℕ → Verdict} {snapshot : List MemoryChange} {bound : ℕ}
    (h : ∀ c ∈ snapshot, c.revision ≤ bound) {start delivered last count : ℕ} (hstart : start ≤ bound)
    (hd : deliver callback snapshot start delivered = .ok (last, count)) : last ≤ bound := by
  induction snapshot generalizing start delivered with
  | nil =>
      cases hd
      exact hstart
  | cons c rest ih =>
      obtain ⟨hc, hrest⟩ := List.forall_mem_cons.mp h
      rw [deliver] at hd
      cases hv : callback delivered with
      | proceed =>
          rw [hv] at hd
          exact ih hrest hc hd
      | stop =>
          rw [hv] at hd
          cases hd
          exact hc
      | throw =>
          rw [hv] at hd
          cases hd

theorem takeSnapshot_bounded {alloc : SnapshotSite → Bool} {after limit : ℕ}
    {snapshot : List MemoryChange} (h : takeSnapshot alloc after limit st = .ok snapshot) :
    effectiveLimit limit ≤ 10000 ∧ after ≤ revisionMax := by
  unfold takeSnapshot at h
  by_cases hargs : (decide (limit > changeLimitMax) || decide (after > revisionMax)) = true
  · rw [if_pos hargs] at h
    cases h
  rw [Bool.or_eq_true, not_or, decide_eq_true_eq, decide_eq_true_eq] at hargs
  refine ⟨?_, Nat.not_lt.mp hargs.2⟩
  unfold effectiveLimit
  split_ifs
  · exact Nat.le_refl _
  · exact Nat.not_lt.mp hargs.1

/-- The changes that a memory Store shows. -/
theorem changesSince_plain (hs : Represents log st) (hlog : ∀ m ∈ log, m.Checked)
    {alloc : SnapshotSite → Bool} {after limit : ℕ} {window : Window StoreChange}
    (h : ScriptSubscription.changesSince alloc after limit st = .ok window) :
    window.lastRevision ≤ revisionMax ∧ window.changes.length ≤ 10000 ∧
      ∀ c ∈ window.changes, PlainMemoryChange c := by
  unfold ScriptSubscription.changesSince at h
  cases hsnapshot : takeSnapshot alloc after limit st with
  | error f =>
      rw [hsnapshot] at h
      cases h
  | ok snapshot =>
      rw [hsnapshot] at h
      dsimp only at h
      have heq := takeSnapshot_eq hs hsnapshot
      obtain ⟨hlimit, hafter⟩ := takeSnapshot_bounded hsnapshot
      have hplain : ∀ c ∈ snapshot, PlainMemoryChange c.shown := by
        intro c hc
        rw [heq] at hc
        exact plain_history hlog hs.within c (List.mem_of_mem_drop (List.mem_of_mem_take hc))
      cases hdeliver : deliver (fun _ => .proceed) snapshot after 0 with
      | error f =>
          rw [hdeliver] at h
          cases h
      | ok result =>
          obtain ⟨last, delivered⟩ := result
          rw [hdeliver] at h
          cases h
          refine ⟨deliver_le (fun c hc => (hplain c hc).revision) hafter hdeliver, ?_, ?_⟩
          · rw [List.length_map, List.length_take, heq, List.length_take]
            omega
          · intro c hc
            obtain ⟨c, hmem, rfl⟩ := List.mem_map.mp hc
            exact hplain c (List.mem_of_mem_take hmem)

theorem scan_plain (hs : Represents log st) (hlog : ∀ m ∈ log, m.Checked)
    {alloc : ScanSite → Bool} {after : Option Bytes} {limit : ℕ} {callback : ℕ → Verdict}
    {records : List OwnedRecord} (h : MemoryStore.scan alloc after limit callback st = .ok records)
    (hsimple : ∀ record ∈ records, Simple record.value) :
    records.length ≤ 10000 ∧ ∀ record ∈ records, PlainRecord record := by
  refine ⟨scan_length h, fun record hrecord => ?_⟩
  have hkept := scan_kept hs hlog h record hrecord
  exact ⟨hkept.revision, (Bool.and_eq_true_iff.mp hkept.key).2, hsimple record hrecord⟩

end Memory

/-! ## The windows of an object store -/

section Objects

open ObjectStore Transactional

theorem forall₂_of_mapM {α β ε : Type} {f : α → Except ε β} {l : List α} {out : List β}
    (h : l.mapM f = .ok out) : List.Forall₂ (fun a b => f a = .ok b) l out := by
  induction l generalizing out with
  | nil =>
      cases h
      exact .nil
  | cons a l ih =>
      rw [List.mapM_cons] at h
      cases ha : f a with
      | error e =>
          rw [ha] at h
          cases h
      | ok b =>
          rw [ha] at h
          cases hl : l.mapM f with
          | error e =>
              rw [hl] at h
              cases h
          | ok bs =>
              rw [hl] at h
              cases h
              exact .cons ha (ih hl)

theorem forall₂_right {α β : Type} {R : α → β → Prop} {as : List α} {bs : List β}
    (h : List.Forall₂ R as bs) : ∀ b ∈ bs, ∃ a ∈ as, R a b := by
  induction h with
  | nil => exact List.forall_mem_nil _
  | cons hab _ ih =>
      refine List.forall_mem_cons.mpr ⟨⟨_, List.mem_cons_self .., hab⟩, fun b hb => ?_⟩
      obtain ⟨a, ha, hr⟩ := ih b hb
      exact ⟨a, List.mem_cons_of_mem _ ha, hr⟩

variable {σ σ' : Session} {C : StoreContract}

theorem scanRecords_length {name : Bytes} {after : Option Bytes} {limit : ℕ} {d : Tables}
    {rows : List RecordRow} (h : (Sql.scanRecords name after limit).eval d = .ok (rows, d)) :
    rows.length ≤ limit := by
  simp only [Sql.eval] at h
  split at h
  · obtain ⟨rfl, -⟩ := Prod.mk.inj (Except.ok.inj h)
    exact List.length_take_le _ _
  · cases h

theorem ownRecord_key {allocates : Bool} {r : RecordRow} {record : OwnedRecord}
    (h : ObjectStore.ownRecord allocates r = .ok record) : validStoreKey record.key = true := by
  unfold ObjectStore.ownRecord at h
  split_ifs at h with hvalid
  split at h
  · cases h
  · cases h
    simp only [Bool.or_eq_true, not_or, Bool.not_eq_true', Bool.not_eq_false] at hvalid
    exact hvalid.1

/-- A scan delivers the first rows that its statement finds in what the connection sees. -/
theorem runs_scan_rows {room : SnapshotRoom} {allocates : Bool} {name : Bytes}
    {after : Option Bytes} {limit : ℕ} {callback : ℕ → Verdict} {records : List OwnedRecord}
    (h : Runs C (ObjectStore.scan room allocates name after limit callback) σ (.ok records) σ') :
    limit ≤ ObjectStore.scanLimitMax ∧ ∃ rows snapshot n,
      (Sql.scanRecords name after (if limit = 0 then ObjectStore.scanLimitMax else limit)).eval
        σ'.view = .ok (rows, σ'.view) ∧
      List.Forall₂ (fun r record => ObjectStore.ownRecord allocates r = .ok record) rows snapshot ∧
      deliveredCount callback snapshot.length 0 = some n ∧ records = snapshot.take n := by
  unfold ObjectStore.scan at h
  by_cases hargs : (!validStoreName name || !(after.all validStoreKey) ||
      ObjectStore.scanLimitMax < limit) = true
  · rw [if_pos hargs] at h
    cases h
  rw [if_neg hargs] at h
  by_cases hbefore : room = .noneBefore
  · rw [if_pos hbefore] at h
    cases h
  rw [if_neg hbefore] at h
  rcases runs_op_bind h with ⟨e, -, he⟩ | ⟨-, σ₁, -, h₁⟩
  · cases he
  rcases runs_op_bind h₁ with ⟨e, -, he⟩ | ⟨rows, σ₂, hread, h₂⟩
  · cases he
  have hdenote := ScriptSubscription.runs_ask (reading_statementIn .objectStore rfl) hread
  rcases runs_op_bind h₂ with ⟨e, -, he⟩ | ⟨snapshot, σ₃, hsnap, h₃⟩
  · cases he
  cases hown : rows.mapM (ownRecord allocates) with
  | error e =>
      rw [hown] at hsnap
      cases hsnap
  | ok owned =>
      rw [hown] at hsnap
      cases hsnap
      by_cases hroom : room = .noneAfter
      · rw [if_pos hroom] at h₃
        cases h₃
      rw [if_neg hroom] at h₃
      cases hcount : deliveredCount callback snapshot.length 0 with
      | none =>
          rw [hcount] at h₃
          cases h₃
      | some n =>
          rw [hcount] at h₃
          cases h₃
          rw [Bool.or_eq_true, not_or, decide_eq_true_eq] at hargs
          exact ⟨Nat.not_lt.mp hargs.2, rows, snapshot, n,
            (Transactional.Query.denote_one _ _ _).mp hdenote, forall₂_of_mapM hown, hcount, rfl⟩

/-- The records that a scan delivers were checked, and are no more than it asked for. -/
theorem runs_scan {room : SnapshotRoom} {allocates : Bool} {name : Bytes} {after : Option Bytes}
    {limit : ℕ} {callback : ℕ → Verdict} {records : List OwnedRecord}
    (h : Runs C (ObjectStore.scan room allocates name after limit callback) σ (.ok records) σ') :
    records.length ≤ 10000 ∧ ∀ record ∈ records, validStoreKey record.key = true := by
  obtain ⟨hbound, rows, snapshot, n, heval, hforall, -, rfl⟩ := runs_scan_rows h
  have hrows := scanRecords_length heval
  have hlimit : (if limit = 0 then ObjectStore.scanLimitMax else limit) ≤ 10000 := by
    split_ifs
    · exact Nat.le_refl _
    · exact hbound
  refine ⟨?_, fun record hrecord => ?_⟩
  · rw [List.length_take, ← hforall.length_eq]
    omega
  · obtain ⟨r, -, hr⟩ := forall₂_right hforall record (List.mem_of_mem_take hrecord)
    exact ownRecord_key hr

theorem ownChange_plain {v : ChangeView} {c : Runtime.OwnedChange} (h : ownChange v = .ok c)
    (hrevision : v.revision ≤ maxRowid) : PlainChange c := by
  simp only [ownChange] at h
  split_ifs at h with hinvalid
  cases h
  simp only [not_or, Bool.not_eq_true', Bool.not_eq_false, not_and, ne_eq] at hinvalid
  obtain ⟨-, hstore, hkey, htype, hoperation, -⟩ := hinvalid
  refine ⟨?_, ?_, ?_, validUtf8_of_cString hstore, validUtf8_of_cString hkey⟩
  · simp only [maxRowid] at hrevision
    simp only [revisionMax]
    omega
  · have hcode : columnInt v.operation = changePut ∨ columnInt v.operation = changeDelete := by
      by_contra hcode
      rw [not_or] at hcode
      exact hoperation hcode.1 hcode.2
    rcases hcode with hcode | hcode
    · rw [hcode]
      exact (by decide : changePut.toNat ≤ 2)
    · rw [hcode]
      exact (by decide : changeDelete.toNat ≤ 2)
  · simp only [validColumnType, Bool.and_eq_true, decide_eq_true_eq] at htype
    have hhigh := htype.2
    simp only [Value.object] at hhigh ⊢
    omega

/-- The changes that a query delivers, of a journal that only the store has written. -/
theorem delivers_plain {name : Option Bytes} {after limit : ℕ} {callback : ℕ → Verdict} {d : Tables}
    {accepted : List Runtime.OwnedChange} (hd : Journal d) (hlimit : limit ≤ changeLimitMax)
    (h : Delivers name after limit callback d accepted) :
    accepted.length ≤ 10000 ∧ ∀ c ∈ accepted, PlainChange c := by
  obtain ⟨stores, changes, snapshot, n, -, hchanges, hown, -, rfl⟩ := h
  have hforall := forall₂_of_mapM hown
  have hbound : changeLimit limit ≤ 10000 := by
    unfold changeLimit
    split_ifs
    · exact Nat.le_refl _
    · exact hlimit
  have hrows : (Tables.viewChanges name after (changeLimit limit) stores changes).length ≤ 10000 :=
    (List.length_take_le _ _).trans hbound
  refine ⟨?_, fun c hc => ?_⟩
  · rw [List.length_take, ← hforall.length_eq]
    omega
  · obtain ⟨v, hv, hvc⟩ := forall₂_right hforall c (List.mem_of_mem_take hc)
    obtain ⟨row, hrow, hview⟩ := List.mem_filterMap.mp
      (List.mem_filter.mp (List.mem_of_mem_take hv)).1
    have hlog : row ∈ d.log := by
      have hmem : row ∈ d.changeRows := by
        rw [Tables.changeRows, hchanges]
        exact (List.mem_filter.mp hrow).1
      rw [hd.changes] at hmem
      exact (List.mem_filter.mp hmem).1
    have hrevision : v.revision ≤ maxRowid :=
      (ScriptSubscription.viewChange_revision hview).trans_le (hd.range row hlog).2
    exact ownChange_plain hvc hrevision

/-- An answer is within the limits, and about the journal that the connection sees at the end. -/
theorem runs_changesSince {room : SnapshotRoom} {name : Option Bytes} {after limit : ℕ}
    {callback : ℕ → Verdict} {accepted : List Runtime.OwnedChange} (hlives : Lives σ)
    (h : Runs anyFaults (Call.store (.changesSince room name after limit callback)).program σ
      (.ok (.changes accepted)) σ') :
    limit ≤ changeLimitMax ∧ after ≤ revisionMax ∧
      Delivers name after limit callback σ'.view accepted := by
  have hreply : Runs anyFaults (reply Reply.changes
      (ObjectStore.changesSince room name after limit callback)) σ (.ok (.changes accepted)) σ' := h
  unfold reply at hreply
  rcases runs_op_bind hreply with ⟨e, -, he⟩ | ⟨rows, σ₁, hrows, hret⟩
  · cases he
  · cases hret
    have hosts : Hosts anyFaults := keeping_true ▸ hosts_keeping (fun _ _ => True)
    obtain ⟨-, -, -, -, hlimit, hafter, -⟩ := wp_sound hrows
      (wp_changesSinceImpl hosts hlives.rooted room name after limit callback)
    exact ⟨hlimit, hafter, ScriptSubscription.runs_changesSinceImpl hrows⟩

/-- The revision to go on from. -/
theorem lastRevision_le {after : ℕ} {accepted : List Runtime.OwnedChange}
    (hafter : after ≤ revisionMax) (h : ∀ c ∈ accepted, PlainChange c) :
    lastRevision after accepted ≤ revisionMax := by
  unfold lastRevision
  split
  · exact hafter
  · next c hc => exact (h c (List.mem_of_getLast? hc)).revision

end Objects

/-! ## Round trips -/

section RoundTrips

open ObjectStore Transactional

variable {D S : Type}

/-- A value comes back as it was. -/
theorem getReply_simple (stream : BitVec 64 → List Char) (host : Host D S) {value : Value}
    (h : Simple value) :
    ∃ wire raw shown, getReply stream (some value) = some wire ∧ parseValueWire host wire = .ok raw ∧
      decodeStoreValue host raw = .ok shown ∧ Shown value shown := by
  obtain ⟨payload, shown, hpayload, -, hdecode, hshown⟩ :=
    decodeStoreValue_payload (D := D) (S := S) stream h
  have hwire : valueWire stream value = some (valueLine value.type payload) := by
    rw [valueWire, hpayload, Option.map_some]
  have hsmall : value.type ≤ maxSafeInteger := h.type_le.trans (by decide)
  have hrange : (-1 : ℤ) ≤ value.type ∧ (value.type : ℤ) ≤ Value.object :=
    ⟨by omega, by exact_mod_cast h.type_le⟩
  have hfound : decide ((value.type : ℤ) ≠ -1) = true := decide_eq_true (by omega)
  have htake : (valueLine value.type payload).take 3 = "V1:".toList := rfl
  refine ⟨_, ⟨true, value.type, payload⟩, shown, hwire, ?_, hdecode, hshown⟩
  rw [parseValueWire, htake, if_neg (fun hne => hne rfl), drop_valueLine,
    if_neg (by simp), field_append colon_notMem_natText, behind_append colon_notMem_natText,
    scriptNumber_natText hsmall, Number.within, if_pos hrange]
  dsimp only
  rw [hfound]

theorem parseValueWire_absent (host : Host D S) :
    parseValueWire host "V1:-1:".toList = .ok ⟨false, -1, []⟩ := by
  have htext : field ':' ("V1:-1:".toList.drop 3) = intText (-1) := by decide
  have hbehind : behind ':' ("V1:-1:".toList.drop 3) = [] := by decide
  have hgrammar : canonicalDecimalSyntax (intText (-1)) true = true :=
    canonicalDecimalSyntax_true.mpr (.inr ⟨-1, rfl⟩)
  have hnumber : scriptNumber host (intText (-1)) = .whole (-1) := by
    rw [scriptNumber, value_intValue, if_pos ⟨hgrammar, by decide⟩,
      if_neg (intText_ne_minus_zero (-1))]
  rw [parseValueWire, if_neg (by decide), if_neg (by decide), htext, hbehind, hnumber]
  rfl

/-- Values of those types, whole windows and their cursors come back as they were: of a memory
Store after any calls, and of an object store in any life of its connection. The revision of a
record there is a 64-bit column. -/
theorem store_wires (stream : BitVec 64 → List Char) (host : Host D S) :
    (∀ value, Simple value → ∃ wire raw shown, getReply stream (some value) = some wire ∧
      parseValueWire host wire = .ok raw ∧ decodeStoreValue host raw = .ok shown ∧
      Shown value shown) ∧
    (∃ wire raw, getReply stream none = some wire ∧ parseValueWire host wire = .ok raw ∧
      decodeStoreValue host raw = .ok (.undefined : StoreValue D S)) ∧
    (∀ calls alloc after limit callback records,
      MemoryStore.scan alloc after limit callback
        (MemoryStore.run calls MemoryStore.initial []).1 = .ok records →
      (∀ record ∈ records, Simple record.value) →
      ∃ wire result, scanReply stream records = some wire ∧ parseScanWire host wire = .ok result ∧
        ShownScan records result) ∧
    (∀ (σ σ' : Session) room allocates name after limit callback records, Lives σ →
      Runs anyFaults (ObjectStore.scan room allocates name after limit callback) σ
        (.ok records) σ' →
      (∀ record ∈ records, Simple record.value ∧ record.revision ≤ revisionMax) →
      ∃ wire result, scanReply stream records = some wire ∧ parseScanWire host wire = .ok result ∧
        ShownScan records result) ∧
    (∀ calls alloc after limit window,
      ScriptSubscription.changesSince alloc after limit
        (MemoryStore.run calls MemoryStore.initial []).1 = .ok window →
      ∃ result, parseMemoryChangeWire host (changesReply memoryChangeLine window) = .ok result ∧
        ShownChanges ShownMemoryChange window result) ∧
    ∀ (σ σ' : Session) room name after limit callback accepted, Lives σ →
      Runs anyFaults (Call.store (.changesSince room name after limit callback)).program σ
        (.ok (.changes accepted)) σ' →
      ∃ result, parseChangeWire host
          (changesReply changeLine ⟨lastRevision after accepted, accepted⟩) = .ok result ∧
        ShownChanges ShownChange ⟨lastRevision after accepted, accepted⟩ result := by
  refine ⟨fun value h => getReply_simple stream host h, ?_, ?_, ?_, ?_, ?_⟩
  · exact ⟨_, ⟨false, -1, []⟩, rfl, parseValueWire_absent host, rfl⟩
  · intro calls alloc after limit callback records h hsimple
    obtain ⟨hcount, hplain⟩ := scan_plain (MemoryStore.represents_initial.run calls)
      (MemoryStore.run_checked calls (List.forall_mem_nil _)) h hsimple
    exact parseScanWire_scanReply stream host hcount hplain
  · intro σ σ' room allocates name after limit callback records hlives hr hvalues
    obtain ⟨hcount, hkeys⟩ := runs_scan hr
    refine parseScanWire_scanReply stream host hcount fun record hrecord => ?_
    obtain ⟨hsimple, hrevision⟩ := hvalues record hrecord
    exact ⟨hrevision, validUtf8_of_cString (hkeys record hrecord), hsimple⟩
  · intro calls alloc after limit window h
    obtain ⟨hlast, hcount, hplain⟩ := changesSince_plain
      (MemoryStore.represents_initial.run calls)
      (MemoryStore.run_checked calls (List.forall_mem_nil _)) h
    exact parseChanges_changesReply "memory Store" hlast hcount fun c hc =>
      parseMemoryChangeLine_memoryChangeLine host (hplain c hc)
  · intro σ σ' room name after limit callback accepted hlives hr
    obtain ⟨hlimit, hafter, hdelivers⟩ := runs_changesSince hlives hr
    have hlegal : (Call.store (.changesSince room name after limit callback)).Legal σ.wrapper :=
      fun _ h => nomatch h
    have hjournal := (hlives.call _ hlegal hr).journal
    obtain ⟨hcount, hplain⟩ := delivers_plain hjournal hlimit hdelivers
    exact parseChanges_changesReply "Store" (lastRevision_le hafter hplain) hcount fun c hc =>
      parseChangeLine_changeLine host (hplain c hc)

end RoundTrips

end Esdb.Wire
