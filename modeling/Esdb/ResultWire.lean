import Esdb.ValueWire
import Mathlib.Data.List.Forall2

/-!
# The result of a statement as one text

The adapter collects the rows of a statement while the runtime counts them, until the row
limit or the size of the text refuses one, and then writes a head with the counts it only
knows at the end. The script takes the text apart again and compares every count.
-/
namespace Esdb.Wire

open Decimal Utf8Readers Delimited Query

/-! ## The adapter's side -/

def queryRowMax : ℕ := 10000

def queryResultWireMaxBytes : ℕ := 16 * 1024 * 1024

def queryResultHeaderMaxBytes : ℕ := 128

/-- `QueryWireContext`. -/
structure WireContext where
  names : List Char
  rows : List Char
  columnCount : ℕ
  returnedRows : ℕ
  maxRows : ℕ
  namesReady : Bool
  truncated : Bool
  failed : Bool

def WireContext.empty (maxRows : ℕ) : WireContext := ⟨[], [], 0, 0, maxRows, false, false, false⟩

def namesText (columns : List Bytes) : List Char :=
  "N:".toList ++ ['|'].intercalate (columns.map upperHex) ++ ['\n']

def setQueryColumnNames (context : WireContext) (columns : List Bytes) : Option WireContext :=
  if queryResultWireMaxBytes < (namesText columns).length + queryResultHeaderMaxBytes then none
  else
    some { context with
      columnCount := columns.length, names := namesText columns, namesReady := true }

section Adapter

variable (stream : BitVec 64 → List Char)

/-- `R:`, the values without their version, and a newline. -/
def rowText (values : List Value) : Option (List Char) :=
  (values.mapM fun value => (valueWire stream value).map (List.drop 3)).map fun fields =>
    "R:".toList ++ ['|'].intercalate fields ++ ['\n']

/-- `append_query_row_wire`. -/
def appendQueryRowWire (context : WireContext) (columns : List Bytes) (values : List Value) :
    WireContext × RowVerdict :=
  let ready : Option WireContext :=
    if context.namesReady then
      if context.columnCount ≠ columns.length then none else some context
    else setQueryColumnNames context columns
  -- without columns there is no array of values
  if values = [] then (context, .stop)
  else match ready with
  | none => ({ context with failed := true }, .stop)
  | some context =>
      if context.maxRows ≤ context.returnedRows then ({ context with truncated := true }, .stop)
      else
        match rowText stream values with
        | none => ({ context with failed := true }, .stop)
        | some row =>
            if queryResultWireMaxBytes < context.names.length + context.rows.length + row.length +
                queryResultHeaderMaxBytes then
              ({ context with truncated := true }, .stop)
            else
              ({ context with
                  rows := context.rows ++ row, returnedRows := context.returnedRows + 1 },
                .proceed)

/-- The context after the callback was shown some rows. -/
def shownRows (columns : List Bytes) (context : WireContext) (rows : List (List Value)) :
    WireContext :=
  rows.foldl (fun context values => (appendQueryRowWire stream context columns values).1) context

/-- The context at the first step: the names of the statement that is prepared for them. -/
def primed {C : Type} (engine : Engine C) (content : C) (sql : Bytes) (maxRows : ℕ) : WireContext :=
  match engine content sql with
  | .ok (some p, _) =>
      (setQueryColumnNames (.empty maxRows) p.columns).getD
        { WireContext.empty maxRows with failed := true }
  | _ => .empty maxRows

/-- The call of `esdb_query`, with the callback over the rows before each one. -/
def wireCall (context : WireContext) (sql : Bytes) (parameters : List Value)
    (rows : List (List Value)) : Call where
  sql := some sql
  parameters := if parameters = [] then none else some fun i => parameters[i]?
  parameterCount := parameters.length
  callback := some fun columns n values =>
    (appendQueryRowWire stream (shownRows stream columns context (rows.take n)) columns values).2

/-- The rows that a call comes to, as values. -/
def callRows {C : Type} (engine : Engine C) (call : Call) (content : C) : List (List Value) :=
  match prepareCall engine call content with
  | .ok (p, cells) => (p.run cells content).rows.map fun row => row.map Cell.value
  | .error _ => []

def resultHeader (context : WireContext) (totalRows changes : ℕ) : List Char :=
  "Q1:".toList ++ natText context.columnCount ++ ':' :: natText context.returnedRows ++
    ':' :: natText totalRows ++ ':' :: natText changes ++
    [':', if context.truncated || decide (context.returnedRows < totalRows) then '1' else '0',
      '\n']

/-- What `querySql` returns once the runtime has answered; nothing when a row had no text. -/
def queryReply (context : WireContext) (totalRows changes : ℕ) : Option (List Char) :=
  if context.failed then none
  else
    let context :=
      if context.namesReady then context
      else { context with names := "N:\n".toList, columnCount := 0 }
    some (resultHeader context totalRows changes ++ context.names ++ context.rows)

/-- `querySql`, on its decoded arguments and an open database; no text where it fails. -/
def querySql {C : Type} (engine : Engine C) (mem : Memory) (sql : Bytes) (parameters : List Value)
    (maxRows : ℕ) (st : Query.State C) : Option (List Char) × Query.State C :=
  if queryRowMax < maxRows then (none, st)
  else
    let context := primed engine st.content sql maxRows
    let rows := callRows engine (wireCall stream context sql parameters []) st.content
    let answer := query engine mem (wireCall stream context sql parameters rows) st
    match answer.outcome with
    | .error _ => (none, answer.state)
    | .ok (totalRows, changes) =>
        let columns :=
          match engine st.content sql with
          | .ok (some p, _) => p.columns
          | _ => []
        (queryReply (shownRows stream columns context answer.handed) totalRows changes, answer.state)

end Adapter

/-! ## The script's side -/

structure QueryResult (D S : Type) where
  columns : List (List ℕ)
  rows : List (List (StoreValue D S))
  returnedRowCount : ℤ
  totalRowCount : Int64Value
  changes : Int64Value
  truncated : Bool

section Script

variable {D S : Type} (host : Host D S)

def maxRevision : List Char := "9223372036854775807".toList

def parseQueryValueField (field : List Char) : Except String (StoreValue D S) :=
  if ':' ∉ field ∨ Delimited.field ':' field = [] then .error "malformed SQL row value"
  else
    match (scriptNumber host (Delimited.field ':' field)).within 0 Value.object with
    | none => .error "invalid SQL row value type"
    | some type => decodeStoreValue host ⟨true, type, behind ':' field⟩

def parseColumns (columnCount : ℤ) (names : List Char) : Except String (List (List ℕ)) :=
  if 0 < columnCount then
    if ((names.splitOn '|').length : ℤ) ≠ columnCount then
      .error "SQL query column count does not match metadata"
    else (names.splitOn '|').mapM utf8FromHex
  else if names ≠ [] then .error "zero-column SQL result contains column metadata"
  else .ok []

def parseRow (columnCount : ℤ) (line : List Char) : Except String (List (StoreValue D S)) :=
  if line.take 2 ≠ "R:".toList then .error "malformed SQL query row"
  else if (((line.drop 2).splitOn '|').length : ℤ) ≠ columnCount then
    .error "SQL row column count does not match metadata"
  else ((line.drop 2).splitOn '|').mapM (parseQueryValueField host)

def parseQueryResultWire (wire : List Char) : Except String (QueryResult D S) :=
  match wire.splitOn '\n' with
  | [] => .error "invalid SQL query wire version"
  | head :: lines =>
      if head.take 3 ≠ "Q1:".toList then .error "invalid SQL query wire version"
      else
        match (head.drop 3).splitOn ':' with
        | [columnText, returnedText, totalText, changesText, flag] =>
            match (scriptNumber host columnText).within 0 32767,
              (scriptNumber host returnedText).within 0 10000 with
            | none, _ => .error "invalid SQL query column count"
            | some _, none => .error "invalid SQL query returned-row count"
            | some columnCount, some returnedCount => do
                let totalRows ← canonicalUnsigned totalText maxRevision
                let changes ← canonicalUnsigned changesText maxRevision
                if flag ≠ ['0'] ∧ flag ≠ ['1'] then .error "invalid SQL query truncation flag"
                else
                  match lines with
                  | [] => .error "SQL query result is missing column metadata"
                  | names :: body =>
                      if names.take 2 ≠ "N:".toList then
                        .error "SQL query result is missing column metadata"
                      else do
                        let columns ← parseColumns columnCount (names.drop 2)
                        let rows ← (body.filter (· ≠ [])).mapM (parseRow host columnCount)
                        if (rows.length : ℤ) ≠ returnedCount then
                          .error "SQL returned-row count does not match payload"
                        else do
                          let total ← newInt64Value totalRows
                          let changed ← newInt64Value changes
                          .ok ⟨columns, rows, returnedCount, total, changed, flag = ['1']⟩
        | _ => .error "malformed SQL query header"

end Script

/-! ## Collecting -/

section Collecting

variable (stream : BitVec 64 → List Char) (columns : List Bytes) (maxRows : ℕ)

/-- The text of rows that are in. -/
def bodyText (rows : List (List Value)) : List Char :=
  rows.flatMap fun values => (rowText stream values).getD []

/-- A row the runtime hands over, when none of its values is a double. -/
structure SimpleRow (values : List Value) : Prop where
  nonempty : values ≠ []
  width : values.length = columns.length
  simple : ∀ value ∈ values, Simple value

/-- The context holds the names and the rows that were taken, within both limits. -/
structure Collected (context : WireContext) (taken : List (List Value)) : Prop where
  names : context.names = namesText columns
  columnCount : context.columnCount = columns.length
  ready : context.namesReady = true
  failed : context.failed = false
  limit : context.maxRows = maxRows
  returned : context.returnedRows = taken.length
  bounded : taken.length ≤ maxRows
  rows : context.rows = bodyText stream taken
  size : context.names.length + context.rows.length + queryResultHeaderMaxBytes ≤
    queryResultWireMaxBytes
  simple : ∀ values ∈ taken, SimpleRow columns values

variable {stream columns maxRows}

/-- The field of a simple value in a row. -/
theorem field_simple {D S : Type} (host : Host D S) {value : Value} (h : Simple value) :
    ∃ (field : List Char) (shown : StoreValue D S),
      ((valueWire stream value).map (List.drop 3)) = some field ∧
        '|' ∉ field ∧ '\n' ∉ field ∧ parseQueryValueField host field = .ok shown ∧
        Shown value shown := by
  obtain ⟨payload, shown, hpayload, hchars, hdecode, hshown⟩ :=
    decodeStoreValue_payload (D := D) (S := S) stream h
  have hnotMem {c : Char} (hc : ¬PayloadChar c) (hd : c.isDigit = false) (hcolon : c ≠ ':') :
      c ∉ natText value.type ++ ':' :: payload := by
    intro hmem
    rcases List.mem_append.mp hmem with hmem | hmem
    · rw [isDigit_natText hmem] at hd
      cases hd
    · rcases List.mem_cons.mp hmem with hmem | hmem
      · exact hcolon hmem
      · exact hc (hchars c hmem)
  refine ⟨natText value.type ++ ':' :: payload, shown, ?_, ?_, ?_, ?_, hshown⟩
  · rw [valueWire, hpayload, Option.map_some, Option.map_some, drop_valueLine]
  · exact hnotMem (by decide) (by decide) (by decide)
  · exact hnotMem (by decide) (by decide) (by decide)
  · have hsmall : value.type ≤ maxSafeInteger := h.type_le.trans (by decide)
    have hrange : (0 : ℤ) ≤ value.type ∧ (value.type : ℤ) ≤ Value.object :=
      ⟨Int.natCast_nonneg _, by exact_mod_cast h.type_le⟩
    rw [parseQueryValueField, field_append colon_notMem_natText,
      behind_append colon_notMem_natText, if_neg (by simp [natText_ne_nil]),
      scriptNumber_natText hsmall, Number.within, if_pos hrange]
    exact hdecode

theorem rowText_simple {values : List Value} (h : ∀ value ∈ values, Simple value) :
    ∃ row, rowText stream values = some row := by
  suffices hfields : ∃ fields,
      (values.mapM fun value => (valueWire stream value).map (List.drop 3)) = some fields by
    obtain ⟨fields, hfields⟩ := hfields
    exact ⟨_, by rw [rowText, hfields]; rfl⟩
  induction values with
  | nil => exact ⟨[], rfl⟩
  | cons value values ih =>
      obtain ⟨hvalue, hvalues⟩ := List.forall_mem_cons.mp h
      obtain ⟨fields, hfields⟩ := ih hvalues
      let host : Host Unit Unit := ⟨fun _ => .nan, fun _ _ => .ok ()⟩
      obtain ⟨field, -, hfield, -⟩ := field_simple host hvalue
      exact ⟨field :: fields, by rw [List.mapM_cons, hfield, hfields]; rfl⟩

/-- The callback on a context with names and a row that has a text. -/
theorem appendQueryRowWire_ready {context : WireContext} {values : List Value} {row : List Char}
    (hready : context.namesReady = true) (hcount : context.columnCount = columns.length)
    (hne : values ≠ []) (hrow : rowText stream values = some row) :
    appendQueryRowWire stream context columns values =
      if context.maxRows ≤ context.returnedRows then ({ context with truncated := true }, .stop)
      else if queryResultWireMaxBytes < context.names.length + context.rows.length + row.length +
          queryResultHeaderMaxBytes then
        ({ context with truncated := true }, .stop)
      else
        ({ context with
            rows := context.rows ++ row, returnedRows := context.returnedRows + 1 }, .proceed) := by
  have hsome : (if context.namesReady = true then
      if context.columnCount ≠ columns.length then none else some context
      else setQueryColumnNames context columns) = some context := by
    rw [if_pos hready, if_neg (fun h => h hcount)]
  simp only [appendQueryRowWire, if_neg hne, hsome, hrow]

/-- A simple row is taken, or the callback asks for no more and the row is left out. -/
theorem Collected.append {context : WireContext} {taken : List (List Value)} {values : List Value}
    (h : Collected stream columns maxRows context taken) (hrow : SimpleRow columns values) :
    let r := appendQueryRowWire stream context columns values
    r.2 = .proceed ∧ Collected stream columns maxRows r.1 (taken ++ [values]) ∧
        r.1.truncated = context.truncated ∨
      r.2 = .stop ∧ Collected stream columns maxRows r.1 taken := by
  obtain ⟨row, hrowText⟩ := rowText_simple hrow.simple
  rw [appendQueryRowWire_ready h.ready h.columnCount hrow.nonempty hrowText]
  by_cases hlimit : context.maxRows ≤ context.returnedRows
  · rw [if_pos hlimit]
    exact .inr ⟨rfl, { h with }⟩
  rw [if_neg hlimit]
  by_cases hsize : queryResultWireMaxBytes < context.names.length + context.rows.length +
      row.length + queryResultHeaderMaxBytes
  · rw [if_pos hsize]
    exact .inr ⟨rfl, { h with }⟩
  rw [if_neg hsize]
  rw [h.limit, h.returned] at hlimit
  refine .inl ⟨rfl, ?_, rfl⟩
  exact
    { names := h.names
      columnCount := h.columnCount
      ready := h.ready
      failed := h.failed
      limit := h.limit
      returned := by rw [List.length_append, List.length_singleton, h.returned]
      bounded := by
        rw [List.length_append, List.length_singleton]
        omega
      rows := by
        rw [bodyText, List.flatMap_append, List.flatMap_singleton, hrowText, h.rows]
        rfl
      size := by
        dsimp only
        rw [List.length_append]
        omega
      simple := by
        intro v hv
        rcases List.mem_append.mp hv with hv | hv
        · exact h.simple v hv
        · rw [List.mem_singleton.mp hv]
          exact hrow }

theorem appendQueryRowWire_nil (context : WireContext) :
    appendQueryRowWire stream context columns [] = (context, .stop) := by
  simp [appendQueryRowWire]

theorem shownRows_concat (context : WireContext) (rows : List (List Value)) (values : List Value) :
    shownRows stream columns context (rows ++ [values]) =
      (appendQueryRowWire stream (shownRows stream columns context rows) columns values).1 := by
  rw [shownRows, List.foldl_append]
  rfl

theorem appendLe64_toInt (bits : BitVec 64) :
    (⟨Value.int64, appendLe64 bits⟩ : Value) = createInt64 bits.toInt ∧ isInt64 bits.toInt := by
  have hlt := bits.isLt
  have hcast : bits.toInt % 2 ^ 64 = (bits.toNat : ℤ) := by
    rw [BitVec.toInt_eq_toNat_cond]
    split_ifs <;> omega
  refine ⟨?_, BitVec.le_toInt bits, BitVec.toInt_lt⟩
  rw [appendLe64_eq, createInt64, toUnsigned, hcast, Int.toNat_natCast]

/-- A row that was decoded for the callback is simple when it holds no double. -/
theorem simpleRow_decoded {mem : ℕ → CellMemory} {row : List Cell} {values : List Value}
    (hwidth : row.length = columns.length) (hne : row ≠ [])
    (hreal : ∀ bits, Cell.float bits ∉ row) {column : ℕ}
    (h : decodeRow mem column row = .ok values) : SimpleRow columns values := by
  have hvalues := decodeRow_ok h
  refine ⟨?_, ?_, ?_⟩
  · rw [hvalues]
    exact fun hnil => hne (List.map_eq_nil_iff.mp hnil)
  · rw [hvalues, List.length_map, hwidth]
  · clear hvalues hwidth hne
    induction row generalizing column values with
    | nil =>
        cases h
        exact List.forall_mem_nil _
    | cons cell row ih =>
        unfold decodeRow at h
        cases hcell : columnValue (mem column) cell with
        | error e =>
            rw [hcell] at h
            cases h
        | ok value =>
            cases hrest : decodeRow mem (column + 1) row with
            | error e =>
                rw [hcell, hrest] at h
                cases h
            | ok rest =>
                rw [hcell, hrest] at h
                cases h
                refine List.forall_mem_cons.mpr ⟨?_, ih (fun bits hb =>
                  hreal bits (List.mem_cons_of_mem _ hb)) hrest⟩
                have hvalue := columnValue_ok hcell
                cases cell with
                | null => exact .inl hvalue
                | integer bits =>
                    obtain ⟨heq, hrange⟩ := appendLe64_toInt bits
                    exact .inr (.inr (.inr (.inl ⟨bits.toInt, hrange, hvalue.trans heq⟩)))
                | float bits => exact absurd List.mem_cons_self (hreal bits)
                | blob bytes => exact .inr (.inr (.inr (.inr (.inl ⟨bytes, hvalue⟩))))
                | text bytes =>
                    refine .inr (.inr (.inr (.inr (.inr ⟨bytes, ?_, hvalue⟩))))
                    rw [← validUtf8_iff]
                    cases hvalid : Esdb.validUtf8 bytes with
                    | true => rfl
                    | false =>
                        unfold columnValue createColumn at hcell
                        simp only [hvalid] at hcell
                        split at hcell <;> cases hcell

/-- The loop of the runtime over the rows still to come, once those before it were taken: the
callback takes some more of them in order, and all of them unless it refuses one. -/
theorem stepRows_collected {mem : Memory} {start : WireContext} {rows : List (List Cell)}
    (hwidth : ∀ row ∈ rows, row.length = columns.length)
    (hreal : ∀ row ∈ rows, ∀ bits, Cell.float bits ∉ row)
    (pre : List (List Cell)) {rest : List (List Cell)} (hrows : rows = pre ++ rest)
    (hpre : Collected stream columns maxRows
      (shownRows stream columns start (pre.map (·.map Cell.value))) (pre.map (·.map Cell.value)))
    (hfull : (shownRows stream columns start (pre.map (·.map Cell.value))).truncated = false) :
    let stepped := stepRows mem (fun n values => (appendQueryRowWire stream
      (shownRows stream columns start ((rows.map (·.map Cell.value)).take n)) columns values).2)
      rest pre.length true (pre.map (·.map Cell.value))
    stepped.failure = none →
      ∃ taken, taken <+: rows.map (·.map Cell.value) ∧
        Collected stream columns maxRows (shownRows stream columns start stepped.handed) taken ∧
        ((shownRows stream columns start stepped.handed).truncated = true →
          taken.length < rows.length) := by
  induction rest generalizing pre with
  | nil =>
      intro stepped _
      rw [List.append_nil] at hrows
      have hhanded : stepped.handed = pre.map (·.map Cell.value) := rfl
      rw [hhanded]
      refine ⟨_, ?_, hpre, ?_⟩
      · rw [hrows]
      · intro htrue
        exact absurd (hfull.symm.trans htrue) Bool.false_ne_true
  | cons row rest ih =>
      have hmem : row ∈ rows := by
        rw [hrows]
        exact List.mem_append_right _ List.mem_cons_self
      have htake : (rows.map (·.map Cell.value)).take pre.length = pre.map (·.map Cell.value) := by
        rw [hrows, List.map_append, List.take_left' (List.length_map _)]
      have hprefix : pre.map (·.map Cell.value) <+: rows.map (·.map Cell.value) := by
        rw [hrows, List.map_append]
        exact List.prefix_append ..
      have hshort : (pre.map (·.map Cell.value)).length < rows.length := by
        rw [hrows, List.length_map, List.length_append, List.length_cons]
        omega
      dsimp only
      rw [stepRows]
      cases hdecode : decodeRow (mem.cell pre.length) 0 row with
      | error e => exact fun h => by cases h
      | ok values =>
          have hvalues := decodeRow_ok hdecode
          simp only [htake]
          by_cases hne : row = []
          · have hnil : values = [] := by rw [hvalues, hne]; rfl
            rw [hnil, appendQueryRowWire_nil]
            simp only [stepRows_undelivered]
            intro _
            rw [shownRows_concat, appendQueryRowWire_nil]
            exact ⟨_, hprefix, hpre, fun htrue =>
              absurd (hfull.symm.trans htrue) Bool.false_ne_true⟩
          have hrow := simpleRow_decoded (hwidth row hmem) hne (hreal row hmem) hdecode
          have hconcat : pre.map (·.map Cell.value) ++ [values] =
              (pre ++ [row]).map (·.map Cell.value) := by
            rw [List.map_append, hvalues]
            rfl
          rcases hpre.append hrow with ⟨hverdict, hcollected, htruncated⟩ | ⟨hverdict, hcollected⟩
          · rw [hverdict]
            rw [← shownRows_concat, hconcat] at hcollected
            rw [← shownRows_concat, hconcat, hfull] at htruncated
            have hlength : pre.length + 1 = (pre ++ [row]).length := by simp
            rw [hconcat, hlength]
            exact ih _ (by rw [hrows, List.append_assoc]; rfl) hcollected htruncated
          · rw [hverdict]
            simp only [stepRows_undelivered]
            intro _
            rw [shownRows_concat]
            exact ⟨_, hprefix, hcollected, fun _ => hshort⟩

end Collecting

/-! ## Decoding -/

theorem mapM_ok {α β ε : Type} {f : α → Except ε β} {l : List α} {out : List β}
    (h : List.Forall₂ (fun a b => f a = .ok b) l out) : l.mapM f = .ok out := by
  induction h with
  | nil => rfl
  | cons hab _ ih =>
      rw [List.mapM_cons, hab, ih]
      rfl

section Decoding

variable {D S : Type} {stream : BitVec 64 → List Char} (host : Host D S) {columns : List Bytes}

/-- The line of a simple row is read as values that show it. -/
theorem parseRow_rowText {values : List Value} (h : SimpleRow columns values) :
    ∃ (line : List Char) (shown : List (StoreValue D S)),
      rowText stream values = some (line ++ ['\n']) ∧ line ≠ [] ∧ '\n' ∉ line ∧
        parseRow host columns.length line = .ok shown ∧ List.Forall₂ Shown values shown := by
  obtain ⟨fields, shown, hfields, hlength, hbar, hnewline, hread, hshown⟩ :
      ∃ (fields : List (List Char)) (shown : List (StoreValue D S)),
        (values.mapM fun value => (valueWire stream value).map (List.drop 3)) = some fields ∧
          fields.length = values.length ∧ (∀ field ∈ fields, '|' ∉ field) ∧
          (∀ field ∈ fields, '\n' ∉ field) ∧
          List.Forall₂ (fun field value => parseQueryValueField host field = .ok value)
            fields shown ∧ List.Forall₂ Shown values shown := by
    have hsimple := h.simple
    clear h
    induction values with
    | nil => exact ⟨[], [], rfl, rfl, List.forall_mem_nil _, List.forall_mem_nil _, .nil, .nil⟩
    | cons value values ih =>
        obtain ⟨hvalue, hvalues⟩ := List.forall_mem_cons.mp hsimple
        obtain ⟨fields, shown, hfields, hlength, hbar, hnewline, hread, hshown⟩ := ih hvalues
        obtain ⟨field, sv, hfield, hfbar, hfnewline, hfread, hfshown⟩ :=
          field_simple host hvalue
        exact ⟨field :: fields, sv :: shown, by rw [List.mapM_cons, hfield, hfields]; rfl,
          by rw [List.length_cons, List.length_cons, hlength],
          List.forall_mem_cons.mpr ⟨hfbar, hbar⟩, List.forall_mem_cons.mpr ⟨hfnewline, hnewline⟩,
          .cons hfread hread, .cons hfshown hshown⟩
  have hne : fields ≠ [] := by
    intro hnil
    rw [hnil] at hlength
    exact h.nonempty (List.length_eq_zero_iff.mp hlength.symm)
  have hsplit := List.splitOn_intercalate '|' hbar hne
  have hdrop : ("R:".toList ++ ['|'].intercalate fields).drop 2 = ['|'].intercalate fields := rfl
  refine ⟨"R:".toList ++ ['|'].intercalate fields, shown, ?_, List.cons_ne_nil _ _, ?_, ?_, hshown⟩
  · rw [rowText, hfields, Option.map_some]
  · rw [List.mem_append, not_or]
    exact ⟨by decide, notMem_intercalate (by decide) hnewline⟩
  · have hhead : ("R:".toList ++ ['|'].intercalate fields).take 2 = "R:".toList := rfl
    have hcount : (fields.length : ℤ) = columns.length := by rw [hlength, h.width]
    rw [parseRow, hhead, if_neg (fun hne => hne rfl), hdrop, hsplit,
      if_neg (fun hne => hne hcount), mapM_ok hread]

theorem parseRows_bodyText {taken : List (List Value)}
    (h : ∀ values ∈ taken, SimpleRow columns values) :
    ∃ (lines : List (List Char)) (shown : List (List (StoreValue D S))),
      bodyText stream taken = lines.flatMap (· ++ ['\n']) ∧ (∀ line ∈ lines, line ≠ []) ∧
        (∀ line ∈ lines, '\n' ∉ line) ∧
        List.Forall₂ (fun line values => parseRow host columns.length line = .ok values)
          lines shown ∧ List.Forall₂ (List.Forall₂ Shown) taken shown := by
  induction taken with
  | nil => exact ⟨[], [], rfl, List.forall_mem_nil _, List.forall_mem_nil _, .nil, .nil⟩
  | cons values taken ih =>
      obtain ⟨hvalues, htaken⟩ := List.forall_mem_cons.mp h
      obtain ⟨lines, shown, hbody, hne, hnewline, hread, hshown⟩ := ih htaken
      obtain ⟨line, sv, hline, hlne, hlnewline, hlread, hlshown⟩ :=
        parseRow_rowText host hvalues
      refine ⟨line :: lines, sv :: shown, ?_, List.forall_mem_cons.mpr ⟨hlne, hne⟩,
        List.forall_mem_cons.mpr ⟨hlnewline, hnewline⟩, .cons hlread hread, .cons hlshown hshown⟩
      have hcons : bodyText stream (values :: taken) =
          (rowText stream values).getD [] ++ bodyText stream taken := List.flatMap_cons
      rw [hcons, hline, hbody, List.flatMap_cons]
      rfl

/-- The name of a column and the string the script has for it. -/
def SameText (name : Bytes) (text : List ℕ) : Prop :=
  ∃ cs : List Char, name = cs.flatMap String.utf8EncodeChar ∧
    text = cs.flatMap fun c => units c.toNat

theorem parseColumns_namesText (h : ∀ name ∈ columns, Utf8.WellFormed name) :
    ∃ texts, parseColumns columns.length (['|'].intercalate (columns.map upperHex)) = .ok texts ∧
      List.Forall₂ SameText columns texts := by
  obtain ⟨texts, hread, hsame⟩ : ∃ texts,
      List.Forall₂ (fun hex text => utf8FromHex hex = .ok text) (columns.map upperHex) texts ∧
        List.Forall₂ SameText columns texts := by
    induction columns with
    | nil => exact ⟨[], .nil, .nil⟩
    | cons name columns ih =>
        obtain ⟨⟨cs, hname⟩, hcolumns⟩ := List.forall_mem_cons.mp h
        obtain ⟨texts, hread, hsame⟩ := ih hcolumns
        refine ⟨_ :: texts, .cons ?_ hread, .cons ⟨cs, hname, rfl⟩ hsame⟩
        rw [hname, utf8FromHex_text]
  refine ⟨texts, ?_, hsame⟩
  unfold parseColumns
  by_cases hnil : columns = []
  · rw [hnil] at hread ⊢
    cases hread
    rfl
  · have hbar : ∀ hex ∈ columns.map upperHex, '|' ∉ hex := by
      intro hex hmem hbar
      obtain ⟨name, -, rfl⟩ := List.mem_map.mp hmem
      exact absurd (nibble_upperHex hbar) (by decide)
    have hpos : (0 : ℤ) < columns.length := by
      exact_mod_cast List.length_pos_of_ne_nil hnil
    rw [if_pos hpos, List.splitOn_intercalate '|' hbar (by simpa using hnil),
      if_neg (by rw [List.length_map]; exact fun hne => hne rfl), mapM_ok hread]

/-- The head of a result: the counts and whether rows were left out. -/
def resultHead (columnCount returned totalRows changes : ℕ) : List Char :=
  "Q1:".toList ++ [':'].intercalate [natText columnCount, natText returned, natText totalRows,
    natText changes, [if returned < totalRows then '1' else '0']]

/-- The text of a result: its head, the names, and the rows. -/
def resultText (stream : BitVec 64 → List Char) (columns : List Bytes) (taken : List (List Value))
    (totalRows changes : ℕ) : List Char :=
  resultHead columns.length taken.length totalRows changes ++ ['\n'] ++
    (namesText columns ++ bodyText stream taken)

theorem newline_notMem_resultHead (columnCount returned totalRows changes : ℕ) :
    '\n' ∉ resultHead columnCount returned totalRows changes := by
  rw [resultHead, List.mem_append, not_or]
  refine ⟨by decide, notMem_intercalate (by decide) ?_⟩
  simp only [List.forall_mem_cons, newline_notMem_natText, not_false_eq_true, true_and]
  split_ifs <;> decide

theorem splitOn_resultHead (columnCount returned totalRows changes : ℕ) :
    ((resultHead columnCount returned totalRows changes).drop 3).splitOn ':' =
      [natText columnCount, natText returned, natText totalRows, natText changes,
        [if returned < totalRows then '1' else '0']] := by
  refine List.splitOn_intercalate ':' ?_ (List.cons_ne_nil _ _)
  simp only [List.forall_mem_cons, colon_notMem_natText, not_false_eq_true, true_and]
  split_ifs <;> decide

theorem splitOn_resultText {stream : BitVec 64 → List Char} {columns : List Bytes}
    {taken : List (List Value)} {lines : List (List Char)}
    (hbody : bodyText stream taken = lines.flatMap (· ++ ['\n']))
    (hnewline : ∀ line ∈ lines, '\n' ∉ line) (totalRows changes : ℕ) :
    (resultText stream columns taken totalRows changes).splitOn '\n' =
      resultHead columns.length taken.length totalRows changes ::
        ("N:".toList ++ ['|'].intercalate (columns.map upperHex)) :: (lines ++ [[]]) := by
  have hnames : '\n' ∉ "N:".toList ++ ['|'].intercalate (columns.map upperHex) := by
    rw [List.mem_append, not_or]
    refine ⟨by decide, notMem_intercalate (by decide) fun hex hmem => ?_⟩
    obtain ⟨name, -, rfl⟩ := List.mem_map.mp hmem
    exact newline_notMem_upperHex
  generalize hn : "N:".toList ++ ['|'].intercalate (columns.map upperHex) = names at hnames
  have htext : resultText stream columns taken totalRows changes = ['\n'].intercalate
      (resultHead columns.length taken.length totalRows changes :: ((names :: lines) ++ [[]])) := by
    rw [intercalate_cons, led_closed, List.flatMap_cons, ← hbody, resultText, namesText, hn,
      List.append_assoc]
    rfl
  rw [htext]
  refine List.splitOn_intercalate '\n' ?_ (List.cons_ne_nil _ _)
  rw [List.forall_mem_cons, List.forall_mem_append, List.forall_mem_cons]
  exact ⟨newline_notMem_resultHead _ _ _ _, ⟨hnames, hnewline⟩, by simp⟩

/-- The script reads the text of a result as that result. -/
theorem parseQueryResultWire_resultText {taken : List (List Value)} {totalRows changes : ℕ}
    (hcolumns : columns.length ≤ 32767) (hnames : ∀ name ∈ columns, Utf8.WellFormed name)
    (htaken : ∀ values ∈ taken, SimpleRow columns values) (hrows : taken.length ≤ 10000)
    (htotal : totalRows ≤ 9223372036854775807) (hchanges : changes ≤ 9223372036854775807) :
    ∃ result : QueryResult D S,
      parseQueryResultWire host (resultText stream columns taken totalRows changes) = .ok result ∧
        List.Forall₂ SameText columns result.columns ∧
        List.Forall₂ (List.Forall₂ Shown) taken result.rows ∧
        result.returnedRowCount = taken.length ∧
        result.totalRowCount.text = natText totalRows ∧ result.changes.text = natText changes ∧
        (result.truncated = true ↔ taken.length < totalRows) := by
  obtain ⟨texts, hparseColumns, hsame⟩ := parseColumns_namesText hnames
  obtain ⟨lines, shown, hbody, hne, hnewline, hread, hshown⟩ :=
    parseRows_bodyText host htaken
  have hfilter : (lines ++ [[]]).filter (· ≠ []) = lines := by
    rw [List.filter_append, List.filter_eq_self.mpr (by simpa using hne)]
    simp
  have hcount : (shown.length : ℤ) = taken.length := by rw [hshown.length_eq]
  obtain ⟨total, htotalNew, htotalText⟩ := newInt64Value_intText (v := totalRows)
    ⟨by omega, by omega⟩
  obtain ⟨changed, hchangedNew, hchangedText⟩ := newInt64Value_intText (v := changes)
    ⟨by omega, by omega⟩
  rw [intText_nonneg (Int.natCast_nonneg _), Int.toNat_natCast] at htotalNew htotalText
  rw [intText_nonneg (Int.natCast_nonneg _), Int.toNat_natCast] at hchangedNew hchangedText
  have hmax : maxRevision = natText 9223372036854775807 := by decide
  have hunsigned {n : ℕ} (h : n ≤ 9223372036854775807) :
      canonicalUnsigned (natText n) maxRevision = .ok (natText n) := by
    rw [hmax, canonicalUnsigned_natText, if_neg (by omega)]
  have hcolumnNumber : (scriptNumber host (natText columns.length)).within 0 32767 =
      some (columns.length : ℤ) := by
    rw [scriptNumber_natText (hcolumns.trans (by decide)), Number.within, if_pos (by omega)]
  have hreturnedNumber : (scriptNumber host (natText taken.length)).within 0 10000 =
      some (taken.length : ℤ) := by
    rw [scriptNumber_natText (hrows.trans (by decide)), Number.within, if_pos (by omega)]
  refine ⟨⟨texts, shown, taken.length, total, changed,
    decide ([if taken.length < totalRows then '1' else '0'] = ['1'])⟩, ?_, hsame, hshown, rfl,
    htotalText, hchangedText, ?_⟩
  · have hdropNames : ("N:".toList ++ ['|'].intercalate (columns.map upperHex)).drop 2 =
        ['|'].intercalate (columns.map upperHex) := rfl
    unfold parseQueryResultWire
    rw [splitOn_resultText hbody hnewline]
    dsimp only
    rw [if_neg (fun hne => hne rfl), splitOn_resultHead]
    dsimp only
    rw [hcolumnNumber, hreturnedNumber, hunsigned htotal, hunsigned hchanges]
    dsimp only [Bind.bind, Except.bind]
    rw [if_neg (by split_ifs <;> decide), if_neg (fun hne => hne rfl), hdropNames, hparseColumns,
      hfilter, mapM_ok hread, htotalNew, hchangedNew]
    dsimp only
    rw [if_neg (fun hne => hne hcount)]
  · split_ifs <;> simp_all

end Decoding

/-! ## The whole call -/

section Call

variable {C D S : Type} {stream : BitVec 64 → List Char} {engine : Engine C} {mem : Memory}
  {sql : Bytes} {parameters : List Value} {maxRows : ℕ} {st : Query.State C} {p : Prepared C}
  {cells : List Cell}

/-- What SQLite grants of a result: names in UTF-8, at most its largest number of columns, and
counts in its own range; and no value is a double. -/
structure PlainResult (p : Prepared C) (x : Execution C) : Prop where
  columns : p.columns.length ≤ 32767
  names : ∀ name ∈ p.columns, Utf8.WellFormed name
  real : ∀ row ∈ x.rows, ∀ bits, Cell.float bits ∉ row
  rows : x.rows.length ≤ 9223372036854775807
  changes : x.changes ≤ 9223372036854775807

/-- A context that has failed stays so. -/
theorem appendQueryRowWire_failed {columns : List Bytes} {context : WireContext}
    (h : context.failed = true) (values : List Value) :
    (appendQueryRowWire stream context columns values).1.failed = true := by
  unfold appendQueryRowWire
  dsimp only
  generalize hready : (if context.namesReady = true then
    if context.columnCount ≠ columns.length then none else some context
    else setQueryColumnNames context columns) = ready
  by_cases hnil : values = []
  · rw [if_pos hnil]
    exact h
  rw [if_neg hnil]
  cases ready with
  | none => rfl
  | some next =>
      have hnext : next.failed = true := by
        unfold setQueryColumnNames at hready
        split_ifs at hready
        all_goals
          obtain rfl := Option.some.inj hready
          exact h
      dsimp only
      by_cases hlimit : next.maxRows ≤ next.returnedRows
      · rw [if_pos hlimit]
        exact hnext
      · rw [if_neg hlimit]
        cases rowText stream values with
        | none => rfl
        | some row =>
            dsimp only
            split_ifs
            · exact hnext
            · exact hnext

theorem shownRows_failed {columns : List Bytes} {context : WireContext}
    (h : context.failed = true) (rows : List (List Value)) :
    (shownRows stream columns context rows).failed = true := by
  induction rows using List.reverseRecOn with
  | nil => exact h
  | append_singleton rows values ih =>
      rw [shownRows_concat]
      exact appendQueryRowWire_failed ih values

theorem collected_start {columns : List Bytes} {start : WireContext}
    (h : setQueryColumnNames (.empty maxRows) columns = some start) :
    Collected stream columns maxRows start [] ∧ start.truncated = false := by
  unfold setQueryColumnNames at h
  split_ifs at h with hsize
  obtain rfl := Option.some.inj h
  refine ⟨⟨rfl, rfl, rfl, rfl, rfl, rfl, Nat.zero_le _, rfl, ?_, List.forall_mem_nil _⟩, rfl⟩
  exact Nat.not_lt.mp hsize

theorem queryReply_collected {columns : List Bytes} {context : WireContext}
    {taken : List (List Value)} (h : Collected stream columns maxRows context taken)
    (totalRows changes : ℕ) : queryReply context totalRows changes =
      some (resultHeader context totalRows changes ++ context.names ++ context.rows) := by
  simp only [queryReply, h.failed, h.ready, Bool.false_eq_true, if_false, if_true]

/-- What a call that succeeds has come to. -/
theorem runPrepared_ok {call : Call} {totalRows changes : ℕ}
    (h : (runPrepared mem call p cells st).outcome = .ok (totalRows, changes)) :
    let stepped := stepRows mem ((call.callback.getD fun _ _ _ => .stop) p.columns)
      (p.run cells st.content).rows 0 call.callback.isSome []
    mem.vectors = true ∧ stepped.failure = none ∧
      (runPrepared mem call p cells st).handed = stepped.handed ∧
      totalRows = (p.run cells st.content).rows.length ∧
      changes = if p.readonly then 0 else (p.run cells st.content).changes.toNat := by
  dsimp only
  generalize hstep : stepRows mem ((call.callback.getD fun _ _ _ => .stop) p.columns)
    (p.run cells st.content).rows 0 call.callback.isSome [] = stepped
  have hcount := (stepRows_call mem call p _ hstep.symm).2.1
  unfold runPrepared at h ⊢
  cases hvectors : mem.vectors with
  | false =>
      rw [hvectors] at h
      cases h
  | true =>
      simp only [hvectors, Bool.not_true, Bool.false_eq_true, if_false, hstep] at h ⊢
      cases hfailure : stepped.failure with
      | some e =>
          simp only [hfailure] at h
          cases h
      | none =>
          cases hcode : (p.run cells st.content).failure with
          | some code =>
              simp only [hfailure, hcode] at h
              cases h
          | none =>
              simp only [hfailure, hcode] at h ⊢
              obtain ⟨htotal, hchanges⟩ := Prod.mk.inj (Except.ok.inj h)
              exact ⟨trivial, trivial, trivial, by rw [← htotal, hcount hfailure], hchanges.symm⟩

/-- The call builds a text only out of a context that took some of the rows in order. -/
theorem querySql_collected
    (hprep : prepareCall engine (wireCall stream (primed engine st.content sql maxRows) sql
      parameters []) st.content = .ok (p, cells))
    (hwidth : ∀ row ∈ (p.run cells st.content).rows, row.length = p.columns.length)
    (hreal : ∀ row ∈ (p.run cells st.content).rows, ∀ bits, Cell.float bits ∉ row)
    {wire : List Char} (hwire : (querySql stream engine mem sql parameters maxRows st).1 = some wire) :
    ∃ context taken, maxRows ≤ queryRowMax ∧
      taken <+: (p.run cells st.content).rows.map (fun row => row.map Cell.value) ∧
      Collected stream p.columns maxRows context taken ∧
      (context.truncated = true → taken.length < (p.run cells st.content).rows.length) ∧
      wire = resultHeader context (p.run cells st.content).rows.length
        (if p.readonly then 0 else (p.run cells st.content).changes.toNat) ++
          context.names ++ context.rows := by
  obtain ⟨_, tail, hsql, hengine, -⟩ := (prepareCall_ok hprep).prepared
  obtain rfl := Option.some.inj hsql
  have hprimed : primed engine st.content sql maxRows =
      (setQueryColumnNames (.empty maxRows) p.columns).getD
        { WireContext.empty maxRows with failed := true } := by rw [primed, hengine]
  unfold querySql at hwire
  split_ifs at hwire with hmax
  dsimp only at hwire
  generalize hstart : primed engine st.content sql maxRows = start at hprep hprimed hwire
  have hrows : callRows engine (wireCall stream start sql parameters []) st.content =
      (p.run cells st.content).rows.map (·.map Cell.value) := by rw [callRows, hprep]
  have hprepared : prepareCall engine (wireCall stream start sql parameters
      ((p.run cells st.content).rows.map (·.map Cell.value))) st.content = .ok (p, cells) := hprep
  rw [hrows, query_prepared hprepared, hengine] at hwire
  dsimp only at hwire
  cases hout : (runPrepared mem (wireCall stream start sql parameters
      ((p.run cells st.content).rows.map (·.map Cell.value))) p cells st).outcome with
  | error e => simp [hout] at hwire
  | ok counts =>
      obtain ⟨totalRows, changes⟩ := counts
      obtain ⟨-, hfailure, hhanded, htotal, hchanges⟩ := runPrepared_ok hout
      simp only [hout, hhanded] at hwire
      cases hset : setQueryColumnNames (.empty maxRows) p.columns with
      | none =>
          rw [hset, Option.getD_none] at hprimed
          have hfailed : start.failed = true := by rw [hprimed]
          rw [queryReply, if_pos (shownRows_failed hfailed _)] at hwire
          cases hwire
      | some first =>
          rw [hset, Option.getD_some] at hprimed
          obtain ⟨hcollected, hfull⟩ := collected_start hset
          rw [← hprimed] at hcollected hfull
          obtain ⟨taken, hprefix, hend, htruncated⟩ := stepRows_collected
            hwidth hreal [] rfl hcollected hfull hfailure
          refine ⟨_, taken, Nat.not_lt.mp hmax, hprefix, hend, htruncated, ?_⟩
          rw [← htotal, ← hchanges]
          exact (Option.some.inj ((queryReply_collected hend totalRows changes).symm.trans hwire)).symm

theorem header_eq (a b c d : List Char) (flag : Char) :
    "Q1:".toList ++ a ++ ':' :: b ++ ':' :: c ++ ':' :: d ++ [':', flag, '\n'] =
      "Q1:".toList ++ [':'].intercalate [a, b, c, d, [flag]] ++ ['\n'] := by
  simp only [intercalate_cons, led_cons, led_nil, List.append_assoc, List.cons_append,
    List.nil_append]

/-- The head, when the context was only cut short by rows that the count shows. -/
theorem resultHeader_eq {context : WireContext} {totalRows : ℕ} (changes : ℕ)
    (h : context.truncated = true → context.returnedRows < totalRows) :
    resultHeader context totalRows changes =
      resultHead context.columnCount context.returnedRows totalRows changes ++ ['\n'] := by
  have hflag : (context.truncated || decide (context.returnedRows < totalRows)) =
      decide (context.returnedRows < totalRows) := by
    cases hcut : context.truncated with
    | false => rfl
    | true => rw [decide_eq_true (h hcut)]; rfl
  have heq := header_eq (natText context.columnCount) (natText context.returnedRows)
    (natText totalRows) (natText changes)
    (if decide (context.returnedRows < totalRows) then '1' else '0')
  unfold resultHeader resultHead
  rw [hflag]
  simp only [decide_eq_true_eq] at heq ⊢
  exact heq

theorem length_natText {n k : ℕ} (hk : 0 < k) (h : n < 10 ^ k) : (natText n).length ≤ k :=
  (Nat.length_toDigits_le_iff (by decide) hk).mpr h

theorem length_resultHead {columnCount returned totalRows changes : ℕ}
    (hcolumns : columnCount ≤ 32767) (hreturned : returned ≤ 10000)
    (htotal : totalRows ≤ 9223372036854775807) (hchanges : changes ≤ 9223372036854775807) :
    (resultHead columnCount returned totalRows changes).length + 1 ≤ queryResultHeaderMaxBytes := by
  have h₁ := length_natText (n := columnCount) (k := 5) (by decide) (by omega)
  have h₂ := length_natText (n := returned) (k := 5) (by decide) (by omega)
  have h₃ := length_natText (n := totalRows) (k := 19) (by decide) (by omega)
  have h₄ := length_natText (n := changes) (k := 19) (by decide) (by omega)
  have hhead : "Q1:".toList.length = 3 := rfl
  simp only [resultHead, intercalate_cons, led_cons, led_nil, List.length_append,
    List.length_cons, List.length_nil, hhead, queryResultHeaderMaxBytes]
  omega

/-- What the call returns is the text of the first rows, within the limits and with the true
counts, and the script reads it as that. -/
theorem result_wire (host : Host D S)
    (hprep : prepareCall engine (wireCall stream (primed engine st.content sql maxRows) sql
      parameters []) st.content = .ok (p, cells))
    (hplain : PlainResult p (p.run cells st.content)) {wire : List Char}
    (hwire : (querySql stream engine mem sql parameters maxRows st).1 = some wire) :
    ∃ (taken : List (List Value)) (result : QueryResult D S),
      taken <+: (p.run cells st.content).rows.map (fun row => row.map Cell.value) ∧
        taken.length ≤ maxRows ∧ wire.length ≤ queryResultWireMaxBytes ∧
        wire = resultText stream p.columns taken (p.run cells st.content).rows.length
          (if p.readonly then 0 else (p.run cells st.content).changes.toNat) ∧
        parseQueryResultWire host wire = .ok result ∧
        List.Forall₂ SameText p.columns result.columns ∧
        List.Forall₂ (List.Forall₂ Shown) taken result.rows ∧
        result.returnedRowCount = taken.length ∧
        result.totalRowCount.text = natText (p.run cells st.content).rows.length ∧
        result.changes.text =
          natText (if p.readonly then 0 else (p.run cells st.content).changes.toNat) ∧
        (result.truncated = true ↔ taken.length < (p.run cells st.content).rows.length) := by
  obtain ⟨context, taken, hmax, hprefix, hcollected, htruncated, rfl⟩ :=
    querySql_collected hprep (p.width cells st.content) hplain.real hwire
  generalize hchanges : (if p.readonly then 0 else (p.run cells st.content).changes.toNat) = changes
  have hsmall : changes ≤ 9223372036854775807 := by
    have := hplain.changes
    rw [← hchanges]
    split_ifs <;> omega
  have hbounded : taken.length ≤ 10000 := hcollected.bounded.trans hmax
  have htext : resultHeader context (p.run cells st.content).rows.length changes ++
      context.names ++ context.rows =
      resultText stream p.columns taken (p.run cells st.content).rows.length changes := by
    rw [resultHeader_eq changes (by rw [hcollected.returned]; exact htruncated),
      hcollected.columnCount, hcollected.returned, hcollected.names, hcollected.rows, resultText,
      List.append_assoc]
  obtain ⟨result, hparse, hcolumns, hshown, hreturned, htotal, hchanged, hcut⟩ :=
    parseQueryResultWire_resultText host hplain.columns hplain.names
      hcollected.simple hbounded hplain.rows hsmall
  refine ⟨taken, result, hprefix, hcollected.bounded, ?_, htext, ?_, hcolumns, hshown, hreturned,
    htotal, hchanged, hcut⟩
  · have hhead := length_resultHead hplain.columns hbounded hplain.rows hsmall
    have hsize := hcollected.size
    rw [hcollected.names, hcollected.rows] at hsize
    rw [htext, resultText]
    simp only [List.length_append, List.length_singleton]
    omega
  · rw [htext]
    exact hparse

end Call

/-- One inserted row that the statement returns. -/
def insertedText : List Char := "Q1:1:1:1:1:0\nN:6964\nR:3:7\n".toList

def plainHost : Host Unit Unit := ⟨fun _ => .nan, fun _ _ => .ok ()⟩

theorem result_wire_inserted : ∃ (taken : List (List Value)) (result : QueryResult Unit Unit),
    taken <+: [[createInt64 7]] ∧ parseQueryResultWire plainHost insertedText = .ok result ∧
      List.Forall₂ (List.Forall₂ Shown) taken result.rows ∧ result.changes.text = ['1'] := by
  have hprep : prepareCall insertEngine (wireCall (fun _ => [])
      (primed insertEngine emptyTable.content insertSql 5) insertSql [createInt64 7] [])
      emptyTable.content = .ok (insertReturning, [.integer 7]) :=
    prepareCall_insert .stop []
  have hplain : PlainResult insertReturning (insertReturning.run [.integer 7] emptyTable.content) := by
    refine ⟨by decide, ?_, ?_, by decide, by decide⟩
    · intro name hname
      obtain rfl := List.mem_singleton.mp hname
      exact ⟨['i', 'd'], rfl⟩
    · intro row hrow bits hbits
      obtain rfl := List.mem_singleton.mp hrow
      cases List.mem_singleton.mp hbits
  have hwire : (querySql (fun _ => []) insertEngine plenty insertSql [createInt64 7] 5
      emptyTable).1 = some insertedText := by decide +kernel
  obtain ⟨taken, result, hprefix, -, -, -, hparse, -, hshown, -, -, hchanges, -⟩ :=
    result_wire plainHost hprep hplain hwire
  exact ⟨taken, result, hprefix, hparse, hshown, hchanges⟩

end Esdb.Wire
