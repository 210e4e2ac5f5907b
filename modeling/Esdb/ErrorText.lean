import Esdb.OrmRows

/-!
# Messages of errors in their fixed buffer

The runtime keeps the message of an error in 256 bytes and cuts a longer one behind the
255th, which may be inside of a character. The client of the bridge takes the replies to
failures whose message is UTF-8, and no others.
-/
namespace Esdb.ErrorText

open Utf8 Utf8Readers Wire Delimited OrmWire

/-- `ESDB_ERROR_MESSAGE_CAPACITY`. -/
def messageCapacity : ℕ := 256

/-- A string up to its terminator. -/
structure CString where
  bytes : Bytes
  terminated : (0 : UInt8) ∉ bytes

/-- The string in a buffer. -/
def cString (buffer : Bytes) : Bytes := buffer.takeWhile (· ≠ 0)

/-- `strncpy`, which fills up with zeros what the message leaves of the `count` bytes. -/
def strncpy (dest message : Bytes) (count : ℕ) : Bytes :=
  message.take count ++ List.replicate (count - message.length) 0 ++ dest.drop count

def copyMessage (dest : Bytes) (message : Option CString) : Bytes :=
  if dest = [] then dest
  else
    match message with
    | none => dest.set 0 0
    | some message =>
        (strncpy dest message.bytes (dest.length - 1)).set (dest.length - 1) 0

/-- What `set_error` asks a connection of SQLite for. -/
structure Connection where
  extendedErrcode : ℤ
  errmsg : CString

structure EsdbError where
  status : Status
  phase : Phase
  sqliteCode : ℤ
  sqliteExtendedCode : ℤ
  message : Bytes

section

variable (errstr : ℤ → CString)

/-- `!resolved || !resolved[0]`. -/
def blank (message : Option CString) : Bool := message.all (·.bytes = [])

/-- The message that `set_error` takes; `errstr` is `sqlite3_errstr`. -/
def resolved (db : Option Connection) (sqliteCode : ℤ) (message : Option CString) : CString :=
  let message :=
    match db with
    | some db => if blank message then some db.errmsg else message
    | none => message
  let message := if blank message ∧ sqliteCode ≠ 0 then some (errstr sqliteCode) else message
  message.getD ⟨[], List.not_mem_nil⟩

def setError (status : Status) (phase : Phase) (db : Option Connection) (sqliteCode : ℤ)
    (message : Option CString) : EsdbError where
  status := status
  phase := phase
  sqliteCode := sqliteCode
  sqliteExtendedCode :=
    match db with
    | some db => db.extendedErrcode
    | none => sqliteCode
  message :=
    copyMessage (List.replicate messageCapacity 0)
      (some (resolved errstr db sqliteCode message))

end

/-- The answer of `ormOpen` to a failure: the name of the step, then the message or, where there
is none, what the step puts in its place. -/
def failureReply (status : ℤ) (operation instead : Bytes) (error : EsdbError) : List Char :=
  let detail := if cString error.message = [] then instead else cString error.message
  replyError status (operation ++ textBytes [':', ' '] ++ detail)

def openFailed (status : ℤ) (error : EsdbError) : List Char :=
  failureReply status (textBytes "esdb_open".toList) [] error

def migrateFailed (status : ℤ) (error : EsdbError) : List Char :=
  failureReply status (textBytes "migrate".toList) (textBytes "esdb_migrate failed".toList) error

def verifyFailed (status : ℤ) (error : EsdbError) : List Char :=
  failureReply status (textBytes "migrate verify".toList)
    (textBytes "user_version does not match generated migration target".toList) error

/-! ## What is stored -/

theorem cString_append {message : Bytes} (h : (0 : UInt8) ∉ message) (rest : Bytes) :
    cString (message ++ 0 :: rest) = message := by
  have hall : ∀ b ∈ message, decide (b ≠ 0) = true := fun b hb =>
    decide_eq_true fun hzero => h (hzero ▸ hb)
  rw [cString, List.takeWhile_append_of_pos hall]
  exact List.append_nil message

/-- The buffer is filled with the beginning of the message, and ends with a zero. -/
theorem copyMessage_eq {capacity : ℕ} (hcapacity : 0 < capacity) (message : CString) :
    copyMessage (List.replicate capacity 0) (some message) =
      message.bytes.take (capacity - 1) ++
        0 :: List.replicate (capacity - 1 - message.bytes.length) 0 := by
  obtain ⟨n, rfl⟩ := Nat.exists_eq_add_of_le' hcapacity
  have hne : List.replicate (n + 1) (0 : UInt8) ≠ [] := List.cons_ne_nil _ _
  have hfilled : (message.bytes.take n ++
      List.replicate (n - message.bytes.length) (0 : UInt8)).length = n := by
    simp only [List.length_append, List.length_take, List.length_replicate]
    omega
  rw [copyMessage, if_neg hne, strncpy, List.length_replicate, Nat.add_sub_cancel,
    List.drop_replicate, Nat.add_sub_cancel_left, List.set_append_right _ _ hfilled.le, hfilled,
    Nat.sub_self, List.append_assoc, List.replicate_one, List.set_cons_zero, List.append_cancel_left_eq]
  exact (List.replicate_succ' ..).symm

theorem setError_message (errstr : ℤ → CString) (status : Status) (phase : Phase)
    (db : Option Connection) (sqliteCode : ℤ) (message : Option CString) :
    (setError errstr status phase db sqliteCode message).message =
      copyMessage (List.replicate messageCapacity 0)
        (some (resolved errstr db sqliteCode message)) := by
  simp only [setError]

/-- The stored message is the first 255 bytes. -/
theorem stored_eq (errstr : ℤ → CString) (status : Status) (phase : Phase)
    (db : Option Connection) (sqliteCode : ℤ) (message : Option CString) :
    cString (setError errstr status phase db sqliteCode message).message =
      (resolved errstr db sqliteCode message).bytes.take 255 := by
  have hended : (0 : UInt8) ∉ (resolved errstr db sqliteCode message).bytes.take 255 := fun h =>
    (resolved errstr db sqliteCode message).terminated (List.mem_of_mem_take h)
  rw [setError_message, copyMessage_eq (by decide)]
  exact cString_append hended _

theorem length_stored (errstr : ℤ → CString) (status : Status) (phase : Phase)
    (db : Option Connection) (sqliteCode : ℤ) (message : Option CString) :
    (setError errstr status phase db sqliteCode message).message.length = messageCapacity := by
  rw [setError_message, copyMessage_eq (by decide)]
  simp only [List.length_append, List.length_take, List.length_cons, List.length_replicate,
    messageCapacity]
  omega

/-- The byte behind those that fit, if there is one, begins a character. -/
def FitsWhole (message : Bytes) : Prop :=
  ∀ b, message[255]? = some b → ¬Tail b

theorem wellFormed_take_iff {message : Bytes} (h : WellFormed message) :
    WellFormed (message.take 255) ↔ FitsWhole message := by
  unfold FitsWhole
  cases hbyte : message[255]? with
  | none =>
      rw [List.take_of_length_le (List.getElem?_eq_none_iff.mp hbyte)]
      exact ⟨fun _ => nofun, fun _ => h⟩
  | some b =>
      obtain ⟨hlength, hget⟩ := List.getElem?_eq_some_iff.mp hbyte
      have hsplit : message.take 255 ++ b :: message.drop 256 = message := by
        rw [← hget, List.cons_getElem_drop_succ, List.take_append_drop]
      rw [← hsplit] at h
      rw [h.cut_iff]
      exact ⟨fun hb _ hsome => Option.some.inj hsome ▸ hb, fun hall => hall b rfl⟩

/-! ## What the client reads -/

theorem ascii_replyError (status : ℤ) (message : Bytes) : Ascii (replyError status message) :=
  ((ascii_of_all (by decide)).append (ascii_intText status)).append
    (List.forall_mem_cons.mpr ⟨by decide, ascii_upperHex message⟩)

/-- The reply to a failure is read where its message is UTF-8. -/
theorem parse_replyError {status : ℤ} (hstatus : -2147483648 ≤ status ∧ status ≤ 2147483647)
    (message : Bytes) :
    (∃ units, parseWire (chars (asUnits (replyError status message))) =
      .ok (.error status units)) ↔ WellFormed message := by
  rw [chars_asUnits (ascii_replyError status message)]
  constructor
  · rintro ⟨units, hunits⟩
    have hspelled := parseWire_iff.mp hunits
    generalize hwire : replyError status message = wire at hspelled
    cases hspelled with
    | error _ hhex =>
        rw [replyError, List.append_cancel_left_eq] at hwire
        refine (utf8_acceptance message).2.2.2.mp ?_
        rw [(List.cons.inj hwire).2, hhex]
        rfl
  · intro hmessage
    cases hhex : hexToUtf8 (upperHex message) with
    | error e =>
        have hok := (utf8_acceptance message).2.2.2.mpr hmessage
        rw [hhex] at hok
        cases hok
    | ok units => exact ⟨units, parseWire_iff.mpr (.error hstatus hhex)⟩

theorem wellFormed_textBytes (text : List Char) : WellFormed (textBytes text) := ⟨text, rfl⟩

/-- The reply of a step has a message in UTF-8 where the stored one is. -/
theorem parse_failureReply {status : ℤ}
    (hstatus : -2147483648 ≤ status ∧ status ≤ 2147483647) {operation instead : Bytes}
    (hoperation : WellFormed operation) (hinstead : WellFormed instead) (error : EsdbError) :
    (∃ units, parseWire (chars (asUnits (failureReply status operation instead error))) =
      .ok (.error status units)) ↔ WellFormed (cString error.message) := by
  rw [failureReply, parse_replyError hstatus, List.append_assoc, hoperation.append_iff,
    (wellFormed_textBytes [':', ' ']).append_iff]
  split_ifs with hempty
  · rw [hempty]
    exact ⟨fun _ => ⟨[], rfl⟩, fun _ => hinstead⟩
  · rfl

/-- A message in UTF-8 is stored as a beginning of it that fits with its terminator. That is in
UTF-8, and the client reads the replies that carry it, exactly where the message is not cut inside
of a character. -/
theorem stored_utf8_iff (errstr : ℤ → CString) (status : Status) (phase : Phase)
    (db : Option Connection) (sqliteCode : ℤ) (message : Option CString) (code : ℤ)
    (hcode : -2147483648 ≤ code ∧ code ≤ 2147483647)
    (hutf8 : WellFormed (resolved errstr db sqliteCode message).bytes) :
    let error := setError errstr status phase db sqliteCode message
    let taken := (resolved errstr db sqliteCode message).bytes
    (cString error.message <+: taken ∧ (cString error.message).length < error.message.length ∧
      WellFormed (cString error.message) ∧
      ∀ reply ∈ [openFailed code error, migrateFailed code error, verifyFailed code error],
        ∃ units, parseWire (chars (asUnits reply)) = .ok (.error code units)) ↔
      FitsWhole taken := by
  intro error taken
  have hstored : cString error.message = taken.take 255 :=
    stored_eq errstr status phase db sqliteCode message
  have hread (operation instead : List Char) :
      (∃ units, parseWire (chars (asUnits
        (failureReply code (textBytes operation) (textBytes instead) error))) =
          .ok (.error code units)) ↔ WellFormed (taken.take 255) := by
    rw [parse_failureReply hcode (wellFormed_textBytes operation) (wellFormed_textBytes instead),
      hstored]
  constructor
  · rintro ⟨-, -, hwell, -⟩
    rw [hstored] at hwell
    exact (wellFormed_take_iff hutf8).mp hwell
  · intro hfits
    have hwell := (wellFormed_take_iff hutf8).mpr hfits
    refine ⟨?_, ?_, ?_, ?_⟩
    · rw [hstored]
      exact List.take_prefix 255 taken
    · have hlength : error.message.length = messageCapacity :=
        length_stored errstr status phase db sqliteCode message
      rw [hstored, hlength, List.length_take, messageCapacity]
      omega
    · rwa [hstored]
    · simp only [List.forall_mem_cons, List.not_mem_nil, false_imp_iff, implies_true, and_true]
      exact ⟨(hread _ []).mpr hwell, (hread _ _).mpr hwell, (hread _ _).mpr hwell⟩

/-- A message of two bytes. -/
def accented : CString := ⟨textBytes ['é'], by decide⟩

theorem stored_utf8_accented :
    let error := setError (fun _ => accented) .sqlite .open none 1 (some accented)
    WellFormed (cString error.message) ∧
      ∃ units, parseWire (chars (asUnits (openFailed 1 error))) = .ok (.error 1 units) := by
  intro error
  have hshort : FitsWhole accented.bytes := by
    have hnone : accented.bytes[255]? = none := by decide
    intro b hb
    rw [hnone] at hb
    cases hb
  have hstored := (stored_utf8_iff (fun _ => accented) .sqlite .open none 1 (some accented) 1
    ⟨by decide, by decide⟩ (wellFormed_textBytes ['é'])).mpr hshort
  exact ⟨hstored.2.2.1, hstored.2.2.2 _ List.mem_cons_self⟩

/-! ## A message that is cut -/

/-- What SQLite says of a schema whose object has a long name. -/
def schemaText : List Char :=
  "malformed database schema (a".toList ++ List.replicate 120 'é' ++ [')']

theorem schemaText_nonzero : (0 : UInt8) ∉ textBytes schemaText := by
  intro h
  obtain ⟨c, hc, h⟩ := List.mem_flatMap.mp h
  have hall : schemaText.all (fun c => !(String.utf8EncodeChar c).contains 0) = true := by decide
  have hc := List.all_eq_true.mp hall c hc
  simp [h] at hc

def schemaMessage : CString := ⟨textBytes schemaText, schemaText_nonzero⟩

theorem schemaMessage_cut : ¬FitsWhole schemaMessage.bytes := by
  have hbyte : schemaMessage.bytes[255]? = some 0xa9 := by decide
  exact fun h => h 0xa9 hbyte ⟨by decide, by decide⟩

/-- The byte at which the name is cut is the second of a character, so that what is stored is not
UTF-8 and the client takes the answer for a malformed one. -/
theorem stored_utf8_cut :
    let error := setError (fun _ => schemaMessage) .sqlite .open (some ⟨11, schemaMessage⟩) 11 none
    WellFormed schemaMessage.bytes ∧ ¬WellFormed (cString error.message) ∧
      ¬∃ units, parseWire (chars (asUnits (openFailed 1 error))) = .ok (.error 1 units) := by
  intro error
  have hutf8 : WellFormed schemaMessage.bytes := wellFormed_textBytes schemaText
  have hstored : cString error.message = schemaMessage.bytes.take 255 :=
    stored_eq (fun _ => schemaMessage) .sqlite .open (some ⟨11, schemaMessage⟩) 11 none
  have hcut : ¬WellFormed (cString error.message) := by
    rw [hstored, wellFormed_take_iff hutf8]
    exact schemaMessage_cut
  refine ⟨hutf8, hcut, fun hread => hcut ?_⟩
  exact (parse_failureReply ⟨by decide, by decide⟩ (wellFormed_textBytes "esdb_open".toList)
    (wellFormed_textBytes []) error).mp hread

end Esdb.ErrorText
