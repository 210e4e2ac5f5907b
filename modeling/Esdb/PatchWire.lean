import Esdb.MemoryRegistry
import Esdb.MemoryStorePatch
import Esdb.MemoryStoreReads
import Esdb.ParameterWire

/-!
# The packet of a Store patch

The script writes the entries of a patch as one text, and the adapter reads the text with the
conversions of the C library. These take more spellings of a number than the script writes,
and the adapter does not compare the spelling with the number: a count or a type with a sign,
with spaces or beyond the width of a `long`, and any text that `strtod` reads.
-/
namespace Esdb.Wire

open Decimal Utf8Readers Delimited MemoryStore

/-! ## Doubles -/

/-- The integer that a finite double is, where it is one. -/
def doubleInt (bits : BitVec 64) : Option ℤ :=
  let exponent := bits.toNat / 2 ^ 52 % 2 ^ 11
  let fraction := bits.toNat % 2 ^ 52
  let signed := fun n : ℕ => if bits.msb then -(n : ℤ) else n
  if exponent = 2047 then none
  else if exponent = 0 then if fraction = 0 then some 0 else none
  else if 1075 ≤ exponent then some (signed ((2 ^ 52 + fraction) * 2 ^ (exponent - 1075)))
  else if (2 ^ 52 + fraction) % 2 ^ (1075 - exponent) = 0 then
    some (signed ((2 ^ 52 + fraction) / 2 ^ (1075 - exponent)))
  else none

/-- The number of the script that has these bits. -/
def numberOfBits (bits : BitVec 64) : Number (BitVec 64) :=
  if bits.toNat / 2 ^ 52 % 2 ^ 11 = 2047 then
    if bits.toNat % 2 ^ 52 = 0 then .infinity bits.msb else .nan
  else
    match doubleInt bits with
    | some v => if v = 0 ∧ bits.msb then .negativeZero else .whole v
    | none => .fraction bits

/-! ## The adapter -/

/-- `decode_hex_cstring` without `allow_empty`. -/
def decodeHexCString (text : List Char) : Option Bytes :=
  match hexDecode text with
  | none => none
  | some decoded => if decoded = [] ∨ 0 ∈ decoded then none else some decoded

def makeNumberValue (type : ℕ) (number : BitVec 64) : Option Value :=
  if type = Value.bool then
    match doubleInt number with
    | some v => if v ≠ 0 ∧ v ≠ 1 then none else some (createBool (v ≠ 0))
    | none => none
  else if type = Value.int32 then
    match doubleInt number with
    | some v => if v < -2147483648 ∨ 2147483647 < v then none else some (createInt32 v)
    | none => none
  else if type = Value.double then some (createDouble number)
  else none

/-- The records and the journal under a name. -/
def content (r : Registry) (name : Bytes) : StoreState :=
  (r.stores[name]?.map r.state).getD initial

section Adapter

variable (long : LongWidth) (strtod : List Char → RealConversion)

/-- The count of the head. -/
def patchCount (text : List Char) : Option ℕ :=
  let r := strtoul long.bits text
  if r.range || r.rest ≠ [] || (patchMaxEntries : ℤ) < r.value then none else some r.value.toNat

/-- The type of a line. -/
def patchType (text : List Char) : Option ℕ :=
  let r := strtol long.bits text
  if r.range || r.rest ≠ [] || r.value < Value.null || (Value.object : ℤ) < r.value then none
  else some r.value.toNat

/-- The value of a line, by its lane. -/
def laneValue (type : ℕ) (lane : Char) (payload : List Char) : Option Value :=
  if lane = 'N' then (parseDoubleDecimal strtod payload).bind (makeNumberValue type)
  else if lane = 'T' then makeTextValue type payload
  else none

/-- One entry: what stands before, between and behind three colons. -/
def parsePatchLine (line : List Char) : Except String (Bytes × Value) :=
  let second := behind ':' line
  let third := behind ':' second
  if ':' ∉ line ∨ ':' ∉ second ∨ ':' ∉ third ∨ field ':' second = [] ∨
      (field ':' third).length ≠ 1 then
    .error "storePatch contains a malformed entry"
  else
    match decodeHexCString (field ':' line) with
    | none => .error "storePatch contains an invalid key"
    | some key =>
        match patchType long (field ':' second) with
        | none => .error "storePatch contains an invalid value type"
        | some type =>
            match laneValue strtod type ((field ':' third).headD ' ') (behind ':' third) with
            | none => .error "storePatch contains an invalid value payload"
            | some value => .ok (key, value)

/-- The loop over the declared entries, on the text from its cursor on. -/
def parsePatchLines : ℕ → List Char → Except String (List (Bytes × Value) × List Char)
  | 0, s => .ok ([], s)
  | count + 1, s =>
      match parsePatchLine long strtod (field '\n' s) with
      | .error e => .error e
      | .ok entry =>
          match parsePatchLines count (behind '\n' s) with
          | .error e => .error e
          | .ok (entries, rest) => .ok (entry :: entries, rest)

/-- The entries that `storePatch` reads in its wire text. -/
def parsePatch (wire : List Char) : Except String (List (Bytes × Value)) :=
  if 16 * 1024 * 1024 < wire.length ∨ wire.take 3 ≠ "P1:".toList then
    .error "storePatch wire is invalid or exceeds 16 MiB"
  else
    match patchCount long (field '\n' (wire.drop 3)) with
    | none => .error "storePatch count is invalid"
    | some count =>
        match parsePatchLines long strtod count (behind '\n' (wire.drop 3)) with
        | .error e => .error e
        | .ok (entries, rest) =>
            if rest.all fun c => c = '\n' || c = '\r' then .ok entries
            else .error "storePatch has trailing data after declared entries"

def patchEntries (entries : List (Bytes × Value)) : List PatchEntry :=
  entries.map fun e => ⟨some e.1, some e.2⟩

/-- `storePatch`. -/
def storePatch (room : OpenSite → Bool) (alloc : PatchSite → Bool) (nameHex wire : List Char)
    (r : Registry) : Except String ℕ × Registry :=
  match decodeHexCString nameHex with
  | none => (.error "storePatch expects Store name hex and patch wire", r)
  | some name =>
      match parsePatch long strtod wire with
      | .error e => (.error e, r)
      | .ok entries =>
          match storeOpen room name r with
          | (.error _, r) => (.error "failed to open memory Store", r)
          | (.ok id, r) =>
              let reply := storeCall id (.patch alloc (patchEntries entries)) r
              (match reply.1 with
                | .error _ => .error "memory Store patch failed"
                | .ok assigned => .ok assigned.revision,
               storeClose id reply.2)

end Adapter

/-! ## What a packet says -/

/-- The fields of a line. -/
structure PatchLine where
  key : List Char
  type : List Char
  lane : Char
  payload : List Char

def PatchLine.text (l : PatchLine) : List Char :=
  l.key ++ ':' :: (l.type ++ ':' :: ([l.lane] ++ ':' :: l.payload))

/-- No field but the payload has a colon, and the type is not empty. -/
structure PatchLine.Split (l : PatchLine) : Prop where
  key : ':' ∉ l.key
  type : ':' ∉ l.type
  typed : l.type ≠ []
  lane : l.lane ≠ ':'

section Grammar

variable (long : LongWidth) (strtod : List Char → RealConversion)
  (exponential : Number (BitVec 64) → List Char)

/-- What the conversions read in the fields of a line. -/
structure LineReads (l : PatchLine) (entry : Bytes × Value) : Prop where
  split : l.Split
  key : decodeHexCString l.key = some entry.1
  value : ∃ type, patchType long l.type = some type ∧
    laneValue strtod type l.lane l.payload = some entry.2

/-- Newlines and carriage returns, behind a newline. -/
def Trailing (more : List Char) : Prop :=
  (more = [] ∨ ∃ s, more = '\n' :: s) ∧ ∀ c ∈ more, c = '\n' ∨ c = '\r'

/-- The fields of a packet and the entries that the conversions read in them. -/
structure PacketReads (text count : List Char) (lines : List PatchLine) (more : List Char)
    (entries : List (Bytes × Value)) : Prop where
  wire : text = "P1:".toList ++ (count ++ (led '\n' (lines.map PatchLine.text) ++ more))
  size : text.length ≤ 16 * 1024 * 1024
  head : '\n' ∉ count
  plain : ∀ l ∈ lines, '\n' ∉ l.text
  trailing : Trailing more
  declared : patchCount long count = some lines.length
  reads : List.Forall₂ (LineReads long strtod) lines entries

/-- How the script writes the number of a value. -/
inductive NumberSpelling : Value → List Char → Prop
  | bool (b : Bool) : NumberSpelling (createBool b) [if b then '1' else '0']
  | int32 {v : ℤ} (h : isInt32 v) : NumberSpelling (createInt32 v) (intText v)
  | double (bits : BitVec 64) :
      NumberSpelling (createDouble bits) (patchNumberPayload exponential (numberOfBits bits))

/-- The lane and the payload that the script writes for a value, hex digits in either case. -/
inductive LaneSpelling : Char → Value → List Char → Prop
  | number {value : Value} {payload : List Char} (h : NumberSpelling exponential value payload) :
      LaneSpelling 'N' value payload
  | null : LaneSpelling 'T' createNull []
  | int64 {v : ℤ} (h : isInt64 v) : LaneSpelling 'T' (createInt64 v) (intText v)
  | bytes {hex : List Char} {bytes : Bytes} (h : hex.map Char.toUpper = upperHex bytes) :
      LaneSpelling 'T' (createBytes bytes) hex
  | text {type : ℕ} {hex : List Char} {bytes : Bytes}
      (ht : type = Value.utf8 ∨ type = Value.array ∨ type = Value.object)
      (h : hex.map Char.toUpper = upperHex bytes) (hw : Utf8.WellFormed bytes) :
      LaneSpelling 'T' ⟨type, bytes⟩ hex

/-- The line that the script writes for an entry. -/
def CanonicalLine (line : List Char) (entry : Bytes × Value) : Prop :=
  ∃ l : PatchLine, line = l.text ∧ l.key.map Char.toUpper = upperHex entry.1 ∧
    l.type = natText entry.2.type ∧ LaneSpelling exponential l.lane entry.2 l.payload

/-- The packet that the script writes for entries, up to newlines and carriage returns. -/
def CanonicalPacket (text : List Char) (entries : List (Bytes × Value)) : Prop :=
  ∃ lines more, text = "P1:".toList ++ (natText entries.length ++ (led '\n' lines ++ more)) ∧
    (∀ line ∈ lines, '\n' ∉ line) ∧ Trailing more ∧
      List.Forall₂ (CanonicalLine exponential) lines entries

/-- Whenever the fields of the text are those of a packet with valid keys, the count, the types
and the numbers among the payloads are spelled as the script spells them. -/
def NumbersCanonical (text : List Char) : Prop :=
  ∀ count lines more entries, PacketReads long strtod text count lines more entries →
    (∀ e ∈ entries, validKey (some e.1) = true) →
      count = natText lines.length ∧ List.Forall₂ (fun l e => l.type = natText e.2.type ∧
        (l.lane = 'N' → NumberSpelling exponential e.2 l.payload)) lines entries

/-- In every process, the text is refused and changes no Store, or it is the packet of the
entries that are applied. -/
def StrictAt (text : List Char) : Prop :=
  ∀ room alloc nameHex r,
    ((∃ e, (storePatch long strtod room alloc nameHex text r).1 = .error e) ∧
      ∀ name, content (storePatch long strtod room alloc nameHex text r).2 name =
        content r name) ∨
    ∃ entries, parsePatch long strtod text = .ok entries ∧ CanonicalPacket exponential text entries

variable {long strtod exponential}

/-! ## Lines -/

theorem PatchLine.Split.fields {l : PatchLine} (h : l.Split) :
    field ':' l.text = l.key ∧
      behind ':' l.text = l.type ++ ':' :: ([l.lane] ++ ':' :: l.payload) ∧
      field ':' (behind ':' l.text) = l.type ∧
      behind ':' (behind ':' l.text) = [l.lane] ++ ':' :: l.payload ∧
      field ':' (behind ':' (behind ':' l.text)) = [l.lane] ∧
      behind ':' (behind ':' (behind ':' l.text)) = l.payload := by
  have hlane : ':' ∉ [l.lane] := fun hmem => h.lane (List.mem_singleton.mp hmem).symm
  have hsecond : behind ':' l.text = l.type ++ ':' :: ([l.lane] ++ ':' :: l.payload) :=
    behind_append h.key _
  have hthird : behind ':' (behind ':' l.text) = [l.lane] ++ ':' :: l.payload := by
    rw [hsecond]
    exact behind_append h.type _
  refine ⟨field_append h.key _, hsecond, ?_, hthird, ?_, ?_⟩
  · rw [hsecond]
    exact field_append h.type _
  · rw [hthird]
    exact field_append hlane _
  · rw [hthird]
    exact behind_append hlane _

/-- The fields of a line are its own. -/
theorem PatchLine.text_inj {l l' : PatchLine} (h : l.Split) (h' : l'.Split)
    (htext : l.text = l'.text) : l = l' := by
  obtain ⟨hk, -, ht, -, hlane, hpay⟩ := h.fields
  obtain ⟨hk', -, ht', -, hlane', hpay'⟩ := h'.fields
  rw [htext] at hk ht hlane hpay
  cases l
  cases l'
  simp only [PatchLine.mk.injEq]
  exact ⟨hk.symm.trans hk', ht.symm.trans ht', List.cons.inj (hlane.symm.trans hlane') |>.1,
    hpay.symm.trans hpay'⟩

theorem parsePatchLine_text {l : PatchLine} {entry : Bytes × Value}
    (h : LineReads long strtod l entry) : parsePatchLine long strtod l.text = .ok entry := by
  obtain ⟨hk, hsecond, ht, hthird, hlane, hpay⟩ := h.split.fields
  obtain ⟨type, htype, hvalue⟩ := h.value
  have hgood : ¬(':' ∉ l.text ∨ ':' ∉ behind ':' l.text ∨ ':' ∉ behind ':' (behind ':' l.text) ∨
      field ':' (behind ':' l.text) = [] ∨
        (field ':' (behind ':' (behind ':' l.text))).length ≠ 1) := by
    rw [hlane, ht, hthird, hsecond]
    simp [PatchLine.text, h.split.typed]
  unfold parsePatchLine
  dsimp only
  rw [if_neg hgood, hk, h.key, ht, hlane, hpay]
  simp only [htype, List.headD_cons, hvalue]

theorem parsePatchLine_ok {line : List Char} {entry : Bytes × Value}
    (h : parsePatchLine long strtod line = .ok entry) :
    ∃ l : PatchLine, line = l.text ∧ LineReads long strtod l entry := by
  unfold parsePatchLine at h
  dsimp only at h
  split_ifs at h with hbad
  simp only [not_or, not_not] at hbad
  obtain ⟨hfirst, hsecond, hthird, htyped, hlane⟩ := hbad
  obtain ⟨c, hc⟩ := List.length_eq_one_iff.mp hlane
  cases hkey : decodeHexCString (field ':' line) with
  | none => simp [hkey] at h
  | some key =>
      cases htype : patchType long (field ':' (behind ':' line)) with
      | none => simp [hkey, htype] at h
      | some type =>
          cases hvalue : laneValue strtod type ((field ':' (behind ':' (behind ':' line))).headD ' ')
              (behind ':' (behind ':' (behind ':' line))) with
          | none => simp only [hkey, htype, hvalue] at h; cases h
          | some value =>
              simp only [hkey, htype, hvalue] at h
              obtain rfl := Except.ok.inj h
              rw [hc, List.headD_cons] at hvalue
              refine ⟨⟨field ':' line, field ':' (behind ':' line), c,
                behind ':' (behind ':' (behind ':' line))⟩, ?_, ⟨?_, hkey, type, htype, hvalue⟩⟩
              · rw [PatchLine.text]
                dsimp only
                rw [← hc, ← eq_of_mem hthird, ← eq_of_mem hsecond, ← eq_of_mem hfirst]
              · refine ⟨notMem_field _ _, notMem_field _ _, htyped, ?_⟩
                rintro rfl
                exact notMem_field ':' (behind ':' (behind ':' line)) (hc ▸ List.mem_cons_self)

/-! ## Packets -/

/-- Behind the newline that is to come, the loop takes the lines and leaves what is then
pending. -/
theorem parsePatchLines_led {lines : List PatchLine} {entries : List (Bytes × Value)}
    (hplain : ∀ l ∈ lines, '\n' ∉ l.text) {more : List Char}
    (hmore : more = [] ∨ ∃ s, more = '\n' :: s)
    (h : List.Forall₂ (LineReads long strtod) lines entries) :
    parsePatchLines long strtod lines.length
      ((led '\n' (lines.map PatchLine.text) ++ more).drop 1) = .ok (entries, more.drop 1) := by
  induction h with
  | nil => rfl
  | @cons l entry lines entries hread hrest ih =>
      have hrestplain := fun x hx => hplain x (List.mem_cons_of_mem _ hx)
      obtain ⟨hfield, hbehind⟩ := field_pending (hplain l List.mem_cons_self)
        (led_pending (lines.map PatchLine.text) hmore)
      have hdrop : (led '\n' ((l :: lines).map PatchLine.text) ++ more).drop 1 =
          l.text ++ (led '\n' (lines.map PatchLine.text) ++ more) := by
        rw [List.map_cons, led_cons, List.cons_append, List.cons_append, List.drop_one,
          List.tail_cons, List.append_assoc]
      rw [hdrop, List.length_cons, parsePatchLines, hfield, parsePatchLine_text hread, behind,
        hbehind, ih hrestplain]

theorem parsePatchLines_ok {count : ℕ} {text s rest : List Char} {entries : List (Bytes × Value)}
    (htext : text = [] ∧ s = [] ∨ text = '\n' :: s)
    (h : parsePatchLines long strtod count s = .ok (entries, rest))
    (hrest : ∀ c ∈ rest, c = '\n' ∨ c = '\r') :
    ∃ lines more, text = led '\n' (lines.map PatchLine.text) ++ more ∧ lines.length = count ∧
      (∀ l ∈ lines, '\n' ∉ l.text) ∧ Trailing more ∧
        List.Forall₂ (LineReads long strtod) lines entries := by
  induction count generalizing text s entries with
  | zero =>
      cases h
      refine ⟨[], text, rfl, rfl, List.forall_mem_nil _, ?_, .nil⟩
      rcases htext with ⟨rfl, -⟩ | rfl
      · exact ⟨.inl rfl, List.forall_mem_nil _⟩
      · exact ⟨.inr ⟨_, rfl⟩, List.forall_mem_cons.mpr ⟨.inl rfl, hrest⟩⟩
  | succ count ih =>
      rw [parsePatchLines] at h
      cases hline : parsePatchLine long strtod (field '\n' s) with
      | error e => simp [hline] at h
      | ok entry =>
          simp only [hline] at h
          cases hlines : parsePatchLines long strtod count (behind '\n' s) with
          | error e => simp [hlines] at h
          | ok p =>
              obtain ⟨entries', rest'⟩ := p
              simp only [hlines] at h
              cases h
              obtain ⟨lines, more, hled, hcount, hplain, hmore, hreads⟩ :=
                ih (pending_eq '\n' s) hlines
              have hnewline : text = '\n' :: s := by
                rcases htext with ⟨-, rfl⟩ | htext
                · cases hline
                · exact htext
              obtain ⟨l, hl, hread⟩ := parsePatchLine_ok hline
              refine ⟨l :: lines, more, ?_, by rw [List.length_cons, hcount], ?_, hmore,
                .cons hread hreads⟩
              · rw [List.map_cons, led_cons, List.append_assoc, ← hled, ← hl, List.cons_append,
                  field_append_pending, hnewline]
              · refine List.forall_mem_cons.mpr ⟨?_, hplain⟩
                rw [← hl]
                exact notMem_field '\n' s

/-- The adapter accepts the packets of its conversions. -/
theorem parsePatch_ok_iff {text : List Char} {entries : List (Bytes × Value)} :
    parsePatch long strtod text = .ok entries ↔
      ∃ count lines more, PacketReads long strtod text count lines more entries := by
  unfold parsePatch
  constructor
  · intro h
    split_ifs at h with hhead
    rw [not_or, not_not] at hhead
    cases hcount : patchCount long (field '\n' (text.drop 3)) with
    | none => simp [hcount] at h
    | some count =>
        simp only [hcount] at h
        cases hlines : parsePatchLines long strtod count (behind '\n' (text.drop 3)) with
        | error e => simp [hlines] at h
        | ok p =>
            obtain ⟨entries', rest⟩ := p
            simp only [hlines] at h
            split_ifs at h with hrest
            cases h
            have htrailing : ∀ c ∈ rest, c = '\n' ∨ c = '\r' := fun c hc => by
              simpa using List.all_eq_true.mp hrest c hc
            obtain ⟨lines, more, hled, hlength, hplain, hmore, hreads⟩ :=
              parsePatchLines_ok (pending_eq '\n' (text.drop 3)) hlines htrailing
            refine ⟨field '\n' (text.drop 3), lines, more, ?_, Nat.not_lt.mp hhead.1,
              notMem_field '\n' _, hplain, hmore, hlength.symm ▸ hcount, hreads⟩
            rw [← hled, field_append_pending, ← hhead.2, List.take_append_drop]
  · rintro ⟨count, lines, more, h⟩
    have hdrop : text.drop 3 = count ++ (led '\n' (lines.map PatchLine.text) ++ more) := by
      rw [h.wire]
      rfl
    have htake : text.take 3 = "P1:".toList := by
      rw [h.wire]
      rfl
    obtain ⟨hfield, hpending⟩ := field_pending h.head
      (led_pending (lines.map PatchLine.text) h.trailing.1)
    have hrest : (more.drop 1).all (fun c => c = '\n' || c = '\r') = true := by
      rw [List.all_eq_true]
      intro c hc
      simpa using h.trailing.2 c (List.mem_of_mem_drop hc)
    rw [if_neg (by rw [not_or, not_not]; exact ⟨Nat.not_lt.mpr h.size, htake⟩), hdrop, hfield,
      h.declared, behind, hpending]
    dsimp only
    rw [parsePatchLines_led h.plain h.trailing.1 h.reads]
    exact if_pos hrest

/-- A packet is cut into its lines in one way. -/
theorem led_inj {lines lines' : List (List Char)} {more more' : List Char}
    (hplain : ∀ line ∈ lines, '\n' ∉ line) (hplain' : ∀ line ∈ lines', '\n' ∉ line)
    (hmore : more = [] ∨ ∃ s, more = '\n' :: s) (hmore' : more' = [] ∨ ∃ s, more' = '\n' :: s)
    (hlength : lines.length = lines'.length)
    (h : led '\n' lines ++ more = led '\n' lines' ++ more') : lines = lines' := by
  induction lines generalizing lines' with
  | nil => exact (List.eq_nil_of_length_eq_zero hlength.symm).symm
  | cons line lines ih =>
      cases lines' with
      | nil => cases hlength
      | cons line' lines' =>
          obtain ⟨hline, hlines⟩ := List.forall_mem_cons.mp hplain
          obtain ⟨hline', hlines'⟩ := List.forall_mem_cons.mp hplain'
          rw [led_cons, led_cons, List.cons_append, List.cons_append, List.cons_append,
            List.cons_append, List.append_assoc, List.append_assoc] at h
          have htail := (List.cons.inj h).2
          obtain ⟨hfield, hpending⟩ := field_pending hline (led_pending lines hmore)
          obtain ⟨hfield', hpending'⟩ := field_pending hline' (led_pending lines' hmore')
          rw [htail] at hfield hpending
          rw [ih hlines hlines' (Nat.succ.inj hlength) (hpending.symm.trans hpending'),
            hfield.symm.trans hfield']

/-! ## Payloads -/

theorem makeTextValue_spelling {type : ℕ} {payload : List Char} {value : Value}
    (h : makeTextValue type payload = some value) : LaneSpelling exponential 'T' value payload := by
  unfold makeTextValue at h
  by_cases hnull : type = Value.null
  · rw [if_pos hnull] at h
    split_ifs at h with hpayload
    cases h
    rw [not_not] at hpayload
    rw [hpayload]
    exact .null
  rw [if_neg hnull] at h
  by_cases hint : type = Value.int64
  · rw [if_pos hint] at h
    obtain ⟨v, hparse, rfl⟩ := Option.map_eq_some_iff.mp h
    obtain ⟨rfl, hv⟩ := parseI64Decimal_eq_some.mp hparse
    exact .int64 hv
  rw [if_neg hint] at h
  cases hhex : hexDecode payload with
  | none => simp [hhex] at h
  | some bytes =>
      simp only [hhex] at h
      split_ifs at h with hbytes htext
      · cases h
        exact .bytes (hexDecode_eq_some hhex)
      · obtain ⟨-, hw, rfl⟩ := createText_eq_some.mp h
        exact .text htext (hexDecode_eq_some hhex) hw

/-- The text lane takes no other spelling. -/
theorem laneValue_spelling {type : ℕ} {lane : Char} {payload : List Char} {value : Value}
    (h : laneValue strtod type lane payload = some value)
    (hnumber : lane = 'N' → NumberSpelling exponential value payload) :
    LaneSpelling exponential lane value payload := by
  unfold laneValue at h
  split_ifs at h with hN hT
  · rw [hN]
    exact .number (hnumber hN)
  · rw [hT]
    exact makeTextValue_spelling h

theorem makeNumberValue_type {type : ℕ} {number : BitVec 64} {value : Value}
    (h : makeNumberValue type number = some value) : validValueType value.type = true := by
  unfold makeNumberValue at h
  split_ifs at h
  · split at h
    · split_ifs at h
      cases h
      rfl
    · cases h
  · split at h
    · split_ifs at h
      cases h
      rfl
    · cases h
  · cases h
    rfl

theorem laneValue_type {type : ℕ} {lane : Char} {payload : List Char} {value : Value}
    (h : laneValue strtod type lane payload = some value) : validValueType value.type = true := by
  unfold laneValue at h
  split_ifs at h
  · obtain ⟨number, -, hvalue⟩ := Option.bind_eq_some_iff.mp h
    exact makeNumberValue_type hvalue
  · have hspelling : LaneSpelling (fun _ => []) 'T' value payload := makeTextValue_spelling h
    cases hspelling with
    | null => rfl
    | int64 hv => rfl
    | bytes hhex => rfl
    | text ht hhex hw =>
        rcases ht with rfl | rfl | rfl
        · rfl
        · rfl
        · rfl

theorem LaneSpelling.cases_lane {lane : Char} {value : Value} {payload : List Char}
    (h : LaneSpelling exponential lane value payload) :
    lane = 'N' ∧ NumberSpelling exponential value payload ∨ lane = 'T' := by
  cases h with
  | number h => exact .inl ⟨rfl, h⟩
  | null => exact .inr rfl
  | int64 h => exact .inr rfl
  | bytes h => exact .inr rfl
  | text ht h hw => exact .inr rfl

/-- The line of the script is cut as the adapter cuts it. -/
theorem CanonicalLine.fields {l : PatchLine} {entry : Bytes × Value} (hs : l.Split)
    (h : CanonicalLine exponential l.text entry) : l.type = natText entry.2.type ∧
      (l.lane = 'N' → NumberSpelling exponential entry.2 l.payload) := by
  obtain ⟨l', htext, hkey, htype, hlane⟩ := h
  have hcases := hlane.cases_lane
  have hs' : l'.Split := by
    refine ⟨?_, ?_, ?_, ?_⟩
    · intro hmem
      have hin : Char.toUpper ':' ∈ upperHex entry.1 := hkey ▸ List.mem_map_of_mem hmem
      have := nibble_upperHex hin
      revert this
      decide
    · rw [htype]
      exact colon_notMem_natText
    · rw [htype]
      exact natText_ne_nil _
    · rcases hcases with ⟨hN, -⟩ | hT
      · rw [hN]
        decide
      · rw [hT]
        decide
  obtain rfl := PatchLine.text_inj hs hs' htext
  refine ⟨htype, fun hN => ?_⟩
  rcases hcases with ⟨-, hnumber⟩ | hT
  · exact hnumber
  · rw [hN] at hT
    exact absurd hT (by decide)

theorem LineReads.canonical {l : PatchLine} {entry : Bytes × Value}
    (h : LineReads long strtod l entry) (htype : l.type = natText entry.2.type)
    (hnumber : l.lane = 'N' → NumberSpelling exponential entry.2 l.payload) :
    CanonicalLine exponential l.text entry := by
  obtain ⟨type, -, hvalue⟩ := h.value
  refine ⟨l, rfl, ?_, htype, laneValue_spelling hvalue hnumber⟩
  have hkey := h.key
  unfold decodeHexCString at hkey
  split at hkey
  · cases hkey
  · next decoded hdecode =>
      split_ifs at hkey
      obtain rfl := Option.some.inj hkey
      exact hexDecode_eq_some hdecode

/-! ## Stores -/

theorem content_modify {id : ℕ} {f : SharedState → SharedState}
    (hf : ∀ s, (f s).state = s.state) (r : Registry) : content (r.modify id f) = content r := by
  have hstate : ∀ i, (r.modify id f).state i = r.state i := by
    intro i
    simp only [Registry.state, Registry.modify, List.getElem?_modify]
    cases r.states[i]? with
    | none => rfl
    | some s =>
        simp only [Option.map_some, Option.getD_some]
        split_ifs
        · exact hf s
        · rfl
  funext name
  rw [content, content]
  change (r.stores[name]?.map _).getD _ = _
  congr 2
  funext i
  exact hstate i

theorem content_findState {room : Bool} {name : Bytes} {r r' : Registry} {id : ℕ}
    (h : findState room name r = some (id, r')) : content r' = content r ∧
      r'.state id = content r name := by
  unfold findState at h
  split at h
  · next hsome =>
      obtain ⟨rfl, rfl⟩ := Prod.mk.inj (Option.some.inj h)
      refine ⟨rfl, ?_⟩
      rw [content, hsome]
      rfl
  · next hnone =>
      split_ifs at h
      obtain ⟨rfl, rfl⟩ := Prod.mk.inj (Option.some.inj h)
      -- The new state has nothing in it, as no state has.
      have hstate : ∀ i, (⟨r.stores.insert name r.states.length,
          r.states ++ [⟨name, initial, 0, 0, []⟩]⟩ : Registry).state i = r.state i := by
        intro i
        simp only [Registry.state, List.getElem?_append]
        split_ifs with hi
        · rfl
        · rw [List.getElem?_eq_none (Nat.not_lt.mp hi)]
          cases i - r.states.length with
          | zero => rfl
          | succ k => rfl
      have hnew : r.state r.states.length = initial := by
        rw [Registry.state, List.getElem?_eq_none (Nat.le_refl _)]
        rfl
      refine ⟨?_, ?_⟩
      · funext name'
        change ((r.stores.insert name r.states.length)[name']?.map _).getD _ = _
        rw [ByteMap.get_insert, content, funext hstate]
        split_ifs with heq
        · subst heq
          rw [hnone]
          exact hnew
        · rfl
      · rw [hstate, hnew, content, hnone]
        rfl

theorem content_addHandle (id : ℕ) (r : Registry) : content (addHandle id r) = content r :=
  content_modify (f := fun s => { s with handleCount := fetchAdd s.handleCount }) (fun _ => rfl) r

theorem content_storeClose (id : ℕ) (r : Registry) : content (storeClose id r) = content r :=
  content_modify (f := fun s => { s with handleCount := fetchSub s.handleCount }) (fun _ => rfl) r

theorem content_storeOpen (room : OpenSite → Bool) (name : Bytes) (r : Registry) :
    content (storeOpen room name r).2 = content r := by
  unfold storeOpen
  by_cases hvalid : (!validName name) = true
  · rw [if_pos hvalid]
  rw [if_neg hvalid]
  cases hfind : findState (room .state) name r with
  | none => rfl
  | some p =>
      obtain ⟨id, r'⟩ := p
      have hsame := (content_findState hfind).1
      dsimp only
      by_cases hroom : room .handle = true
      · rw [if_pos hroom]
        exact (content_addHandle id r').trans hsame
      · rw [if_neg hroom]
        exact ((content_storeClose id _).trans (content_addHandle id r')).trans hsame

theorem storeOpen_room {name : Bytes} (hname : validName name = true) (r : Registry) :
    ∃ id r', storeOpen (fun _ => true) name r = (.ok id, r') ∧ r'.state id = content r name := by
  have hfind : ∃ p, findState true name r = some p := by
    unfold findState
    split
    · exact ⟨_, rfl⟩
    · exact ⟨_, rfl⟩
  obtain ⟨⟨id, r'⟩, hfind⟩ := hfind
  refine ⟨id, addHandle id r', ?_, ?_⟩
  · unfold storeOpen
    rw [if_neg (by rw [hname]; decide), hfind]
    rfl
  · rw [← (content_findState hfind).2]
    simp only [addHandle, Registry.state, Registry.modify, List.getElem?_modify]
    cases r'.states[id]? with
    | none => rfl
    | some s => simp

theorem content_storeCall {id : ℕ} {c : MemoryStore.Call} {r : Registry}
    (h : (c.exec (r.state id)).2 = r.state id) : content (storeCall id c r).2 = content r := by
  have hstate : ∀ i, (storeCall id c r).2.state i = r.state i := by
    intro i
    simp only [storeCall, Registry.state, Registry.modify, List.getElem?_modify]
    by_cases hi : id = i
    · subst hi
      cases hs : r.states[id]? with
      | none => rfl
      | some s =>
          have hexec : (c.exec s.state).2 = s.state := by
            rw [Registry.state, hs] at h
            exact h
          simp [hexec]
    · simp [hi]
  funext name
  change (r.stores[name]?.map _).getD _ = _
  rw [content, funext hstate]

/-! ## Applying -/

theorem checkAssignment_isSome {e : Bytes × Value} : (checkAssignment (some e.1) (some e.2)).isSome =
    (validKey (some e.1) && validValueType e.2.type) := by
  rw [checkAssignment]
  cases validKey (some e.1) && validValueType e.2.type <;> rfl

theorem mem_patchEntries {entries : List (Bytes × Value)} {P : PatchEntry → Prop} :
    (∀ e ∈ patchEntries entries, P e) ↔ ∀ e ∈ entries, P ⟨some e.1, some e.2⟩ := by
  rw [patchEntries, List.forall_mem_map]

/-- Entries of which a key is not valid change no Store. -/
theorem patch_invalid {alloc : PatchSite → Bool} {entries : List (Bytes × Value)} {s : StoreState}
    (h : ¬∀ e ∈ entries, validKey (some e.1) = true) :
    ∃ f, patch alloc (patchEntries entries) s = (.error f, s) := by
  refine patch_unchecked (Option.not_isSome_iff_eq_none.mp fun hsome => h fun e he => ?_) alloc s
  have hchecked := mem_patchEntries.mp ((mapM_isSome_iff _).mp hsome) e he
  rw [checkAssignment_isSome] at hchecked
  exact (Bool.and_eq_true_iff.mp hchecked).1

/-- Entries that were read and have valid keys are applied where there is room. -/
theorem storePatch_applies {text : List Char} {entries : List (Bytes × Value)}
    (hparse : parsePatch long strtod text = .ok entries)
    (hlength : entries.length ≤ patchMaxEntries)
    (hvalues : ∀ e ∈ entries, validKey (some e.1) = true ∧ validValueType e.2.type = true) :
    ∃ revision, (storePatch long strtod (fun _ => true) always "73".toList text Registry.empty).1 =
      .ok revision := by
  have hvalid : validName [115] = true := by decide
  obtain ⟨id, r, hopen, hstate⟩ := storeOpen_room hvalid Registry.empty
  have hname : decodeHexCString "73".toList = some [115] := by decide
  have hinitial : r.state id = initial := by
    rw [hstate, content]
    rfl
  have hpatch : succeeded (patch always (patchEntries entries) (r.state id)).1 = true := by
    rw [patch_succeeded_iff _ (by rw [patchEntries, List.length_map]; exact hlength)]
    refine ⟨mem_patchEntries.mpr fun e he => ?_, .inl ?_⟩
    · rw [checkAssignment_isSome, (hvalues e he).1, (hvalues e he).2]
      rfl
    · have hsmall : patchMaxEntries ≤ revisionMax := by decide
      rw [hinitial, patchEntries, List.length_map]
      exact (Nat.zero_add _).le.trans (hlength.trans hsmall)
  unfold storePatch
  simp only [hname, hparse, hopen, storeCall, MemoryStore.Call.exec]
  cases hreply : (patch always (patchEntries entries) (r.state id)).1 with
  | error f =>
      rw [hreply] at hpatch
      cases hpatch
  | ok revision => exact ⟨revision, rfl⟩

/-- Entries that were read and have a key that is not valid are refused by the Store. -/
theorem storePatch_refuses {nameHex text : List Char} {name : Bytes}
    {entries : List (Bytes × Value)} (hname : decodeHexCString nameHex = some name)
    (hparse : parsePatch long strtod text = .ok entries)
    (hkeys : ¬∀ e ∈ entries, validKey (some e.1) = true) (room : OpenSite → Bool)
    (alloc : PatchSite → Bool) (r : Registry) :
    ∃ e r', storePatch long strtod room alloc nameHex text r = (.error e, r') ∧
      content r' = content r := by
  have hopened := content_storeOpen room name r
  unfold storePatch
  simp only [hname, hparse]
  cases hopen : storeOpen room name r with
  | mk opened r₁ =>
      rw [hopen] at hopened
      cases opened with
      | error f => exact ⟨_, r₁, rfl, hopened⟩
      | ok id =>
          obtain ⟨f, hpatch⟩ : ∃ f, patch alloc (patchEntries entries) (r₁.state id) =
              (.error f, r₁.state id) := patch_invalid hkeys
          have hexec : MemoryStore.Call.exec (.patch alloc (patchEntries entries)) (r₁.state id) =
              (.error f, r₁.state id) := by
            rw [MemoryStore.Call.exec, hpatch]
            rfl
          have hreply : (storeCall id (.patch alloc (patchEntries entries)) r₁).1 = .error f :=
            congrArg Prod.fst hexec
          have hcall := content_storeCall (r := r₁) (congrArg Prod.snd hexec)
          dsimp only
          rw [hreply]
          exact ⟨_, _, rfl, ((content_storeClose id _).trans hcall).trans hopened⟩

theorem patchCount_le {text : List Char} {n : ℕ} (h : patchCount long text = some n) :
    n ≤ patchMaxEntries := by
  unfold patchCount at h
  dsimp only at h
  split_ifs at h with hbad
  obtain rfl := Option.some.inj h
  simp only [Bool.or_eq_true, decide_eq_true_eq, not_or] at hbad
  omega

theorem reads_types {lines : List PatchLine} {entries : List (Bytes × Value)}
    (h : List.Forall₂ (LineReads long strtod) lines entries) :
    ∀ e ∈ entries, validValueType e.2.type = true := by
  induction h with
  | nil => exact List.forall_mem_nil _
  | cons hread _ ih =>
      obtain ⟨type, -, hvalue⟩ := hread.value
      exact List.forall_mem_cons.mpr ⟨laneValue_type hvalue, ih⟩

/-- The fields of the lines, where the lines are the script's. -/
theorem fields_canonical {lines : List PatchLine} {entries : List (Bytes × Value)}
    (h : List.Forall₂ (LineReads long strtod) lines entries)
    (hc : List.Forall₂ (fun l e => CanonicalLine exponential l.text e) lines entries) :
    List.Forall₂ (fun l e => l.type = natText e.2.type ∧
      (l.lane = 'N' → NumberSpelling exponential e.2 l.payload)) lines entries := by
  induction h with
  | nil => exact .nil
  | cons hread _ ih =>
      cases hc with
      | cons hline hlines => exact .cons (CanonicalLine.fields hread.split hline) (ih hlines)

theorem lines_canonical {lines : List PatchLine} {entries : List (Bytes × Value)}
    (h : List.Forall₂ (LineReads long strtod) lines entries)
    (hf : List.Forall₂ (fun l e => l.type = natText e.2.type ∧
      (l.lane = 'N' → NumberSpelling exponential e.2 l.payload)) lines entries) :
    List.Forall₂ (CanonicalLine exponential) (lines.map PatchLine.text) entries := by
  induction h with
  | nil => exact .nil
  | cons hread _ ih =>
      cases hf with
      | cons hfield hfields => exact .cons (hread.canonical hfield.1 hfield.2) (ih hfields)

/-- A packet that is the script's has its count and its lines. -/
theorem PacketReads.canonical {text count more : List Char} {lines : List PatchLine}
    {entries : List (Bytes × Value)}
    (h : PacketReads long strtod text count lines more entries)
    (hc : CanonicalPacket exponential text entries) :
    count = natText lines.length ∧
      List.Forall₂ (CanonicalLine exponential) (lines.map PatchLine.text) entries := by
  obtain ⟨lines', more', htext, hplain', hmore', hlines'⟩ := hc
  have hlength : lines.length = entries.length := h.reads.length_eq
  have hcut := List.append_cancel_left (h.wire.symm.trans htext)
  obtain ⟨hcount, hrest⟩ := field_pending h.head
    (led_pending (lines.map PatchLine.text) h.trailing.1)
  obtain ⟨hcount', hrest'⟩ := field_pending newline_notMem_natText (led_pending lines' hmore'.1)
  rw [hcut] at hcount hrest
  have hsame : lines.map PatchLine.text = lines' := by
    refine led_inj ?_ hplain' h.trailing.1 hmore'.1 ?_ (hrest.symm.trans hrest')
    · exact List.forall_mem_map.mpr h.plain
    · rw [List.length_map, hlength, hlines'.length_eq]
  refine ⟨?_, hsame ▸ hlines'⟩
  rw [hlength]
  exact hcount.symm.trans hcount'

/-- The strictness of a text hangs on the spelling of its numbers. -/
theorem patch_strict (long : LongWidth) (strtod : List Char → RealConversion)
    (exponential : Number (BitVec 64) → List Char) (text : List Char) :
    StrictAt long strtod exponential text ↔ NumbersCanonical long strtod exponential text := by
  constructor
  · intro h count lines more entries hreads hkeys
    have hparse := parsePatch_ok_iff.mpr ⟨count, lines, more, hreads⟩
    have hlength : entries.length ≤ patchMaxEntries := by
      rw [← hreads.reads.length_eq]
      exact patchCount_le hreads.declared
    obtain ⟨revision, happlied⟩ := storePatch_applies hparse hlength
      fun e he => ⟨hkeys e he, reads_types hreads.reads e he⟩
    rcases h (fun _ => true) always "73".toList Registry.empty with
      ⟨⟨e, he⟩, -⟩ | ⟨entries', hparse', hcanonical⟩
    · rw [happlied] at he
      cases he
    · obtain rfl := Except.ok.inj (hparse'.symm.trans hparse)
      obtain ⟨hcount, hlines⟩ := hreads.canonical hcanonical
      exact ⟨hcount, fields_canonical hreads.reads (List.forall₂_map_left_iff.mp hlines)⟩
  · intro h room alloc nameHex r
    unfold storePatch
    cases hname : decodeHexCString nameHex with
    | none => exact .inl ⟨⟨_, rfl⟩, fun _ => rfl⟩
    | some name =>
        cases hparse : parsePatch long strtod text with
        | error e => exact .inl ⟨⟨e, rfl⟩, fun _ => rfl⟩
        | ok entries =>
            obtain ⟨count, lines, more, hreads⟩ := parsePatch_ok_iff.mp hparse
            by_cases hkeys : ∀ e ∈ entries, validKey (some e.1) = true
            · obtain ⟨hcount, hfields⟩ := h count lines more entries hreads hkeys
              refine .inr ⟨entries, rfl, lines.map PatchLine.text, more, ?_, ?_, hreads.trailing,
                lines_canonical hreads.reads hfields⟩
              · rw [← hreads.reads.length_eq, ← hcount]
                exact hreads.wire
              · exact List.forall_mem_map.mpr hreads.plain
            · obtain ⟨e, r', hrefused, hsame⟩ := storePatch_refuses hname hparse hkeys room alloc r
              unfold storePatch at hrefused
              simp only [hname, hparse] at hrefused
              simp only [hrefused]
              exact .inl ⟨⟨e, rfl⟩, fun name' => congrFun hsame name'⟩

end Grammar

/-- The packet of one null whose count has a sign is applied. -/
theorem signed_count_applied : ¬∀ (long : LongWidth) (strtod : List Char → RealConversion)
    (exponential : Number (BitVec 64) → List Char) (text : List Char),
    StrictAt long strtod exponential text := by
  intro h
  have hreads : PacketReads .long64 (fun text => ⟨0, text, false⟩) "P1:+1\n61:0:T:".toList
      "+1".toList [⟨"61".toList, "0".toList, 'T', []⟩] [] [([97], createNull)] :=
    ⟨rfl, by decide, by decide, by decide, ⟨.inl rfl, List.forall_mem_nil _⟩, rfl,
      .cons ⟨⟨by decide, by decide, by decide, by decide⟩, rfl, 0, rfl, rfl⟩ .nil⟩
  have hparse := parsePatch_ok_iff.mpr ⟨_, _, _, hreads⟩
  obtain ⟨revision, happlied⟩ := storePatch_applies hparse (by decide) (by decide)
  rcases h .long64 (fun text => ⟨0, text, false⟩) (fun _ => []) "P1:+1\n61:0:T:".toList
    (fun _ => true) always "73".toList Registry.empty with ⟨⟨e, he⟩, -⟩ | ⟨entries, hparse', hc⟩
  · rw [happlied] at he
    cases he
  · obtain rfl := Except.ok.inj (hparse'.symm.trans hparse)
    exact absurd (hreads.canonical hc).1 (by decide)

end Esdb.Wire
