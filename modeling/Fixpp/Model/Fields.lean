import Fixpp.Model.Prelude

/-!
# Fields of a frame

`scan_frame_header` reads the header members the dispatch needs, with the Length+Data carry that
steps over an SOH inside a counted value. `parse_seqnum` reads a MsgSeqNum; 0 stands for a value
that is not one.
-/

namespace Fixpp.Model

/-- The largest sequence number, `UINT32_MAX`. -/
def seqnumMax : ℕ := 4294967295

def seqnumMin : ℕ := 1

/-- The largest tag, `0xFFFF`. -/
def tagMax : ℕ := 65535

/-- `dict_hooks::data_tag_for_length`: the Data tag a Length tag counts, 0 for a
tag that is not a Length. -/
abbrev DictHooks := ℕ → ℕ

/-- The digits of a MsgSeqNum, read with the accumulated value so far. -/
def parseSeqnumFrom : ℕ → Bytes → ℕ
  | val, [] => val
  | val, c :: rest =>
    if isDigit c = false then 0
    else if val > 429496729 ∨ (val = 429496729 ∧ digitValue c > 5) then 0
    else parseSeqnumFrom (val * 10 + digitValue c) rest

/-- `parse_seqnum`: 0 for an empty, non-numeric or too large value. -/
def parseSeqnum (sv : Bytes) : ℕ := if sv = [] then 0 else parseSeqnumFrom 0 sv

def accumulateTagDigit (tag : ℕ) (c : UInt8) : Option ℕ :=
  if tag > (tagMax - digitValue c) / 10 then none else some (tag * 10 + digitValue c)

/-- `parse_bounded_u32`: the leading digits of a value, saturating. -/
def parseBoundedU32 : ℕ → Bytes → ℕ
  | acc, [] => acc
  | acc, c :: rest =>
    if isDigit c = false then acc
    else if acc > (seqnumMax - digitValue c) / 10 then parseBoundedU32 seqnumMax rest
    else parseBoundedU32 (acc * 10 + digitValue c) rest

/-- The tag in front of an equals sign and the bytes behind it; `none` for a
malformed tag. -/
def readTag : Bool → ℕ → Bytes → Option (ℕ × Bytes)
  | _, _, [] => none
  | started, tag, b :: rest =>
    if b = equalsSign then if started then some (tag, rest) else none
    else if isDigit b = false then none
    else match accumulateTagDigit tag b with
      | none => none
      | some tag' => readTag true tag' rest

/-- The Data tag the previous field counts (0 for none) and the count. -/
structure LengthDataCarry where
  dataTag : ℕ := 0
  count : ℕ := 0

def splitValue (bytes : Bytes) : Bytes × Bytes := bytes.span (· ≠ soh)

/-- `counted_value_end`: a counted value and the bytes from its SOH on; `none`
when the count reaches the end of the buffer or no SOH follows. -/
def countedValue (bytes : Bytes) (count : ℕ) : Option (Bytes × Bytes) :=
  match bytes.drop count with
  | b :: rest => if b = soh then some (bytes.take count, b :: rest) else none
  | [] => none

/-- The value of field `tag`, the bytes from its SOH on and the carry for the next field. -/
def LengthDataCarry.readValue (carry : LengthDataCarry) (hooks : DictHooks) (tag : ℕ)
    (bytes : Bytes) : Option (Bytes × Bytes × LengthDataCarry) :=
  let counted := carry.dataTag ≠ 0 ∧ carry.dataTag = tag
  match if counted then countedValue bytes carry.count else some (splitValue bytes) with
  | none => none
  | some (value, rest) =>
    let dataTag := hooks tag
    let count := if dataTag ≠ 0 then parseBoundedU32 0 value else carry.count
    some (value, rest, { dataTag := dataTag, count := count })

inductive FieldFault
  | none
  | malformedTag
  | lengthDataMismatch
  deriving DecidableEq, Repr

/-- The last value of each header field read before any fault, the first fault, and the first
MsgSeqNum and third-field MsgType that name a frame the session cannot read to its end. -/
structure FrameHeader where
  beginString : Bytes := []
  senderCompId : Bytes := []
  targetCompId : Bytes := []
  msgSeqNum : Bytes := []
  msgType : Bytes := []
  sendingTime : Bytes := []
  testReqId : Bytes := []
  beginSeqno : Bytes := []
  endSeqno : Bytes := []
  newSeqno : Bytes := []
  possDupFlag : Bytes := []
  origSendingTime : Bytes := []
  gapFillFlag : Bytes := []
  resetSeqnumFlag : Bytes := []
  testMessageIndicator : Bytes := []
  maxMessageSize : Bytes := []
  nextExpectedMsgSeqNum : Bytes := []
  nextExpectedPresent : Bool := false
  fault : FieldFault := .none
  faultLengthTag : ℕ := 0
  msgTypeIsThird : Bool := false
  faultRefSeqNum : Bytes := []
  faultRefMsgType : Bytes := []

/-- The `switch (tag)` of the scan: field number `fieldNo` has this tag and
value; `seen34` says whether a MsgSeqNum was read before it. -/
def FrameHeader.setMember (h : FrameHeader) (tag : ℕ) (value : Bytes) (fieldNo : ℕ)
    (seen34 : Bool) : FrameHeader :=
  match tag with
  | 7 => { h with beginSeqno := value }
  | 8 => { h with beginString := value }
  | 16 => { h with endSeqno := value }
  | 34 =>
    if seen34 then { h with msgSeqNum := value }
    else { h with msgSeqNum := value, faultRefSeqNum := value }
  | 35 =>
    if fieldNo = 3 then
      { h with msgType := value, msgTypeIsThird := true, faultRefMsgType := value }
    else { h with msgType := value }
  | 36 => { h with newSeqno := value }
  | 43 => { h with possDupFlag := value }
  | 49 => { h with senderCompId := value }
  | 52 => { h with sendingTime := value }
  | 56 => { h with targetCompId := value }
  | 112 => { h with testReqId := value }
  | 122 => { h with origSendingTime := value }
  | 123 => { h with gapFillFlag := value }
  | 141 => { h with resetSeqnumFlag := value }
  | 383 => { h with maxMessageSize := value }
  | 464 => { h with testMessageIndicator := value }
  | 789 => { h with nextExpectedMsgSeqNum := value, nextExpectedPresent := true }
  | _ => h

structure HeaderScanState where
  header : FrameHeader := {}
  carry : LengthDataCarry := {}
  prevTag : ℕ := 0
  fieldNo : ℕ := 0
  seen34 : Bool := false

/-- The fields of `bytes`, one round of `fuel` a field; a field takes at least
one byte, so the number of bytes is fuel enough. -/
def scanFields (hooks : DictHooks) : ℕ → HeaderScanState → Bytes → FrameHeader
  | 0, st, _ => st.header
  | _, st, [] => st.header
  | fuel + 1, st, b :: bytes =>
    match readTag false 0 (b :: bytes) with
    | none => { st.header with fault := .malformedTag }
    | some (tag, rest) =>
      match st.carry.readValue hooks tag rest with
      | none =>
        { st.header with fault := .lengthDataMismatch, faultLengthTag := st.prevTag }
      | some (value, rest', carry) =>
        scanFields hooks fuel
          { header := st.header.setMember tag value (st.fieldNo + 1) st.seen34
            carry := carry
            prevTag := tag
            fieldNo := st.fieldNo + 1
            seen34 := st.seen34 || tag == 34 }
          (rest'.drop 1)

def scanFrameHeader (hooks : DictHooks) (frame : Bytes) : FrameHeader :=
  scanFields hooks frame.length {} frame

/-- The session-level types the dispatch handles itself. -/
def isAdminMsgtype (msgType : Bytes) : Bool :=
  msgType ∈ [ascii "0", ascii "1", ascii "2", ascii "3", ascii "4", ascii "5"]

/-! ## The route peek

What the header of a FIXT frame says before a table is chosen to parse it:
`walk_fixt_header` reads the fields up to the first tag that is no header tag, and
`peek_fixt_route` and `fixt_header_repeats_msg_type` are its two callers. A tag is
read by the loop the header scan has, `readTag`. -/

/-- What the peek reads of the session's `table_view` beside its hooks: the header tags,
one bit a tag in words of 64. -/
structure RouteTable where
  headerBits : List UInt64

def RouteTable.isHeaderTag (table : RouteTable) (tag : ℕ) : Bool :=
  match table.headerBits[tag / 64]? with
  | none => false
  | some word => word.toNat.testBit (tag % 64)

/-- The tags of `kFixtFramingTable`. -/
def fixtFramingTags : List ℕ :=
  [8, 9, 10, 34, 35, 43, 49, 50, 52, 56, 57, 89, 90, 91, 93, 97, 115, 116, 122, 128, 129, 142,
   143, 144, 145, 212, 213, 347, 369, 627, 628, 629, 630, 1128, 1129, 1156]

/-- The framing tags and OnBehalfOfSendingTime, without the trailer. -/
def isFixtStandardHeaderTag (tag : ℕ) : Bool :=
  (fixtFramingTags.contains tag || tag == 370) && !([10, 89, 93].contains tag)

/-- The tags at which the walk goes on. -/
def RouteTable.isWalked (table : RouteTable) (tag : ℕ) : Bool :=
  table.isHeaderTag tag || isFixtStandardHeaderTag tag

def isFixtAdminMsgtype (msgType : Bytes) : Bool :=
  [ascii "0", ascii "1", ascii "2", ascii "3", ascii "4", ascii "5", ascii "A"].contains msgType

/-- `kMsgTypeTag`, `kApplVerIdTag` and `kMsgTypeField`. -/
def msgTypeTag : ℕ := 35

@[inherit_doc msgTypeTag] def applVerIdTag : ℕ := 1128

@[inherit_doc msgTypeTag] def msgTypeField : ℕ := 3

/-- What the walk calls for a field: its number, tag and value, and whether the walk is
past the stop. -/
abbrev OnField (σ : Type) := ℕ → ℕ → Bytes → Bool → σ → σ

/-- The loop of `walk_fixt_header`, one round of `fuel` a field: whether no field it had
to read faults, and what the calls left behind. -/
def walkFields {σ : Type} (hooks : DictHooks) (table : RouteTable) (onField : OnField σ) :
    ℕ → LengthDataCarry → ℕ → Bool → Bytes → σ → Bool × σ
  | _, _, _, _, [], acc => (true, acc)
  | 0, _, _, _, _ :: _, acc => (true, acc)
  | fuel + 1, carry, fieldNo, pastStop, b :: bytes, acc =>
    if pastStop && decide (msgTypeField ≤ fieldNo) then (true, acc)
    else
      let fieldNo := fieldNo + 1
      match readTag false 0 (b :: bytes) with
      | none => (false, acc)
      | some (tag, value) =>
        let pastStop := pastStop || !table.isWalked tag
        if pastStop && decide (msgTypeField < fieldNo) then (true, acc)
        else
          match carry.readValue hooks tag value with
          | none => (false, acc)
          | some (v, rest, carry) =>
            walkFields hooks table onField fuel carry fieldNo pastStop (rest.drop 1)
              (onField fieldNo tag v pastStop acc)

/-- `walk_fixt_header`; a field takes at least one byte. -/
def walkFixtHeader {σ : Type} (frame : Bytes) (hooks : DictHooks) (table : RouteTable)
    (onField : OnField σ) (acc : σ) : Bool × σ :=
  walkFields hooks table onField frame.length {} 0 false frame acc

structure FixtRoutePeek where
  msgType : Bytes := []
  applVerId : Bytes := []
  readable : Bool := false
  admin : Bool := false
  header1128 : Bool := false
  deriving DecidableEq, Repr

/-- The call of `peek_fixt_route`, on the peek and `third_is_35`. -/
def peekField : OnField (FixtRoutePeek × Bool) := fun fieldNo tag value pastStop acc =>
  let acc := if fieldNo = msgTypeField ∧ tag = msgTypeTag then
    ({ acc.1 with msgType := value }, true) else acc
  if tag = applVerIdTag ∧ pastStop = false ∧ acc.1.header1128 = false then
    ({ acc.1 with header1128 := true, applVerId := value }, acc.2)
  else acc

def peekFixtRoute (frame : Bytes) (hooks : DictHooks) (table : RouteTable) : FixtRoutePeek :=
  match walkFixtHeader frame hooks table peekField ({}, false) with
  | (true, peek, true) => { peek with readable := true, admin := isFixtAdminMsgtype peek.msgType }
  | _ => {}

/-- The call of `fixt_header_repeats_msg_type`, on `repeated`. -/
def repeatsField : OnField Bool := fun fieldNo tag _ _ repeated =>
  repeated || (decide (msgTypeField < fieldNo) && tag == msgTypeTag)

def fixtHeaderRepeatsMsgType (frame : Bytes) (hooks : DictHooks) (table : RouteTable) : Bool :=
  (walkFixtHeader frame hooks table repeatsField false).2

end Fixpp.Model
