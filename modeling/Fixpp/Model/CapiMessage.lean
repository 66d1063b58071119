import Fixpp.Model.BodyBuilder

/-!
# The write calls of the C API

An outbound `fixpp_msg` accumulates fields and groups in a tree; `fixpp_msg_commit` checks it
and writes the payload. A builder holds the indices that lead to its group, outermost first; it
is open as long as it is on the stack of open builders.

Every call is on a live message of a live session. What a dictionary answers is left open, and
so is the text of a double.
-/

namespace Fixpp.Model

open Foundation Writer

/-- `fixpp_error_t`, the codes of the write calls. -/
inductive CapiError
  | msgFramingTagForbidden
  | dictConfig
  | typeMismatch
  | wireConformance
  | wireLimitExceeded
  | invalidHandle
  | decimalInvalid
  deriving DecidableEq, Repr

/-- A declared field of a message, as far as the setters ask for its type. -/
structure DeclaredField where
  isIntCategory : Bool
  isFloatCategory : Bool
  deriving DecidableEq, Repr

/-- The dictionary of a session and its table view: the MsgTypes, the field of a message
(`none` for `NotDeclared`), the delimiter of a group anywhere (0 for a tag that is none)
and in an exact context, and the Length+Data pairs in the order they are registered. -/
structure SessionDict where
  messages : List Bytes
  fieldRef : Bytes → ℕ → Option DeclaredField
  groupFirstField : ℕ → ℕ
  groupFirstFieldExact : Bytes → List ℕ → ℕ → Option ℕ
  pairs : List (UInt16 × UInt16)

def SessionDict.pairTable (dict : SessionDict) : LengthPairTable :=
  LengthPairTable.setAll {} (dict.pairs.map fun p => (p.1.toNat, p.2.toNat))

def pairHooks : Option SessionDict → PairHooks
  | none => PairHooks.none
  | some dict => PairHooks.forTableView dict.pairTable

/-- `group_context::pushed`: the chain of parents is cut at 16. -/
def pushedTag (parentPath : List ℕ) (noTag : ℕ) : List ℕ :=
  if parentPath.length < 16 then parentPath ++ [noTag] else parentPath

structure GroupBuilder where
  outer : List (ℕ × ℕ)
  groupFieldIndex : ℕ
  deriving DecidableEq, Repr

/-- `fixpp_entry`: the number of its builder and its instance. -/
structure CapiEntry where
  builder : ℕ
  instanceIndex : ℕ
  deriving DecidableEq, Repr

/-- An outbound message: its accumulator, and the builders and entries handed out. -/
structure OutboundMsg where
  msgType : Bytes
  entries : List EntryNode := []
  openBuilders : List ℕ := []
  builders : List GroupBuilder := []
  entryHandles : List CapiEntry := []

variable (dict : Option SessionDict)

def createOutbound (msgType : Bytes) : Except CapiError OutboundMsg :=
  if (dict.any fun d => !d.messages.contains msgType) then .error .dictConfig
  else if msgType = [] ∨ soh ∈ msgType then .error .wireConformance
  else .ok { msgType := msgType }

/-! ## Checks of a setter -/

def isGroupCollision (entries : List EntryNode) (tag : ℕ) : Bool :=
  (dict.any fun d => d.groupFirstField tag ≠ 0) ||
    entries.any fun e => e.label.tag = tag && e.label.isGroup

inductive SetterFlavour
  | string
  | int
  | float
  deriving DecidableEq, Repr

def SetterFlavour.accepts : SetterFlavour → DeclaredField → Bool
  | .string, _ => true
  | .int, f => f.isIntCategory
  | .float, f => f.isFloatCategory

variable (m : OutboundMsg)

/-- Without a dictionary only a framing tag is refused. -/
def OutboundMsg.checkDict (tag : ℕ) (flavour : SetterFlavour) : Except CapiError Unit :=
  if isFramingTag tag then .error .msgFramingTagForbidden
  else match dict with
    | none => .ok ()
    | some d =>
      match d.fieldRef m.msgType tag with
      | none => .error .dictConfig
      | some field =>
        if isGroupCollision dict m.entries tag then .error .typeMismatch
        else if flavour.accepts field = false then .error .typeMismatch
        else .ok ()

def sohOutsideData (hooks : PairHooks) (tag : ℕ) (value : Bytes) : Bool :=
  hooks.lengthTagForData tag = 0 && value.contains soh

/-- `upsert_entry` and the write to the entry it returns: the first one with the tag, or a
new one. -/
def upsertEntry (write : EntryLabel → EntryLabel) (tag : ℕ) : List EntryNode → List EntryNode
  | [] => [.node (write { tag := tag }) []]
  | .node a instances :: rest =>
    if a.tag = tag then .node (write a) instances :: rest
    else .node a instances :: upsertEntry write tag rest

def assignValue (value : Bytes) (a : EntryLabel) : EntryLabel := { a with valueBytes := value }

def assignScalar (value : Bytes) (a : EntryLabel) : EntryLabel :=
  { a with isGroup := false, valueBytes := value }

def writeLabel (write : EntryLabel → EntryLabel) : EntryNode → EntryNode
  | .node a instances => .node (write a) instances

def upsertPair (lengthTag dataTag : ℕ) (value : Bytes) (fields : List EntryNode) :
    Except CapiError (List EntryNode) :=
  let li := fields.findIdx (fun e => e.label.tag = lengthTag)
  let di := fields.findIdx (fun e => e.label.tag = dataTag)
  let hasLength := li ≠ fields.length
  let hasData := di ≠ fields.length
  if (hasLength ∧ ¬hasData) ∨ (¬hasLength ∧ hasData) ∨ (hasLength ∧ di ≠ li + 1) then
    .error .typeMismatch
  else
    let digits := renderU32 value.length
    if ¬hasLength then
      .ok (fields ++ [.node { tag := lengthTag, valueBytes := digits } [],
        .node { tag := dataTag, valueBytes := value } []])
    else
      .ok ((fields.modify li (writeLabel (assignValue digits))).modify di
        (writeLabel (assignValue value)))

/-! ## Setters of the message -/

def OutboundMsg.assign (tag : ℕ) (value : Bytes) : OutboundMsg :=
  { m with entries := upsertEntry (assignValue value) tag m.entries }

def OutboundMsg.setString (tag : ℕ) (value : Bytes) : Except CapiError OutboundMsg := do
  m.checkDict dict tag .string
  if sohOutsideData (pairHooks dict) tag value then .error .wireConformance
  else .ok (m.assign tag value)

/-- `fixpp_msg_set_bytes`: no check of the dictionary's types, and none of the bytes. -/
def OutboundMsg.setBytes (tag : ℕ) (bytes : Bytes) : Except CapiError OutboundMsg :=
  if isFramingTag tag then .error .msgFramingTagForbidden
  else if isGroupCollision dict m.entries tag then .error .typeMismatch
  else .ok (m.assign tag bytes)

def OutboundMsg.setInt (tag : ℕ) (value : ℤ) : Except CapiError OutboundMsg := do
  m.checkDict dict tag .int
  .ok (m.assign tag (renderInt value))

/-- `fixpp_msg_set_double`, for a double with this text, `none` for one that is refused. -/
def OutboundMsg.setDouble (tag : ℕ) (text : Option Bytes) : Except CapiError OutboundMsg := do
  m.checkDict dict tag .float
  match text with
  | none => .error .decimalInvalid
  | some text => .ok (m.assign tag text)

def OutboundMsg.setDecimal (tag : ℕ) (value : PodDecimal) : Except CapiError OutboundMsg := do
  m.checkDict dict tag .float
  match value.toChars with
  | none => .error .decimalInvalid
  | some text => .ok (m.assign tag text)

def OutboundMsg.setData (dataTag : ℕ) (bytes : Bytes) : Except CapiError OutboundMsg :=
  if isFramingTag dataTag then .error .msgFramingTagForbidden
  else
    let lengthTag := (pairHooks dict).lengthTagForData dataTag
    if lengthTag = 0 then .error .typeMismatch
    else if isFramingTag lengthTag then .error .msgFramingTagForbidden
    else if bytes = [] then .error .wireConformance
    else if isGroupCollision dict m.entries lengthTag ∨ isGroupCollision dict m.entries dataTag then
      .error .typeMismatch
    else if (dict.any fun d => (d.fieldRef m.msgType lengthTag).isNone ||
        (d.fieldRef m.msgType dataTag).isNone) then
      .error .dictConfig
    else (upsertPair lengthTag dataTag bytes m.entries).map fun entries =>
      { m with entries := entries }

def OutboundMsg.removeTag (tag : ℕ) : Except CapiError OutboundMsg :=
  if m.openBuilders ≠ [] then .error .invalidHandle
  else .ok { m with entries := m.entries.eraseP fun e => e.label.tag = tag }

/-! ## Groups and entries -/

/-- A group at the end of the container at a path, and its builder on the stack. -/
def OutboundMsg.beginAt (path : List (ℕ × ℕ)) (fields : List EntryNode) (groupTag : ℕ) :
    OutboundMsg :=
  { m with
    entries := Rose.updateAt path
      (fun fields => fields ++ [.node { tag := groupTag, isGroup := true } []]) m.entries
    openBuilders := m.builders.length :: m.openBuilders
    builders := m.builders ++ [{ outer := path, groupFieldIndex := fields.length }] }

def OutboundMsg.groupBegin (groupTag : ℕ) : Except CapiError OutboundMsg :=
  if isFramingTag groupTag then .error .msgFramingTagForbidden
  else if (dict.any fun d => d.groupFirstField groupTag = 0) then .error .typeMismatch
  else .ok (m.beginAt [] m.entries groupTag)

def OutboundMsg.checkBuilder (builder : ℕ) : Option GroupBuilder :=
  if builder ∈ m.openBuilders then m.builders[builder]? else none

def OutboundMsg.resolveGroup (b : GroupBuilder) : Option EntryNode :=
  (Rose.containerAt b.outer m.entries).bind fun fields => fields[b.groupFieldIndex]?

def OutboundMsg.addEntry (builder : ℕ) : Except CapiError OutboundMsg :=
  match m.checkBuilder builder with
  | none => .error .invalidHandle
  | some b =>
    match m.resolveGroup b with
    | none => .error .invalidHandle
    | some group =>
      .ok { m with
        entries := Rose.updateAt b.outer
          (fun fields => fields.modify b.groupFieldIndex addInstance) m.entries
        entryHandles := m.entryHandles ++
          [{ builder := builder, instanceIndex := group.containers.length }] }

def OutboundMsg.entryPath (entry : ℕ) : Option (List (ℕ × ℕ)) := do
  let e ← m.entryHandles[entry]?
  let b ← m.checkBuilder e.builder
  some (b.outer ++ [(b.groupFieldIndex, e.instanceIndex)])

def OutboundMsg.entrySetBytes (entry tag : ℕ) (value : Bytes) : Except CapiError OutboundMsg :=
  match m.entryPath entry with
  | none => .error .invalidHandle
  | some path =>
    if isFramingTag tag then .error .msgFramingTagForbidden
    else match Rose.containerAt path m.entries with
      | none => .error .invalidHandle
      | some fields =>
        if isGroupCollision dict fields tag then .error .typeMismatch
        else .ok { m with
          entries := Rose.updateAt path (upsertEntry (assignScalar value) tag) m.entries }

def OutboundMsg.precheckEntryTag (entry tag : ℕ) : Except CapiError Unit :=
  if m.entryPath entry = none then .error .invalidHandle
  else if isFramingTag tag then .error .msgFramingTagForbidden
  else .ok ()

def OutboundMsg.entrySetString (entry tag : ℕ) (value : Bytes) : Except CapiError OutboundMsg := do
  m.precheckEntryTag entry tag
  if sohOutsideData (pairHooks dict) tag value then .error .wireConformance
  else m.entrySetBytes dict entry tag value

def OutboundMsg.entrySetInt (entry tag : ℕ) (value : ℤ) : Except CapiError OutboundMsg :=
  m.entrySetBytes dict entry tag (renderInt value)

/-- `fixpp_entry_set_double`, for a double with this text. -/
def OutboundMsg.entrySetDouble (entry tag : ℕ) (text : Option Bytes) :
    Except CapiError OutboundMsg := do
  m.precheckEntryTag entry tag
  match text with
  | none => .error .decimalInvalid
  | some text => m.entrySetBytes dict entry tag text

def OutboundMsg.entrySetDecimal (entry tag : ℕ) (value : PodDecimal) :
    Except CapiError OutboundMsg := do
  m.precheckEntryTag entry tag
  match value.toChars with
  | none => .error .decimalInvalid
  | some text => m.entrySetBytes dict entry tag text

/-- `builder_context`: the tags of the groups on a path. -/
def contextTags : List ℕ → List (ℕ × ℕ) → List EntryNode → List ℕ
  | parents, [], _ => parents
  | parents, (i, j) :: path, fields =>
    match fields[i]? with
    | none => parents
    | some e => contextTags (pushedTag parents e.label.tag) path ((e.containers[j]?).getD [])

/-- `fixpp_entry_set_data`: a Data field is no delimiter of its group in this context. -/
def OutboundMsg.entrySetData (entry dataTag : ℕ) (bytes : Bytes) :
    Except CapiError OutboundMsg := do
  m.precheckEntryTag entry dataTag
  let lengthTag := (pairHooks dict).lengthTagForData dataTag
  if lengthTag = 0 then .error .typeMismatch
  else if isFramingTag lengthTag then .error .msgFramingTagForbidden
  else if bytes = [] then .error .wireConformance
  else match m.entryPath entry, m.entryHandles[entry]? with
    | some path, some e =>
      match (m.builders[e.builder]?).bind fun b => (m.resolveGroup b).map fun g => (b, g) with
      | none => .error .invalidHandle
      | some (b, group) =>
        let context := contextTags [] b.outer m.entries
        if (dict.any fun d =>
            d.groupFirstFieldExact m.msgType context group.label.tag = some dataTag) then
          .error .typeMismatch
        else match group.containers[e.instanceIndex]? with
          | none => .error .invalidHandle
          | some fields =>
            if isGroupCollision dict fields lengthTag ∨
                isGroupCollision dict fields dataTag then
              .error .typeMismatch
            else (upsertPair lengthTag dataTag bytes fields).map fun fields =>
              { m with entries := Rose.updateAt path (fun _ => fields) m.entries }
    | _, _ => .error .invalidHandle

def OutboundMsg.entryGroupBegin (entry groupTag : ℕ) : Except CapiError OutboundMsg :=
  match m.entryPath entry with
  | none => .error .invalidHandle
  | some path =>
    if isFramingTag groupTag then .error .msgFramingTagForbidden
    else if (dict.any fun d => d.groupFirstField groupTag = 0) then .error .typeMismatch
    else match Rose.containerAt path m.entries with
      | none => .error .invalidHandle
      | some fields => .ok (m.beginAt path fields groupTag)

/-- `fixpp_msg_group_end`: the innermost open builder only. -/
def OutboundMsg.groupEnd (builder : ℕ) : Except CapiError OutboundMsg :=
  match m.openBuilders with
  | [] => .error .invalidHandle
  | top :: rest =>
    if top ≠ builder then .error .invalidHandle else .ok { m with openBuilders := rest }

/-! ## Commit -/

mutual

/-- A group in `validate_group_grammar`: its delimiter in this context, then its instances.
Without a dictionary, and for a delimiter 0, any field may come first. -/
def grammarNode (dict : Option SessionDict) (msgType : Bytes) (parents : List ℕ) : EntryNode → Bool
  | .node a instances =>
    if a.isGroup = false then true
    else if instances.isEmpty then true
    else match dict with
      | none => grammarInstances dict msgType (pushedTag parents a.tag) 0 instances
      | some d =>
        match d.groupFirstFieldExact msgType parents a.tag with
        | none => false
        | some delim => grammarInstances dict msgType (pushedTag parents a.tag) delim instances

/-- `validate_group_grammar`. -/
def grammarEntries (dict : Option SessionDict) (msgType : Bytes) (parents : List ℕ) :
    List EntryNode → Bool
  | [] => true
  | e :: rest => grammarNode dict msgType parents e && grammarEntries dict msgType parents rest

/-- The loop over the instances of a group. -/
def grammarInstances (dict : Option SessionDict) (msgType : Bytes) (parents : List ℕ)
    (delim : ℕ) : List (List EntryNode) → Bool
  | [] => true
  | inst :: rest =>
    !inst.isEmpty &&
      (delim == 0 || (inst.head?.map fun e => e.label.tag) == some delim) &&
      grammarEntries dict msgType parents inst && grammarInstances dict msgType parents delim rest

end

mutual

def checkLengthDataNode (hooks : PairHooks) : EntryNode → Bool
  | .node a instances => !a.isGroup || checkLengthDataInstances hooks instances

/-- `check_length_data`, from a state of the container's checker on. -/
def checkLengthData (hooks : PairHooks) : LengthDataChecker → List EntryNode → Bool
  | c, [] => c.finish
  | c, e :: rest =>
    let observed := c.observe hooks e.label.tag e.label.observedValue
    (e.label.isGroup || !sohOutsideData hooks e.label.tag e.label.valueBytes) && observed.1 &&
      checkLengthDataNode hooks e && checkLengthData hooks observed.2 rest

def checkLengthDataInstances (hooks : PairHooks) : List (List EntryNode) → Bool
  | [] => true
  | inst :: rest => checkLengthData hooks {} inst && checkLengthDataInstances hooks rest

end

/-- `append_field` of the C API, into a buffer of `cap` bytes that holds `out`. -/
def appendPayloadField (cap tag : ℕ) (value out : Bytes) : Option Bytes :=
  let needed := (renderU32 tag).length + 1 + value.length + 1
  if out.length + needed > cap then none
  else some (out ++ (renderU32 tag ++ equalsSign :: (value ++ [soh])))

mutual

def serialiseNode (cap : ℕ) : EntryNode → Bytes → Option Bytes
  | .node a instances, out =>
    if a.isGroup then
      (appendPayloadField cap a.tag (renderU32 instances.length) out).bind
        (serialiseInstances cap instances)
    else appendPayloadField cap a.tag a.valueBytes out

def serialiseEntries (cap : ℕ) : List EntryNode → Bytes → Option Bytes
  | [], out => some out
  | e :: rest, out => (serialiseNode cap e out).bind (serialiseEntries cap rest)

def serialiseInstances (cap : ℕ) : List (List EntryNode) → Bytes → Option Bytes
  | [], out => some out
  | inst :: rest, out => (serialiseEntries cap inst out).bind (serialiseInstances cap rest)

end

def frameCap : ℕ := 3800

def OutboundMsg.commit : Except CapiError Bytes :=
  if m.openBuilders ≠ [] then .error .invalidHandle
  else if grammarEntries dict m.msgType [] m.entries = false then .error .typeMismatch
  else if checkLengthData (pairHooks dict) {} m.entries = false then .error .wireConformance
  else
    let total := 3 + m.msgType.length + 1 + computeSize m.entries
    if total > frameCap then .error .wireLimitExceeded
    else match serialiseEntries total m.entries (ascii "35=" ++ m.msgType ++ [soh]) with
      | none => .error .wireLimitExceeded
      | some payload => .ok payload

/-! ## Sequences of calls -/

/-- A write call; a builder and an entry are named by when they were handed out. -/
inductive CapiCall
  | setString (tag : UInt16) (value : Bytes)
  | setBytes (tag : UInt16) (bytes : Bytes)
  | setData (dataTag : UInt16) (bytes : Bytes)
  | setInt (tag : UInt16) (value : ℤ)
  | setDouble (tag : UInt16) (text : Option Bytes)
  | setDecimal (tag : UInt16) (value : PodDecimal)
  | removeTag (tag : UInt16)
  | groupBegin (groupTag : UInt16)
  | addEntry (builder : ℕ)
  | entrySetString (entry : ℕ) (tag : UInt16) (value : Bytes)
  | entrySetData (entry : ℕ) (dataTag : UInt16) (bytes : Bytes)
  | entrySetInt (entry : ℕ) (tag : UInt16) (value : ℤ)
  | entrySetDouble (entry : ℕ) (tag : UInt16) (text : Option Bytes)
  | entrySetDecimal (entry : ℕ) (tag : UInt16) (value : PodDecimal)
  | entryGroupBegin (entry : ℕ) (groupTag : UInt16)
  | groupEnd (builder : ℕ)
  deriving DecidableEq, Repr

/-- The message behind a call that succeeds, or the code of one that does not. -/
def OutboundMsg.call (m : OutboundMsg) : CapiCall → Except CapiError OutboundMsg
  | .setString tag value => m.setString dict tag.toNat value
  | .setBytes tag bytes => m.setBytes dict tag.toNat bytes
  | .setData dataTag bytes => m.setData dict dataTag.toNat bytes
  | .setInt tag value => m.setInt dict tag.toNat value
  | .setDouble tag text => m.setDouble dict tag.toNat text
  | .setDecimal tag value => m.setDecimal dict tag.toNat value
  | .removeTag tag => m.removeTag tag.toNat
  | .groupBegin groupTag => m.groupBegin dict groupTag.toNat
  | .addEntry builder => m.addEntry builder
  | .entrySetString entry tag value => m.entrySetString dict entry tag.toNat value
  | .entrySetData entry dataTag bytes => m.entrySetData dict entry dataTag.toNat bytes
  | .entrySetInt entry tag value => m.entrySetInt dict entry tag.toNat value
  | .entrySetDouble entry tag text => m.entrySetDouble dict entry tag.toNat text
  | .entrySetDecimal entry tag value => m.entrySetDecimal dict entry tag.toNat value
  | .entryGroupBegin entry groupTag => m.entryGroupBegin dict entry groupTag.toNat
  | .groupEnd builder => m.groupEnd builder

/-- A refused call leaves the message as it was. -/
def OutboundMsg.step (c : CapiCall) : OutboundMsg :=
  match m.call dict c with
  | .ok m' => m'
  | .error _ => m

def OutboundMsg.run (calls : List CapiCall) : OutboundMsg :=
  calls.foldl (OutboundMsg.step dict) m

end Fixpp.Model
