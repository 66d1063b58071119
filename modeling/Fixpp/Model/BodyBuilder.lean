import Fixpp.Model.FieldTree

/-!
# The body builder

`wire::body_builder` collects the fields of a message body in a tree and writes them on
`commit`. Handles lead to the instances of groups, which open and close in LIFO order.

For the fixed arena of the nodes, every call carries the number of appends it still serves,
`room`. A handle holds the indices that lead to its group or instance, as in the source.
-/

namespace Fixpp.Model

open Foundation Writer

def isPrintable (c : UInt8) : Bool := 0x20 ≤ c && c ≤ 0x7E

def isCleanFieldValue (sv : Bytes) : Bool := sv.all isPrintable

/-! ## Numbers as text -/

/-- `std::to_chars` of a signed number. -/
def renderInt (v : ℤ) : Bytes :=
  if v < 0 then ascii "-" ++ renderU32 v.natAbs else renderU32 v.natAbs

structure PodDecimal where
  mantissa : ℤ
  exponent : ℤ
  deriving DecidableEq, Repr

/-- `INT64_MIN`, the sentinel of an invalid decimal. -/
def int64Min : ℤ := -9223372036854775808

/-- The trailing zeros of the fraction stripped: the digits and how many of them are the
fraction. -/
def stripFraction : ℕ → Bytes → Bytes × ℕ
  | 0, digits => (digits, 0)
  | frac + 1, digits =>
    if digits.getLast? = some 48 then stripFraction frac digits.dropLast else (digits, frac + 1)

def pointedDigits (frac : ℕ) (digits : Bytes) : Bytes :=
  if frac = 0 then digits
  else if frac ≥ digits.length then
    ascii "0." ++ List.replicate (frac - digits.length) 48 ++ digits
  else digits.take (digits.length - frac) ++ ascii "." ++ digits.drop (digits.length - frac)

/-- `decimal_traits<pod_decimal>::to_chars` into 64 bytes, which always suffice. -/
def PodDecimal.toChars (v : PodDecimal) : Option Bytes :=
  if v.mantissa = int64Min ∨ v.exponent > 0 ∨ v.exponent < -38 then none
  else if v.mantissa = 0 then some (ascii "0")
  else
    let stripped := stripFraction v.exponent.natAbs (renderU32 v.mantissa.natAbs)
    some ((if v.mantissa < 0 then ascii "-" else []) ++ pointedDigits stripped.2 stripped.1)

/-! ## Appending a field -/

/-- An append to a container: its result, the container behind it, and
`pair_check_needed_`. -/
structure Appended where
  result : Except Error Unit
  into : List EntryNode
  pairCheckNeeded : Bool

/-- The tag is noted before the arena can refuse. -/
def appendBytesField (room tag : ℕ) (value : Bytes) (needed : Bool) (into : List EntryNode) :
    Appended :=
  let noted := needed || isStandardPairTag tag
  if room = 0 then ⟨.error .wireFrameTooLarge, into, noted⟩
  else ⟨.ok (), into ++ [.node { tag := tag, valueBytes := value } []], noted⟩

def appendStringField (room tag : ℕ) (v : Bytes) (needed : Bool) (into : List EntryNode) :
    Appended :=
  if isFramingTag tag then ⟨.error .wireFieldValueOutOfRange, into, needed⟩
  else if isCleanFieldValue v = false then ⟨.error .wireFieldValueOutOfRange, into, needed⟩
  else appendBytesField room tag v needed into

def appendIntField (room tag : ℕ) (v : ℤ) (needed : Bool) (into : List EntryNode) : Appended :=
  if isFramingTag tag then ⟨.error .wireFieldValueOutOfRange, into, needed⟩
  else appendBytesField room tag (renderInt v) needed into

def appendDecimalField (room tag : ℕ) (v : PodDecimal) (needed : Bool) (into : List EntryNode) :
    Appended :=
  if isFramingTag tag then ⟨.error .wireFieldValueOutOfRange, into, needed⟩
  else match v.toChars with
    | none => ⟨.error .decimalInvalidInput, into, needed⟩
    | some text => appendBytesField room tag text needed into

/-- The Length and the Data of a standard pair, both or neither. -/
def appendDataField (room dataTag : ℕ) (value : Bytes) (needed : Bool) (into : List EntryNode) :
    Appended :=
  if isFramingTag dataTag then ⟨.error .wireFieldValueOutOfRange, into, needed⟩
  else
    let lengthTag := PairHooks.none.lengthTagForData dataTag
    if lengthTag = 0 then ⟨.error .wireUnexpectedTag, into, needed⟩
    else if value = [] then ⟨.error .wireFieldValueOutOfRange, into, needed⟩
    else
      let length := appendIntField room lengthTag value.length needed into
      match length.result with
      | .error _ => length
      | .ok _ =>
        let data := appendBytesField (room - 1) dataTag value length.pairCheckNeeded length.into
        match data.result with
        | .error _ => { data with into := data.into.dropLast }
        | .ok _ => data

/-- The value a caller hands to `field`, `field_data` or one of the setters of an entry. -/
inductive FieldValue
  | string (v : Bytes)
  | char (c : UInt8)
  | int (v : ℤ)
  | decimal (v : PodDecimal)
  | data (v : Bytes)
  deriving DecidableEq, Repr

def appendField (room tag : ℕ) : FieldValue → Bool → List EntryNode → Appended
  | .string v => appendStringField room tag v
  | .char c => appendStringField room tag [c]
  | .int v => appendIntField room tag v
  | .decimal v => appendDecimalField room tag v
  | .data v => appendDataField room tag v

/-! ## The builder -/

/-- The index of the group and, for each level around it, outermost first, those of the group and of
its instance; the number its `group_begin` got. -/
structure GroupHandle where
  outer : List (ℕ × ℕ)
  groupIdx : ℕ
  openSeq : ℕ
  deriving DecidableEq, Repr

structure EntryHandle where
  group : GroupHandle
  instanceIndex : ℕ
  deriving DecidableEq, Repr

def EntryHandle.path (e : EntryHandle) : List (ℕ × ℕ) :=
  e.group.outer ++ [(e.group.groupIdx, e.instanceIndex)]

def GroupHandle.levels (h : GroupHandle) : ℕ := h.outer.length + 1

def maxGroupNestDepth : ℕ := 8

/-- `body_builder`, with the top of the stack of open groups first. -/
structure BodyBuilder where
  msgType : Bytes
  hooks : PairHooks
  entries : List EntryNode := []
  openStack : List ℕ := []
  nextOpenSeq : ℕ := 1
  pairCheckNeeded : Bool

/-- The constructor: an installed pair callback can name any tag. -/
def BodyBuilder.new (msgType : Bytes) (hooks : PairHooks) : BodyBuilder where
  msgType := msgType
  hooks := hooks
  pairCheckNeeded := hooks.lengthPair.isSome

variable (b : BodyBuilder)

def BodyBuilder.isInnermostOpen (openSeq : ℕ) : Bool :=
  b.openStack.head? = some openSeq

def BodyBuilder.noteTag (tag : ℕ) : BodyBuilder :=
  { b with pairCheckNeeded := b.pairCheckNeeded || isStandardPairTag tag }

/-- An append to the container at a path; the source does not check that there is one. -/
def BodyBuilder.appendAt (path : List (ℕ × ℕ)) (append : Bool → List EntryNode → Appended) :
    Except Error Unit × BodyBuilder :=
  match Rose.containerAt path b.entries with
  | none => (.error .wireInvalidFieldFormat, b)
  | some into =>
    let a := append b.pairCheckNeeded into
    (a.result, { b with
      entries := Rose.updateAt path (fun _ => a.into) b.entries
      pairCheckNeeded := a.pairCheckNeeded })

/-- `field`, in its overloads, and `field_data`. -/
def BodyBuilder.field (tag : ℕ) (v : FieldValue) (room : ℕ) : Except Error Unit × BodyBuilder :=
  b.appendAt [] (appendField room tag v)

/-- `entry_handle::set_string`, `set_char`, `set_int`, `set_decimal` and `set_data`. -/
def BodyBuilder.set (e : EntryHandle) (tag : ℕ) (v : FieldValue) (room : ℕ) :
    Except Error Unit × BodyBuilder :=
  if b.isInnermostOpen e.group.openSeq = false then (.error .wireInvalidFieldFormat, b)
  else b.appendAt e.path (appendField room tag v)

/-- The end of `group_begin` and of `entry_group_begin_impl`: a group at the end of the
container at a path. -/
def BodyBuilder.beginAt (path : List (ℕ × ℕ)) (noTag delimiterTag room : ℕ) :
    Except Error GroupHandle × BodyBuilder :=
  let b := b.noteTag noTag
  match Rose.containerAt path b.entries with
  | none => (.error .wireInvalidFieldFormat, b)
  | some into =>
    if room = 0 then (.error .wireFrameTooLarge, b)
    else
      let openSeq := b.nextOpenSeq
      let b := { b with nextOpenSeq := (openSeq + 1) % 2 ^ 32 }
      -- the entry is there but the stack of open groups does not grow
      if room = 1 then (.error .wireFrameTooLarge, b)
      else
        let group := Rose.node { tag := noTag, isGroup := true, delimiterTag := delimiterTag } []
        (.ok { outer := path, groupIdx := into.length, openSeq := openSeq }, { b with
          entries := Rose.updateAt path (fun into => into ++ [group]) b.entries
          openStack := openSeq :: b.openStack })

def BodyBuilder.groupBegin (noTag delimiterTag room : ℕ) : Except Error GroupHandle × BodyBuilder :=
  if isFramingTag noTag then (.error .wireFieldValueOutOfRange, b)
  else b.beginAt [] noTag delimiterTag room

def BodyBuilder.entryGroupBegin (e : EntryHandle) (noTag delimiterTag room : ℕ) :
    Except Error GroupHandle × BodyBuilder :=
  if isFramingTag noTag then (.error .wireFieldValueOutOfRange, b)
  else if b.isInnermostOpen e.group.openSeq = false then (.error .wireInvalidFieldFormat, b)
  else if e.group.levels ≥ maxGroupNestDepth - 1 then (.error .wireFrameTooLarge, b)
  else b.beginAt e.path noTag delimiterTag room

def addInstance : EntryNode → EntryNode
  | .node a instances => .node a (instances ++ [[]])

def resolveGroup (entries : List EntryNode) (h : GroupHandle) : Option EntryNode :=
  (Rose.containerAt h.outer entries).bind fun into => into[h.groupIdx]?

def BodyBuilder.addEntry (g : GroupHandle) (room : ℕ) : Except Error EntryHandle × BodyBuilder :=
  if b.isInnermostOpen g.openSeq = false then (.error .wireInvalidFieldFormat, b)
  else match resolveGroup b.entries g with
    | none => (.error .wireInvalidFieldFormat, b)
    | some group =>
      if room = 0 then (.error .wireFrameTooLarge, b)
      else (.ok { group := g, instanceIndex := group.containers.length }, { b with
        entries := Rose.updateAt g.outer (fun into => into.modify g.groupIdx addInstance)
          b.entries })

/-- `group_end`, of a handle this builder issued. -/
def BodyBuilder.groupEnd (g : GroupHandle) : Except Error Unit × BodyBuilder :=
  match b.openStack with
  | [] => (.error .wireInvalidFieldFormat, b)
  | top :: rest =>
    if top ≠ g.openSeq then (.error .wireInvalidFieldFormat, b)
    else (.ok (), { b with openStack := rest })

/-! ## Commit -/

mutual

/-- The instances of an entry, in `validate_group_grammar`. -/
def validateNode (pairs : Option PairHooks) : EntryNode → Bool
  | .node a instances => !a.isGroup || validateInstances pairs a.delimiterTag instances

/-- `validate_group_grammar`, with the pairs to check by where they are checked, from a
state of the container's checker on. -/
def validateEntries (pairs : Option PairHooks) : LengthDataChecker → List EntryNode → Bool
  | c, [] => pairs.isNone || c.finish
  | c, e :: rest =>
    match pairs with
    | none => validateNode pairs e && validateEntries pairs c rest
    | some hooks =>
      let observed := c.observe hooks e.label.tag e.label.observedValue
      observed.1 && validateNode pairs e && validateEntries pairs observed.2 rest

/-- The loop over the instances of a group: not empty, the delimiter first. -/
def validateInstances (pairs : Option PairHooks) (delimiterTag : ℕ) : List (List EntryNode) → Bool
  | [] => true
  | inst :: rest =>
    (inst.head?.map fun e => e.label.tag) == some delimiterTag &&
      validateEntries pairs {} inst && validateInstances pairs delimiterTag rest

end

def bodyCap : ℕ := 3800

/-- `commit` into a buffer of `outSize` bytes. -/
def BodyBuilder.commit (b : BodyBuilder) (outSize : ℕ) : Except Error Bytes :=
  if b.openStack ≠ [] then .error .wireInvalidFieldFormat
  else if validateEntries (if b.pairCheckNeeded then some b.hooks else none) {} b.entries = false then
    .error .wireInvalidFieldFormat
  else if b.msgType = [] ∨ isCleanFieldValue b.msgType = false then
    .error .wireFieldValueOutOfRange
  else
    let total := 3 + b.msgType.length + 1 + computeSize b.entries
    if total > bodyCap then .error .wireFrameTooLarge
    else if outSize < total then .error .wireFrameTooLarge
    else .ok ((ascii "35=" ++ b.msgType ++ soh :: serializeEntries b.entries).take total)

/-- `commit` on a destination: its result and the bytes of `out` behind the call. The body
is put together elsewhere and copied at the end. -/
def BodyBuilder.commitInto (out : Bytes) : Except Error Bytes × Bytes :=
  match b.commit out.length with
  | .error e => (.error e, out)
  | .ok body => (.ok body, body ++ out.drop body.length)

/-! ## Runs of a caller -/

structure BuilderRun where
  builder : BodyBuilder
  groups : List GroupHandle := []
  entryHandles : List EntryHandle := []

/-- A call on the builder or on one of its handles, which is named by when it was issued;
`room` is the number of appends the arena serves in the call. A handle that is not there
stands for a default-constructed one. -/
inductive BuilderOp
  | field (tag : UInt16) (v : FieldValue) (room : ℕ)
  | groupBegin (noTag delimiterTag : UInt16) (room : ℕ)
  | groupEnd (group : ℕ)
  | addEntry (group room : ℕ)
  | set (entry : ℕ) (tag : UInt16) (v : FieldValue) (room : ℕ)
  | entryGroupBegin (entry : ℕ) (noTag delimiterTag : UInt16) (room : ℕ)

def BuilderRun.issueGroup (r : BuilderRun) (called : Except Error GroupHandle × BodyBuilder) :
    BuilderRun :=
  { r with
    builder := called.2
    groups := r.groups ++ called.1.toOption.toList }

/-- A call; one on a default-constructed handle is refused at once. -/
def BuilderRun.step (r : BuilderRun) : BuilderOp → BuilderRun
  | .field tag v room => { r with builder := (r.builder.field tag.toNat v room).2 }
  | .groupBegin noTag delimiterTag room =>
    r.issueGroup (r.builder.groupBegin noTag.toNat delimiterTag.toNat room)
  | .groupEnd group =>
    match r.groups[group]? with
    | none => r
    | some g => { r with builder := (r.builder.groupEnd g).2 }
  | .addEntry group room =>
    match r.groups[group]? with
    | none => r
    | some g =>
      let called := r.builder.addEntry g room
      { r with
        builder := called.2
        entryHandles := r.entryHandles ++ called.1.toOption.toList }
  | .set entry tag v room =>
    match r.entryHandles[entry]? with
    | none => r
    | some e => { r with builder := (r.builder.set e tag.toNat v room).2 }
  | .entryGroupBegin entry noTag delimiterTag room =>
    match r.entryHandles[entry]? with
    | none => r
    | some e => r.issueGroup (r.builder.entryGroupBegin e noTag.toNat delimiterTag.toNat room)

def BuilderRun.run (r : BuilderRun) (ops : List BuilderOp) : BuilderRun := ops.foldl step r

end Fixpp.Model
