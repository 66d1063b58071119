import Fixpp.Foundation.Forest
import Fixpp.Model.LengthPairs
import Fixpp.Model.Resend

/-!
# The field tree of a message being written

`wire::body_builder` and the C API's accumulator keep a message as a tree of entries: a scalar
field, or a repeating group with its instances. Both check, size and serialise it alike.
-/

namespace Fixpp.Model

open Foundation Writer

/-- `entry_node` and `AccumulatorEntry` without the instances: a scalar field, or a group
with its count tag. Only the body builder knows the delimiter of a group. -/
structure EntryLabel where
  tag : ℕ
  isGroup : Bool := false
  delimiterTag : ℕ := 0
  valueBytes : Bytes := []
  deriving DecidableEq, Repr

abbrev EntryNode := Rose EntryLabel

/-- `kFramingTags`, of the body builder and of the C API alike. -/
def framingTags : List ℕ := [8, 9, 34, 49, 52, 56, 10]

def isFramingTag (tag : ℕ) : Bool := framingTags.contains tag

/-! ## Size and bytes -/

mutual

def nodeSize : EntryNode → ℕ
  | .node a instances =>
    if a.isGroup then
      (renderU32 a.tag).length + 1 + (renderU32 instances.length).length + 1 +
        instancesSize instances
    else (renderU32 a.tag).length + 1 + a.valueBytes.length + 1

/-- `body_builder::compute_size`, and `compute_entries_size` of the C API. -/
def computeSize : List EntryNode → ℕ
  | [] => 0
  | e :: rest => nodeSize e + computeSize rest

def instancesSize : List (List EntryNode) → ℕ
  | [] => 0
  | inst :: rest => computeSize inst + instancesSize rest

end

mutual

def serializeNode : EntryNode → Bytes
  | .node a instances =>
    if a.isGroup then
      renderU32 a.tag ++ equalsSign :: (renderU32 instances.length ++ [soh]) ++
        serializeInstances instances
    else renderU32 a.tag ++ equalsSign :: (a.valueBytes ++ [soh])

def serializeEntries : List EntryNode → Bytes
  | [] => []
  | e :: rest => serializeNode e ++ serializeEntries rest

def serializeInstances : List (List EntryNode) → Bytes
  | [] => []
  | inst :: rest => serializeEntries inst ++ serializeInstances rest

end

/-! ## The Length+Data check of a container -/

/-- The loop of `observe` over a Length value: every byte a digit and the count within 32
bits. -/
def checkedCount : ℕ → Bytes → Option ℕ
  | count, [] => some count
  | count, c :: rest =>
    if isDigit c = false ∨ count > (seqnumMax - digitValue c) / 10 then none
    else checkedCount (count * 10 + digitValue c) rest

structure LengthDataChecker where
  awaitedData : ℕ := 0
  awaitedLen : ℕ := 0
  failed : Bool := false
  deriving DecidableEq, Repr

/-- One field of a container, in the order it is written. -/
def LengthDataChecker.observe (hooks : PairHooks) (c : LengthDataChecker) (tag : ℕ)
    (value : Bytes) : Bool × LengthDataChecker :=
  if c.failed then (false, c)
  else if c.awaitedData ≠ 0 then
    let ok := tag = c.awaitedData ∧ value ≠ [] ∧ value.length = c.awaitedLen
    (ok, { c with awaitedData := 0, failed := !ok })
  else if hooks.lengthTagForData tag ≠ 0 then (false, { c with failed := true })
  else
    let data := hooks.dataTagForLength tag
    if data ≠ 0 then
      match checkedCount 0 value with
      | none => (false, { c with failed := true })
      | some count =>
        if value = [] ∨ count = 0 then (false, { c with failed := true })
        else (true, { c with awaitedData := data, awaitedLen := count })
    else (true, c)

def LengthDataChecker.finish (c : LengthDataChecker) : Bool := !c.failed && c.awaitedData == 0

/-- What a container's checker is fed for an entry: a group goes in with an empty value. -/
def EntryLabel.observedValue (a : EntryLabel) : Bytes := if a.isGroup then [] else a.valueBytes

end Fixpp.Model
