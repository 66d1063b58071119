import Fixpp.Model.CapiMessage

/-!
# What the write calls of the C API are for

A message is a list of items: a field with a value, or a group with its entries, which are lists
of items again. A call that succeeds makes one edit of it: a setter gives the field with its tag
a value, in place or behind the others; `remove_tag` takes an item away; a group and an entry
are added behind the others. `built` is the message the successful calls make.
-/

namespace Fixpp.Interface

open Foundation Model Writer

/-- A field with its value, or a group. -/
structure ItemLabel where
  tag : ℕ
  value : Option Bytes
  deriving DecidableEq, Repr

abbrev Item := Rose ItemLabel

def fieldItem (tag : ℕ) (value : Bytes) : Item := .node ⟨tag, some value⟩ []

def groupItem (tag : ℕ) : Item := .node ⟨tag, none⟩ []

/-- The field on the wire of an item with this number of entries: a group has its count. -/
def ItemLabel.field (a : ItemLabel) (entries : ℕ) : Field :=
  (a.tag, a.value.getD (renderU32 entries))

def builtFields (items : List Item) : List Field :=
  Rose.preorder ItemLabel.field (fun a => a.value.isNone) items

/-- The field with this tag has this value: the first one, or a new one behind the others. -/
def setField (tag : ℕ) (value : Bytes) : List Item → List Item
  | [] => [fieldItem tag value]
  | .node a entries :: rest =>
    if a.tag = tag ∧ a.value.isSome then .node ⟨tag, some value⟩ entries :: rest
    else .node a entries :: setField tag value rest

def addItemEntry : Item → Item
  | .node a entries => .node a (entries ++ [[]])

inductive Edit
  | set (tag : ℕ) (value : Bytes)
  | setPair (lengthTag dataTag : ℕ) (value : Bytes)
  | remove (tag : ℕ)
  | beginGroup (tag : ℕ)
  | addEntry (index : ℕ)

/-- What an edit makes of a list of items; a pair is a Length field with the number of
bytes and a Data field with the bytes. -/
def Edit.apply : Edit → List Item → List Item
  | .set tag value, items => setField tag value items
  | .setPair lengthTag dataTag value, items =>
    setField dataTag value (setField lengthTag (renderU32 value.length) items)
  | .remove tag, items => items.eraseP fun e => e.label.tag = tag
  | .beginGroup tag, items => items ++ [groupItem tag]
  | .addEntry index, items => items.modify index addItemEntry

/-- The edit a call asks for, and the path of the list it edits; none for `group_end`. -/
def requestedEdit (dict : Option SessionDict) (m : OutboundMsg) :
    CapiCall → Option (List (ℕ × ℕ) × Edit)
  | .setString tag value => some ([], .set tag.toNat value)
  | .setBytes tag bytes => some ([], .set tag.toNat bytes)
  | .setData dataTag bytes =>
    some ([], .setPair ((pairHooks dict).lengthTagForData dataTag.toNat) dataTag.toNat bytes)
  | .setInt tag value => some ([], .set tag.toNat (renderInt value))
  | .setDouble tag text => text.map fun text => ([], .set tag.toNat text)
  | .setDecimal tag value => value.toChars.map fun text => ([], .set tag.toNat text)
  | .removeTag tag => some ([], .remove tag.toNat)
  | .groupBegin groupTag => some ([], .beginGroup groupTag.toNat)
  | .addEntry builder => (m.builders[builder]?).map fun b => (b.outer, .addEntry b.groupFieldIndex)
  | .entrySetString entry tag value =>
    (m.entryPath entry).map fun path => (path, .set tag.toNat value)
  | .entrySetData entry dataTag bytes =>
    (m.entryPath entry).map fun path =>
      (path, .setPair ((pairHooks dict).lengthTagForData dataTag.toNat) dataTag.toNat bytes)
  | .entrySetInt entry tag value =>
    (m.entryPath entry).map fun path => (path, .set tag.toNat (renderInt value))
  | .entrySetDouble entry tag text =>
    text.bind fun text => (m.entryPath entry).map fun path => (path, .set tag.toNat text)
  | .entrySetDecimal entry tag value =>
    value.toChars.bind fun text => (m.entryPath entry).map fun path => (path, .set tag.toNat text)
  | .entryGroupBegin entry groupTag =>
    (m.entryPath entry).map fun path => (path, .beginGroup groupTag.toNat)
  | .groupEnd _ => none

def applyRequest : Option (List (ℕ × ℕ) × Edit) → List Item → List Item
  | some (path, edit), items => Rose.updateAt path edit.apply items
  | none, items => items

def editedBy (dict : Option SessionDict) (m : OutboundMsg) (c : CapiCall) (items : List Item) :
    List Item :=
  match m.call dict c with
  | .ok _ => applyRequest (requestedEdit dict m c) items
  | .error _ => items

/-- The message that the successful calls of a sequence build. -/
def built (dict : Option SessionDict) : OutboundMsg → List Item → List CapiCall → List Item
  | _, items, [] => items
  | m, items, c :: calls => built dict (m.step dict c) (editedBy dict m c items) calls

end Fixpp.Interface
