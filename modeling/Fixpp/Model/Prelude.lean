import Mathlib

/-!
# Bytes, digits and error codes

A frame, a field value and a session text are all lists of bytes here. `ascii` spells a FIX text
so that a definition shows the tag or the value the engine writes.
-/

namespace Fixpp.Model

/-- A run of bytes: a frame, a chunk of the stream or a field value. -/
abbrev Bytes := List UInt8

-- A run is decided byte by byte, not over all values of a byte.
instance (priority := high) (l : Bytes) (p : UInt8 → Prop) [DecidablePred p] :
    Decidable (∀ b ∈ l, p b) := List.decidableBAll p l

instance (b : Bytes) (l : List Bytes) : Decidable (b ∈ l) := inferInstance

def ascii (s : String) : Bytes := s.toList.map fun c => UInt8.ofNat c.toNat

/-- The field delimiter. -/
def soh : UInt8 := 1

/-- The fields of a frame, each with its delimiter. -/
def fieldsOf (fields : List String) : Bytes := fields.flatMap fun field => ascii field ++ [soh]

/-- The byte between a tag and its value. -/
def equalsSign : UInt8 := 61

def isDigit (b : UInt8) : Bool := 48 ≤ b && b ≤ 57

def digitValue (b : UInt8) : ℕ := b.toNat - 48

/-- The error codes of `core::error` that the modelled functions return. -/
inductive Error
  | wireFramingResync
  | wireInvalidBodyLength
  | wireChecksumMismatch
  | wireFrameTooLarge
  | wireTagOutOfRange
  | dispatchAborted
  | appCallbackThrew
  | appPayloadMalformed
  | wireRequiredFieldMissing
  | wireInvalidFieldFormat
  | wireFieldValueTruncated
  | wireFieldValueOutOfRange
  | wireUnexpectedTag
  | decimalInvalidInput
  | decimalOverflow
  | decimalBufferTooSmall
  | sessionAlreadyClosed
  | sessionInvalidStateForSend
  | sessionInvalidArgument
  | sessionSeqnumTooLow
  | sessionSeqnumTooHigh
  | sessionSeqnumResetMismatch
  | storeCancelled
  | storeIoFailure
  | storeSeqnumOverflow
  | storeSeqnumOutOfOrder
  | storeSeqnumGap
  | storeSeqnumInvalid
  | storeInvalidRange
  | storeCapacityExhausted
  | storeVisitorAborted
  | storeFactoryFailed
  deriving DecidableEq, Repr

end Fixpp.Model
