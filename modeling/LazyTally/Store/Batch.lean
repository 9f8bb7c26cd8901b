import LazyTally.KeyMap
import LazyTally.Store.Record

/-!
# Write batches

A batch is a list of writes that an engine applies together, in order.

## Main definitions

* `Write` — one write: a key and the record that it leaves.
* `Batch`, `Batch.mergedKeys` — the writes, and the keys that get operands.
-/

namespace LazyTally

/-- One write. -/
structure Write where
  /-- The key that is written. -/
  key : Bytes
  /-- What the write leaves on it. -/
  record : Record
  deriving DecidableEq, Repr

namespace Write

/-- Gives a key a value. -/
def put (key value : Bytes) : Write := ⟨key, .put value⟩

/-- Merges an operand into a key. -/
def merge (key operand : Bytes) : Write := ⟨key, .merge operand⟩

/-- Deletes a key. -/
def delete (key : Bytes) : Write := ⟨key, .delete⟩

/-- The key, if the write merges an operand into it. -/
def mergedKey? (write : Write) : Option Bytes :=
  match write.record with
  | .merge _ => some write.key
  | _ => none

end Write

/-- Writes that are applied together, in order. -/
abbrev Batch := List Write

/-- The distinct keys that a batch merges operands into, in key order. -/
def Batch.mergedKeys (batch : Batch) : List Bytes :=
  Bytes.sortDistinct (batch.filterMap Write.mergedKey?)

end LazyTally
