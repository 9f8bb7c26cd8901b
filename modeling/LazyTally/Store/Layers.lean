import LazyTally.KeyMap
import LazyTally.Store.Batch

/-!
# Layers

A layer holds, for each of its keys, records oldest first.  An open store has a
memtable, which takes the writes, over runs that are not written any more.  The
history of a key runs through all layers from the oldest run to the memtable.

## Main definitions

* `Layer` — a table of records in key order.
* `Layers`, `Layers.history` — the layers of a store and what they hold of a key.
* `Store` — what remains of a store when it is closed.

## Main results

* `Layer.records_push` — a write adds its record to its own key and to no other.
-/

namespace LazyTally

/-- A table of records in key order; the records of a key are oldest first. -/
abbrev Layer := KeyMap (List Record)

namespace Layer

/-- The records of a key; a key that is absent has none. -/
def records (layer : Layer) (key : Bytes) : List Record := (layer.find? key).getD []

/-- The chain that the layer alone shows of each of its keys. -/
def chains (layer : Layer) : KeyMap Chain :=
  layer.map fun entry => (entry.1, Chain.ofRecords entry.2)

/-- Appends the record of a write to the records of its key. -/
def push (layer : Layer) (write : Write) : Layer :=
  KeyMap.alter (fun records => records.getD [] ++ [write.record]) layer write.key

/-- A write adds its record to its own key and to no other. -/
theorem records_push {layer : Layer} (h : KeyMap.Ascending layer) (write : Write) (key : Bytes) :
    (layer.push write).records key =
      if write.key = key then layer.records key ++ [write.record] else layer.records key := by
  unfold records push
  rw [KeyMap.find?_alter h]
  split
  · next heq => rw [heq]; rfl
  · rfl

/-- A write keeps the order of the keys. -/
theorem ascending_push {layer : Layer} (h : KeyMap.Ascending layer) (write : Write) :
    KeyMap.Ascending (layer.push write) := KeyMap.ascending_alter h write.key

end Layer

/-- The layers of an open store. -/
structure Layers where
  /-- The layer that takes the writes. -/
  memtable : Layer
  /-- The layers below, oldest first. -/
  runs : List Layer
  deriving DecidableEq, Repr

namespace Layers

/-- All layers, oldest first. -/
def all (layers : Layers) : List Layer := layers.runs ++ [layers.memtable]

/-- All records of a key, oldest first. -/
def history (layers : Layers) (key : Bytes) : List Record :=
  layers.all.flatMap fun layer => layer.records key

/-- The part of the history of a key that still counts. -/
def chain (layers : Layers) (key : Bytes) : Chain := Chain.ofRecords (layers.history key)

/-- The keys that occur in any layer, in key order. -/
def keys (layers : Layers) : List Bytes := Bytes.sortDistinct (layers.all.flatMap KeyMap.keys)

/-- The number of operands of a key that wait to be resolved. -/
def pendingOperands (layers : Layers) (key : Bytes) : Nat := (layers.chain key).operands.length

/-- The number of such operands that the memtable alone shows. -/
def memtableOperands (layers : Layers) (key : Bytes) : Nat :=
  (Chain.ofRecords (layers.memtable.records key)).operands.length

end Layers

/-- A closed store: its runs, oldest first, and the operator it was written under. -/
structure Store where
  /-- The layers, oldest first. -/
  runs : List Layer
  /-- The identity of the merge operator, if any was ever configured. -/
  operator : Option String
  deriving DecidableEq, Repr

/-- A store that was never written. -/
def Store.empty : Store := ⟨[], none⟩

end LazyTally
