import LazyTally.Engine.Basic

/-!
# Engines that refuse calls

An engine wrapped in refusals fails chosen calls before they reach it.  It shows
how everything above an engine behaves when the engine fails.

## Main definitions

* `Engine.Method`, `Engine.Refusals` — the calls, and which of them fail.
* `Engine.refusing` — the engine behind the refusals.
-/

namespace LazyTally
namespace Engine

/-- The calls of an engine. -/
inductive Method where
  | put
  | get
  | delete
  | merge
  | write
  | flush
  | compact
  | dump
  deriving DecidableEq, Repr

/-- How a refused call fails. -/
def Method.refusal : Method → Failure
  | .get | .dump => .engineRead "io error"
  | _ => .engineWrite "disk full"

/-- Which calls are refused. -/
structure Refusals where
  /-- The refused methods. -/
  methods : List Method
  /-- The keys for which they are refused; if there are none, for all of them and
  also where a call has no key. -/
  keys : List Bytes
  deriving DecidableEq, Repr

namespace Refusals

/-- Nothing is refused. -/
def none : Refusals := ⟨[], []⟩

/-- The refusals hold for a call with this key, if it has one. -/
def concern (refusals : Refusals) (key : Option Bytes) : Bool :=
  refusals.keys.isEmpty || key.any fun key => refusals.keys.contains key

/-- The call, unless it is refused. -/
def guarding {σ α : Type} (refusals : Refusals) (method : Method) (key : Option Bytes)
    (call : Call Event σ α) : Call Event σ α :=
  if refusals.methods.contains method && refusals.concern key then throw method.refusal
  else call

end Refusals

/-- The engine behind refusals. -/
def refusing {σ : Type} (refusals : Refusals) (engine : Engine σ) : Engine σ where
  put key value := refusals.guarding .put key (engine.put key value)
  get key := refusals.guarding .get key (engine.get key)
  delete key := refusals.guarding .delete key (engine.delete key)
  merge key operand := refusals.guarding .merge key (engine.merge key operand)
  write batch := refusals.guarding .write Option.none (engine.write batch)
  flush := refusals.guarding .flush Option.none engine.flush
  compact := refusals.guarding .compact Option.none engine.compact
  dump := refusals.guarding .dump Option.none engine.dump

end Engine
end LazyTally
