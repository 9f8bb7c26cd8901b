import LazyTally.Json.Fields
import LazyTally.Operator.Counting

/-!
# Options of a store

The options with which a store is opened, and their form in configuration files.

## Main definitions

* `Options` — operator, chain limit and creation flag.
* `Options.fields` — their names and forms, in the order of the file.
* `Options.parse?`, `Options.render` — reading and writing.
-/

namespace LazyTally

/-- The names of the operator kinds. -/
def OperatorKind.names : List (String × OperatorKind) :=
  [("associative", .associative), ("full_partial", .fullPartial)]

/-- The options with which a store is opened. -/
structure Options where
  /-- The merge operator, if any. -/
  operator : Option OperatorKind
  /-- How many operands of a key the memtable may hold; zero is no limit. -/
  maxSuccessiveMerges : UInt64
  /-- A store that does not exist is created. -/
  createIfMissing : Bool
  deriving DecidableEq, Repr

namespace Options

/-- What holds where nothing is configured. -/
def standard : Options := ⟨some .associative, 0, true⟩

/-- The fields of the options, in the order of the file. -/
def fields : List (Json.Field Options) := [
  .of "merge_operator" (Json.Form.optional (Json.Form.variant OperatorKind.names))
    Options.operator fun value options => { options with operator := value },
  .of "max_successive_merges" Json.Form.word
    Options.maxSuccessiveMerges fun value options => { options with maxSuccessiveMerges := value },
  .of "create_if_missing" Json.Form.flag
    Options.createIfMissing fun value options => { options with createIfMissing := value }]

/-- Reads options; what is not given is standard. -/
def ofJson? (json : Json) : Option Options := Json.decodeFields? fields standard json

/-- Reads options from a text. -/
def parse? (text : String) : Option Options := do ofJson? (← Json.parse? text)

/-- The text of options, without blanks. -/
def render (options : Options) : String := (Json.encodeFields fields options).render

/-- The same options with the operator of a kind. -/
def withOperator (options : Options) (kind : OperatorKind) : Options :=
  { options with operator := some kind }

/-- The same options without an operator. -/
def withoutOperator (options : Options) : Options := { options with operator := none }

/-- The same options with another chain limit. -/
def withMaxSuccessiveMerges (options : Options) (limit : UInt64) : Options :=
  { options with maxSuccessiveMerges := limit }

/-- The identity of the configured operator. -/
def operatorName? (options : Options) : Option String := options.operator.map OperatorKind.name

end Options
end LazyTally
