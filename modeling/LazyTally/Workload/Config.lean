import LazyTally.Json.Fields
import LazyTally.Workload.KeySource

/-!
# Configuration of a workload

What a workload does, and its form in configuration files.

## Main definitions

* `Workload.Config` — the configuration.
* `Workload.Config.fields` — the names and forms of its parts, in the order of the
  file.
* `Workload.Config.parse?`, `Workload.Config.render` — reading and writing.
-/

namespace LazyTally

/-- The names of the orders. -/
def KeyOrder.names : List (String × KeyOrder) :=
  [("random", .random), ("sequential", .sequential), ("unique_random", .uniqueRandom)]

/-- How an order is read and written. -/
def KeyOrder.form : Json.Form KeyOrder := Json.Form.variant KeyOrder.names

namespace Workload

/-- What a workload does. -/
structure Config where
  /-- How many workers add. -/
  workers : UInt64
  /-- How many adds each worker issues. -/
  opsPerWorker : UInt64
  /-- How many counters there are. -/
  keySpace : UInt64
  /-- How a worker chooses its counters. -/
  order : KeyOrder
  /-- The seed of the first worker; each further worker has the next. -/
  seed : UInt64
  /-- The largest addend; the smallest is one. -/
  maxDelta : UInt64
  /-- A failed add ends the workload. -/
  stopOnError : Bool
  deriving DecidableEq, Repr

namespace Config

/-- What holds where nothing is configured. -/
def standard : Config where
  workers := 4
  opsPerWorker := 1000
  keySpace := 100
  order := .random
  seed := 0
  maxDelta := 1
  stopOnError := true

/-- The fields of the configuration, in the order of the file. -/
def fields : List (Json.Field Config) := [
  .of "workers" Json.Form.word Config.workers
    fun value config => { config with workers := value },
  .of "ops_per_worker" Json.Form.word Config.opsPerWorker
    fun value config => { config with opsPerWorker := value },
  .of "key_space" Json.Form.word Config.keySpace
    fun value config => { config with keySpace := value },
  .of "mode" KeyOrder.form Config.order
    fun value config => { config with order := value },
  .of "seed" Json.Form.word Config.seed
    fun value config => { config with seed := value },
  .of "max_delta" Json.Form.word Config.maxDelta
    fun value config => { config with maxDelta := value },
  .of "stop_on_error" Json.Form.flag Config.stopOnError
    fun value config => { config with stopOnError := value }]

/-- Reads a configuration; what is not given is standard. -/
def ofJson? (json : Json) : Option Config := Json.decodeFields? fields standard json

/-- Reads a configuration from a text. -/
def parse? (text : String) : Option Config := do ofJson? (← Json.parse? text)

/-- The text of a configuration, without blanks. -/
def render (config : Config) : String := (Json.encodeFields fields config).render

end Config
end Workload
end LazyTally
