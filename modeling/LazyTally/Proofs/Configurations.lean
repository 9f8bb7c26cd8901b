import Mathlib
import LazyTally.Options
import LazyTally.Proofs.Json.Records
import LazyTally.Workload.Config

/-!
# Configurations in files

Options and workload configurations are read from partial files: what a file gives is laid over the
standard values.  What is written has all fields, so reading it gives everything back.

## Main definitions

* `Options.Overlaid`, `Workload.Config.Overlaid` — which configuration has the parts that members
  give.

## Main results

* `configurations_read_back` — every configuration is read back from its text.
* `configurations_overlay_standard` — partial configurations are laid over the standard ones.
-/

namespace LazyTally

open Json (Part given layAll? layAll?_cons_of Separate)
open Json.Form (lawful_word lawful_flag)

theorem OperatorKind.lawful_form :
    (Json.Form.variant OperatorKind.names).optional.Lawful
      (Json.Nullable (Json.Named OperatorKind.names)) := by
  refine (Json.Form.lawful_variant (by decide) fun kind => ?_).optional ?_
  · cases kind <;> decide
  · rintro kind ⟨name, -, heq | heq⟩ <;> exact nomatch heq

theorem KeyOrder.lawful_form : KeyOrder.form.Lawful (Json.Named KeyOrder.names) :=
  Json.Form.lawful_variant (by decide) fun order => by cases order <;> decide

namespace Options

/-- The options have the parts that members give, and are standard otherwise. -/
structure Overlaid (members : List (String × Json)) (options : Options) : Prop where
  operator : Part (Json.Nullable (Json.Named OperatorKind.names)) standard.operator
    (given members "merge_operator") options.operator
  maxSuccessiveMerges : Part Json.Word standard.maxSuccessiveMerges
    (given members "max_successive_merges") options.maxSuccessiveMerges
  createIfMissing : Part Json.Flag standard.createIfMissing
    (given members "create_if_missing") options.createIfMissing

theorem separate_fields : Separate fields where
  names := by decide
  uniform := by
    simp only [fields, List.forall_mem_cons, Json.Field.uniform_of, true_and, List.not_mem_nil,
      false_imp_iff, implies_true]
  commute := by
    simp only [fields, List.pairwise_cons, List.forall_mem_cons, List.not_mem_nil, false_imp_iff,
      implies_true, and_true, List.Pairwise.nil]
    and_intros <;> exact Json.Field.commutes_of fun _ _ _ => rfl

/-- The fields are laid over the standard options part by part. -/
theorem layAll?_eq_some_iff (members : List (String × Json)) (options : Options) :
    layAll? fields members (some standard) = some options ↔ Overlaid members options := by
  constructor
  · intro h
    obtain ⟨operator, hoperator, h⟩ := (layAll?_cons_of OperatorKind.lawful_form rfl).mp h
    obtain ⟨limit, hlimit, h⟩ := (layAll?_cons_of lawful_word rfl).mp h
    obtain ⟨create, hcreate, h⟩ := (layAll?_cons_of lawful_flag rfl).mp h
    obtain rfl := Option.some.inj h
    exact ⟨hoperator, hlimit, hcreate⟩
  · rintro ⟨hoperator, hlimit, hcreate⟩
    exact (layAll?_cons_of OperatorKind.lawful_form rfl).mpr ⟨_, hoperator,
      (layAll?_cons_of lawful_word rfl).mpr ⟨_, hlimit,
        (layAll?_cons_of lawful_flag rfl).mpr ⟨_, hcreate, rfl⟩⟩⟩

/-- What is written for options gives them all their parts. -/
theorem overlaid_encoded (options : Options) :
    Overlaid (fields.map fun field => (field.name, field.encode options)) options where
  operator := .encoded separate_fields.names 0 rfl OperatorKind.lawful_form _ options
  maxSuccessiveMerges := .encoded separate_fields.names 1 rfl lawful_word _ options
  createIfMissing := .encoded separate_fields.names 2 rfl lawful_flag _ options

theorem spelled_encoded (options : Options) : Json.Spelled (Json.encodeFields fields options) := by
  refine Json.spelled_encodeFields ?_
  simp only [fields, List.forall_mem_cons, List.not_mem_nil, false_imp_iff, implies_true, and_true]
  exact ⟨OperatorKind.lawful_form.spelled _, lawful_word.spelled _, lawful_flag.spelled _⟩

theorem overlaysStandard : Json.OverlaysStandard
    ["merge_operator", "max_successive_merges", "create_if_missing"] parse? Overlaid :=
  separate_fields.overlaysStandard (fun _ => rfl) layAll?_eq_some_iff

/-- Options are read back from their text. -/
theorem parse?_render (options : Options) : parse? options.render = some options :=
  (overlaysStandard.object (spelled_encoded options).denotes).mpr (overlaid_encoded options)

end Options

namespace Workload.Config

/-- The configuration has the parts that members give, and is standard otherwise. -/
structure Overlaid (members : List (String × Json)) (config : Config) : Prop where
  workers : Part Json.Word standard.workers (given members "workers") config.workers
  opsPerWorker : Part Json.Word standard.opsPerWorker (given members "ops_per_worker")
    config.opsPerWorker
  keySpace : Part Json.Word standard.keySpace (given members "key_space") config.keySpace
  order : Part (Json.Named KeyOrder.names) standard.order (given members "mode") config.order
  seed : Part Json.Word standard.seed (given members "seed") config.seed
  maxDelta : Part Json.Word standard.maxDelta (given members "max_delta") config.maxDelta
  stopOnError : Part Json.Flag standard.stopOnError (given members "stop_on_error")
    config.stopOnError

theorem separate_fields : Separate fields where
  names := by decide
  uniform := by
    simp only [fields, List.forall_mem_cons, Json.Field.uniform_of, true_and, List.not_mem_nil,
      false_imp_iff, implies_true]
  commute := by
    simp only [fields, List.pairwise_cons, List.forall_mem_cons, List.not_mem_nil, false_imp_iff,
      implies_true, and_true, List.Pairwise.nil]
    and_intros <;> exact Json.Field.commutes_of fun _ _ _ => rfl

/-- The fields are laid over the standard configuration part by part. -/
theorem layAll?_eq_some_iff (members : List (String × Json)) (config : Config) :
    layAll? fields members (some standard) = some config ↔ Overlaid members config := by
  constructor
  · -- the fields are laid in the order of the record, each over what the ones before it have left
    intro h
    obtain ⟨workers, hworkers, h⟩ := (layAll?_cons_of lawful_word rfl).mp h
    obtain ⟨ops, hops, h⟩ := (layAll?_cons_of lawful_word rfl).mp h
    obtain ⟨space, hspace, h⟩ := (layAll?_cons_of lawful_word rfl).mp h
    obtain ⟨order, horder, h⟩ := (layAll?_cons_of KeyOrder.lawful_form rfl).mp h
    obtain ⟨seed, hseed, h⟩ := (layAll?_cons_of lawful_word rfl).mp h
    obtain ⟨delta, hdelta, h⟩ := (layAll?_cons_of lawful_word rfl).mp h
    obtain ⟨stop, hstop, h⟩ := (layAll?_cons_of lawful_flag rfl).mp h
    obtain rfl := Option.some.inj h
    exact ⟨hworkers, hops, hspace, horder, hseed, hdelta, hstop⟩
  · rintro ⟨hworkers, hops, hspace, horder, hseed, hdelta, hstop⟩
    refine (layAll?_cons_of lawful_word rfl).mpr ⟨_, hworkers, ?_⟩
    refine (layAll?_cons_of lawful_word rfl).mpr ⟨_, hops, ?_⟩
    refine (layAll?_cons_of lawful_word rfl).mpr ⟨_, hspace, ?_⟩
    refine (layAll?_cons_of KeyOrder.lawful_form rfl).mpr ⟨_, horder, ?_⟩
    refine (layAll?_cons_of lawful_word rfl).mpr ⟨_, hseed, ?_⟩
    refine (layAll?_cons_of lawful_word rfl).mpr ⟨_, hdelta, ?_⟩
    exact (layAll?_cons_of lawful_flag rfl).mpr ⟨_, hstop, rfl⟩

/-- What is written for a configuration gives it all its parts. -/
theorem overlaid_encoded (config : Config) :
    Overlaid (fields.map fun field => (field.name, field.encode config)) config where
  workers := .encoded separate_fields.names 0 rfl lawful_word _ config
  opsPerWorker := .encoded separate_fields.names 1 rfl lawful_word _ config
  keySpace := .encoded separate_fields.names 2 rfl lawful_word _ config
  order := .encoded separate_fields.names 3 rfl KeyOrder.lawful_form _ config
  seed := .encoded separate_fields.names 4 rfl lawful_word _ config
  maxDelta := .encoded separate_fields.names 5 rfl lawful_word _ config
  stopOnError := .encoded separate_fields.names 6 rfl lawful_flag _ config

theorem spelled_encoded (config : Config) : Json.Spelled (Json.encodeFields fields config) := by
  refine Json.spelled_encodeFields ?_
  simp only [fields, List.forall_mem_cons, List.not_mem_nil, false_imp_iff, implies_true, and_true]
  exact ⟨lawful_word.spelled _, lawful_word.spelled _, lawful_word.spelled _,
    KeyOrder.lawful_form.spelled _, lawful_word.spelled _, lawful_word.spelled _,
    lawful_flag.spelled _⟩

theorem overlaysStandard : Json.OverlaysStandard
    ["workers", "ops_per_worker", "key_space", "mode", "seed", "max_delta", "stop_on_error"]
    parse? Overlaid :=
  separate_fields.overlaysStandard (fun _ => rfl) layAll?_eq_some_iff

/-- A configuration is read back from its text. -/
theorem parse?_render (config : Config) : parse? config.render = some config :=
  (overlaysStandard.object (spelled_encoded config).denotes).mpr (overlaid_encoded config)

end Workload.Config

/-- Options and workload configurations are read back from their texts, so different ones have
different texts. -/
theorem configurations_read_back :
    (∀ options : Options, Options.parse? options.render = some options) ∧
    (∀ config : Workload.Config, Workload.Config.parse? config.render = some config) ∧
    Function.Injective Options.render ∧ Function.Injective Workload.Config.render := by
  have hoptions : Options.parse? ∘ Options.render = some := funext Options.parse?_render
  have hconfig : Workload.Config.parse? ∘ Workload.Config.render = some :=
    funext Workload.Config.parse?_render
  refine ⟨Options.parse?_render, Workload.Config.parse?_render, ?_, ?_⟩
  · refine .of_comp (f := Options.parse?) ?_
    rw [hoptions]
    exact fun _ _ => Option.some.inj
  · refine .of_comp (f := Workload.Config.parse?) ?_
    rw [hconfig]
    exact fun _ _ => Option.some.inj

/-- Partial options and partial workload configurations are laid over the standard ones: known names
with valid values replace their parts, in any order and beside anything unknown; a known name that
is repeated or has an invalid value is refused; and an array gives the first parts in order. -/
theorem configurations_overlay_standard :
    Json.OverlaysStandard ["merge_operator", "max_successive_merges", "create_if_missing"]
      Options.parse? Options.Overlaid ∧
    Json.OverlaysStandard
      ["workers", "ops_per_worker", "key_space", "mode", "seed", "max_delta", "stop_on_error"]
      Workload.Config.parse? Workload.Config.Overlaid :=
  ⟨Options.overlaysStandard, Workload.Config.overlaysStandard⟩

/-- Two known members beside an unknown one, a known name given twice, and an array of two items. -/
theorem configurations_overlay_standard_three :
    Options.parse? "\x7b\"note\": [1e3], \"max_successive_merges\": 5, \"merge_operator\": null\x7d"
      = some ⟨none, 5, true⟩ ∧
    Workload.Config.parse? "\x7b\"seed\": 1, \"seed\": 1\x7d" = none ∧
    Options.parse? "[null, 5]"
      = Options.parse? "\x7b\"merge_operator\": null, \"max_successive_merges\": 5\x7d" := by
  have hmembers : Json.Denotes
      "\x7b\"note\": [1e3], \"max_successive_merges\": 5, \"merge_operator\": null\x7d"
      (.record [("note", .array [.number ⟨false, 1, "e3"⟩]), ("max_successive_merges", .nat 5),
        ("merge_operator", .null)]) :=
    Json.parse?_eq_some_iff.mp (by cbv)
  have htwice : Json.Denotes "\x7b\"seed\": 1, \"seed\": 1\x7d"
      (.record [("seed", .nat 1), ("seed", .nat 1)]) :=
    Json.parse?_eq_some_iff.mp (by cbv)
  have hitems : Json.Denotes "[null, 5]" (.array [.null, .nat 5]) :=
    Json.parse?_eq_some_iff.mp (by cbv)
  have hobject : Json.Denotes "\x7b\"merge_operator\": null, \"max_successive_merges\": 5\x7d"
      (.record [("merge_operator", .null), ("max_successive_merges", .nat 5)]) :=
    Json.parse?_eq_some_iff.mp (by cbv)
  have hseed : "seed" ∈ ["workers", "ops_per_worker", "key_space", "mode", "seed", "max_delta",
      "stop_on_error"] := by decide
  obtain ⟨hoptions, hconfig⟩ := configurations_overlay_standard
  refine ⟨(hoptions.object hmembers).mpr ?_, hconfig.repeated htwice hseed (by decide),
    hoptions.array hitems hobject (by decide)⟩
  -- null stands for no operator, and the last part is not given
  exact ⟨.replaced (.inl ⟨rfl, rfl⟩), .replaced rfl, .left⟩

end LazyTally
