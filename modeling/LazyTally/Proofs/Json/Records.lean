import LazyTally.Proofs.Json.Forms

/-!
# Reading and writing records

The members of an object are laid over a record.  The reader goes through the members; here the same
is said field by field: a field that no member names is left, one that a single member names is
replaced, and one that several members name is refused.  The two agree because different fields
replace different parts, so that it does not matter which is replaced first.

## Main definitions

* `given` — the values that members give to a name.
* `Field.lay?`, `layAll?` — what is given, laid over one field and over all.
* `Separate` — the fields have different names and replace different parts.
* `Part` — the value of a part, from what is given to its name.

## Main results

* `Separate.overlay?_eq_layAll?` — an object is laid over a record field by field.
* `Separate.overlayFirst?_eq_layAll?` — an array is laid over a record as the object that names its
  items.
* `Field.lay?_of` — what is laid over a field replaces its part.
-/

namespace LazyTally.Json

variable {ρ α : Type}

/-! ### What is laid over a field -/

/-- The values that members give to a name. -/
def given (members : List (String × Json)) (name : String) : List Json :=
  (members.filter fun member => member.1 == name).map Prod.snd

theorem given_cons_self (name : String) (value : Json) (members : List (String × Json)) :
    given ((name, value) :: members) name = value :: given members name := by
  simp [given]

theorem given_cons_of_ne {other name : String} (h : other ≠ name) (value : Json)
    (members : List (String × Json)) :
    given ((other, value) :: members) name = given members name := by
  simp [given, h]

/-- Nothing is given to a name that no member has. -/
theorem given_eq_nil {members : List (String × Json)} {name : String}
    (h : name ∉ members.map Prod.fst) : given members name = [] := by
  rw [given, List.map_eq_nil_iff, List.filter_eq_nil_iff]
  intro member hmember heq
  exact h (eq_of_beq heq ▸ List.mem_map_of_mem hmember)

/-- What is given, laid over one field: nothing leaves it, one value replaces it, and several are
refused. -/
def Field.lay? (field : Field ρ) (record : Option ρ) : List Json → Option ρ
  | [] => record
  | [value] => record.bind (field.replace? value)
  | _ => none

namespace Field

variable {field other : Field ρ}

/-- Which values are valid for the field does not depend on the record. -/
def Uniform (field : Field ρ) : Prop :=
  ∀ value record changed,
    (field.replace? value record).isSome = (field.replace? value changed).isSome

/-- It does not matter which of two fields is replaced first. -/
def Commutes (field other : Field ρ) : Prop :=
  ∀ value second record, (field.replace? value record).bind (other.replace? second)
    = (other.replace? second record).bind (field.replace? value)

@[simp] theorem lay?_none (field : Field ρ) : ∀ values, field.lay? none values = none
  | [] => rfl
  | [_] => rfl
  | _ :: _ :: _ => rfl

/-- Two values are refused. -/
theorem lay?_of_two {values : List Json} (h : 2 ≤ values.length) (record : Option ρ) :
    field.lay? record values = none := by
  match values, h with
  | _ :: _ :: _, _ => rfl

/-- A value that no record takes is refused. -/
theorem lay?_of_refused {values : List Json} {value : Json} (h : value ∈ values)
    (hrefused : ∀ record, field.replace? value record = none) (record : Option ρ) :
    field.lay? record values = none := by
  match values, h with
  | [_], h =>
    obtain rfl := List.mem_singleton.mp h
    exact Option.bind_eq_none_iff.mpr fun record _ => hrefused record
  | _ :: _ :: _, _ => rfl

/-- The order of what is given does not matter. -/
theorem lay?_perm {values others : List Json} (h : values.Perm others) (record : Option ρ) :
    field.lay? record values = field.lay? record others := by
  match values with
  | [] => rw [h.nil_eq]
  | [value] => rw [h.singleton_eq]
  | _ :: _ :: _ =>
    have hlength := h.length_eq
    simp only [List.length_cons] at hlength
    rw [lay?_of_two (by rw [List.length_cons, List.length_cons]; omega),
      lay?_of_two (by omega)]

/-- What is laid over one field can be laid before or after another is replaced. -/
theorem Commutes.lay?_bind (h : field.Commutes other) (values : List Json) (second : Json)
    (record : Option ρ) :
    field.lay? (record.bind (other.replace? second)) values
      = (field.lay? record values).bind (other.replace? second) := by
  match values with
  | [] => rfl
  | [value] =>
    show (record.bind _).bind _ = (record.bind _).bind _
    rw [Option.bind_assoc, Option.bind_assoc]
    exact (Option.bind_congr fun record _ => h value second record).symm
  | _ :: _ :: _ => rfl

end Field

/-- What members give, laid over all fields. -/
def layAll? (fields : List (Field ρ)) (members : List (String × Json)) (record : Option ρ) :
    Option ρ :=
  fields.foldl (fun record field => field.lay? record (given members field.name)) record

section LayAll

variable {fields : List (Field ρ)} {field : Field ρ} {members others : List (String × Json)}

theorem layAll?_cons (field : Field ρ) (fields : List (Field ρ)) (members : List (String × Json))
    (record : Option ρ) : layAll? (field :: fields) members record
      = layAll? fields members (field.lay? record (given members field.name)) :=
  rfl

theorem layAll?_append (fields more : List (Field ρ)) (members : List (String × Json))
    (record : Option ρ) : layAll? (fields ++ more) members record
      = layAll? more members (layAll? fields members record) :=
  List.foldl_append

@[simp] theorem layAll?_none (fields : List (Field ρ)) (members : List (String × Json)) :
    layAll? fields members none = none :=
  List.foldl_fixed' (fun field => field.lay?_none _) fields

/-- Only what is given to the fields matters. -/
theorem layAll?_congr (h : ∀ field ∈ fields, ∀ record,
    field.lay? record (given members field.name) = field.lay? record (given others field.name))
    (record : Option ρ) : layAll? fields members record = layAll? fields others record :=
  List.foldl_ext _ _ record fun record field hfield => h field hfield record

theorem layAll?_nil (fields : List (Field ρ)) (record : Option ρ) :
    layAll? fields [] record = record :=
  List.foldl_fixed' (fun _ => rfl) fields

/-- A record that cannot be had for one field cannot be had. -/
theorem layAll?_eq_none (hfield : field ∈ fields)
    (h : ∀ record, field.lay? record (given members field.name) = none) (record : Option ρ) :
    layAll? fields members record = none := by
  obtain ⟨before, after, rfl⟩ := List.append_of_mem hfield
  rw [layAll?_append, layAll?_cons, h, layAll?_none]

theorem layAll?_isSome (h : ∀ field ∈ fields, ∀ record,
    (field.lay? (some record) (given members field.name)).isSome) (record : ρ) :
    (layAll? fields members (some record)).isSome := by
  induction fields generalizing record with
  | nil => rfl
  | cons field fields ih =>
    obtain ⟨hfield, hfields⟩ := List.forall_mem_cons.mp h
    obtain ⟨changed, hchanged⟩ := Option.isSome_iff_exists.mp (hfield record)
    rw [layAll?_cons, hchanged]
    exact ih hfields changed

/-- What is laid over the other fields can be laid before or after a field is replaced. -/
theorem layAll?_bind (h : ∀ other ∈ fields, other.Commutes field) (value : Json)
    (record : Option ρ) : layAll? fields members (record.bind (field.replace? value))
      = (layAll? fields members record).bind (field.replace? value) := by
  induction fields generalizing record with
  | nil => rfl
  | cons other fields ih =>
    obtain ⟨hother, hfields⟩ := List.forall_mem_cons.mp h
    rw [layAll?_cons, layAll?_cons, hother.lay?_bind, ih hfields]

end LayAll

/-! ### Separate fields -/

/-- The fields have different names and replace different parts. -/
structure Separate (fields : List (Field ρ)) : Prop where
  /-- The names are different. -/
  names : (fields.map Field.name).Nodup
  /-- Which values are valid does not depend on the record. -/
  uniform : ∀ field ∈ fields, field.Uniform
  /-- It does not matter which of two fields is replaced first. -/
  commute : fields.Pairwise Field.Commutes

/-- An object with a name that denotes no text is refused. -/
theorem overlay?_of_unnamed (fields : List (Field ρ)) {members : List (Option String × Json)}
    (h : none ∈ members.map Prod.fst) (names : List String) (record : ρ) :
    overlay? fields names members record = none := by
  induction members generalizing names record with
  | nil => exact absurd h List.not_mem_nil
  | cons member rest ih =>
    obtain ⟨_ | name, value⟩ := member
    · -- a name that denotes no text is not the name of a field, and is refused where it stands
      rfl
    · have hrest : none ∈ rest.map Prod.fst := by simpa using h
      rw [overlay?]
      split
      · exact ih hrest names record
      · split
        · rfl
        · exact Option.bind_eq_none_iff.mpr fun changed _ => ih hrest _ changed

/-- No field has a name that no field is found by. -/
theorem ne_of_find?_eq_none {fields : List (Field ρ)} {field : Field ρ} {name : String}
    (h : (fields.find? fun field => field.name == name) = none) (hfield : field ∈ fields) :
    name ≠ field.name := fun heq =>
  List.find?_eq_none.mp h field hfield (beq_iff_eq.mpr heq.symm)

/-- A field that was given before and is given again is refused. -/
theorem overlay?_of_given {fields : List (Field ρ)} {field : Field ρ} (hfield : field ∈ fields)
    {members : List (String × Json)} (hgiven : given members field.name ≠ []) {names : List String}
    (hname : field.name ∈ names) (record : ρ) :
    overlay? fields names (members.map fun member => (some member.1, member.2)) record = none := by
  induction members generalizing names record with
  | nil => exact absurd rfl hgiven
  | cons member rest ih =>
    obtain ⟨name, value⟩ := member
    rw [List.map_cons, overlay?]
    have hrest : name ≠ field.name → given rest field.name ≠ [] := fun hne =>
      given_cons_of_ne hne value rest ▸ hgiven
    split
    · -- an unknown name is skipped, and the known one comes later
      next hnone =>
      exact ih (hrest (ne_of_find?_eq_none hnone hfield)) hname record
    · next other hfound =>
      split
      · -- a name that was seen before is refused
        rfl
      · next hnot =>
        have hne : name ≠ field.name := by
          rintro rfl
          exact hnot (List.contains_iff_mem.mpr hname)
        exact Option.bind_eq_none_iff.mpr fun changed _ =>
          ih (hrest hne) (List.mem_cons_of_mem _ hname) changed

namespace Separate

variable {fields : List (Field ρ)} {field : Field ρ} {members : List (String × Json)}

/-- A known member more is laid over its field before the others are. -/
theorem layAll?_cons_member (h : Separate fields) (hfield : field ∈ fields) (value : Json)
    (hrest : given members field.name = []) (record : Option ρ) :
    layAll? fields ((field.name, value) :: members) record
      = layAll? fields members (record.bind (field.replace? value)) := by
  obtain ⟨before, after, rfl⟩ := List.append_of_mem hfield
  -- the field stands alone among the others, so its members can be laid before theirs
  obtain ⟨-, hnames, hbefore⟩ := List.pairwise_append.mp (List.pairwise_map.mp h.names)
  obtain ⟨hafter, -⟩ := List.pairwise_cons.mp hnames
  obtain ⟨-, -, hcommute⟩ := List.pairwise_append.mp h.commute
  have hsame : ∀ other : Field ρ, field.name ≠ other.name → ∀ record,
      other.lay? record (given ((field.name, value) :: members) other.name)
        = other.lay? record (given members other.name) := by
    intro other hne record
    rw [given_cons_of_ne hne]
  calc layAll? (before ++ field :: after) ((field.name, value) :: members) record
      = layAll? after members ((layAll? before members record).bind (field.replace? value)) := by
        rw [layAll?_append, layAll?_cons, given_cons_self, hrest,
          layAll?_congr fun other hother => hsame other (hafter other hother),
          layAll?_congr fun other hother =>
            hsame other (hbefore other hother field List.mem_cons_self).symm]
        rfl
    _ = layAll? (before ++ field :: after) members (record.bind (field.replace? value)) := by
        rw [← layAll?_bind fun other hother => hcommute other hother field List.mem_cons_self,
          layAll?_append, layAll?_cons, hrest]
        rfl

/-- An object is laid over a record field by field, if what was given before is not given again. -/
theorem overlay?_eq_layAll? (h : Separate fields) {names : List String}
    (hnames : ∀ name ∈ names, given members name = []) (record : ρ) :
    overlay? fields names (members.map fun member => (some member.1, member.2)) record
      = layAll? fields members (some record) := by
  induction members generalizing names record with
  | nil => exact (layAll?_nil fields (some record)).symm
  | cons member rest ih =>
    obtain ⟨name, value⟩ := member
    have hname : name ∉ names := fun hmem =>
      List.cons_ne_nil _ _ ((given_cons_self name value rest).symm.trans (hnames name hmem))
    have hrest : ∀ other ∈ names, given rest other = [] := fun other hother =>
      given_cons_of_ne (fun heq : name = other => hname (heq ▸ hother)) value rest ▸
        hnames other hother
    rw [List.map_cons, overlay?]
    split
    · next hnone =>
      -- The member is passed over: no field has its name.
      rw [ih hrest]
      refine layAll?_congr (fun field hfield record => ?_) (some record)
      rw [given_cons_of_ne (ne_of_find?_eq_none hnone hfield)]
    · next field hfound =>
      obtain ⟨hfield, rfl⟩ := (find?_eq_some_iff_of_nodup h.names).mp hfound
      rw [if_neg (mt List.contains_iff_mem.mp hname)]
      by_cases hagain : given rest field.name = []
      · have hgiven : ∀ other ∈ field.name :: names, given rest other = [] :=
          List.forall_mem_cons.mpr ⟨hagain, hrest⟩
        rw [h.layAll?_cons_member hfield value hagain, Option.bind_some]
        cases field.replace? value record with
        | none => exact (layAll?_none fields rest).symm
        | some changed => exact ih hgiven changed
      · have hrefused : ∀ changed, overlay? fields (field.name :: names)
            (rest.map fun member => (some member.1, member.2)) changed = none :=
          overlay?_of_given hfield hagain List.mem_cons_self
        rw [layAll?_eq_none hfield]
        · exact Option.bind_eq_none_iff.mpr fun changed _ => hrefused changed
        · intro record
          rw [given_cons_self]
          have hlength : 2 ≤ (value :: given rest field.name).length :=
            Nat.succ_le_succ (List.length_pos_iff.mpr hagain)
          exact Field.lay?_of_two hlength record

/-- An array is laid over a record as the object that names its items. -/
theorem overlayFirst?_eq_layAll? (h : Separate fields) {items : List Json}
    (hlength : items.length ≤ fields.length) (record : ρ) :
    overlayFirst? fields items record
      = layAll? fields ((fields.map Field.name).zip items) (some record) := by
  induction fields generalizing items record with
  | nil =>
    rw [List.length_eq_zero_iff.mp (Nat.le_zero.mp hlength)]
    rfl
  | cons field fields ih =>
    cases items with
    | nil => exact (layAll?_nil (field :: fields) (some record)).symm
    | cons value items =>
      obtain ⟨hname, hnames⟩ := List.nodup_cons.mp h.names
      have hfields : Separate fields := ⟨hnames, (List.forall_mem_cons.mp h.uniform).2,
        (List.pairwise_cons.mp h.commute).2⟩
      -- later items belong to other names
      have hgiven : given ((fields.map Field.name).zip items) field.name = [] := by
        refine given_eq_nil fun hmem => ?_
        obtain ⟨⟨name, value⟩, hmember, rfl⟩ := List.mem_map.mp hmem
        exact hname (List.of_mem_zip hmember).1
      rw [List.map_cons, List.zip_cons_cons, h.layAll?_cons_member List.mem_cons_self value hgiven,
        layAll?_cons, hgiven, Option.bind_some]
      -- an item that is refused ends both readings
      cases hvalue : field.replace? value record with
      | none =>
        rw [overlayFirst?, hvalue, Field.lay?_none, layAll?_none]
        rfl
      | some changed =>
        rw [overlayFirst?, hvalue]
        exact ih hfields (Nat.le_of_succ_le_succ hlength) changed

end Separate

/-- An array with more items than there are fields is refused. -/
theorem overlayFirst?_of_length_lt {fields : List (Field ρ)} {items : List Json}
    (h : fields.length < items.length) (record : ρ) : overlayFirst? fields items record = none := by
  induction fields generalizing items record with
  | nil =>
    cases items with
    | nil => exact absurd h (Nat.lt_irrefl 0)
    | cons value items => rfl
  | cons field fields ih =>
    cases items with
    | nil => exact absurd h (Nat.not_lt_zero _)
    | cons value items =>
      exact Option.bind_eq_none_iff.mpr fun changed _ => ih (Nat.lt_of_succ_lt_succ h) changed

/-! ### Fields of parts -/

/-- The value of a part: as it stands if nothing is given, and what the only value given means. -/
inductive Part (means : Json → α → Prop) (standing : α) : List Json → α → Prop
  | left : Part means standing [] standing
  | replaced {json : Json} {value : α} (h : means json value) : Part means standing [json] value

/-- The value of a part, if it has one. -/
def part? (form : Form α) (standing : α) : List Json → Option α
  | [] => some standing
  | [value] => form.decode? value
  | _ => none

theorem part?_eq_some_iff {form : Form α} {means : Json → α → Prop} (h : form.Lawful means)
    {standing value : α} {values : List Json} :
    part? form standing values = some value ↔ Part means standing values value := by
  constructor
  · intro hpart
    match values with
    | [] =>
      obtain rfl := Option.some.inj hpart
      exact .left
    | [json] => exact .replaced ((h.decode?_eq_some_iff json value).mp hpart)
    | _ :: _ :: _ => exact nomatch hpart
  · rintro (_ | hmeans)
    · rfl
    · exact (h.decode?_eq_some_iff _ value).mpr hmeans

/-- What is laid over a field replaces its part. -/
theorem Field.lay?_of {name : String} {form : Form α} {part : ρ → α} {replace : α → ρ → ρ}
    {record : ρ} (h : replace (part record) record = record) (values : List Json) :
    (Field.of name form part replace).lay? (some record) values
      = (part? form (part record) values).map fun value => replace value record := by
  match values with
  | [] => exact congrArg some h.symm
  | [_] => rfl
  | _ :: _ :: _ => rfl

/-- The first field is laid over first, and the others over what comes of it. -/
theorem layAll?_cons_of {name : String} {form : Form α} {part : ρ → α} {replace : α → ρ → ρ}
    {means : Json → α → Prop} (hform : form.Lawful means) {fields : List (Field ρ)}
    {members : List (String × Json)} {record final : ρ}
    (hpart : replace (part record) record = record) :
    layAll? (.of name form part replace :: fields) members (some record) = some final ↔
      ∃ value, Part means (part record) (given members name) value ∧
        layAll? fields members (some (replace value record)) = some final := by
  simp only [layAll?_cons, Field.lay?_of hpart, ← part?_eq_some_iff hform]
  show layAll? fields members ((part? form (part record) (given members name)).map _) = _ ↔ _
  cases part? form (part record) (given members name) with
  | none => simp
  | some value => simp

theorem Field.uniform_of {name : String} {form : Form α} {part : ρ → α} {replace : α → ρ → ρ} :
    (Field.of name form part replace).Uniform := by
  intro value record changed
  simp only [Field.of, Option.isSome_map]

/-- Fields commute if their parts can be replaced in either order. -/
theorem Field.commutes_of {β : Type} {name other : String} {form : Form α} {second : Form β}
    {part : ρ → α} {piece : ρ → β} {replace : α → ρ → ρ} {exchange : β → ρ → ρ}
    (h : ∀ value changed record,
      exchange changed (replace value record) = replace value (exchange changed record)) :
    (Field.of name form part replace).Commutes (Field.of other second piece exchange) := by
  intro value change record
  simp only [Field.of]
  cases form.decode? value with
  | none => simp
  | some found =>
    cases second.decode? change with
    | none => rfl
    | some changed => exact congrArg some (h found changed record)

/-! ### Reading over a standard record -/

/-- The value is valid for a name: alone, it can be laid over the standard record. -/
def Valid (overlaid : List (String × Json) → ρ → Prop) (name : String) (value : Json) : Prop :=
  ∃ record, overlaid [(name, value)] record

/-- The members that have one of the names. -/
def known (names : List String) (members : List (String × Json)) : List (String × Json) :=
  members.filter fun member => names.contains member.1

/-- Reading lays what a text gives over the standard record: `overlaid` says which record has the
parts that members give and is standard otherwise. -/
structure OverlaysStandard (names : List String) (parse? : String → Option ρ)
    (overlaid : List (String × Json) → ρ → Prop) : Prop where
  /-- The record that is read from an object is the standard one with what is given laid over it. -/
  object : ∀ {text members record}, Denotes text (.record members) →
    (parse? text = some record ↔ overlaid members record)
  /-- If each known name is given one valid value at most, the object is read. -/
  succeeds : ∀ {text members}, Denotes text (.record members) →
    (∀ name ∈ names, given members name = [] ∨
      ∃ value, given members name = [value] ∧ Valid overlaid name value) →
    ∃ record, parse? text = some record
  /-- Neither the order of the members nor what has an unknown name matters. -/
  reordered : ∀ {text other members others}, Denotes text (.record members) →
    Denotes other (.record others) → (known names members).Perm (known names others) →
    parse? text = parse? other
  /-- A known name that is given twice is refused. -/
  repeated : ∀ {text members name}, Denotes text (.record members) → name ∈ names →
    2 ≤ (given members name).length → parse? text = none
  /-- A known name with a value that is not valid for it is refused. -/
  invalid : ∀ {text members name value}, Denotes text (.record members) → name ∈ names →
    (name, value) ∈ members → ¬Valid overlaid name value → parse? text = none
  /-- A name that denotes no text is refused. -/
  unnamed : ∀ {text members}, Denotes text (.object members) → none ∈ members.map Prod.fst →
    parse? text = none
  /-- An array is read as the object that names its items in order. -/
  array : ∀ {text object items}, Denotes text (.array items) →
    Denotes object (.record (names.zip items)) → items.length ≤ names.length →
    parse? text = parse? object
  /-- An array with more items than there are names is refused. -/
  longer : ∀ {text items}, Denotes text (.array items) → names.length < items.length →
    parse? text = none

theorem mem_given_iff {members : List (String × Json)} {name : String} {value : Json} :
    value ∈ given members name ↔ (name, value) ∈ members := by
  simp [given]

/-- What is given to known names is given by the known members. -/
theorem given_known {names : List String} {name : String} (h : name ∈ names)
    (members : List (String × Json)) : given (known names members) name = given members name := by
  rw [given, given, known, List.filter_filter]
  refine congrArg _ (List.filter_congr fun member _ => ?_)
  rw [Bool.and_eq_left_iff_imp]
  intro heq
  exact List.contains_iff_mem.mpr (eq_of_beq heq ▸ h)

/-- The order of the known members does not matter, nor do the others. -/
theorem layAll?_known {fields : List (Field ρ)} {members others : List (String × Json)}
    (h : (known (fields.map Field.name) members).Perm (known (fields.map Field.name) others))
    (record : Option ρ) : layAll? fields members record = layAll? fields others record := by
  refine layAll?_congr (fun field hfield record => field.lay?_perm ?_ record) record
  have hname : field.name ∈ fields.map Field.name := List.mem_map_of_mem hfield
  rw [← given_known hname members, ← given_known hname others]
  exact (h.filter _).map Prod.snd

/-- A value is valid if and only if the field can be replaced by it. -/
theorem Separate.valid_iff {fields : List (Field ρ)} (h : Separate fields) {standard : ρ}
    {overlaid : List (String × Json) → ρ → Prop}
    (hoverlaid : ∀ members record,
      layAll? fields members (some standard) = some record ↔ overlaid members record)
    {field : Field ρ} (hfield : field ∈ fields) (value : Json) (record : ρ) :
    Valid overlaid field.name value ↔ (field.replace? value record).isSome := by
  rw [h.uniform field hfield value record standard, Option.isSome_iff_exists]
  refine exists_congr fun record => ?_
  rw [← hoverlaid, h.layAll?_cons_member hfield value rfl, layAll?_nil]
  rfl

/-- Reading with separate fields lays what a text gives over the standard record. -/
theorem Separate.overlaysStandard {fields : List (Field ρ)} (h : Separate fields) {standard : ρ}
    {parse? : String → Option ρ} {overlaid : List (String × Json) → ρ → Prop}
    (hparse : ∀ text, parse? text = (Json.parse? text).bind (decodeFields? fields standard))
    (hoverlaid : ∀ members record,
      layAll? fields members (some standard) = some record ↔ overlaid members record) :
    OverlaysStandard (fields.map Field.name) parse? overlaid := by
  have hread : ∀ {text json}, Denotes text json →
      parse? text = decodeFields? fields standard json := by
    intro text json htext
    rw [hparse, parse?_eq_some_iff.mpr htext, Option.bind_some]
  have hobject : ∀ {text members}, Denotes text (.record members) →
      parse? text = layAll? fields members (some standard) := fun htext =>
    (hread htext).trans (h.overlay?_eq_layAll? (List.forall_mem_nil _) standard)
  -- an object is read field by field, and each law but the last three is one of the fields
  constructor
  case object =>
    intro text members record htext
    rw [hobject htext, hoverlaid]
  case succeeds =>
    intro text members htext hgiven
    rw [hobject htext]
    refine Option.isSome_iff_exists.mp (layAll?_isSome (fun field hfield record => ?_) standard)
    -- a field that is not given keeps its value
    rcases hgiven field.name (List.mem_map_of_mem hfield) with hnone | ⟨value, hvalue, hvalid⟩
    · rw [hnone]
      rfl
    · rw [hvalue]
      exact (h.valid_iff hoverlaid hfield value record).mp hvalid
  case reordered =>
    intro text other members others htext hother hperm
    rw [hobject htext, hobject hother, layAll?_known hperm]
  case repeated =>
    -- one field that refuses its members is enough to refuse the object
    intro text members name htext hname htwo
    obtain ⟨field, hfield, rfl⟩ := List.mem_map.mp hname
    rw [hobject htext]
    exact layAll?_eq_none hfield (fun record => field.lay?_of_two htwo record) _
  case invalid =>
    intro text members name value htext hname hmember hinvalid
    obtain ⟨field, hfield, rfl⟩ := List.mem_map.mp hname
    rw [hobject htext]
    have hrefused : ∀ record, field.replace? value record = none := fun record =>
      Option.not_isSome_iff_eq_none.mp (mt (h.valid_iff hoverlaid hfield value record).mpr hinvalid)
    exact layAll?_eq_none hfield (field.lay?_of_refused (mem_given_iff.mpr hmember) hrefused) _
  case unnamed =>
    intro text members htext hnone
    rw [hread htext]
    exact overlay?_of_unnamed fields hnone [] standard
  case array =>
    intro text object items htext hobj hlength
    rw [List.length_map] at hlength
    rw [hread htext, hobject hobj]
    exact h.overlayFirst?_eq_layAll? hlength standard
  case longer =>
    intro text items htext hlength
    rw [List.length_map] at hlength
    rw [hread htext]
    exact overlayFirst?_of_length_lt hlength standard

/-! ### What is written -/

/-- Each field is written once, under its name. -/
theorem given_encoded {fields : List (Field ρ)} (h : (fields.map Field.name).Nodup)
    {field : Field ρ} (hfield : field ∈ fields) (record : ρ) :
    given (fields.map fun field => (field.name, field.encode record)) field.name
      = [field.encode record] := by
  induction fields with
  | nil => exact absurd hfield List.not_mem_nil
  | cons other fields ih =>
    obtain ⟨hname, hnames⟩ := List.nodup_cons.mp h
    rw [List.map_cons]
    rcases List.mem_cons.mp hfield with rfl | hmem
    · rw [given_cons_self, given_eq_nil]
      rw [List.map_map]
      exact hname
    · have hne : other.name ≠ field.name := fun heq => hname (heq ▸ List.mem_map_of_mem hmem)
      rw [given_cons_of_ne hne, ih hnames hmem]

/-- What is written for a part means it. -/
theorem Part.encoded {fields : List (Field ρ)} (h : (fields.map Field.name).Nodup) (index : Nat)
    {name : String} {form : Form α} {part : ρ → α} {replace : α → ρ → ρ}
    (hfield : fields[index]? = some (.of name form part replace)) {means : Json → α → Prop}
    (hform : form.Lawful means) (standing : α) (record : ρ) : Part means standing
      (given (fields.map fun field => (field.name, field.encode record)) name) (part record) := by
  have hgiven := given_encoded h (List.mem_of_getElem? hfield) record
  exact hgiven ▸ .replaced (hform.means_encode (part record))

/-- A record is spelled if its parts are. -/
theorem spelled_encodeFields {fields : List (Field ρ)} {record : ρ}
    (h : ∀ field ∈ fields, Spelled (field.encode record)) :
    Spelled (encodeFields fields record) := by
  refine spelled_object (List.forall_mem_map.mpr (List.forall_mem_map.mpr fun field hfield => ?_))
  exact h field hfield

end LazyTally.Json
