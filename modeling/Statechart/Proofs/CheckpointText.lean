import Statechart.Checkpoint
import Statechart.Proofs.PrettyText
import Statechart.Proofs.Records
import Statechart.Proofs.TimestampText
import Statechart.Proofs.UuidText

/-!
# Reading back checkpoints

A checkpoint is written as a record whose fields are records, state values and a context. In
its text each of them is found under its name, and the limit of the history is null when there
is none. A state value is written without a mark of its kind: what is read as a text was a leaf,
and what is read as an object was nested, also where it has no entry. So the text of a checkpoint
gives the same checkpoint, unless its version is not the one that is supported.
-/

namespace Statechart

open Json

/-! ## Records in a text -/

namespace Json

theorem depth_le_itemsDepth {items : List Json} {item : Json} (member : item ∈ items) :
    item.depth ≤ itemsDepth items := by
  induction items with
  | nil => cases member
  | cons first rest ih =>
      rw [itemsDepth]
      rcases List.mem_cons.1 member with rfl | member
      · exact Nat.le_max_left _ _
      · exact Nat.le_trans (ih member) (Nat.le_max_right _ _)

theorem Number.ofInt?_of_inRange {i : Int} (inRange : InWordRange i) :
    Number.ofInt? i = some (.integer i inRange) :=
  dif_pos inRange

/-- Unfolded only as a function: at a number the match is evaluated, and the number compared with
its bounds by counting down. -/
theorem ofNat_of_ofInt? {n : Nat} {value : Number} (found : Number.ofInt? n = some value) :
    ofNat n = .number value := by
  generalize isWriter : ofNat = writer
  delta ofNat at isWriter
  rw [← isWriter]
  simp only [found]

theorem ofNat_toUInt64 (n : UInt32) : ofNat n.toNat = .ofUInt64 n.toUInt64 := by
  have small : n.toNat < 4294967296 := n.toNat_lt
  have inRange : InWordRange n.toNat := ⟨by omega, by omega⟩
  exact ofNat_of_ofInt? (Number.ofInt?_of_inRange inRange)

namespace Raw

theorem fields?_ofFields (fields : List (String × Json)) :
    fields? (ofFields fields) = some (fields.map fun field => (field.1, ofJson field.2)) := by
  induction fields with
  | nil => rfl
  | cons field rest ih =>
      rw [ofFields, fields?, Quoted.string?_ofString, ih]
      rfl

/-- An object is read as the record of its fields. -/
theorem record?_ofJson {fields : List (String × Json)} (distinct : (fields.map (·.1)).Nodup) :
    record? (fields.map (·.1)) (ofJson (.object fields)) =
      some (true, fields.map fun field => some (ofJson field.2)) := by
  have written_eq (fields : List (String × Json)) :
      written (fields.map fun field => (field.1, some (ofJson field.2))) =
        fields.map fun field => (field.1, ofJson field.2) := by
    induction fields with
    | nil => rfl
    | cons field rest ih => exact congrArg _ ih
  have slotted : ((fields.map fun field => (field.1, some (ofJson field.2))).map (·.1)).Nodup := by
    simpa [Function.comp_def] using distinct
  have found := byName?_written slotted _ (List.Subset.refl _)
  rw [written_eq, List.map_map, List.map_map] at found
  simp only [Function.comp_def] at found
  rw [ofJson, record?, fields?_ofFields, Option.bind_eq_bind, Option.bind_some, found]
  rfl

theorem ofItems_map {α : Type} (write : α → Json) (items : List α) :
    ofItems (items.map write) = items.map fun item => ofJson (write item) := by
  induction items with
  | nil => rfl
  | cons item rest ih => rw [List.map_cons, ofItems, ih, List.map_cons]

theorem string?_ofJson (text : String) : (ofJson (.string text)).string? = some text :=
  Quoted.string?_ofString text

theorem variant?_ofJson (text : String) : (ofJson (.string text)).variant? = some text :=
  Quoted.string?_ofString text

theorem unsigned?_ofJson {i : Int} {width : Nat} (inRange : InWordRange i)
    (fits : 0 ≤ i ∧ i.toNat < Nat.pow 2 width) :
    (ofJson (.number (.integer i inRange))).unsigned? width = some i.toNat := by
  rw [ofJson, unsigned?, Number.numeral, Numeral.number?_ofInteger inRange, Option.bind_some]
  exact if_pos fits

end Raw

end Json

/-! ## State values -/

namespace StateValue

mutual
theorem ofJson?_toJson : (value : StateValue) → value.Ordered → ofJson? value.toJson = some value
  | .leaf key, _ => by rw [toJson, ofJson?]
  | .nested regions, ⟨increasing, each⟩ => by
      rw [toJson, ofJson?, regionsOfJson?_regionsToJson regions each, Option.map_some,
        Keyed.sort_of_increasing increasing]

theorem regionsOfJson?_regionsToJson : (regions : List (String × StateValue)) →
    RegionsOrdered regions → regionsOfJson? (regionsToJson regions) = some regions
  | [], _ => by rw [regionsToJson, regionsOfJson?]
  | region :: rest, ⟨ordered, others⟩ => by
      rw [regionsToJson, regionsOfJson?, ofJson?_toJson region.2 ordered,
        regionsOfJson?_regionsToJson rest others]
      rfl
end

mutual
theorem realFree_toJson : (value : StateValue) → value.toJson.RealFree
  | .leaf _ => by
      rw [toJson]
      trivial
  | .nested regions => by
      rw [toJson]
      exact realFree_regionsToJson regions

theorem realFree_regionsToJson : (regions : List (String × StateValue)) →
    FieldsRealFree (regionsToJson regions)
  | [] => by
      rw [regionsToJson]
      trivial
  | region :: rest => by
      rw [regionsToJson]
      exact ⟨realFree_toJson region.2, realFree_regionsToJson rest⟩
end

/-- Within the depth that is allowed, a value in a text is read as the value. -/
theorem eval?_bind_ofJson? {value : StateValue} {limit : Nat} (ordered : value.Ordered)
    (shallow : value.toJson.depth ≤ limit) :
    ((Raw.ofJson value.toJson).eval? limit).bind ofJson? = some value := by
  rw [Raw.eval?_ofJson _ (realFree_toJson value) shallow, Option.bind_some,
    ofJson?_toJson value ordered]

end StateValue

/-! ## Histories -/

/-- An instant of a year with at most four digits. -/
structure Timestamp.Common (t : Timestamp) : Prop extends t.Regular where
  fromYear : 0 ≤ t.year
  toYear : t.year ≤ 9999

theorem Timestamp.Common.reads {t : Timestamp} (common : t.Common) : ofText? t.text = some t :=
  ofText?_written common.toRegular common.fromYear common.toYear

/-- A step whose text loses nothing: its values are ordered by key, as a map is, and its time
has a year of four digits. -/
structure StepRecord.Plain (record : StepRecord) : Prop where
  source : record.source.Ordered
  target : record.target.Ordered
  timestamp : record.timestamp.Common

theorem StepRecord.realFree_toJson (record : StepRecord) : record.toJson.RealFree :=
  ⟨trivial, record.source.realFree_toJson, record.target.realFree_toJson, trivial, trivial⟩

theorem StepRecord.ofRaw?_ofJson {record : StepRecord} {enclosing : Nat} (plain : record.Plain)
    (shallow : record.toJson.depth ≤ depthLimit - enclosing) :
    ofRaw? enclosing (Raw.ofJson record.toJson) = some record := by
  have names : ["event", "from", "to", "timestamp"].Nodup := by decide
  have found : (Raw.ofJson record.toJson).record? ["event", "from", "to", "timestamp"] = _ :=
    Raw.record?_ofJson names
  simp only [toJson, depth, fieldsDepth] at shallow
  have reads {value : StateValue} (ordered : value.Ordered)
      (within : value.toJson.depth ≤ depthLimit - enclosing - 1) :=
    StateValue.eval?_bind_ofJson? ordered within
  have source := reads plain.source (by omega)
  have target := reads plain.target (by omega)
  rw [ofRaw?, found]
  simp only [List.map_cons, List.map_nil, Raw.string?_ofJson, source, target,
    plain.timestamp.reads, Option.bind_eq_bind, Option.bind_some, Option.pure_def]

namespace History

theorem realFree_limitToJson (limit : Option UInt64) : (limitToJson limit).RealFree := by
  cases limit <;> trivial

theorem realFree_toJson (history : History) : history.toJson.RealFree :=
  ⟨realFree_map fun record _ => record.realFree_toJson, realFree_limitToJson _, trivial⟩

theorem limitOfRaw?_ofJson (named : Bool) (limit : Option UInt64) :
    limitOfRaw? named (some (Raw.ofJson (limitToJson limit))) = some limit := by
  cases limit with
  | none => rfl
  | some limit =>
      have reads : (Raw.ofJson (.ofUInt64 limit)).unsigned? 64 = some limit.toNat :=
        Raw.unsigned?_ofJson _ ⟨Int.natCast_nonneg _, limit.toNat_lt⟩
      have found : limitOfRaw? named (some (Raw.ofJson (.ofUInt64 limit))) =
          (((Raw.ofJson (.ofUInt64 limit)).unsigned? 64).map UInt64.ofNat).map some := rfl
      rw [limitToJson, found, reads, Option.map_some, Option.map_some, UInt64.ofNat_toNat]

theorem ofRaw?_ofJson {history : History} {enclosing : Nat}
    (plain : ∀ record ∈ history.records, record.Plain)
    (shallow : history.toJson.depth ≤ depthLimit - enclosing) :
    ofRaw? enclosing (Raw.ofJson history.toJson) = some history := by
  have names : ["records", "limit"].Nodup := by decide
  have found : (Raw.ofJson history.toJson).record? ["records", "limit"] = _ :=
    Raw.record?_ofJson names
  simp only [toJson, depth, fieldsDepth] at shallow
  have records : (Raw.ofItems (history.records.map StepRecord.toJson)).mapM
      (StepRecord.ofRaw? (enclosing + 2)) = some history.records := by
    rw [Raw.ofItems_map]
    refine mapM_map fun record member => ?_
    have within := depth_le_itemsDepth (List.mem_map_of_mem (f := StepRecord.toJson) member)
    exact StepRecord.ofRaw?_ofJson (plain record member) (by omega)
  rw [ofRaw?, found]
  simp only [List.map_cons, List.map_nil, Raw.ofJson, records, limitOfRaw?_ofJson,
    Option.bind_eq_bind, Option.bind_some, Option.pure_def]

end History

/-! ## Checkpoints -/

namespace Checkpoint

/-- A checkpoint whose text loses nothing: its values are ordered by key, as a map is, its times
have years of four digits, no number of its context is a real one, and it nests no deeper than a
reader allows. -/
structure Plain (checkpoint : Checkpoint) : Prop where
  value : checkpoint.value.Ordered
  timestamp : checkpoint.timestamp.Common
  records : ∀ record ∈ checkpoint.history.records, record.Plain
  context : checkpoint.context.toJson.RealFree
  shallow : checkpoint.toJson.depth ≤ depthLimit

variable {checkpoint : Checkpoint}

theorem ofName?_name (status : Status) : Status.ofName? status.name = some status := by
  cases status <;> decide

/-- The fields of a checkpoint, with the version as a number. -/
def fields (checkpoint : Checkpoint) : List (String × Json) :=
  [("version", .ofUInt64 checkpoint.version.toUInt64), ("id", .string checkpoint.id.text),
    ("machine", .string checkpoint.machine), ("timestamp", .string checkpoint.timestamp.text),
    ("value", checkpoint.value.toJson), ("context", checkpoint.context.toJson),
    ("status", .string checkpoint.status.name), ("history", checkpoint.history.toJson)]

theorem toJson_eq (checkpoint : Checkpoint) : checkpoint.toJson = .object checkpoint.fields := by
  rw [toJson, ofNat_toUInt64, fields]

theorem unsigned?_version (version : UInt32) :
    (Raw.ofJson (.ofUInt64 version.toUInt64)).unsigned? 32 = some version.toNat :=
  Raw.unsigned?_ofJson _ ⟨Int.natCast_nonneg _, version.toNat_lt⟩

theorem ofRaw?_ofJson (plain : checkpoint.Plain) :
    ofRaw? (Raw.ofJson checkpoint.toJson) = some checkpoint := by
  have names : fieldNames.Nodup := by decide
  have shallow := plain.shallow
  rw [toJson_eq] at shallow ⊢
  simp only [fields, depth, fieldsDepth] at shallow
  have found : (Raw.ofJson (.object checkpoint.fields)).record? fieldNames = _ :=
    Raw.record?_ofJson names
  have value : ((Raw.ofJson checkpoint.value.toJson).eval? (depthLimit - 1)).bind
      StateValue.ofJson? = some checkpoint.value :=
    StateValue.eval?_bind_ofJson? plain.value (by omega)
  have context : ((Raw.ofJson checkpoint.context.toJson).eval? (depthLimit - 1)).bind
      Context.ofJson? = some checkpoint.context := by
    rw [Raw.eval?_ofJson _ plain.context (by omega), Option.bind_some,
      checkpoint.context.ofJson?_toJson]
  have history : History.ofRaw? 1 (Raw.ofJson checkpoint.history.toJson) =
      some checkpoint.history := History.ofRaw?_ofJson plain.records (by omega)
  rw [ofRaw?, found]
  simp only [fields, List.map_cons, List.map_nil, Raw.string?_ofJson, Raw.variant?_ofJson,
    unsigned?_version, Uuid.ofText?_written, plain.timestamp.reads, value, context, history,
    ofName?_name, Option.bind_eq_bind, Option.bind_some, Option.pure_def, UInt32.ofNat_toNat]

theorem realFree_toJson (plain : checkpoint.Plain) : checkpoint.toJson.RealFree := by
  rw [toJson_eq]
  exact ⟨trivial, trivial, trivial, trivial, checkpoint.value.realFree_toJson, plain.context,
    trivial, checkpoint.history.realFree_toJson, trivial⟩

/-- Read back, the text of a checkpoint of the supported version is the same checkpoint, and that
of any other version is refused with the version that was found. -/
theorem text_reads_back (plain : checkpoint.Plain) :
    (checkpoint.version = checkpointVersion → ofText checkpoint.text = .ok checkpoint) ∧
      (checkpoint.version ≠ checkpointVersion → ofText checkpoint.text =
        .error (.unsupportedVersion checkpoint.version checkpointVersion)) := by
  have reads : (Raw.ofText? checkpoint.text).bind ofRaw? = some checkpoint := by
    rw [text, Raw.ofText?_pretty (realFree_toJson plain), Option.bind_some, ofRaw?_ofJson plain]
  rw [ofText, reads]
  constructor
  · intro supported
    simp only [checkVersion, if_pos supported]
    rfl
  · intro unsupported
    simp only [checkVersion, if_neg unsupported]
    rfl

/-- A checkpoint that was made in a leap second, after one step into a state without a child. -/
def parked (version : UInt32) : Checkpoint where
  version
  id := ⟨0x1b4e28ba2fa111d2883f0016d3cca427⟩
  machine := "garage"
  timestamp := ⟨17166, 86399, 1250000000⟩
  value := .nested [("gate", .leaf "shut"), ("lamps", .nested [])]
  context := Context.empty.set "places" (.ofInt64 (-3))
  status := .active
  history := ⟨[⟨"park", .leaf "open", .nested [("gate", .leaf "shut")], ⟨17166, 7, 5000⟩⟩], some 8⟩

theorem plain_parked (version : UInt32) : (parked version).Plain where
  value := ⟨List.pairwise_pair.2 (by decide), trivial, ⟨.nil, trivial⟩, trivial⟩
  timestamp :=
    show Timestamp.Common ⟨17166, 86399, 1250000000⟩ from ⟨by decide, by decide, by decide⟩
  records := by
    intro record member
    obtain rfl := List.mem_singleton.1 member
    exact ⟨trivial, ⟨List.pairwise_singleton _ _, trivial, trivial⟩,
      ⟨by decide, by decide, by decide⟩⟩
  context := ⟨trivial, trivial⟩
  shallow := by
    rw [toJson_eq]
    exact Nat.le_of_ble_eq_true rfl

theorem parked_reads_back : (parked 1).Plain ∧ ofText (parked 1).text = .ok (parked 1) ∧
    (parked 7).Plain ∧ ofText (parked 7).text = .error (.unsupportedVersion 7 1) :=
  ⟨plain_parked 1, (text_reads_back (plain_parked 1)).1 rfl, plain_parked 7,
    (text_reads_back (plain_parked 7)).2 (by decide)⟩

end Checkpoint

end Statechart
