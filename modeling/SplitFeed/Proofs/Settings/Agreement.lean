/-
# Settings agree with their tree

What a tree of values is read as, knob by knob.  Each record comes from its fields and each choice
from its alternatives, so by the shapes of the records the whole comes from its knobs: a tree gives
settings exactly if no knob is named twice and every knob that the settings hold agrees.
-/
import SplitFeed.Proofs.Settings.Knobs

namespace SplitFeed

/-! ### Records knob by knob -/

section Records

variable {value : Value} {way : List Step} {settings : Settings} {α : Type}
  {held : Settings → Option α} {record : α}

theorem agrees_ofRecord_iff (hheld : held settings = some record) {usual : Option Unit} :
    (Knob.ofRecord usual way held).Agrees value.along? settings ↔
      told Value.record? usual (value.along? way) = some () := by
  simp only [Knob.Agrees, Knob.ofRecord, hheld, Option.map_some]
  exact ⟨fun h => h () trivial, fun h _ _ => h⟩

theorem agrees_ofField_iff {β : Type} {names : List String} {place : Nat} {read : Value → Option β}
    {usual : Option β} {get : α → β} (hheld : held settings = some record) :
    (Knob.ofField way held names place read usual get).Agrees value.along? settings ↔
      told read usual ((value.along? way).bind (·.part? names place)) = some (get record) := by
  simp [Knob.Agrees, Knob.ofField, hheld, Value.along?_snoc, Value.step?]

end Records

/-- What a record is read as. -/
def RecordShape.read? {ρ : Type} (shape : RecordShape ρ) (value : Value) : Option ρ :=
  (shape.read value).toOption

/-- What a choice is read as. -/
def ChoiceShape.read? {α : Type} (shape : ChoiceShape α) (value : Value) : Option α :=
  (shape.read value).toOption

namespace RecordShape

variable {ρ : Type} {shape : RecordShape ρ} {record : ρ} {value : Value}

theorem read?_eq_some_iff (hshape : shape.IsOrderly) (hvalue : value.IsOrdered) :
    shape.read? value = some record ↔
      value.isRecord ∧ ¬shape.Doubles value ∧
        shape.assemble (fun field place => value.part? field.names place) = some record :=
  toOption_eq_some_iff.trans (read_eq_ok_iff hshape hvalue)

/-- Where all fields have one name only, none can be given twice. -/
theorem not_doubles (h : ∀ field ∈ shape.fields, field.alias? = none) : ¬shape.Doubles value := by
  rintro ⟨field, hmem, hrepeats⟩
  simp [RecordField.names, h field hmem] at hrepeats

end RecordShape

namespace RecordField

variable {ρ α : Type} {field : RecordField ρ} {record : ρ}

/-- A field is told first, and the fields after it go on from what the record becomes by that. -/
theorem receive_bind {β : Type} (put : α → ρ) {parse : Value → Option α} {usual : Option α}
    {next : ρ → Option β} {after : α → Option β} {given : Option Value}
    (hgiven : ∀ value, field.receive (some value) record = (parse value).map put)
    (husual : field.receive none record = usual.map put)
    (hnext : ∀ kind, next (put kind) = after kind) :
    (field.receive given record >>= next) = told parse usual given >>= after := by
  have hreceive : field.receive given record = (told parse usual given).map put := by
    cases given with
    | none => exact husual
    | some value => exact hgiven value
  rw [hreceive]
  cases told parse usual given with
  | none => rfl
  | some kind => exact hnext kind

/-- The same for a field that is read on its own. -/
theorem receive_bind_reads {β : Type} {read : Reading α} {put : α → ρ → ρ}
    {parse : Value → Option α} {usual : Option α} {next : ρ → Option β} {after : α → Option β}
    {given : Option Value} (henter : field.enter = reads read put)
    (hread : ∀ value, (read value).toOption = parse value)
    (husual : field.receive none record = usual.map (put · record))
    (hnext : ∀ kind, next (put kind record) = after kind) :
    (field.receive given record >>= next) = told parse usual given >>= after :=
  receive_bind _ (fun value => by rw [receive_some, henter, toOption_reads, hread]) husual hnext

end RecordField

/-- A record that is read or taken as usual, knob by knob: nothing given for any field comes to the
record that is usual. -/
theorem told_read?_eq_some_iff {ρ : Type} {shape : RecordShape ρ} (hshape : shape.IsOrderly)
    {usual : Option ρ} (husual : ∀ record, usual = some record →
      shape.assemble (fun _ _ => none) = some record)
    {given : Option Value} (hgiven : ∀ value ∈ given, value.IsOrdered) {record : ρ} :
    told shape.read? usual given = some record ↔
      told Value.record? (usual.map fun _ => ()) given = some () ∧
      (∀ value ∈ given, ¬shape.Doubles value) ∧
      shape.assemble (fun field place => given.bind (·.part? field.names place)) =
        some record := by
  cases given with
  | none =>
    cases usual with
    | none => simp [told]
    | some blank => simp [told, husual blank rfl]
  | some value =>
    have hread : shape.read? value = some record ↔ _ :=
      RecordShape.read?_eq_some_iff hshape (hgiven value rfl)
    simpa [told, Value.record?] using hread

/-- The same for a record whose fields have one name each. -/
theorem told_read?_of_single {ρ : Type} {shape : RecordShape ρ} (hshape : shape.IsOrderly)
    (hsingle : ∀ field ∈ shape.fields, field.alias? = none)
    {usual : Option ρ} (husual : ∀ record, usual = some record →
      shape.assemble (fun _ _ => none) = some record)
    {given : Option Value} (hgiven : ∀ value ∈ given, value.IsOrdered) {record : ρ} :
    told shape.read? usual given = some record ↔
      told Value.record? (usual.map fun _ => ()) given = some () ∧
      shape.assemble (fun field place => given.bind (·.part? field.names place)) =
        some record := by
  rw [told_read?_eq_some_iff hshape husual hgiven]
  exact and_congr_right fun _ => and_iff_right fun _ _ => RecordShape.not_doubles hsingle

namespace FetchLimits

theorem isOrderly_shape : FetchLimits.shape.IsOrderly where
  apart := by simp [FetchLimits.shape, RecordField.names]
  commute := by
    simp only [FetchLimits.shape, List.pairwise_cons, List.forall_mem_cons, List.not_mem_nil,
      false_imp_iff, implies_true, and_true, List.Pairwise.nil]
    exact RecordField.commutes_of_reads rfl rfl fun _ _ _ => rfl

theorem assemble_eq (part : List String → Nat → Option Value) :
    FetchLimits.shape.assemble (fun field place => part field.names place) = (do
      let maxRecords ← told Value.natural? (some 1000) (part ["max_records_per_fetch"] 0)
      let maxBytes ← told Value.natural? (some 1048576) (part ["max_bytes_per_fetch"] 1)
      return { maxRecords, maxBytes }) := by
  simp only [RecordShape.assemble, FetchLimits.shape, List.zipIdx_cons, List.zipIdx_nil,
    List.foldlM_cons, List.foldlM_nil, RecordField.names, Option.toList]
  have natural := Value.toOption_asNatural .size
  refine RecordField.receive_bind_reads rfl natural rfl fun maxRecords => ?_
  refine RecordField.receive_bind_reads rfl natural rfl fun maxBytes => ?_
  rfl

variable (way : List Step) (held : Settings → Option FetchLimits) {value : Value}
  {settings : Settings} {limits : FetchLimits}

theorem agrees_iff (hvalue : value.IsOrdered) (hheld : held settings = some limits) :
    (∀ knob ∈ knobs way held, knob.Agrees value.along? settings) ↔
      told FetchLimits.shape.read? (some {}) (value.along? way) = some limits := by
  rw [told_read?_of_single isOrderly_shape (by simp [FetchLimits.shape]) (by rintro _ ⟨⟩; rfl)
    fun part hpart => Value.isOrdered_of_along? hvalue hpart,
    assemble_eq fun names place => (value.along? way).bind (·.part? names place)]
  simp only [knobs, List.forall_mem_cons, List.not_mem_nil, false_imp_iff, implies_true, and_true,
    agrees_ofRecord_iff hheld, agrees_ofField_iff hheld, Option.bind_eq_bind,
    Option.bind_eq_some_iff, Option.pure_def, Option.some.injEq]
  refine and_congr_right fun _ => ⟨?_, ?_⟩
  · rintro ⟨hrecords, hbytes⟩
    exact ⟨_, hrecords, _, hbytes, rfl⟩
  · rintro ⟨_, hrecords, _, hbytes, rfl⟩
    exact ⟨hrecords, hbytes⟩

end FetchLimits

namespace RangeSource

theorem isOrderly_shape : RangeSource.shape.IsOrderly where
  apart := by simp [RangeSource.shape, RecordField.names]
  commute := by
    simp only [RangeSource.shape, List.pairwise_cons, List.forall_mem_cons, List.not_mem_nil,
      false_imp_iff, implies_true, and_true, List.Pairwise.nil]
    refine ⟨⟨?_, ?_, ?_⟩, ⟨?_, ?_⟩, ?_⟩ <;>
      exact RecordField.commutes_of_reads rfl rfl fun _ _ _ => rfl

theorem assemble_eq (part : List String → Nat → Option Value) :
    RangeSource.shape.assemble (fun field place => part field.names place) = (do
      let splits ← told Value.natural? (some 4) (part ["splits"] 0)
      let recordsPerSplit ← told Value.natural? (some 10000) (part ["records_per_split"] 1)
      let fetchDelayMs ← told Value.natural? (some 0) (part ["fetch_delay_ms"] 2)
      let limits ← told FetchLimits.shape.read? (some {}) (part ["common_config"] 3)
      return { splits, recordsPerSplit, fetchDelayMs, limits }) := by
  simp only [RecordShape.assemble, RangeSource.shape, List.zipIdx_cons, List.zipIdx_nil,
    List.foldlM_cons, List.foldlM_nil, RecordField.names, Option.toList]
  have natural := Value.toOption_asNatural
  refine RecordField.receive_bind_reads rfl (natural _) rfl fun splits => ?_
  refine RecordField.receive_bind_reads rfl (natural _) rfl fun records => ?_
  refine RecordField.receive_bind_reads rfl (natural _) rfl fun delay => ?_
  refine RecordField.receive_bind_reads rfl (fun _ => rfl) rfl fun limits => ?_
  rfl

variable (way : List Step) (held : Settings → Option RangeSource) {value : Value}
  {settings : Settings} {source : RangeSource}

theorem agrees_iff (hvalue : value.IsOrdered) (hheld : held settings = some source) :
    (∀ knob ∈ knobs way held, knob.Agrees value.along? settings) ↔
      told RangeSource.shape.read? none (value.along? way) = some source := by
  have hbelow := FetchLimits.agrees_iff (way ++ [.field ["common_config"] 3])
    (fun settings => (held settings).map (·.limits)) hvalue (by rw [hheld]; rfl)
  rw [Value.along?_snoc] at hbelow
  rw [told_read?_of_single isOrderly_shape (by simp [RangeSource.shape]) (by simp)
    fun part hpart => Value.isOrdered_of_along? hvalue hpart,
    assemble_eq fun names place => (value.along? way).bind (·.part? names place)]
  simp only [knobs, List.forall_mem_append, hbelow, List.forall_mem_cons, List.not_mem_nil,
    false_imp_iff, implies_true, and_true, agrees_ofRecord_iff hheld, agrees_ofField_iff hheld,
    Option.bind_eq_bind, Option.bind_eq_some_iff, Option.pure_def, Option.some.injEq, and_assoc]
  refine and_congr_right fun _ => ⟨?_, ?_⟩
  · rintro ⟨hsplits, hrecords, hdelay, hlimits⟩
    exact ⟨_, hsplits, _, hrecords, _, hdelay, _, hlimits, rfl⟩
  · rintro ⟨_, hsplits, _, hrecords, _, hdelay, _, hlimits, rfl⟩
    exact ⟨hsplits, hrecords, hdelay, hlimits⟩

end RangeSource

namespace FileSource

theorem isOrderly_shape : FileSource.shape.IsOrderly where
  apart := by simp [FileSource.shape, RecordField.names]
  commute := by
    simp only [FileSource.shape, List.pairwise_cons, List.forall_mem_cons, List.not_mem_nil,
      false_imp_iff, implies_true, and_true, List.Pairwise.nil]
    exact RecordField.commutes_of_reads rfl rfl fun _ _ _ => rfl

theorem assemble_eq (part : List String → Nat → Option Value) :
    FileSource.shape.assemble (fun field place => part field.names place) = (do
      let files ← told Value.texts? none (part ["files"] 0)
      let limits ← told FetchLimits.shape.read? (some {}) (part ["common_config"] 1)
      return { files, limits }) := by
  simp only [RecordShape.assemble, FileSource.shape, List.zipIdx_cons, List.zipIdx_nil,
    List.foldlM_cons, List.foldlM_nil, RecordField.names, Option.toList]
  refine RecordField.receive_bind_reads rfl (fun _ => rfl) rfl fun files => ?_
  refine RecordField.receive_bind_reads rfl (fun _ => rfl) rfl fun limits => ?_
  rfl

variable (way : List Step) (held : Settings → Option FileSource) {value : Value}
  {settings : Settings} {source : FileSource}

theorem agrees_iff (hvalue : value.IsOrdered) (hheld : held settings = some source) :
    (∀ knob ∈ knobs way held, knob.Agrees value.along? settings) ↔
      told FileSource.shape.read? none (value.along? way) = some source := by
  have hbelow := FetchLimits.agrees_iff (way ++ [.field ["common_config"] 1])
    (fun settings => (held settings).map (·.limits)) hvalue (by rw [hheld]; rfl)
  rw [Value.along?_snoc] at hbelow
  rw [told_read?_of_single isOrderly_shape (by simp [FileSource.shape]) (by simp)
    fun part hpart => Value.isOrdered_of_along? hvalue hpart,
    assemble_eq fun names place => (value.along? way).bind (·.part? names place)]
  simp only [knobs, List.forall_mem_append, hbelow, List.forall_mem_cons, List.not_mem_nil,
    false_imp_iff, implies_true, and_true, agrees_ofRecord_iff hheld, agrees_ofField_iff hheld,
    Option.bind_eq_bind, Option.bind_eq_some_iff, Option.pure_def, Option.some.injEq, and_assoc]
  refine and_congr_right fun _ => ⟨?_, ?_⟩
  · rintro ⟨hfiles, hlimits⟩
    exact ⟨_, hfiles, _, hlimits, rfl⟩
  · rintro ⟨_, hfiles, _, hlimits, rfl⟩
    exact ⟨hfiles, hlimits⟩

end FileSource

namespace SinkSettings

theorem isOrderly_fileShape : SinkSettings.fileShape.IsOrderly where
  apart := List.pairwise_singleton _ _
  commute := List.pairwise_singleton _ _

theorem assemble_eq (part : List String → Nat → Option Value) :
    SinkSettings.fileShape.assemble (fun field place => part field.names place) =
      told Value.text? none (part ["file_name"] 0) := by
  simp only [RecordShape.assemble, SinkSettings.fileShape, List.zipIdx_cons, List.zipIdx_nil,
    List.foldlM_cons, List.foldlM_nil, RecordField.names, Option.toList]
  cases part ["file_name"] 0 <;>
    simp [told, RecordField.receive, RecordField.toOption_reads, Value.text?]

variable (way : List Step) (held : Settings → Option String) {value : Value}
  {settings : Settings} {name : String}

theorem agrees_iff (hvalue : value.IsOrdered) (hheld : held settings = some name) :
    (∀ knob ∈ fileKnobs way held, knob.Agrees value.along? settings) ↔
      told SinkSettings.fileShape.read? none (value.along? way) = some name := by
  rw [told_read?_of_single isOrderly_fileShape (by simp [SinkSettings.fileShape]) (by simp)
    fun part hpart => Value.isOrdered_of_along? hvalue hpart,
    assemble_eq fun names place => (value.along? way).bind (·.part? names place)]
  simp only [fileKnobs, List.forall_mem_cons, List.not_mem_nil, false_imp_iff, implies_true,
    and_true, agrees_ofRecord_iff hheld, agrees_ofField_iff hheld, Option.map_none, id]

end SinkSettings

namespace RuntimeSettings

theorem isOrderly_shape : RuntimeSettings.shape.IsOrderly where
  apart := by simp [RuntimeSettings.shape, RecordField.names]
  commute := by
    simp only [RuntimeSettings.shape, List.pairwise_cons, List.forall_mem_cons, List.not_mem_nil,
      false_imp_iff, implies_true, and_true, List.Pairwise.nil]
    refine ⟨⟨?_, ?_, ?_, ?_⟩, ⟨?_, ?_, ?_⟩, ⟨?_, ?_⟩, ?_⟩ <;>
      exact RecordField.commutes_of_reads rfl rfl fun _ _ _ => rfl

theorem assemble_eq (part : List String → Nat → Option Value) :
    RuntimeSettings.shape.assemble (fun field place => part field.names place) = (do
      let queueCapacity ←
        told Value.natural? (some 2) (part ["queue_capacity", "element_queue_capacity"] 0)
      let fetcherThreads ←
        told Value.natural? (some 1) (part ["fetcher_threads", "num_fetchers"] 1)
      let recordLimit ←
        told (fun value => value.natural?.map some) (some none) (part ["record_limit"] 2)
      let closeTimeoutMs ← told Value.natural? (some 30000) (part ["close_timeout_ms"] 3)
      let showProgress ← told Value.truth? (some true) (part ["show_progress"] 4)
      return { queueCapacity, fetcherThreads, recordLimit, closeTimeoutMs, showProgress }) := by
  simp only [RecordShape.assemble, RuntimeSettings.shape, List.zipIdx_cons, List.zipIdx_nil,
    List.foldlM_cons, List.foldlM_nil, RecordField.names, Option.toList]
  have natural := Value.toOption_asNatural
  refine RecordField.receive_bind_reads rfl (natural _) rfl fun capacity => ?_
  refine RecordField.receive_bind_reads rfl (natural _) rfl fun threads => ?_
  -- A limit that is left out is none, so what is told is not the number that is read.
  refine RecordField.receive_bind
    (fun recordLimit => { queueCapacity := capacity, fetcherThreads := threads, recordLimit })
    (fun value => ?_) rfl fun limit => ?_
  · rw [RecordField.receive_some, RecordField.toOption_reads, natural, Option.map_map]
    rfl
  refine RecordField.receive_bind_reads rfl (natural _) rfl fun timeout => ?_
  refine RecordField.receive_bind_reads rfl (fun _ => rfl) rfl fun shown => ?_
  rfl

variable (way : List Step) (held : Settings → Option RuntimeSettings) {value : Value}
  {settings : Settings} {runtime : RuntimeSettings}

/-- Two of the fields have two names, and only one of them may be given. -/
theorem agrees_iff (hvalue : value.IsOrdered) (hheld : held settings = some runtime) :
    ((∀ here ∈ value.along? way, ¬RuntimeSettings.shape.Doubles here) ∧
        ∀ knob ∈ knobs way held, knob.Agrees value.along? settings) ↔
      told RuntimeSettings.shape.read? (some {}) (value.along? way) = some runtime := by
  rw [told_read?_eq_some_iff isOrderly_shape (by rintro _ ⟨⟩; rfl)
    fun part hpart => Value.isOrdered_of_along? hvalue hpart,
    assemble_eq fun names place => (value.along? way).bind (·.part? names place)]
  simp only [knobs, List.forall_mem_cons, List.not_mem_nil, false_imp_iff, implies_true, and_true,
    agrees_ofRecord_iff hheld, agrees_ofField_iff hheld,
    Option.bind_eq_bind, Option.bind_eq_some_iff, Option.pure_def, Option.some.injEq,
    Option.map_some]
  rw [and_left_comm]
  refine and_congr_right fun _ => and_congr_right fun _ => ⟨?_, ?_⟩
  · rintro ⟨hcapacity, hthreads, hlimit, htimeout, hprogress⟩
    exact ⟨_, hcapacity, _, hthreads, _, hlimit, _, htimeout, _, hprogress, rfl⟩
  · rintro ⟨_, hcapacity, _, hthreads, _, hlimit, _, htimeout, _, hprogress, rfl⟩
    exact ⟨hcapacity, hthreads, hlimit, htimeout, hprogress⟩

end RuntimeSettings

/-! ### Knobs of what was not chosen -/

section Absent

variable {given : List Step → Option Value} {way : List Step} {settings : Settings}

theorem RangeSource.agrees_of_none (held : Settings → Option RangeSource)
    (h : held settings = none) : ∀ knob ∈ knobs way held, knob.Agrees given settings := by
  simp [knobs, FetchLimits.knobs, Knob.ofRecord, Knob.ofField, Knob.Agrees, h]

theorem FileSource.agrees_of_none (held : Settings → Option FileSource)
    (h : held settings = none) : ∀ knob ∈ knobs way held, knob.Agrees given settings := by
  simp [knobs, FetchLimits.knobs, Knob.ofRecord, Knob.ofField, Knob.Agrees, h]

theorem SinkSettings.agrees_of_none (held : Settings → Option String)
    (h : held settings = none) : ∀ knob ∈ fileKnobs way held, knob.Agrees given settings := by
  simp [fileKnobs, Knob.ofRecord, Knob.ofField, Knob.Agrees, h]

end Absent

/-! ### Choices -/

namespace ChoiceShape

variable {α : Type} {shape : ChoiceShape α} {value : Value}

/-- What an alternative comes to when it is named alone. -/
def alone? (shape : ChoiceShape α) (name : String) : Option α :=
  match shape.alternatives.find? (·.name == name) with
  | some (.bare _ result) => some result
  | _ => none

/-- What an alternative comes to when it is named with its settings. -/
def with? (shape : ChoiceShape α) (name : String) (settings : Value) : Option α :=
  match shape.alternatives.find? (·.name == name) with
  | some (.withSettings _ read) => (read settings).toOption
  | _ => none

theorem read?_text (origin : Origin) (name : String) :
    shape.read? (.scalar origin (.text name)) = shape.alone? name := by
  simp only [read?, read, pick, alone?]
  cases shape.alternatives.find? (·.name == name) with
  | none => rfl
  | some alternative => cases alternative <;> rfl

theorem read?_table (origin : Origin) (name : String) (settings : Value)
    (rest : List (String × Value)) :
    shape.read? (.table origin ((name, settings) :: rest)) = shape.with? name settings := by
  simp only [read?, read, pick, with?]
  cases shape.alternatives.find? (·.name == name) with
  | none => rfl
  | some alternative =>
    cases alternative with
    | bare _ _ => rfl
    | withSettings _ read => exact toOption_mapError _ _

/-- Nothing but a text or a table with keys makes a choice. -/
theorem read?_cases (shape : ChoiceShape α) (value : Value) :
    (∃ origin name, value = .scalar origin (.text name) ∧
      shape.read? value = shape.alone? name) ∨
    (∃ origin name settings rest, value = .table origin ((name, settings) :: rest) ∧
      shape.read? value = shape.with? name settings) ∨
    shape.read? value = none ∧ ∀ bare withSettings, value.chosen? bare withSettings = none := by
  cases value with
  | scalar origin content =>
    cases content with
    | text name => exact .inl ⟨origin, name, rfl, read?_text origin name⟩
    | _ => exact .inr (.inr ⟨rfl, fun _ _ => rfl⟩)
  | list origin items => exact .inr (.inr ⟨rfl, fun _ _ => rfl⟩)
  | table origin entries =>
    cases entries with
    | nil => exact .inr (.inr ⟨rfl, fun _ _ => rfl⟩)
    | cons entry rest =>
      exact .inr (.inl ⟨origin, entry.1, entry.2, rest, rfl, read?_table origin _ _ rest⟩)

end ChoiceShape

namespace SourceSettings

variable {value : Value}

theorem alone?_eq (name : String) : SourceSettings.shape.alone? name = none := by
  unfold ChoiceShape.alone?
  split
  · next hfound =>
      have hmem := List.mem_of_find?_eq_some hfound
      simp [SourceSettings.shape] at hmem
  · rfl

theorem with?_eq (name : String) (settings : Value) :
    SourceSettings.shape.with? name settings =
      if name = "InMemory" then (RangeSource.shape.read? settings).map .ranges
      else if name = "File" then (FileSource.shape.read? settings).map .files
      else none := by
  by_cases hranges : name = "InMemory"
  · subst hranges
    exact toOption_map _ _
  · rw [if_neg hranges]
    by_cases hfiles : name = "File"
    · subst hfiles
      exact toOption_map _ _
    · rw [if_neg hfiles]
      simp [ChoiceShape.with?, SourceSettings.shape, ChoiceCase.name, Ne.symm hranges,
        Ne.symm hfiles]

theorem read?_eq_ranges_iff {source : RangeSource} :
    SourceSettings.shape.read? value = some (.ranges source) ↔
      value.chosen? [] ["InMemory", "File"] = some "InMemory" ∧
      told RangeSource.shape.read? none (value.step? (.alternative "InMemory")) = some source := by
  rcases SourceSettings.shape.read?_cases value with
    ⟨origin, name, rfl, hread⟩ | ⟨origin, name, settings, rest, rfl, hread⟩ | ⟨hread, hchosen⟩
  · simp [hread, alone?_eq, Value.chosen?]
  · rw [hread, with?_eq]
    by_cases hname : name = "InMemory"
    · simp [hname, Value.chosen?, Value.step?, Value.entries, Entries.find?, told]
    · by_cases hother : name = "File" <;> simp [hname, hother, Value.chosen?]
  · simp [hread, hchosen]

theorem read?_eq_files_iff {source : FileSource} :
    SourceSettings.shape.read? value = some (.files source) ↔
      value.chosen? [] ["InMemory", "File"] = some "File" ∧
      told FileSource.shape.read? none (value.step? (.alternative "File")) = some source := by
  rcases SourceSettings.shape.read?_cases value with
    ⟨origin, name, rfl, hread⟩ | ⟨origin, name, settings, rest, rfl, hread⟩ | ⟨hread, hchosen⟩
  · simp [hread, alone?_eq, Value.chosen?]
  · rw [hread, with?_eq]
    by_cases hname : name = "File"
    · simp [hname, Value.chosen?, Value.step?, Value.entries, Entries.find?, told]
    · by_cases hother : name = "InMemory" <;> simp [hname, hother, Value.chosen?]
  · simp [hread, hchosen]

end SourceSettings

namespace SinkSettings

variable {value : Value}

theorem alone?_eq (name : String) :
    SinkSettings.shape.alone? name = if name = "InMemory" then some .memory else none := by
  by_cases hmemory : name = "InMemory"
  · subst hmemory
    rfl
  · by_cases hfile : name = "File"
    · subst hfile
      rfl
    · simp [ChoiceShape.alone?, SinkSettings.shape, ChoiceCase.name, hmemory, Ne.symm hmemory,
        Ne.symm hfile]

theorem with?_eq (name : String) (settings : Value) :
    SinkSettings.shape.with? name settings =
      if name = "File" then (SinkSettings.fileShape.read? settings).map .file else none := by
  by_cases hfile : name = "File"
  · subst hfile
    exact toOption_map _ _
  · by_cases hmemory : name = "InMemory"
    · subst hmemory
      rfl
    · simp [ChoiceShape.with?, SinkSettings.shape, ChoiceCase.name, hfile, Ne.symm hmemory,
        Ne.symm hfile]

theorem read?_eq_memory_iff :
    SinkSettings.shape.read? value = some .memory ↔
      value.chosen? ["InMemory"] ["File"] = some "InMemory" := by
  rcases SinkSettings.shape.read?_cases value with
    ⟨origin, name, rfl, hread⟩ | ⟨origin, name, settings, rest, rfl, hread⟩ | ⟨hread, hchosen⟩
  · rw [hread, alone?_eq]
    by_cases hname : name = "InMemory" <;> simp [Value.chosen?, hname]
  · rw [hread, with?_eq]
    by_cases hname : name = "File" <;> simp [Value.chosen?, hname]
  · simp [hread, hchosen]

theorem read?_eq_file_iff {path : String} :
    SinkSettings.shape.read? value = some (.file path) ↔
      value.chosen? ["InMemory"] ["File"] = some "File" ∧
      told SinkSettings.fileShape.read? none (value.step? (.alternative "File")) = some path := by
  rcases SinkSettings.shape.read?_cases value with
    ⟨origin, name, rfl, hread⟩ | ⟨origin, name, settings, rest, rfl, hread⟩ | ⟨hread, hchosen⟩
  · rw [hread, alone?_eq]
    by_cases hname : name = "InMemory" <;> simp [Value.chosen?, hname]
  · rw [hread, with?_eq]
    by_cases hname : name = "File" <;>
      simp [Value.chosen?, hname, Value.step?, Value.entries, Entries.find?, told]
  · simp [hread, hchosen]

end SinkSettings

/-! ### All settings -/

namespace Settings

theorem isOrderly_shape : Settings.shape.IsOrderly where
  apart := by simp [Settings.shape, RecordField.names]
  commute := by
    simp only [Settings.shape, List.pairwise_cons, List.forall_mem_cons, List.not_mem_nil,
      false_imp_iff, implies_true, and_true, List.Pairwise.nil]
    refine ⟨⟨?_, ?_⟩, ?_⟩ <;> exact RecordField.commutes_of_reads rfl rfl fun _ _ _ => rfl

theorem assemble_eq (part : List String → Nat → Option Value) :
    Settings.shape.assemble (fun field place => part field.names place) = (do
      let source ← told SourceSettings.shape.read? none (part ["reader_config"] 0)
      let sink ← told SinkSettings.shape.read? none (part ["sink_config"] 1)
      let runtime ← told RuntimeSettings.shape.read? (some {}) (part ["runtime"] 2)
      return { source, sink, runtime }) := by
  simp only [RecordShape.assemble, Settings.shape, List.zipIdx_cons, List.zipIdx_nil,
    List.foldlM_cons, List.foldlM_nil, RecordField.names, Option.toList]
  refine RecordField.receive_bind_reads rfl (fun _ => rfl) rfl fun source => ?_
  refine RecordField.receive_bind_reads rfl (fun _ => rfl) rfl fun sink => ?_
  refine RecordField.receive_bind_reads rfl (fun _ => rfl) rfl fun runtime => ?_
  rfl

variable {value : Value} (settings : Settings)

/-- An empty table makes no choice, and none comes of it. -/
theorem told_chosen? (bare withSettings : List String) (value : Value) :
    told (Value.chosen? bare withSettings) none (value.step? .choice) =
      value.chosen? bare withSettings := by
  cases value with
  | table origin entries => cases entries <;> rfl
  | _ => rfl

theorem told_choice (bare withSettings : List String) (way : List Step) :
    told (Value.chosen? bare withSettings) none (value.along? (way ++ [.choice])) =
      (value.along? way).bind (·.chosen? bare withSettings) := by
  rw [Value.along?_snoc]
  cases value.along? way with
  | none => rfl
  | some here => exact told_chosen? bare withSettings here

/-- A choice agrees if the name that is held is chosen. -/
theorem agrees_choice_iff {bare withSettings : List String} {way : List Step}
    {name : Settings → String} :
    Knob.Agrees value.along? settings
        ⟨String, way ++ [.choice], Value.chosen? bare withSettings, none,
          fun settings => some (name settings)⟩ ↔
      (value.along? way).bind (·.chosen? bare withSettings) = some (name settings) := by
  simp [Knob.Agrees, told_choice]

theorem source_agrees_iff (hvalue : value.IsOrdered) :
    (sourceChoice.Agrees value.along? settings ∧
        (∀ knob ∈ RangeSource.knobs (sourceWay ++ [.alternative "InMemory"]) (·.source.ranges?),
          knob.Agrees value.along? settings) ∧
        ∀ knob ∈ FileSource.knobs (sourceWay ++ [.alternative "File"]) (·.source.files?),
          knob.Agrees value.along? settings) ↔
      told SourceSettings.shape.read? none (value.along? sourceWay) = some settings.source := by
  rw [show sourceChoice.Agrees value.along? settings ↔ _ from agrees_choice_iff settings]
  cases hsource : settings.source with
  | ranges source =>
    have hheld : settings.source.ranges? = some source := by rw [hsource]; rfl
    have hother : settings.source.files? = none := by rw [hsource]; rfl
    rw [RangeSource.agrees_iff _ (·.source.ranges?) hvalue hheld, Value.along?_snoc,
      and_iff_left (FileSource.agrees_of_none (·.source.files?) hother)]
    cases value.along? sourceWay with
    | none => simp [told]
    | some here => exact SourceSettings.read?_eq_ranges_iff.symm
  | files source =>
    have hheld : settings.source.files? = some source := by rw [hsource]; rfl
    have hother : settings.source.ranges? = none := by rw [hsource]; rfl
    rw [FileSource.agrees_iff _ (·.source.files?) hvalue hheld, Value.along?_snoc,
      and_iff_right (RangeSource.agrees_of_none (·.source.ranges?) hother)]
    cases value.along? sourceWay with
    | none => simp [told]
    | some here => exact SourceSettings.read?_eq_files_iff.symm

theorem sink_agrees_iff (hvalue : value.IsOrdered) :
    (sinkChoice.Agrees value.along? settings ∧
        ∀ knob ∈ SinkSettings.fileKnobs (sinkWay ++ [.alternative "File"]) (·.sink.file?),
          knob.Agrees value.along? settings) ↔
      told SinkSettings.shape.read? none (value.along? sinkWay) = some settings.sink := by
  rw [show sinkChoice.Agrees value.along? settings ↔ _ from agrees_choice_iff settings]
  cases hsink : settings.sink with
  | memory =>
    have hother : settings.sink.file? = none := by rw [hsink]; rfl
    rw [and_iff_left (SinkSettings.agrees_of_none (·.sink.file?) hother)]
    cases value.along? sinkWay with
    | none => simp [told]
    | some here => exact SinkSettings.read?_eq_memory_iff.symm
  | file name =>
    have hheld : settings.sink.file? = some name := by rw [hsink]; rfl
    rw [SinkSettings.agrees_iff _ (·.sink.file?) hvalue hheld, Value.along?_snoc]
    cases value.along? sinkWay with
    | none => simp [told]
    | some here => exact SinkSettings.read?_eq_file_iff.symm

/-- Only tuning goes by two names, so only there a way can fork. -/
theorem forksAlong_iff :
    (∃ knob ∈ knobs, value.ForksAlong knob.way) ↔
      ∃ here ∈ value.along? runtimeWay, RuntimeSettings.shape.Doubles here := by
  have hdoubles : ∀ here, RuntimeSettings.shape.Doubles here ↔
      here.Repeats ["queue_capacity", "element_queue_capacity"] ∨
        here.Repeats ["fetcher_threads", "num_fetchers"] := fun here => by
    simp [RecordShape.Doubles, RuntimeSettings.shape, RecordField.names]
  simp [hdoubles, knobs, choices, details, RangeSource.knobs, FileSource.knobs, FetchLimits.knobs,
    SinkSettings.fileKnobs, RuntimeSettings.knobs, Knob.ofRecord, Knob.ofField, Value.ForksAlong,
    Value.Forks, sourceChoice, sinkChoice, sourceWay, sinkWay, runtimeWay, Value.along?,
    and_or_left, exists_or]

/-- The settings that a layer gives are those that agree with it knob by knob, if no knob is given
twice. -/
theorem ofValue_eq_ok_iff (hvalue : value.IsLayer) :
    ofValue value = .ok settings ↔
      (∀ knob ∈ knobs, ¬value.ForksAlong knob.way) ∧
        ∀ knob ∈ knobs, knob.Agrees value.along? settings := by
  have hordered := hvalue.isOrdered
  have hrecord : value.isRecord := by
    obtain ⟨origin, entries, rfl, -⟩ := hvalue
    rfl
  have hread : ofValue value = .ok settings ↔ Settings.shape.read? value = some settings := by
    rw [← toOption_eq_some_iff, ofValue, toOption_mapError]
    rfl
  have hsingle : ¬Settings.shape.Doubles value := RecordShape.not_doubles (by simp [shape])
  have hruntime := RuntimeSettings.agrees_iff runtimeWay (fun settings => some settings.runtime)
    hordered (rfl : some settings.runtime = _)
  have hsource := source_agrees_iff settings hordered
  have hsink := sink_agrees_iff settings hordered
  have hforks : (∀ knob ∈ knobs, ¬value.ForksAlong knob.way) ↔
      ∀ here ∈ value.along? runtimeWay, ¬RuntimeSettings.shape.Doubles here := by
    simpa using not_congr forksAlong_iff
  rw [hread, RecordShape.read?_eq_some_iff isOrderly_shape hordered,
    assemble_eq fun names place => value.part? names place, and_iff_right hrecord,
    and_iff_right hsingle, hforks]
  simp only [Option.bind_eq_bind, Option.bind_eq_some_iff, Option.pure_def, Option.some.injEq,
    ← Value.along?_field, knobs, choices, details, List.forall_mem_append, List.forall_mem_cons,
    List.not_mem_nil, false_imp_iff, implies_true, and_true]
  constructor
  · rintro ⟨_, hreader, _, hwriter, _, htuning, rfl⟩
    obtain ⟨hone, htuned⟩ := hruntime.2 htuning
    obtain ⟨hchoice, hranges, hfiles⟩ := hsource.2 hreader
    obtain ⟨hchoice', hfile⟩ := hsink.2 hwriter
    exact ⟨hone, ⟨hchoice, hchoice'⟩, ⟨⟨hranges, hfiles⟩, hfile⟩, htuned⟩
  · rintro ⟨hone, ⟨hchoice, hchoice'⟩, ⟨⟨hranges, hfiles⟩, hfile⟩, htuned⟩
    exact ⟨_, hsource.1 ⟨hchoice, hranges, hfiles⟩, _, hsink.1 ⟨hchoice', hfile⟩, _,
      hruntime.1 ⟨hone, htuned⟩, rfl⟩

end Settings

end SplitFeed
