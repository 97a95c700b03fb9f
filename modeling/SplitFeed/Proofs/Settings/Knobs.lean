/-
# Knobs

Everything that can be set, one knob each: the way on which its value is found in a tree of values,
how the value is read, what is usual where none is given, and where the settings hold it.  Ways go
by names, former names and places alike.  This table of knobs is written down beside the shapes by
which trees are read, and says what they should amount to.
-/
import SplitFeed.Proofs.Settings.Fields

namespace SplitFeed

/-- A step from a value to one of its parts. -/
inductive Step where
  /-- To a field of a record, by one of its names or, in a list, by its place. -/
  | field (names : List String) (place : Nat)
  /-- To the settings of an alternative of a choice. -/
  | alternative (name : String)
  /-- To the choice that a value makes; an empty table makes none. -/
  | choice
deriving DecidableEq

namespace Value

/-- Where a step leads. -/
def step? (value : Value) : Step → Option Value
  | .field names place => value.part? names place
  | .alternative name => value.entries.find? name
  | .choice =>
    match value with
    | table _ [] => none
    | value => some value

/-- Where a way leads. -/
def along? (value : Value) : List Step → Option Value
  | [] => some value
  | step :: rest => (value.step? step).bind (·.along? rest)

theorem along?_append (way more : List Step) (value : Value) :
    value.along? (way ++ more) = (value.along? way).bind (·.along? more) := by
  induction way generalizing value with
  | nil => rfl
  | cons step rest ih =>
    simp only [List.cons_append, along?, Option.bind_assoc]
    exact congrArg _ (funext ih)

theorem along?_field (names : List String) (place : Nat) (value : Value) :
    value.along? [.field names place] = value.part? names place := by
  simp [along?, step?]

/-- Where a way leads with one more step. -/
theorem along?_snoc (way : List Step) (step : Step) (value : Value) :
    value.along? (way ++ [step]) = (value.along? way).bind (·.step? step) := by
  simp [along?_append, along?]

theorem isOrdered_of_step? {value part : Value} {step : Step} (h : value.IsOrdered)
    (hpart : value.step? step = some part) : part.IsOrdered := by
  cases value with
  | scalar origin content =>
    cases step with
    | choice =>
      cases hpart
      exact h
    | _ => cases hpart
  | list origin items =>
    cases h with
    | list each =>
      cases step with
      | field names place => exact each _ (List.mem_of_getElem? hpart)
      | alternative name => cases hpart
      | choice =>
        cases hpart
        exact .list each
  | table origin entries =>
    have horder := isOrdered_table_iff.1 h
    cases step with
    | field names place =>
      obtain ⟨name, -, hfound⟩ := List.exists_of_findSome?_eq_some hpart
      exact horder.find? hfound
    | alternative name => exact horder.find? hpart
    | choice =>
      cases entries with
      | nil => cases hpart
      | cons entry rest =>
        cases hpart
        exact h

theorem isOrdered_of_along? {value part : Value} {way : List Step} (h : value.IsOrdered)
    (hpart : value.along? way = some part) : part.IsOrdered := by
  induction way generalizing value with
  | nil =>
    cases hpart
    exact h
  | cons step rest ih =>
    obtain ⟨next, hnext, hrest⟩ := Option.bind_eq_some_iff.1 hpart
    exact ih (isOrdered_of_step? h hnext) hrest

/-- Two names of one step are keys where it starts. -/
def Forks (value : Value) : Step → Prop
  | .field names _ => value.Repeats names
  | _ => False

/-- A step of a way forks. -/
def ForksAlong (value : Value) : List Step → Prop
  | [] => False
  | step :: rest => value.Forks step ∨ ∃ part ∈ value.step? step, part.ForksAlong rest

/-- A number that is not negative. -/
def natural? (value : Value) : Option Nat := (asNatural .number value).toOption

/-- A truth value. -/
def truth? (value : Value) : Option Bool := (asTruth value).toOption

/-- Text. -/
def text? (value : Value) : Option String := (asText value).toOption

/-- A list of texts. -/
def texts? (value : Value) : Option (List String) := (asList asText value).toOption

/-- Something that can be read as a record. -/
def record? (value : Value) : Option Unit := if value.isRecord then some () else none

/-- The name of the alternative that is chosen: one without settings by its name alone, one with
settings by the least key of a table. -/
def chosen? (bare withSettings : List String) : Value → Option String
  | .scalar _ (.text name) => if name ∈ bare then some name else none
  | .table _ ((name, _) :: _) => if name ∈ withSettings then some name else none
  | _ => none

theorem toOption_asNatural (expected : Expected) (value : Value) :
    (asNatural expected value).toOption = value.natural? := by
  unfold natural? asNatural
  split
  · rfl
  · split <;> rfl
  · rfl

end Value

/-- What a value comes to, and what is usual where there is none. -/
def told {α : Type} (read : Value → Option α) (usual : Option α) (given : Option Value) :
    Option α :=
  given.elim usual read

@[simp]
theorem Value.not_repeats_single (name : String) (value : Value) : ¬value.Repeats [name] := by
  cases value with
  | table origin entries =>
    rintro ⟨a, ha, b, hb, hne, -⟩
    exact hne ((List.mem_singleton.1 ha).trans (List.mem_singleton.1 hb).symm)
  | _ => exact id

/-- Something that can be set. -/
structure Knob where
  /-- What it is set to. -/
  Kind : Type
  /-- The way on which its value is found. -/
  way : List Step
  /-- What a value sets it to. -/
  read : Value → Option Kind
  /-- What it is set to if no value is found.  Some knobs have to be set. -/
  usual : Option Kind
  /-- What settings have it set to, if they have it at all. -/
  held : Settings → Option Kind

/-- Settings have a knob as it is given. -/
def Knob.Agrees (given : List Step → Option Value) (settings : Settings) (knob : Knob) : Prop :=
  ∀ kind, knob.held settings = some kind →
    told knob.read knob.usual (given knob.way) = some kind

/-- The knob of a record as a whole: what is found has to be one. -/
def Knob.ofRecord {α : Type} (usual : Option Unit) (way : List Step)
    (held : Settings → Option α) : Knob where
  Kind := Unit
  way
  read := Value.record?
  usual
  held settings := (held settings).map fun _ => ()

/-- The knob of a field. -/
def Knob.ofField {α β : Type} (way : List Step) (held : Settings → Option α)
    (names : List String) (place : Nat) (read : Value → Option β) (usual : Option β)
    (get : α → β) : Knob where
  Kind := β
  way := way ++ [.field names place]
  read
  usual
  held settings := (held settings).map get

/-- The ceilings of a fetch. -/
def FetchLimits.knobs (way : List Step) (held : Settings → Option FetchLimits) : List Knob :=
  [.ofRecord (some ()) way held,
   .ofField way held ["max_records_per_fetch"] 0 Value.natural? (some 1000) (·.maxRecords),
   .ofField way held ["max_bytes_per_fetch"] 1 Value.natural? (some 1048576) (·.maxBytes)]

/-- Generated numbers. -/
def RangeSource.knobs (way : List Step) (held : Settings → Option RangeSource) : List Knob :=
  [.ofRecord none way held,
   .ofField way held ["splits"] 0 Value.natural? (some 4) (·.splits),
   .ofField way held ["records_per_split"] 1 Value.natural? (some 10000) (·.recordsPerSplit),
   .ofField way held ["fetch_delay_ms"] 2 Value.natural? (some 0) (·.fetchDelayMs)] ++
  FetchLimits.knobs (way ++ [.field ["common_config"] 3]) fun settings =>
    (held settings).map (·.limits)

/-- Files of lines. -/
def FileSource.knobs (way : List Step) (held : Settings → Option FileSource) : List Knob :=
  [.ofRecord none way held,
   .ofField way held ["files"] 0 Value.texts? none (·.files)] ++
  FetchLimits.knobs (way ++ [.field ["common_config"] 1]) fun settings =>
    (held settings).map (·.limits)

/-- The file that records go to. -/
def SinkSettings.fileKnobs (way : List Step) (held : Settings → Option String) : List Knob :=
  [.ofRecord none way held, .ofField way held ["file_name"] 0 Value.text? none id]

/-- Tuning. -/
def RuntimeSettings.knobs (way : List Step) (held : Settings → Option RuntimeSettings) :
    List Knob :=
  [.ofRecord (some ()) way held,
   .ofField way held ["queue_capacity", "element_queue_capacity"] 0 Value.natural? (some 2)
     (·.queueCapacity),
   .ofField way held ["fetcher_threads", "num_fetchers"] 1 Value.natural? (some 1)
     (·.fetcherThreads),
   .ofField way held ["record_limit"] 2 (fun value => value.natural?.map some) (some none)
     (·.recordLimit),
   .ofField way held ["close_timeout_ms"] 3 Value.natural? (some 30000) (·.closeTimeoutMs),
   .ofField way held ["show_progress"] 4 Value.truth? (some true) (·.showProgress)]

namespace SourceSettings

/-- The name of an alternative. -/
def name : SourceSettings → String
  | ranges _ => "InMemory"
  | files _ => "File"

/-- The generated numbers, if those are the source. -/
def ranges? : SourceSettings → Option RangeSource
  | ranges source => some source
  | files _ => none

/-- The files, if those are the source. -/
def files? : SourceSettings → Option FileSource
  | ranges _ => none
  | files source => some source

end SourceSettings

namespace SinkSettings

/-- The name of an alternative. -/
def name : SinkSettings → String
  | memory => "InMemory"
  | file _ => "File"

/-- The name of the file, if a file is the sink. -/
def file? : SinkSettings → Option String
  | memory => none
  | file name => some name

end SinkSettings

namespace Settings

/-- The ways to source, sink and tuning. -/
def sourceWay : List Step := [.field ["reader_config"] 0]

def sinkWay : List Step := [.field ["sink_config"] 1]

def runtimeWay : List Step := [.field ["runtime"] 2]

/-- The choice of source. -/
def sourceChoice : Knob where
  Kind := String
  way := sourceWay ++ [.choice]
  read := Value.chosen? [] ["InMemory", "File"]
  usual := none
  held settings := some settings.source.name

/-- The choice of sink. -/
def sinkChoice : Knob where
  Kind := String
  way := sinkWay ++ [.choice]
  read := Value.chosen? ["InMemory"] ["File"]
  usual := none
  held settings := some settings.sink.name

/-- Both choices. -/
def choices : List Knob := [sourceChoice, sinkChoice]

/-- All other knobs. -/
def details : List Knob :=
  RangeSource.knobs (sourceWay ++ [.alternative "InMemory"]) (·.source.ranges?) ++
  FileSource.knobs (sourceWay ++ [.alternative "File"]) (·.source.files?) ++
  SinkSettings.fileKnobs (sinkWay ++ [.alternative "File"]) (·.sink.file?) ++
  RuntimeSettings.knobs runtimeWay fun settings => some settings.runtime

/-- All knobs. -/
def knobs : List Knob := choices ++ details

end Settings

end SplitFeed
