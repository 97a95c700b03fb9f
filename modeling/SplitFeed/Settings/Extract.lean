/-
# Reading settings from values

The fields of each record of settings under the names people give them, with their defaults, and
the choices of source and sink.
-/
import SplitFeed.Settings.Basic
import SplitFeed.Settings.Record

namespace SplitFeed

open RecordField (reads)
open Value (asNatural asText asTruth asList)

/-- Ceilings of a fetch. -/
def FetchLimits.shape : RecordShape FetchLimits where
  title := "CommonReaderConfig"
  blank := {}
  fields :=
    [{ name := "max_records_per_fetch"
       enter := reads (asNatural .size) fun n limits => { limits with maxRecords := n } },
     { name := "max_bytes_per_fetch"
       enter := reads (asNatural .size) fun n limits => { limits with maxBytes := n } }]

/-- Generated numbers. -/
def RangeSource.shape : RecordShape RangeSource where
  title := "InMemoryReaderConfig"
  blank := {}
  fields :=
    [{ name := "splits"
       enter := reads (asNatural .size) fun n source => { source with splits := n } },
     { name := "records_per_split"
       enter := reads (asNatural .number) fun n source => { source with recordsPerSplit := n } },
     { name := "fetch_delay_ms"
       enter := reads (asNatural .number) fun n source => { source with fetchDelayMs := n } },
     { name := "common_config"
       enter := reads FetchLimits.shape.read fun limits source => { source with limits } }]

/-- Files of lines, which have to be named. -/
def FileSource.shape : RecordShape FileSource where
  title := "FileReaderConfig"
  blank := { files := [] }
  fields :=
    [{ name := "files"
       isRequired := true
       enter := reads (asList asText) fun files source => { source with files } },
     { name := "common_config"
       enter := reads FetchLimits.shape.read fun limits source => { source with limits } }]

/-- The choice of source. -/
def SourceSettings.shape : ChoiceShape SourceSettings where
  title := "ReaderConfig"
  alternatives :=
    [.withSettings "InMemory" fun value => .ranges <$> RangeSource.shape.read value,
     .withSettings "File" fun value => .files <$> FileSource.shape.read value]

/-- The file that records go to, which has to be named. -/
def SinkSettings.fileShape : RecordShape String where
  title := "FileSinkConfig"
  blank := ""
  fields :=
    [{ name := "file_name", isRequired := true, enter := reads asText fun name _ => name }]

/-- The choice of sink. -/
def SinkSettings.shape : ChoiceShape SinkSettings where
  title := "SinkConfig"
  alternatives :=
    [.bare "InMemory" .memory,
     .withSettings "File" fun value => .file <$> SinkSettings.fileShape.read value]

/-- Tuning.  Two of its fields still answer to their former names. -/
def RuntimeSettings.shape : RecordShape RuntimeSettings where
  title := "RuntimeConfig"
  blank := {}
  fields :=
    [{ name := "queue_capacity"
       alias? := some "element_queue_capacity"
       enter := reads (asNatural .size) fun n runtime => { runtime with queueCapacity := n } },
     { name := "fetcher_threads"
       alias? := some "num_fetchers"
       enter := reads (asNatural .size) fun n runtime => { runtime with fetcherThreads := n } },
     { name := "record_limit"
       enter := reads (asNatural .number) fun n runtime => { runtime with recordLimit := some n } },
     { name := "close_timeout_ms"
       enter := reads (asNatural .number) fun n runtime => { runtime with closeTimeoutMs := n } },
     { name := "show_progress"
       enter := reads asTruth fun b runtime => { runtime with showProgress := b } }]

/-- All settings.  Source and sink have to be chosen. -/
def Settings.shape : RecordShape Settings where
  title := "AppConfig"
  blank := { source := .files { files := [] }, sink := .memory }
  fields :=
    [{ name := "reader_config"
       isRequired := true
       enter := reads SourceSettings.shape.read fun source settings => { settings with source } },
     { name := "sink_config"
       isRequired := true
       enter := reads SinkSettings.shape.read fun sink settings => { settings with sink } },
     { name := "runtime"
       enter := reads RuntimeSettings.shape.read
         fun runtime settings => { settings with runtime } }]

/-- The settings that a tree of values gives.  A complaint about the settings as a whole has no
place of its own. -/
def Settings.ofValue (value : Value) : Except Complaint Settings :=
  (Settings.shape.read value).mapError fun complaint =>
    if complaint.path.isEmpty then { complaint with origin := none } else complaint

end SplitFeed
