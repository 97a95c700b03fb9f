/-
# Runs that are tuned differently

How many fetch threads there are, how many batches the queue holds and how much one fetch may bring
back should make no difference to the result of a run without a record limit: the same lines are
sent, in whatever order, and the summary says the same.

Only the number of threads can make a difference to runs on which nobody gives splits up.  Splits
are dealt over as many slots as there are threads, and a split that is named twice is read twice if
it is dealt to two slots, but once if to one.  So two runs agree exactly if the same lines were
dealt, and that is always so for splits that can be told apart.
-/
import SplitFeed.Proofs.Pipeline.Finishing
import SplitFeed.Proofs.Pipeline.Shares
import Mathlib.Data.List.Sort

namespace SplitFeed

/-- What may be tuned without a difference to what is read and where it is sent. -/
structure Tuning where
  fetcherThreads : Nat := 1
  queueCapacity : Nat := 2
  limits : FetchLimits := {}

/-- The same source with other limits on one fetch. -/
def SourceSettings.withLimits (limits : FetchLimits) : SourceSettings → SourceSettings
  | ranges source => ranges { source with limits }
  | files source => files { source with limits }

/-- The same settings, tuned differently. -/
def Settings.withTuning (tuning : Tuning) (settings : Settings) : Settings :=
  { settings with
    source := settings.source.withLimits tuning.limits
    runtime := { settings.runtime with
      fetcherThreads := tuning.fetcherThreads
      queueCapacity := tuning.queueCapacity } }

/-- The lines of all splits as they are dealt over slots, each split once in a slot. -/
def Order.linesDealt (order : Order) (threads : Nat) : List String :=
  ((order.job.allotment threads).flatMap (·.records order.files)).map Record.line

namespace Run

/-- A run with given settings took a course, and was over with a summary then. -/
structure EndsWell (settings : Settings) (store : FileStore) (moves : List Move) (run last : Run)
    (summary : Report.Summary) : Prop where
  opened : Run.opened settings store = .ok run
  followed : Course.follow step moves run = some last
  ended : last.pipeline.phase = .over (.ok summary)

/-- The same lines were sent, in whatever order, and the summaries say the same. -/
structure Agree (sent others : List (String × Record)) (summary outcome : Report.Summary) :
    Prop where
  lines : (sent.map (·.2.line)).Perm (others.map (·.2.line))
  records : summary.records = outcome.records
  bytes : summary.bytes = outcome.bytes
  finishedSplits : summary.finishedSplits = outcome.finishedSplits

variable {settings : Settings} {store : FileStore} {order : Order} {tuning first second : Tuning}
  {moves others : List Move} {run last other final : Run} {summary outcome : Report.Summary}
  {entries more : List (String × Record)}

/-- Tuning makes no difference to what is to be done. -/
theorem isOrder_withTuning (horder : IsOrder settings store order) (tuning : Tuning) :
    IsOrder (settings.withTuning tuning) store order := by
  obtain ⟨hsplits, hsort, hsink⟩ := horder
  have hsource : (settings.withTuning tuning).source.splits = settings.source.splits ∧
      (settings.withTuning tuning).source.sort = settings.source.sort := by
    rw [Settings.withTuning]
    cases settings.source <;> exact ⟨rfl, rfl⟩
  exact ⟨hsource.1.trans hsplits, hsort.trans hsource.2.symm, hsink⟩

/-! ### One run -/

theorem thrives_of_endsWell (horder : IsOrder settings store order) (hjob : order.job.IsFeasible)
    (hunlimited : settings.runtime.recordLimit = none)
    (h : EndsWell settings store moves run last summary) : last.Thrives := by
  have hbegin := staged_opened horder hjob h.opened
  rw [hunlimited] at hbegin
  exact thrives_of_unlimited hbegin (not_doomed_of_over h.ended) h.followed

/-- When a run without a limit ends well, its sink was closed, and something is missing exactly if
somebody gave splits up. -/
theorem exists_closed (horder : IsOrder settings store order) (hjob : order.job.IsFeasible)
    (hunlimited : settings.runtime.recordLimit = none)
    (h : EndsWell settings store moves run last summary) :
    ∃ missing, Closed (fetcherBooks order.job settings.runtime.slotCount) order none missing
        (consumed moves run) last ∧ summary = last.pipeline.books.summary ∧
      (Course.Costs (fun _ => True) missing ↔ ¬ Course.Never step Abandons moves run) := by
  obtain ⟨missing, hk, hcosts⟩ := exists_staged_shares (fun _ => True)
    (givesUp_iff_abandons (Supervisor.fetcherBooks_orderly _ _)) horder hjob h.opened h.followed
    (thrives_of_endsWell horder hjob hunlimited h)
  rw [hunlimited] at hk
  obtain ⟨hclosed, hsummary⟩ := closed_of_over hk h.ended
  exact ⟨missing, hclosed, hsummary, hcosts⟩

/-- It has sent what was consumed, and calls those splits finished of which an end mark was
consumed. -/
theorem sent_of_endsWell (horder : IsOrder settings store order) (hjob : order.job.IsFeasible)
    (hunlimited : settings.runtime.recordLimit = none)
    (h : EndsWell settings store moves run last summary) :
    last.HasSent order (sent none moves run) summary ∧
      summary.finishedSplits.Pairwise (· < ·) ∧
      ∀ id, id ∈ summary.finishedSplits ↔
        id ∈ Tiding.ended ((consumed moves run).flatMap (·.tidings)) := by
  obtain ⟨missing, hclosed, rfl, -⟩ := exists_closed horder hjob hunlimited h
  obtain ⟨filled, meanwhile, htally, hclose⟩ := hclosed.closed
  refine ⟨⟨⟨filled, meanwhile, htally.sent, hclose⟩, htally.records, htally.bytes⟩,
    IdSet.ascending _, fun id => ?_⟩
  rw [Tiding.mem_ended_taken, ← finished_of_unlimited htally id]
  simp [ConsumerBooks.summary, IdSet.contains]

/-- What was consumed lacks some tidings of the shares at most, and none if nobody gave splits
up. -/
theorem exists_absent_of_endsWell (horder : IsOrder settings store order)
    (hjob : order.job.IsFeasible) (hunlimited : settings.runtime.recordLimit = none)
    (h : EndsWell settings store moves run last summary) :
    ∃ absent, (sent none moves run ++ Tiding.entries absent).Perm
        ((order.job.allotment settings.runtime.slotCount).flatMap (·.entries order.files)) ∧
      (Tiding.ended ((consumed moves run).flatMap (·.tidings)) ++ Tiding.ended absent).Perm
        ((order.job.allotment settings.runtime.slotCount).map Split.id) ∧
      (absent = [] ↔ Course.Never step Abandons moves run) := by
  obtain ⟨missing, hclosed, -, hmissing⟩ := exists_closed horder hjob hunlimited h
  obtain ⟨absent, hperm, hcosts⟩ := exists_absent hclosed.accounts.settled
  refine ⟨absent, ?_, ?_, ?_⟩
  · have hentries := Tiding.entries_perm hperm
    rwa [Tiding.entries_append, Tiding.entries_taken hclosed.accounts.unread,
      Tiding.entries_tidings] at hentries
  · have hended := Tiding.ended_perm hperm
    rwa [Tiding.ended_append, Tiding.ended_tidings] at hended
  · rw [← not_not (a := Course.Never _ _ _ _), ← hmissing, hcosts, List.eq_nil_iff_forall_not_mem]
    simp

/-! ### Two runs -/

/-- How long texts are together does not depend on their order. -/
theorem utf8ByteSize_join_perm {texts permuted : List String} (h : texts.Perm permuted) :
    (String.join texts).utf8ByteSize = (String.join permuted).utf8ByteSize := by
  induction h with
  | nil => rfl
  | cons text _ ih =>
      rw [String.join_cons, String.join_cons, String.utf8ByteSize_append,
        String.utf8ByteSize_append, ih]
  | swap first second rest =>
      simp only [String.join_cons, String.utf8ByteSize_append]
      omega
  | trans _ _ ih ih' => exact ih.trans ih'

theorem linesOf_eq (entries : List (String × Record)) :
    linesOf entries = String.join (entries.map (·.2.line)) := by
  rw [linesOf, renderLines, List.map_map]
  rfl

theorem linesDealt_eq (order : Order) (threads : Nat) :
    order.linesDealt threads =
      ((order.job.allotment threads).flatMap (·.entries order.files)).map (·.2.line) := by
  simp [Order.linesDealt, Split.entries, List.map_flatMap, Function.comp_def]

/-- Runs that have sent the same lines agree if they call the same splits finished. -/
theorem agree_of_lines (hsent : last.HasSent order entries summary)
    (hsent' : final.HasSent order more outcome)
    (hlines : (entries.map (·.2.line)).Perm (more.map (·.2.line)))
    (hfinished : summary.finishedSplits = outcome.finishedSplits) :
    Agree entries more summary outcome where
  lines := hlines
  records := by
    rw [hsent.records, hsent'.records]
    simpa using hlines.length_eq
  bytes := by
    rw [hsent.bytes, hsent'.bytes, linesOf_eq, linesOf_eq]
    exact utf8ByteSize_join_perm hlines
  finishedSplits := hfinished

/-- If nobody gives splits up, the lines that were dealt are sent, and all splits are called
finished. -/
theorem whole_of_keeps (horder : IsOrder settings store order) (hjob : order.job.IsFeasible)
    (hunlimited : settings.runtime.recordLimit = none)
    (h : EndsWell settings store moves run last summary)
    (hkeeps : Course.Never step Abandons moves run) :
    ((sent none moves run).map (·.2.line)).Perm (order.linesDealt settings.runtime.slotCount) ∧
      ∀ id, id ∈ summary.finishedSplits ↔ ∃ split ∈ order.splits, split.id = id := by
  obtain ⟨-, -, hfinished⟩ := sent_of_endsWell horder hjob hunlimited h
  obtain ⟨absent, hentries, hended, hnone⟩ := exists_absent_of_endsWell horder hjob hunlimited h
  obtain rfl := hnone.2 hkeeps
  rw [Tiding.entries_nil, List.append_nil] at hentries
  rw [Tiding.ended_nil, List.append_nil] at hended
  refine ⟨linesDealt_eq order _ ▸ hentries.map _, fun id => ?_⟩
  rw [hfinished, hended.mem_iff, List.mem_map]
  exact Job.exists_allotted_iff settings.runtime.slotCount_pos id

section Pair

variable {altered : Settings}

/-- Two runs on which nobody gives splits up agree exactly if the same lines were dealt. -/
theorem agree_iff_of_keeps (horder : IsOrder settings store order)
    (horder' : IsOrder altered store order) (hjob : order.job.IsFeasible)
    (hunlimited : settings.runtime.recordLimit = none)
    (hunlimited' : altered.runtime.recordLimit = none)
    (h : EndsWell settings store moves run last summary)
    (h' : EndsWell altered store others other final outcome)
    (hkeeps : Course.Never step Abandons moves run)
    (hkeeps' : Course.Never step Abandons others other) :
    Agree (sent none moves run) (sent none others other) summary outcome ↔
      (order.linesDealt settings.runtime.slotCount).Perm
        (order.linesDealt altered.runtime.slotCount) := by
  obtain ⟨hlines, hall⟩ := whole_of_keeps horder hjob hunlimited h hkeeps
  obtain ⟨hlines', hall'⟩ := whole_of_keeps horder' hjob hunlimited' h' hkeeps'
  obtain ⟨hsent, hascending, -⟩ := sent_of_endsWell horder hjob hunlimited h
  obtain ⟨hsent', hascending', -⟩ := sent_of_endsWell horder' hjob hunlimited' h'
  constructor
  · exact fun hagree => hlines.symm.trans (hagree.lines.trans hlines')
  · intro hdealt
    have hfinished : summary.finishedSplits = outcome.finishedSplits :=
      hascending.eq_of_mem_iff hascending' fun id => (hall id).trans (hall' id).symm
    exact agree_of_lines hsent hsent' (hlines.trans (hdealt.trans hlines'.symm)) hfinished

/-- Splits that can be told apart are dealt as a whole, over however many slots. -/
theorem linesDealt_perm (honce : (order.splits.map Split.id).Nodup) (settings altered : Settings) :
    (order.linesDealt settings.runtime.slotCount).Perm
      (order.linesDealt altered.runtime.slotCount) := by
  have hall (settings : Settings) : (order.job.allotment settings.runtime.slotCount).Perm
      order.splits := Job.allotment_perm honce settings.runtime.slotCount_pos
  exact (((hall settings).trans (hall altered).symm).flatMap_right _).map _

/-- If the splits can be told apart, a run that agrees with one on which nobody gave splits up is
itself such a run. -/
theorem keeps_of_agree (honce : (order.splits.map Split.id).Nodup)
    (horder : IsOrder settings store order) (horder' : IsOrder altered store order)
    (hjob : order.job.IsFeasible) (hunlimited : settings.runtime.recordLimit = none)
    (hunlimited' : altered.runtime.recordLimit = none)
    (h : EndsWell settings store moves run last summary)
    (h' : EndsWell altered store others other final outcome)
    (hkeeps : Course.Never step Abandons moves run)
    (hagree : Agree (sent none moves run) (sent none others other) summary outcome) :
    Course.Never step Abandons others other := by
  obtain ⟨hlines, hall⟩ := whole_of_keeps horder hjob hunlimited h hkeeps
  obtain ⟨-, -, hfinished⟩ := sent_of_endsWell horder' hjob hunlimited' h'
  obtain ⟨absent, hentries, hended, hnone⟩ := exists_absent_of_endsWell horder' hjob hunlimited' h'
  refine hnone.1 (Tiding.eq_nil_of_entries_ended ?_ ?_)
  · -- As many lines were sent as were dealt, so no record is missing.
    have hsame := (hlines.trans (linesDealt_perm honce settings altered)).length_eq
    have hmore := hentries.length_eq
    have hsent := hagree.lines.length_eq
    rw [linesDealt_eq] at hsame
    simp only [List.length_map, List.length_append] at hsame hmore hsent
    exact List.length_eq_zero_iff.1 (by omega)
  · -- All splits are called finished, and each of them has one end mark only.
    have hids : ((order.job.allotment altered.runtime.slotCount).map Split.id).Nodup :=
      ((Job.allotment_perm honce altered.runtime.slotCount_pos).map Split.id).nodup_iff.2 honce
    rw [← hended.nodup_iff, List.nodup_append] at hids
    refine List.eq_nil_iff_forall_not_mem.2 fun id hmem => ?_
    have hdealt := List.mem_map.1 (hended.mem_iff.1 (List.mem_append_right _ hmem))
    have hknown : ∃ split ∈ order.splits, split.id = id :=
      (Job.exists_allotted_iff altered.runtime.slotCount_pos id).1 hdealt
    have htold := (hfinished id).1 (hagree.finishedSplits ▸ (hall id).2 hknown)
    exact hids.2.2 id htold id hmem rfl

end Pair

/-! ### The result -/

/-- Two runs without a record limit over ranges or over files that can be read and are not what the
sink writes to, tuned differently, each in any order of the steps of threads and consumer: when both
are over with a summary, the lines of the records that were consumed are what their sinks were sent,
and the summaries count them.  If the splits can be told apart, the runs agree if no thread raised
the idle flag over the heads of splits, and provided that on the one run nobody gave splits up, they
agree exactly if nobody did on the other.  If the splits cannot be told apart and nobody gave splits
up, they agree exactly if the same lines were dealt. -/
theorem retuned_runs_agree_iff {settings : Settings} {store : FileStore} {order : Order}
    {first second : Tuning} {run last other final : Run} {summary outcome : Report.Summary}
    (moves others : List Move) (horder : IsOrder settings store order)
    (hjob : order.job.IsFeasible) (hunlimited : settings.runtime.recordLimit = none)
    (hfirst : EndsWell (settings.withTuning first) store moves run last summary)
    (hsecond : EndsWell (settings.withTuning second) store others other final outcome) :
    (last.HasSent order (sent none moves run) summary ∧
      final.HasSent order (sent none others other) outcome) ∧
    ((order.splits.map Split.id).Nodup →
      Course.Never step Hasty moves run → Course.Never step Hasty others other →
        Agree (sent none moves run) (sent none others other) summary outcome) ∧
    ((order.splits.map Split.id).Nodup → Course.Never step Abandons moves run →
      (Agree (sent none moves run) (sent none others other) summary outcome ↔
        Course.Never step Abandons others other)) ∧
    (Course.Never step Abandons moves run → Course.Never step Abandons others other →
      (Agree (sent none moves run) (sent none others other) summary outcome ↔
        (order.linesDealt (settings.withTuning first).runtime.slotCount).Perm
          (order.linesDealt (settings.withTuning second).runtime.slotCount))) := by
  have hretuned := isOrder_withTuning horder first
  have hretuned' := isOrder_withTuning horder second
  have hagrees (hkeeps : Course.Never step Abandons moves run)
      (hkeeps' : Course.Never step Abandons others other) :=
    agree_iff_of_keeps hretuned hretuned' hjob hunlimited hunlimited hfirst hsecond hkeeps hkeeps'
  have hdealt (honce : (order.splits.map Split.id).Nodup) :=
    linesDealt_perm honce (settings.withTuning first) (settings.withTuning second)
  refine ⟨⟨(sent_of_endsWell hretuned hjob hunlimited hfirst).1,
    (sent_of_endsWell hretuned' hjob hunlimited hsecond).1⟩, fun honce hhasty hhasty' => ?_,
    fun honce hkeeps => ⟨?_, ?_⟩, hagrees⟩
  · have hkeeps := never_abandons_of_never_hasty_shares hretuned hjob hfirst.opened hfirst.followed
      (thrives_of_endsWell hretuned hjob hunlimited hfirst) hhasty
    have hkeeps' := never_abandons_of_never_hasty_shares hretuned' hjob hsecond.opened
      hsecond.followed (thrives_of_endsWell hretuned' hjob hunlimited hsecond) hhasty'
    exact (hagrees hkeeps hkeeps').2 (hdealt honce)
  · exact keeps_of_agree honce hretuned hretuned' hjob hunlimited hunlimited hfirst hsecond hkeeps
  · exact fun hkeeps' => (hagrees hkeeps hkeeps').2 (hdealt honce)

/-- Whether a run is over with so many records in its summary. -/
def countsRecords (records : Nat) : ConsumerPhase → Bool
  | .over (.ok summary) => summary.records == records
  | _ => false

/-- Whether a course can be followed without haste and ends well with so many records can be found
out by following it. -/
theorem exists_endsWell {records : Nat}
    (h : (ends? settings store moves).any (fun ends =>
      decide (Course.Never step Hasty moves ends.1) &&
        countsRecords records ends.2.pipeline.phase) = true) :
    ∃ run last summary, EndsWell settings store moves run last summary ∧
      Course.Never step Hasty moves run ∧ summary.records = records := by
  obtain ⟨⟨run, last⟩, hends, hholds⟩ := (Option.any_eq_true _ _).1 h
  rw [Bool.and_eq_true, decide_eq_true_eq] at hholds
  obtain ⟨hhasty, hcounts⟩ := hholds
  unfold ends? at hends
  split at hends
  · next hopened =>
      obtain ⟨_, hfollowed, hboth⟩ := Option.map_eq_some_iff.1 hends
      obtain ⟨rfl, rfl⟩ := Prod.mk.inj hboth
      unfold countsRecords at hcounts
      split at hcounts
      · next summary hover =>
          exact ⟨_, _, summary, ⟨hopened, hfollowed, hover⟩, hhasty, by simpa using hcounts⟩
      · cases hcounts
  · cases hends

/-- Two ranges of one record each, moved to memory. -/
def paired : Settings where
  source := .ranges { splits := 2, recordsPerSplit := 1 }
  sink := .memory

/-- What it comes to. -/
def pairedOrder : Order :=
  ⟨.empty, .memory [], .ranges, [.range ⟨"range-0", 0, 1⟩, .range ⟨"range-1", 1, 2⟩]⟩

/-- A course on which one thread begins when both ranges were dealt to it. -/
def pairedCourse : List Move :=
  [List.replicate 5 .work, List.replicate 33 (.thread 0 []), List.replicate 1 .work,
    List.replicate 9 (.thread 0 []), List.replicate 13 .work, List.replicate 7 (.thread 0 []),
    List.replicate 19 .work].flatten

/-- A course on which two threads begin when a range was dealt to each of them. -/
def partedCourse : List Move :=
  [List.replicate 8 .work, List.replicate 22 (.thread 0 []), List.replicate 22 (.thread 1 []),
    List.replicate 1 .work, List.replicate 9 (.thread 1 []), List.replicate 3 .work,
    List.replicate 9 (.thread 1 []), List.replicate 13 .work, List.replicate 7 (.thread 0 []),
    List.replicate 7 .work, List.replicate 7 (.thread 1 []), List.replicate 27 .work].flatten

/-- One thread and two threads send the same lines. -/
theorem paired_runs_agree :
    ∃ run last other final summary outcome,
      EndsWell (paired.withTuning {}) .empty pairedCourse run last summary ∧
        EndsWell (paired.withTuning { fetcherThreads := 2 }) .empty partedCourse other final
          outcome ∧
          Agree (sent none pairedCourse run) (sent none partedCourse other) summary outcome := by
  have horder : IsOrder paired .empty pairedOrder := ⟨rfl, rfl, rfl⟩
  have hjob : pairedOrder.job.IsFeasible :=
    ⟨List.forall_mem_cons.2 ⟨⟨rfl, by decide⟩, List.forall_mem_singleton.2 ⟨rfl, by decide⟩⟩,
      List.forall_mem_cons.2 ⟨trivial, List.forall_mem_singleton.2 trivial⟩⟩
  obtain ⟨run, last, summary, hfirst, hhasty, -⟩ :=
    @exists_endsWell (paired.withTuning {}) .empty pairedCourse 2 (by decide +kernel)
  obtain ⟨other, final, outcome, hsecond, hhasty', -⟩ :=
    @exists_endsWell (paired.withTuning { fetcherThreads := 2 }) .empty partedCourse 2
      (by decide +kernel)
  refine ⟨run, last, other, final, summary, outcome, hfirst, hsecond, ?_⟩
  exact (retuned_runs_agree_iff pairedCourse partedCourse horder hjob rfl hfirst hsecond).2.1
    (by decide) hhasty hhasty'

/-- A file of one line, named twice, moved to memory. -/
def doubled : Settings where
  source := .files { files := ["a", "a"] }
  sink := .memory

/-- The file. -/
def oneLine : FileStore := FileStore.empty.provide "a" (.file [120, 10])

/-- What it comes to. -/
def doubledOrder : Order :=
  ⟨oneLine, .memory [], .files, [.file (FileSplit.ofPath "a"), .file (FileSplit.ofPath "a")]⟩

/-- A course on which one thread takes the file on once. -/
def onceCourse : List Move :=
  [List.replicate 5 .work, List.replicate 31 (.thread 0 []), List.replicate 1 .work,
    List.replicate 9 (.thread 0 []), List.replicate 10 .work, List.replicate 7 (.thread 0 []),
    List.replicate 19 .work].flatten

/-- A course on which each of two threads takes the file on. -/
def twiceCourse : List Move :=
  [List.replicate 8 .work, List.replicate 31 (.thread 0 []), List.replicate 22 (.thread 1 []),
    List.replicate 1 .work, List.replicate 9 (.thread 1 []), List.replicate 3 .work,
    List.replicate 9 (.thread 1 []), List.replicate 13 .work, List.replicate 7 (.thread 0 []),
    List.replicate 7 .work, List.replicate 7 (.thread 1 []), List.replicate 27 .work].flatten

/-- With one thread the line is sent once, with two threads twice, though nobody is hasty. -/
theorem doubled_runs_disagree :
    IsOrder doubled oneLine doubledOrder ∧ doubledOrder.job.IsFeasible ∧
      ∃ run last other final summary outcome,
        EndsWell (doubled.withTuning {}) oneLine onceCourse run last summary ∧
          EndsWell (doubled.withTuning { fetcherThreads := 2 }) oneLine twiceCourse other final
            outcome ∧
          Course.Never step Hasty onceCourse run ∧ Course.Never step Hasty twiceCourse other ∧
          summary.records = 1 ∧ outcome.records = 2 := by
  have hreadable : (Split.file (FileSplit.ofPath "a")).IsReadable oneLine := by decide +kernel
  have hopens : oneLine.openRead "a" = .ok 6 := by decide +kernel
  have hjob : doubledOrder.job.IsFeasible :=
    ⟨List.forall_mem_cons.2 ⟨⟨rfl, hreadable⟩, List.forall_mem_singleton.2 ⟨rfl, hreadable⟩⟩,
      List.forall_mem_cons.2 ⟨⟨6, hopens, trivial⟩,
        List.forall_mem_singleton.2 ⟨6, hopens, trivial⟩⟩⟩
  obtain ⟨run, last, summary, hfirst, hhasty, hone⟩ :=
    @exists_endsWell (doubled.withTuning {}) oneLine onceCourse 1 (by decide +kernel)
  obtain ⟨other, final, outcome, hsecond, hhasty', htwo⟩ :=
    @exists_endsWell (doubled.withTuning { fetcherThreads := 2 }) oneLine twiceCourse 2
      (by decide +kernel)
  exact ⟨⟨rfl, rfl, rfl⟩, hjob, run, last, other, final, summary, outcome, hfirst, hsecond,
    hhasty, hhasty', hone, htwo⟩

end Run

end SplitFeed
