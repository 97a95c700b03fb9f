/-
# Runs under a record limit

Under a record limit a run should send as many records as the limit allows, or all if there are
fewer, and tell so: of the records in the batches that were consumed the first ones are sent, and
with one fetcher these are the first records of all splits, read one after the other.

Nothing that was consumed is sent out of turn or beyond the limit.  But if fewer records are
consumed than the limit allows, some may be missing: those that somebody gave up on the way.  As
without a limit, that does not happen if no thread raises its idle flag over the heads of splits.
-/
import SplitFeed.Proofs.Pipeline.Finishing
import SplitFeed.Proofs.Pipeline.Shares

namespace SplitFeed

/-- The records of all splits, one split after the other, each with the id of its split. -/
def Order.entries (order : Order) : List (String × Record) :=
  order.splits.flatMap (·.entries order.files)

/-- Something that a fetcher has still to tell is a record. -/
def Fetcher.HasRecords (files : FileStore) (f : Fetcher Backend) : Prop :=
  ∃ tiding ∈ f.lineup files, tiding.2 ≠ none

namespace Run

/-- Somebody gives records up: a thread that forsakes its splits while the consumer still feeds on
the queue, or the consumer, leaving while some fetcher has records to tell. -/
def Forfeits (files : FileStore) (run : Run) : Move → Prop
  | .thread fetcher _ =>
    run.pipeline.phase.isFeeding = true ∧ ∃ f ∈ run.pipeline.supervisor.crew,
      f.id = fetcher ∧ f.Forsakes ∧ f.HasRecords files
  | .work => run.Leaves ∧ ∃ f ∈ run.pipeline.supervisor.crew, f.HasRecords files
  | _ => False

variable {settings : Settings} {store : FileStore} {order : Order} {limit threads : Nat}
  {lost missing : Nat → List Tiding} {taken : List (SplitBatch Record)} {run last : Run}
  {move : Move} {moves : List Move} {summary : Report.Summary}

theorem givesUp_iff_forfeits :
    run.GivesUp (fetcherBooks order.job threads) (fun tiding => tiding.2 ≠ none) move ↔
      run.Forfeits order.files move := by
  have hstock (f : Fetcher Backend) :
      Course.Costs (fun tiding => tiding.2 ≠ none) ((fetcherBooks order.job threads).stock f) ↔
        f.HasRecords order.files := Parcel.costs_under
  cases move <;> simp only [GivesUp, Forfeits, hstock]

/-! ### What comes first -/

section Covers

variable {batches : List (SplitBatch Record)}

/-- Batches that nobody has begun to read have no more records than there are in the shares. -/
theorem length_le_of_covers (hc : order.job.Covers threads batches)
    (hunread : ∀ batch ∈ batches, batch.IsUnread) :
    (entriesIn batches).length ≤
      ((order.job.allotment threads).flatMap (·.entries order.files)).length := by
  obtain ⟨others, hperm⟩ := hc.some
  have hlength := (Tiding.entries_perm hperm).length_eq
  rw [Tiding.entries_append, Tiding.entries_taken hunread, List.length_append] at hlength
  rw [← Tiding.entries_tidings]
  exact Nat.le.intro hlength

/-- With one fetcher they have the first of them. -/
theorem prefix_of_covers (hc : order.job.Covers threads batches)
    (hunread : ∀ batch ∈ batches, batch.IsUnread) (hone : threads ≤ 1) :
    entriesIn batches <+: (order.job.allotment threads).flatMap (·.entries order.files) := by
  rw [← Tiding.entries_taken hunread, ← Tiding.entries_tidings]
  exact (hc.first hone).filterMap _

end Covers

/-! ### When the limit is reached -/

theorem watched_follow (horder : IsOrder settings store order) (hjob : order.job.IsProper)
    (hopened : opened settings store = .ok run) (hrun : Course.follow step moves run = some last) :
    Watched order settings.runtime.recordLimit (consumed moves run) last := by
  obtain ⟨source, expected, rfl⟩ := eq_of_opened horder hopened
  exact Course.follow_gathers
    (fun taken run => Watched order settings.runtime.recordLimit taken run)
    (watched_step hjob) hrun (watched_beginning hjob horder.sort)

/-- The limit is reached exactly if as many records were consumed. -/
theorem limitReached_iff (hw : Watched order (some limit) taken run) :
    run.pipeline.books.limitReached = true ↔ limit ≤ (entriesIn taken).length := by
  obtain ⟨-, sink, store, htally, -⟩ := tally_of_watched hw
  have hrecords := htally.records
  simp only [within, List.length_take] at hrecords
  simp only [ConsumerBooks.limitReached, htally.limited, decide_eq_true_eq, hrecords]
  omega

/-- If the limit is reached in the end, then the move that reached it consumed a batch that was in
the shares, as all batches before. -/
theorem exists_reaching (horder : IsOrder settings store order) (hjob : order.job.IsProper)
    (hlimit : settings.runtime.recordLimit = some limit)
    (hopened : opened settings store = .ok run) (hrun : Course.follow step moves run = some last)
    (hgood : ¬ last.pipeline.phase.Doomed) (hreached : last.pipeline.books.limitReached = true) :
    ∃ earlier, earlier <+: consumed moves run ∧
      order.job.Covers settings.runtime.slotCount earlier ∧
      limit ≤ (entriesIn earlier).length := by
  have hwatched {moves : List Move} {last : Run} (hrun : Course.follow step moves run = some last) :
      Watched order (some limit) (consumed moves run) last :=
    hlimit ▸ watched_follow horder hjob hopened hrun
  by_cases hstart : run.pipeline.books.limitReached = true
  · have hnone : order.job.Covers settings.runtime.slotCount ([] ++ run.consumes .late) :=
      covers_of_staged (staged_opened horder hjob.feasible hopened) .late
    have hfirst := hwatched (Course.follow_nil run)
    exact ⟨[], List.nil_prefix, hnone, (limitReached_iff hfirst).1 hstart⟩
  · obtain ⟨before, move, after, here, next, rfl, hbefore, hnot, hmove, hnext, hafter⟩ :=
      Course.exists_crossing (fun run => run.pipeline.books.limitReached = true) hrun hstart
        hreached
    have hrest : Course.follow step (move :: after) here = some last :=
      Course.follow_cons_eq_some.2 ⟨next, hmove, hafter⟩
    have hundoomed : ¬ here.pipeline.phase.Doomed :=
      Course.follow_reflects (fun run => ¬ run.pipeline.phase.Doomed)
        (fun hstep hgood hdoomed => hgood (doomed_step hdoomed hstep)) hrest hgood
    have hhere : here.Thrives := ⟨hundoomed, by simpa using hnot⟩
    obtain ⟨missing, hk, -⟩ := exists_staged_shares (fun _ => True) (fun _ => Iff.rfl) horder
      hjob.feasible hopened hbefore hhere
    have hupTo : Course.follow step (before ++ [move]) run = some next := by
      rw [Course.follow_append, hbefore]
      exact Course.follow_cons_eq_some.2 ⟨next, hmove, rfl⟩
    have hconsumed :
        consumed (before ++ [move]) run = consumed before run ++ here.consumes move := by
      rw [consumed, Course.gather_append hbefore]
      simp [consumed, Course.gather, hmove]
    refine ⟨consumed before run ++ here.consumes move, ?_, covers_of_staged hk move, ?_⟩
    · have hall : before ++ move :: after = (before ++ [move]) ++ after := by simp
      rw [← hconsumed, hall, consumed, consumed, Course.gather_append hupTo]
      exact List.prefix_append _ _
    · rw [← hconsumed]
      exact (limitReached_iff (hwatched hupTo)).1 hnext

/-! ### What is sent -/

/-- All that is sent on a course that ends well was in the shares. -/
theorem exists_covers (horder : IsOrder settings store order) (hjob : order.job.IsProper)
    (hlimit : settings.runtime.recordLimit = some limit)
    (hopened : opened settings store = .ok run) (hrun : Course.follow step moves run = some last)
    (hgood : ¬ last.pipeline.phase.Doomed) :
    ∃ earlier, earlier <+: consumed moves run ∧
      order.job.Covers settings.runtime.slotCount earlier ∧
      sent (some limit) moves run = (entriesIn earlier).take limit := by
  by_cases hreached : last.pipeline.books.limitReached = true
  · obtain ⟨earlier, ⟨later, hall⟩, hcovers, henough⟩ :=
      exists_reaching horder hjob hlimit hopened hrun hgood hreached
    refine ⟨earlier, ⟨later, hall⟩, hcovers, ?_⟩
    rw [sent, ← hall, entriesIn_append]
    exact List.take_append_of_le_length henough
  · obtain ⟨missing, hk, -⟩ := exists_staged_shares (fun _ => True) (fun _ => Iff.rfl) horder
      hjob.feasible hopened hrun ⟨hgood, by simpa using hreached⟩
    exact ⟨_, List.prefix_refl _,
      Job.covers_of_front (covers_of_staged hk .late) (List.prefix_append _ _), rfl⟩

theorem unread_consumed (horder : IsOrder settings store order) (hjob : order.job.IsProper)
    (hopened : opened settings store = .ok run) (hrun : Course.follow step moves run = some last) :
    ∀ batch ∈ consumed moves run, batch.IsUnread :=
  (tally_of_watched (watched_follow horder hjob hopened hrun)).1.unread

/-- Splits that can be told apart have as many records as there are in the shares. -/
theorem perm_entries (honce : (order.splits.map Split.id).Nodup) (settings : Settings) :
    ((order.job.allotment settings.runtime.slotCount).flatMap (·.entries order.files)).Perm
      order.entries :=
  (Job.allotment_perm honce settings.runtime.slotCount_pos).flatMap_right _

/-- No more is sent than there are records. -/
theorem length_sent_le (horder : IsOrder settings store order) (hjob : order.job.IsProper)
    (hlimit : settings.runtime.recordLimit = some limit)
    (hopened : opened settings store = .ok run) (hrun : Course.follow step moves run = some last)
    (hgood : ¬ last.pipeline.phase.Doomed) :
    (sent (some limit) moves run).length ≤ order.entries.length := by
  obtain ⟨earlier, hearlier, hcovers, hsent⟩ :=
    exists_covers horder hjob hlimit hopened hrun hgood
  have hunread (batch : SplitBatch Record) (hmem : batch ∈ earlier) : batch.IsUnread :=
    unread_consumed horder hjob hopened hrun batch (hearlier.subset hmem)
  rw [hsent, List.length_take, ← (perm_entries hjob.once settings).length_eq]
  exact Nat.le_trans (Nat.min_le_right _ _) (length_le_of_covers hcovers hunread)

/-- With one fetcher the first records are sent. -/
theorem sent_front (horder : IsOrder settings store order) (hjob : order.job.IsProper)
    (hlimit : settings.runtime.recordLimit = some limit)
    (hopened : opened settings store = .ok run) (hrun : Course.follow step moves run = some last)
    (hgood : ¬ last.pipeline.phase.Doomed) (hone : settings.runtime.fetcherThreads ≤ 1) :
    sent (some limit) moves run <+: order.entries := by
  obtain ⟨earlier, hearlier, hcovers, hsent⟩ :=
    exists_covers horder hjob hlimit hopened hrun hgood
  have hunread (batch : SplitBatch Record) (hmem : batch ∈ earlier) : batch.IsUnread :=
    unread_consumed horder hjob hopened hrun batch (hearlier.subset hmem)
  have hslots : settings.runtime.slotCount = 1 := Nat.max_eq_right hone
  rw [hslots] at hcovers
  have hprefix := prefix_of_covers hcovers hunread (Nat.le_refl 1)
  rw [Job.allotment_one hjob.once] at hprefix
  rw [hsent]
  exact (List.take_prefix _ _).trans hprefix

/-- As long as fewer records were consumed than the limit allows, the run thrives. -/
theorem thrives_of_few (horder : IsOrder settings store order) (hjob : order.job.IsProper)
    (hlimit : settings.runtime.recordLimit = some limit)
    (hopened : opened settings store = .ok run) (hrun : Course.follow step moves run = some last)
    (hgood : ¬ last.pipeline.phase.Doomed)
    (hfew : (entriesIn (consumed moves run)).length < limit) : last.Thrives := by
  have hwatched : Watched order (some limit) (consumed moves run) last :=
    hlimit ▸ watched_follow horder hjob hopened hrun
  refine ⟨hgood, ?_⟩
  rw [← Bool.not_eq_true, limitReached_iff hwatched]
  omega

/-- If fewer records were consumed in the end than the limit allows, they are all there are exactly
if nobody gave records up; in particular if nobody gave splits up. -/
theorem length_consumed_iff (horder : IsOrder settings store order) (hjob : order.job.IsProper)
    (hopened : opened settings store = .ok run) (hrun : Course.follow step moves run = some last)
    (hover : last.pipeline.phase = .over (.ok summary)) (hgood : last.Thrives) :
    (Course.Never step Abandons moves run →
      (entriesIn (consumed moves run)).length = order.entries.length) ∧
    ((entriesIn (consumed moves run)).length = order.entries.length ↔
      Course.Never step (Forfeits order.files) moves run) := by
  have hiff : (entriesIn (consumed moves run)).length = order.entries.length ↔
      Course.Never step (Forfeits order.files) moves run := by
    obtain ⟨missing, hk, hcosts⟩ := exists_staged_shares (fun tiding => tiding.2 ≠ none)
      (fun _ => givesUp_iff_forfeits) horder hjob.feasible hopened hrun hgood
    obtain ⟨absent, hperm, hnone⟩ :=
      exists_absent_entries (closed_of_over hk hover).1.accounts
    have hlength := (hperm.trans (perm_entries hjob.once settings)).length_eq
    rw [List.length_append] at hlength
    rw [← not_not (a := Course.Never _ _ _ _), ← hcosts, ← hnone, ← List.length_eq_zero_iff]
    omega
  refine ⟨fun hkeeps => ?_, hiff⟩
  have hledger := Supervisor.fetcherBooks_orderly order.job settings.runtime.slotCount
  obtain ⟨missing, hk, hcosts⟩ := exists_staged_shares (fun _ => True)
    (givesUp_iff_abandons hledger) horder hjob.feasible hopened hrun hgood
  have ha := (closed_of_over hk hover).1.accounts
  have hperm := Tiding.entries_perm (tidings_perm_of_accounts ha (hcosts.not.2 (not_not.2 hkeeps)))
  rw [Tiding.entries_taken ha.unread, Tiding.entries_tidings] at hperm
  exact (hperm.trans (perm_entries hjob.once settings)).length_eq

/-! ### The result -/

/-- A run under a record limit over ranges or over files that can be read and are not what the sink
writes to, in any order of the steps of threads and consumer: when it is over with a summary, the
sink was sent the first of the records in the batches that were consumed, as many as the limit
allows, and the summary counts them.  With one fetch thread they are the first records of all
splits, read one after the other.  They are as many as the limit allows, or all records if there are
fewer, if no thread raised the idle flag over the heads of splits; and in any case exactly if the
limit was reached or nobody gave records up on the way. -/
theorem limit_exact_iff_never_forfeits {settings : Settings} {store : FileStore} {order : Order}
    {limit : Nat} {run last : Run} {summary : Report.Summary} (moves : List Move)
    (horder : IsOrder settings store order) (hjob : order.job.IsProper)
    (hlimit : settings.runtime.recordLimit = some limit)
    (hopened : opened settings store = .ok run)
    (hrun : Course.follow step moves run = some last)
    (hover : last.pipeline.phase = .over (.ok summary)) :
    last.HasSent order (sent (some limit) moves run) summary ∧
    (settings.runtime.fetcherThreads ≤ 1 →
      sent (some limit) moves run =
        order.entries.take (sent (some limit) moves run).length) ∧
    (Course.Never step Hasty moves run →
      (sent (some limit) moves run).length = min limit order.entries.length) ∧
    ((sent (some limit) moves run).length = min limit order.entries.length ↔
      limit ≤ (entriesIn (consumed moves run)).length ∨
        Course.Never step (Forfeits order.files) moves run) := by
  have hgood := not_doomed_of_over hover
  obtain ⟨-, filled, meanwhile, htally, hends⟩ :=
    tally_of_watched (watched_follow horder hjob hopened hrun)
  rw [hlimit] at htally
  obtain ⟨rfl, hclosed⟩ := hends summary hover
  have hfront (hone : settings.runtime.fetcherThreads ≤ 1) :=
    List.prefix_iff_eq_take.1 (sent_front horder hjob hlimit hopened hrun hgood hone)
  have hmost := length_sent_le horder hjob hlimit hopened hrun hgood
  have hsent : (sent (some limit) moves run).length =
      min limit (entriesIn (consumed moves run)).length := List.length_take
  refine ⟨⟨⟨filled, meanwhile, htally.sent, hclosed⟩, htally.records, htally.bytes⟩, hfront, ?_⟩
  by_cases hfew : (entriesIn (consumed moves run)).length < limit
  · have hthrives := thrives_of_few horder hjob hlimit hopened hrun hgood hfew
    obtain ⟨hkeeps, hiff⟩ := length_consumed_iff horder hjob hopened hrun hover hthrives
    refine ⟨fun hhasty => ?_, ?_⟩
    · have hall := hkeeps (never_abandons_of_never_hasty_shares horder hjob.feasible hopened hrun
        hthrives hhasty)
      omega
    · rw [← hiff]
      omega
  · have hexact : (sent (some limit) moves run).length = min limit order.entries.length := by
      omega
    exact ⟨fun _ => hexact, iff_of_true hexact (.inl (Nat.not_lt.1 hfew))⟩

/-- Two ranges of two records each, fetched one range at a time, of which three may be sent. -/
def thrifty : Settings where
  source := .ranges { splits := 2, recordsPerSplit := 2, limits := { maxRecords := 2 } }
  sink := .memory
  runtime := { queueCapacity := 1, recordLimit := some 3 }

/-- What it comes to. -/
def thriftyOrder : Order :=
  ⟨.empty, .memory [], .ranges, [.range ⟨"range-0", 0, 2⟩, .range ⟨"range-1", 2, 4⟩]⟩

/-- A course on which the thread begins when both splits were dealt to it. -/
def thriftyCourse : List Move :=
  [List.replicate 5 .work, List.replicate 21 (.thread 0 []), List.replicate 3 .work,
    List.replicate 13 (.thread 0 []), List.replicate 6 .work, List.replicate 7 (.thread 0 []),
    List.replicate 7 .work, List.replicate 5 (.thread 0 []), List.replicate 13 .work].flatten

/-- The first three of the four records are sent. -/
theorem thrifty_run_exact :
    ∃ run last summary, opened thrifty .empty = .ok run ∧
      Course.follow step thriftyCourse run = some last ∧
        last.pipeline.phase = .over (.ok summary) ∧ summary.records = 3 ∧
          sent (some 3) thriftyCourse run = thriftyOrder.entries.take 3 := by
  have horder : IsOrder thrifty .empty thriftyOrder := ⟨rfl, rfl, rfl⟩
  have hjob : thriftyOrder.job.IsProper :=
    ⟨by decide,
      List.forall_mem_cons.2 ⟨⟨rfl, by decide⟩, List.forall_mem_singleton.2 ⟨rfl, by decide⟩⟩,
      List.forall_mem_cons.2 ⟨trivial, List.forall_mem_singleton.2 trivial⟩⟩
  have hfirst {run last : Run} {summary : Report.Summary}
      (hopened : opened thrifty .empty = .ok run)
      (hrun : Course.follow step thriftyCourse run = some last)
      (hover : last.pipeline.phase = .over (.ok summary))
      (hhasty : Course.Never step Hasty thriftyCourse run) :
      sent (some 3) thriftyCourse run = thriftyOrder.entries.take 3 := by
    obtain ⟨-, hfront, hexact, -⟩ :=
      limit_exact_iff_never_forfeits thriftyCourse horder hjob rfl hopened hrun hover
    rw [hfront (by decide), hexact hhasty]
    rfl
  exact ⟨_, _, _, rfl, rfl, rfl, rfl, hfirst rfl rfl rfl (by decide +kernel)⟩

/-- One range of one record, of which one may be sent. -/
def briefLimited : Settings :=
  { brief with runtime := { brief.runtime with recordLimit := some 1 } }

/-- If the thread is hasty, the run ends well with nothing sent, though the limit would have allowed
the record. -/
theorem hasty_run_short :
    IsOrder briefLimited .empty briefOrder ∧ briefOrder.job.IsProper ∧
      ∃ run last summary, opened briefLimited .empty = .ok run ∧
        Course.follow step hastyCourse run = some last ∧
          last.pipeline.phase = .over (.ok summary) ∧
            summary.records < min 1 briefOrder.entries.length := by
  refine ⟨⟨rfl, rfl, rfl⟩, isProper_briefOrder, _, _, _, rfl, rfl, rfl, ?_⟩
  decide

end Run

end SplitFeed
