/-
# Runs that are complete

A run that ends with a summary should have moved every record: what the sink has received are the
lines of all splits' records, each split's in its own order and each record once, and the summary
counts them and names all splits.

A run without a record limit is complete exactly if nobody gave splits up on the way.  In
particular it is complete if no fetch thread raised its idle flag over the heads of splits; but
nothing keeps a thread from doing so while splits are being dealt, and then the run ends well
without them.
-/
import SplitFeed.Proofs.Pipeline.Stages
import SplitFeed.Proofs.Supervisor.Delivery
import Mathlib.Data.List.ReduceOption

namespace SplitFeed

/-! ### What was told and what was sent -/

/-- Records with the ids of their splits, in an order in which all records of some splits can be
sent: each split's records are there once and in order, and no others. -/
structure IsInterleaving (files : FileStore) (splits : List Split)
    (entries : List (String × Record)) : Prop where
  whole : ∀ split ∈ splits,
    (entries.filter (·.1 == split.id)).map (·.2) = split.records files
  known : ∀ entry ∈ entries, ∃ split ∈ splits, split.id = entry.1

section Accounts

variable {files : FileStore} {splits : List Split} {entries : List (String × Record)}
  {taken : List (SplitBatch Record)} {missing : String → List (Option Record)} {order : Order}
  {id : String}

/-- Entries that belong to splits with different ids are as many as there are of each split
together. -/
theorem length_of_known (honce : (splits.map Split.id).Nodup)
    (hknown : ∀ entry ∈ entries, ∃ split ∈ splits, split.id = entry.1) :
    entries.length = (splits.flatMap fun split => entries.filter (·.1 == split.id)).length := by
  induction splits generalizing entries with
  | nil =>
      obtain rfl : entries = [] :=
        List.eq_nil_iff_forall_not_mem.2 fun entry hmem => by simpa using hknown entry hmem
      rfl
  | cons split splits ih =>
      rw [List.map_cons, List.nodup_cons] at honce
      have hothers (other : Split) (hmem : other ∈ splits) : split.id ≠ other.id := fun hsame =>
        honce.1 (hsame ▸ List.mem_map_of_mem hmem)
      have hrest := @ih (entries.filter (!·.1 == split.id)) honce.2 fun entry hmem => by
        obtain ⟨hentry, hnot⟩ := List.mem_filter.1 hmem
        obtain ⟨other, hother, hid⟩ := hknown entry hentry
        rcases List.mem_cons.1 hother with rfl | hlater
        · simp [hid] at hnot
        · exact ⟨other, hlater, hid⟩
      have hsame (other : Split) (hmem : other ∈ splits) :
          (entries.filter (!·.1 == split.id)).filter (·.1 == other.id) =
            entries.filter (·.1 == other.id) := by
        rw [List.filter_filter]
        refine List.filter_congr fun entry _ => ?_
        by_cases hid : entry.1 = other.id <;> simp [hid, Ne.symm (hothers other hmem)]
      rw [List.length_eq_length_filter_add (·.1 == split.id), hrest, List.flatMap_cons,
        List.length_append, List.flatMap_congr hsame]

/-- The entries of a split in batches nobody had begun to read are the records they tell of it. -/
theorem entriesIn_split (hunread : ∀ batch ∈ taken, batch.IsUnread) (id : String) :
    ((entriesIn taken).filter (·.1 == id)).map (·.2) = SplitBatch.recordsOf id taken := by
  rw [entriesIn, filter_entriesOf]
  induction taken with
  | nil => rfl
  | cons batch taken ih =>
      obtain ⟨hfirst, hrest⟩ := List.forall_mem_cons.1 hunread
      rw [List.flatMap_cons, SplitBatch.recordsIn_append, ih hrest, SplitBatch.recordsOf,
        SplitBatch.recordsOf, List.flatMap_cons, SplitBatch.groups_of_unread hfirst]

theorem due_of_accounts (ha : Run.Accounts (splitBooks order.job) missing taken) (id : String) :
    taken.flatMap (·.news id) ++ missing id = Split.due order.files id order.splits :=
  ha.settled id

/-- If nothing is missing, what was taken is an interleaving of all records. -/
theorem interleaving_of_accounts (honce : (order.splits.map Split.id).Nodup)
    (ha : Run.Accounts (splitBooks order.job) missing taken) (hnone : ∀ id, missing id = []) :
    IsInterleaving order.files order.splits (entriesIn taken) := by
  have hrecords (id : String) : ((entriesIn taken).filter (·.1 == id)).map (·.2) =
      (Split.due order.files id order.splits).reduceOption := by
    rw [entriesIn_split ha.unread, ← due_of_accounts ha id, hnone id, List.append_nil,
      SplitBatch.reduceOption_flatMap_news]
  refine ⟨fun split hmem => ?_, fun entry hmem => ?_⟩
  · rw [hrecords, Split.due_eq_news honce hmem, Split.reduceOption_news]
  · by_contra hunknown
    have hdue : Split.due order.files entry.1 order.splits = [] :=
      Split.due_eq_nil.2 fun split hsplit hid => hunknown ⟨split, hsplit, hid⟩
    have hempty := hrecords entry.1
    rw [hdue, List.reduceOption_nil, List.map_eq_nil_iff, List.filter_eq_nil_iff] at hempty
    exact hempty entry hmem (beq_self_eq_true _)

/-- An end mark was taken exactly of those splits of which nothing is missing. -/
theorem exists_ended_iff (honce : (order.splits.map Split.id).Nodup)
    (ha : Run.Accounts (splitBooks order.job) missing taken) (id : String) :
    (∃ batch ∈ taken, batch.finished.contains id = true) ↔
      missing id = [] ∧ ∃ split ∈ order.splits, split.id = id := by
  have hmark : (∃ batch ∈ taken, batch.finished.contains id = true) ↔
      none ∈ taken.flatMap (·.news id) := by
    simp only [List.mem_flatMap, SplitBatch.none_mem_news]
  have hstory : IsStory (taken.flatMap (·.news id) ++ missing id) := by
    rw [due_of_accounts ha id]
    exact Split.isStory_due _ _ honce
  have hdue : none ∈ Split.due order.files id order.splits ↔
      ∃ split ∈ order.splits, split.id = id := Split.none_mem_due
  rw [hmark, ← hdue, ← due_of_accounts ha id, List.mem_append]
  constructor
  · exact fun hmem => ⟨hstory.eq_nil_of_none_mem hmem, .inl hmem⟩
  · rintro ⟨hnone, hmem | hmem⟩
    · exact hmem
    · rw [hnone] at hmem
      cases hmem

end Accounts

/-! ### Complete runs -/

/-- The summary of a run tells of all records and of the ends of all splits, and the sink has
received just these records. -/
structure Run.IsComplete (order : Order) (summary : Report.Summary) (run : Run) : Prop where
  received : ∃ entries payloads, IsInterleaving order.files order.splits entries ∧
    order.sink.Received payloads order.files run.pipeline.sink run.pipeline.store ∧
    String.join payloads = renderLines (entries.map (·.2)) ∧
    summary.bytes = (String.join payloads).utf8ByteSize
  records : summary.records = (order.splits.flatMap (·.records order.files)).length
  ascending : summary.finishedSplits.Pairwise (· < ·)
  finished : ∀ id, id ∈ summary.finishedSplits ↔ ∃ split ∈ order.splits, split.id = id

/-- The records that are sent on a course: of those in the batches that are consumed, the first, as
many as a limit allows. -/
def Run.sent (limit : Option Nat) (moves : List Move) (run : Run) : List (String × Record) :=
  within limit (entriesIn (consumed moves run))

/-- The lines of entries are what the sink was sent until it was closed, and the summary counts
them. -/
structure Run.HasSent (order : Order) (entries : List (String × Record)) (summary : Report.Summary)
    (run : Run) : Prop where
  received : ∃ filled meanwhile, SentLines entries order.sink order.files filled meanwhile ∧
    filled.close meanwhile = (.ok (), run.pipeline.sink, run.pipeline.store)
  records : summary.records = entries.length
  bytes : summary.bytes = (linesOf entries).utf8ByteSize

namespace Run

variable {order : Order} {missing : String → List (Option Record)} {run : Run}
  {summary : Report.Summary} {taken : List (SplitBatch Record)}

/-- In a run that is over the sink was closed, and the summary is that of the books. -/
theorem closed_of_over {ι α : Type} {ledger : Bookkeeping ι α} {limit : Option Nat}
    {missing : ι → List α} (hk : Staged ledger order limit missing taken run)
    (hover : run.pipeline.phase = .over (.ok summary)) :
    Closed ledger order limit missing taken run ∧ summary = run.pipeline.books.summary := by
  cases hk with
  | feeding h => exact absurd h.phase (by simp [hover, ConsumerPhase.isFeeding])
  | fed h => cases h.phase.symm.trans hover
  | closed h => exact ⟨h, ConsumerPhase.summary_of_closing (hover ▸ h.phase)⟩

/-- What the summary says of a closed run's splits. -/
theorem mem_finishedSplits_iff (honce : (order.splits.map Split.id).Nodup)
    (hc : Closed (splitBooks order.job) order none missing taken run) (id : String) :
    id ∈ run.pipeline.books.summary.finishedSplits ↔
      missing id = [] ∧ ∃ split ∈ order.splits, split.id = id := by
  obtain ⟨_, _, htally, -⟩ := hc.closed
  rw [← exists_ended_iff honce hc.accounts id, ← finished_of_unlimited htally id]
  simp [ConsumerBooks.summary, IdSet.contains]

/-- A run that is over is complete exactly if nothing is missing. -/
theorem complete_iff_of_over (honce : (order.splits.map Split.id).Nodup)
    (hk : Kept order missing run) (hover : run.pipeline.phase = .over (.ok summary)) :
    run.IsComplete order summary ↔ ∀ id, missing id = [] := by
  obtain ⟨taken, hk⟩ := hk
  obtain ⟨hc, rfl⟩ := closed_of_over hk hover
  constructor
  · intro hcomplete id
    by_cases hknown : ∃ split ∈ order.splits, split.id = id
    · exact ((mem_finishedSplits_iff honce hc id).1 ((hcomplete.finished id).2 hknown)).1
    · have hdue : Split.due order.files id order.splits = [] :=
        Split.due_eq_nil.2 fun split hmem hid => hknown ⟨split, hmem, hid⟩
      exact (List.append_eq_nil_iff.1 ((due_of_accounts hc.accounts id).trans hdue)).2
  · intro hnone
    have hinter := interleaving_of_accounts honce hc.accounts hnone
    obtain ⟨filled, meanwhile, htally, hclosed⟩ := hc.closed
    obtain ⟨payloads, hsent, hjoin⟩ := htally.sent
    refine ⟨⟨_, payloads, hinter, ⟨filled, meanwhile, hsent, hclosed⟩, hjoin,
      hjoin ▸ htally.bytes⟩, ?_, IdSet.ascending _, fun id => ?_⟩
    · show run.pipeline.books.totals.records = _
      rw [htally.records, within_none, length_of_known honce hinter.known,
        ← List.flatMap_congr hinter.whole, ← List.map_flatMap, List.length_map]
    · rw [mem_finishedSplits_iff honce hc id, and_iff_right (hnone id)]

end Run

/-! ### Where a run begins -/

/-- The sort of reader that a source is read with. -/
def SourceSettings.sort : SourceSettings → ReaderSort
  | ranges _ => .ranges
  | files _ => .files

namespace SourceSettings

theorem isNew_ofSettings (source : SourceSettings) :
    (Backend.ofSettings source).IsNew ∧ (Backend.ofSettings source).sort = source.sort := by
  cases source <;> exact ⟨rfl, rfl⟩

end SourceSettings

namespace Run

variable {settings : Settings} {store : FileStore} {run next : Run} {order : Order}

/-- The order that the settings come to, once the sink is open. -/
structure IsOrder (settings : Settings) (store : FileStore) (order : Order) : Prop where
  splits : settings.source.splits = .ok order.splits
  sort : order.sort = settings.source.sort
  sink : Sink.ofSettings settings.sink store = .ok (order.sink, order.files)

/-- A supervisor that was just made, for a run. -/
def idle (settings : Settings) (files : FileStore) : Supervisor Backend :=
  .create settings.runtime.queueCapacity settings.runtime.fetcherThreads files
    fun _ => .ok (Backend.ofSettings settings.source)

/-- The run that is about to deal the splits of its order. -/
def beginning (settings : Settings) (order : Order) (source : String) (expected : Nat) : Run where
  pipeline :=
    { supervisor := Floor.dealtPast order.splits (idle settings order.files)
      sink := order.sink
      books := { totals := { source, expected }, limit := settings.runtime.recordLimit }
      closeTimeoutMs := settings.runtime.closeTimeoutMs }
  dealing := Floor.dealing order.splits (idle settings order.files)

theorem eq_of_opened (horder : IsOrder settings store order) (h : opened settings store = .ok run) :
    ∃ source expected, run = beginning settings order source expected := by
  obtain ⟨hsplits, -, hsink⟩ := horder
  simp only [opened, hsplits, hsink, Except.mapError, bind, Except.bind, pure, Except.pure] at h
  split at h
  · cases h
  · next described _ =>
      cases h
      exact ⟨described.1, described.2, rfl⟩

/-- Nobody was called into an idle supervisor's slots. -/
theorem orderly_idle (files : FileStore) (hsort : order.sort = settings.source.sort) :
    Floor.Orderly files order.sort { supervisor := idle settings files } :=
  Floor.orderly_opened fun _ => hsort ▸ SourceSettings.isNew_ofSettings settings.source

/-- A supervisor that is about to deal splits heeds their job. -/
theorem heeds_beginning (hjob : order.job.IsFeasible)
    (hsort : order.sort = settings.source.sort) :
    (Floor.dealtPast order.splits (idle settings order.files)).Heeds order.job
      (Floor.dealing order.splits (idle settings order.files)) [] := by
  have hsound : (idle settings order.files).Sound order.files order.sort :=
    (orderly_idle order.files hsort).sound
  refine ⟨Supervisor.sound_congr hsound rfl rfl rfl rfl hsound.isOpen, FileStore.agrees_refl _ _,
    fun _ hmem => (List.not_mem_nil hmem).elim, fun _ hmem => (List.not_mem_nil hmem).elim,
    Supervisor.agenda_of_timeless ((Floor.timeless_calls _).1 order.splits hjob.fit),
    fun task htask => ?_⟩
  obtain ⟨slot, -, rfl⟩ := List.mem_map.1 htask
  exact Floor.dealt_sublist _ _ _ _

/-- If the splits can be told apart, the books by split are balanced then. -/
theorem serves_beginning (hjob : order.job.IsProper) (hsort : order.sort = settings.source.sort) :
    (Floor.dealtPast order.splits (idle settings order.files)).Serves (splitBooks order.job)
      order.job (Floor.dealing order.splits (idle settings order.files)) [] fun _ => [] := by
  refine ⟨heeds_beginning hjob.feasible hsort, fun id => ?_⟩
  have hopened : (idle settings order.files).Balanced order.files id [] [] [] [] :=
    Floor.balanced_opened id
  have hasked := Supervisor.balanced_ask order.splits hopened
  have hslots := (orderly_idle order.files hsort).slots
  exact Supervisor.balanced_waiting (Supervisor.balanced_congr hasked rfl rfl)
    (Split.due_perm hjob.once (Floor.dealing_perm hslots order.splits).symm)

/-- A run begins to feed with the books as they are before anything is dealt. -/
theorem staged_beginning {ι α : Type} {ledger : Bookkeeping ι α} {lost : ι → List α}
    {source : String} {expected : Nat}
    (hserves : (Floor.dealtPast order.splits (idle settings order.files)).Serves ledger order.job
      (Floor.dealing order.splits (idle settings order.files)) [] lost) :
    Staged ledger order settings.runtime.recordLimit lost []
      (beginning settings order source expected) := by
  refine .feeding ⟨rfl, rfl, tally_nil _ _ _ rfl rfl, ?_⟩
  simpa [agenda, beginning, ConsumerPhase.inHand] using hserves

theorem kept_beginning {source : String} {expected : Nat} (hjob : order.job.IsProper)
    (hsort : order.sort = settings.source.sort) (hunlimited : settings.runtime.recordLimit = none) :
    Kept order (fun _ => []) (beginning settings order source expected) :=
  ⟨[], hunlimited ▸ staged_beginning (serves_beginning hjob hsort)⟩

/-! ### Runs without haste -/

/-- As long as the consumer feeds, idle flags are up only where there is nothing to do; and before
its last look all slots are empty for good. -/
structure IsCalm (run : Run) : Prop where
  calm : run.pipeline.phase.isFeeding = true → run.pipeline.supervisor.Calm
  vacant : run.pipeline.phase = .lastLook →
    run.dealing = [] ∧ run.pipeline.supervisor.isVacant = true

variable {ι α : Type} {ledger : Bookkeeping ι α} {limit : Option Nat} {lost : ι → List α}
  {move : Move} {moves : List Move} {last : Run} {taken : List (SplitBatch Record)}
  {p q : Pipeline Backend}

theorem isVacant_congr {s t : Supervisor Backend} (h : t.slots = s.slots) :
    t.isVacant = s.isVacant := by
  rw [Supervisor.isVacant, Supervisor.isVacant, h]

/-- A consumer that feeds disturbs no calm. -/
theorem calm_feeds (hsound : p.supervisor.Sound order.files order.sort) (hc : p.supervisor.Calm)
    (h : Feeds p q) : (q.phase.isFeeding = true → q.supervisor.Calm) ∧
      (q.phase = .lastLook → q.supervisor.isVacant = true) := by
  cases h with
  | turn _ _ _ _ _ hvacant => exact ⟨fun _ => hc, hvacant⟩
  | ask hphase bell => exact ⟨fun _ => Supervisor.calm_congr hc rfl rfl, nofun⟩
  | poll hphase hitems => exact ⟨fun _ => Supervisor.calm_congr hc rfl rfl, nofun⟩
  | consume hphase hconsumed hgoes => exact ⟨fun _ => Supervisor.calm_congr hc rfl rfl, nofun⟩
  | @sweep bell slot hphase =>
      have hsweep : (p.supervisor.perform (.sweep slot)).2.Calm :=
        Supervisor.calm_perform hsound hc trivial
      rw [Supervisor.perform_sweep] at hsweep
      exact ⟨fun _ => hsweep, nofun⟩
  | leave hphase hitems => exact ⟨nofun, nofun⟩
  | release hphase => exact ⟨nofun, nofun⟩
  | fail hdoomed =>
      have hnot (hfeeds : q.phase.isFeeding = true) : False := not_doomed_of_feeding hfeeds hdoomed
      exact ⟨fun hfeeds => (hnot hfeeds).elim, fun hlook => (hnot (hlook ▸ rfl)).elim⟩

/-- Neither do the tasks that are done before it goes on. -/
theorem calm_work (hf : Feeding ledger order limit lost taken run) (hc : run.IsCalm)
    (h : run.step .work = some next) : next.IsCalm := by
  have hsound : run.pipeline.supervisor.Sound order.files order.sort := hf.serves.sound
  have hcalm := hc.calm hf.phase
  have hagenda := hf.serves.agenda
  cases hdealing : run.dealing with
  | cons task later =>
      rw [agenda, hdealing, List.cons_append] at hagenda
      have hafter := Supervisor.calm_perform hsound hcalm hagenda.1
      rcases hperform : run.pipeline.supervisor.perform task with ⟨_ | more, supervisor⟩ <;>
        rw [hperform] at hafter <;>
        simp only [step, hdealing, hperform, Option.some.injEq] at h <;> subst h
      · exact ⟨fun hfeeding => (by cases hfeeding), fun hlook => (by cases hlook)⟩
      · exact ⟨fun _ => hafter, fun hlook => by simpa [hdealing] using (hc.vacant hlook).1⟩
  | nil =>
      simp only [step, hdealing, Option.map_eq_some_iff] at h
      obtain ⟨q, hstep, rfl⟩ := h
      cases herrands : run.pipeline.errands with
      | cons errand rest =>
          rw [agenda, hdealing, herrands, List.nil_append, List.map_cons] at hagenda
          have hafter := Supervisor.calm_run hcalm hagenda.1
          obtain ⟨-, hslots, -⟩ := Supervisor.sound_run hsound hagenda.1
          rw [errand_consumer herrands hstep]
          exact ⟨fun _ => hafter, fun hlook =>
            ⟨rfl, (isVacant_congr hslots).trans (hc.vacant hlook).2⟩⟩
      | nil =>
          obtain ⟨hafter, hvacant⟩ := calm_feeds hsound hcalm
            (feeds_of_consumer (taking_of_feeding hf.phase) herrands hstep)
          exact ⟨hafter, fun hlook => ⟨rfl, hvacant hlook⟩⟩

/-- Who has stopped feeding does not begin again. -/
theorem past_step (hk : Staged ledger order limit lost taken run)
    (hpast : run.pipeline.phase.isFeeding = false)
    (h : run.step move = some next) : next.pipeline.phase.isFeeding = false := by
  cases move with
  | thread fetcher disturbed =>
      obtain ⟨supervisor, -, rfl⟩ := Option.map_eq_some_iff.1 h
      exact hpast
  | timeOut fetcher =>
      obtain ⟨sleeper, -, rfl⟩ := Option.map_eq_some_iff.1 h
      exact hpast
  | late =>
      obtain rfl := Option.some.inj h
      exact hpast
  | work =>
      cases hk with
      | feeding hf => exact absurd hf.phase (by simp [hpast])
      | fed hf =>
          simp only [step, hf.dealt, Option.map_eq_some_iff, Pipeline.stepConsumer?, hf.errands,
            hf.phase, Option.some.injEq] at h
          obtain ⟨q, rfl, rfl⟩ := h
          rfl
      | closed hc =>
          simp only [step, hc.dealt, Option.map_eq_some_iff] at h
          obtain ⟨q, hstep, rfl⟩ := h
          obtain ⟨-, later, hclosing⟩ := closing_consumer hc.phase hstep
          exact not_feeding_of_closing hclosing

/-- Without haste a calm run stays calm. -/
theorem calm_step (hk : Staged ledger order limit lost taken run) (hc : run.IsCalm)
    (hhasty : ¬ run.Hasty move) (h : run.step move = some next) : next.IsCalm := by
  cases hfeeds : run.pipeline.phase.isFeeding with
  | false =>
      have hpast := past_step hk hfeeds h
      exact ⟨fun hphase => by simp [hpast] at hphase,
        fun hlook => by simp [hlook, ConsumerPhase.isFeeding] at hpast⟩
  | true =>
      cases hk with
      | fed hf => simp [hf.phase, ConsumerPhase.isFeeding] at hfeeds
      | closed hf => simp [not_feeding_of_closing hf.phase] at hfeeds
      | feeding hf =>
          have hsound : run.pipeline.supervisor.Sound order.files order.sort := hf.serves.sound
          have hcalm := hc.calm hfeeds
          cases move with
          | work => exact calm_work hf hc h
          | late =>
              obtain rfl := Option.some.inj h
              exact ⟨hc.calm, hc.vacant⟩
          | thread fetcher disturbed =>
              obtain ⟨supervisor, hstep, rfl⟩ := Option.map_eq_some_iff.1 h
              have hslots := (Supervisor.frame_of_stepThread? hstep).1
              refine ⟨fun _ => ?_, fun hlook => ?_⟩
              · exact Supervisor.calm_thread hsound hcalm
                  (fun f hmem hid hraises => hhasty ⟨f, hmem, hid, hraises⟩) hstep
              · obtain ⟨hdealt, hvacant⟩ := hc.vacant hlook
                exact ⟨hdealt, (isVacant_congr hslots).trans hvacant⟩
          | timeOut fetcher =>
              obtain ⟨sleeper, hfound, rfl⟩ := Option.map_eq_some_iff.1 h
              have hfair : (Errand.nudge fetcher .rouse).IsFair order.files order.sort
                  run.pipeline.supervisor := trivial
              have hafter := Supervisor.calm_run hcalm hfair
              simp only [Supervisor.run, hfound] at hafter
              exact ⟨fun _ => hafter, hc.vacant⟩

/-- In a calm run nobody gives splits up. -/
theorem not_abandons_of_calm (hk : Staged ledger order limit lost taken run)
    (hc : run.IsCalm) : ¬ run.Abandons move := by
  cases move with
  | timeOut _ | late => exact not_false
  | thread fetcher disturbed =>
      rintro ⟨hfeeds, f, hmem, -, hforsakes⟩
      cases hk with
      | fed hf => simp [hf.phase, ConsumerPhase.isFeeding] at hfeeds
      | closed hf => simp [not_feeding_of_closing hf.phase] at hfeeds
      | feeding hf =>
          exact Supervisor.not_forsakes_of_calm hf.serves.sound (hc.calm hfeeds) hmem hforsakes
  | work =>
      rintro ⟨hleaves, f, hmem, hnot⟩
      have hcalm := hc.calm (hleaves.phase ▸ rfl)
      exact hnot (.inr (Supervisor.isSpent_of_vacant hcalm (hc.vacant hleaves.phase).2 hmem))

/-- On a course without haste on which the run thrives nobody gives splits up. -/
theorem keeps_of_never_hasty (hjob : order.job.IsFeasible) (hledger : ledger.Orderly order.job)
    (hk : Staged ledger order limit lost taken run) (hc : run.IsCalm) (hgood : last.Thrives)
    (hhasty : Course.Never step Hasty moves run) (h : Course.follow step moves run = some last) :
    Course.Never step Abandons moves run := by
  induction moves generalizing run lost taken with
  | nil => trivial
  | cons move moves ih =>
      obtain ⟨next, hstep, hrest⟩ := Course.follow_cons_eq_some.1 h
      have hnext : next.Thrives := Course.follow_reflects Thrives thrives_of_step hrest hgood
      obtain ⟨loss, hk', -⟩ := staged_step hjob hledger hnext hk hstep
      refine (Course.never_cons hstep).2 ⟨not_abandons_of_calm hk hc, ?_⟩
      exact ih hk' (calm_step hk hc hhasty.1 hstep) (hhasty.2 next hstep) hrest

theorem never_abandons_of_never_hasty {lost : String → List (Option Record)}
    (hjob : order.job.IsProper) (hk : Kept order lost run) (hc : run.IsCalm)
    (hgood : ¬ last.pipeline.phase.Doomed) (hhasty : Course.Never step Hasty moves run)
    (h : Course.follow step moves run = some last) : Course.Never step Abandons moves run := by
  obtain ⟨taken, hk⟩ := hk
  exact keeps_of_never_hasty hjob.feasible (Supervisor.splitBooks_orderly hjob.once) hk hc
    (thrives_of_unlimited hk hgood h) hhasty h

/-! ### The result -/

theorem not_doomed_of_over {summary : Report.Summary}
    (h : run.pipeline.phase = .over (.ok summary)) : ¬ run.pipeline.phase.Doomed := by
  rw [h]
  exact ConsumerPhase.not_doomed_over summary

/-- A run without a record limit over ranges or over files that can be read and are not what the
sink writes to, in any order of the steps of threads and consumer: when it is over with a summary,
it is complete if no thread raised the idle flag over the heads of splits; and in any case it is
complete exactly if nobody gave splits up on the way. -/
theorem complete_iff_never_abandons {settings : Settings} {store : FileStore} {order : Order}
    {run last : Run} {summary : Report.Summary} (moves : List Move)
    (horder : IsOrder settings store order) (hjob : order.job.IsProper)
    (hunlimited : settings.runtime.recordLimit = none)
    (hopened : opened settings store = .ok run)
    (hrun : Course.follow step moves run = some last)
    (hover : last.pipeline.phase = .over (.ok summary)) :
    (Course.Never step Hasty moves run → last.IsComplete order summary) ∧
      (last.IsComplete order summary ↔ Course.Never step Abandons moves run) := by
  obtain ⟨source, expected, rfl⟩ := eq_of_opened horder hopened
  have hgood := not_doomed_of_over hover
  have hbegin : Kept order (fun _ => []) (beginning settings order source expected) :=
    kept_beginning hjob horder.sort hunlimited
  obtain ⟨missing, hk, hmissing⟩ := kept_follow hjob hbegin hgood hrun
  simp only [List.append_nil] at hk
  have hiff : last.IsComplete order summary ↔
      Course.Never step Abandons moves (beginning settings order source expected) := by
    rw [complete_iff_of_over hjob.once hk hover, ← not_iff_not, ← hmissing, not_forall]
  refine ⟨fun hhasty => hiff.2 ?_, hiff⟩
  refine never_abandons_of_never_hasty hjob hbegin ⟨fun _ => ?_, nofun⟩ hgood hhasty hrun
  exact ⟨fun _ hmem => (List.not_mem_nil hmem).elim, fun _ hmem => (List.not_mem_nil hmem).elim⟩

/-- One range of one record, moved to memory by one fetcher over a queue for one batch. -/
def brief : Settings where
  source := .ranges { splits := 1, recordsPerSplit := 1, limits := { maxRecords := 1 } }
  sink := .memory
  runtime := { queueCapacity := 1 }

/-- What it comes to. -/
def briefOrder : Order :=
  ⟨.empty, .memory [], .ranges, [.range ⟨"range-0", 0, 1⟩]⟩

theorem isOrder_brief : IsOrder brief .empty briefOrder := ⟨rfl, rfl, rfl⟩

theorem isProper_briefOrder : briefOrder.job.IsProper where
  once := by decide
  fit := List.forall_mem_singleton.2 ⟨rfl, by decide⟩
  safe := List.forall_mem_singleton.2 trivial

/-- A course on which the thread begins when the split was dealt to it. -/
def patientCourse : List Move :=
  List.replicate 6 .work ++ List.replicate 14 (.thread 0 []) ++ List.replicate 26 .work ++
    List.replicate 6 (.thread 0 []) ++ List.replicate 3 .work

theorem patient_run_complete :
    ∃ run last summary, opened brief .empty = .ok run ∧
      Course.follow step patientCourse run = some last ∧
        last.pipeline.phase = .over (.ok summary) ∧ last.IsComplete briefOrder summary := by
  refine ⟨_, _, _, rfl, rfl, rfl, ?_⟩
  exact (complete_iff_never_abandons patientCourse isOrder_brief isProper_briefOrder rfl rfl rfl
    rfl).1 (by decide)

/-- A course on which the thread begins earlier, finds nothing to do, and raises the idle flag when
the split was dealt to it. -/
def hastyCourse : List Move :=
  [.work] ++ List.replicate 5 (.thread 0 []) ++ List.replicate 5 .work ++ [.thread 0 []] ++
    List.replicate 16 .work ++ List.replicate 9 (.thread 0 []) ++ List.replicate 10 .work

/-- The fetcher is retired with the split, and the run ends well with nothing moved. -/
theorem hasty_run_incomplete :
    ∃ run last summary, opened brief .empty = .ok run ∧
      Course.follow step hastyCourse run = some last ∧
        last.pipeline.phase = .over (.ok summary) ∧ ¬ last.IsComplete briefOrder summary := by
  refine ⟨_, _, _, rfl, rfl, rfl, fun hcomplete => ?_⟩
  exact absurd ((hcomplete.finished "range-0").2 ⟨_, List.mem_singleton_self _, rfl⟩) (by decide)

end Run

end SplitFeed
