/-
# Splits that a run calls finished

A run drops the records that come beyond its record limit.  Whatever the limit is, and whatever
fetch threads and consumer do in which order, a split should be called finished only if all its
records were sent.

The consumer judges by one batch at a time: if records of a batch are dropped, its end marks do not
count.  But a file's end mark may come in a batch of its own.  If a record of the file was dropped
before, the file is called finished all the same; and that is the only way for a split to be called
finished too early.  It does not happen to ranges, whose end marks come with records.
-/
import SplitFeed.Proofs.Pipeline.Completion
import SplitFeed.Proofs.Supervisor.Supplying

namespace SplitFeed

/-! ### End marks that come late -/

section Marks

/-- Every split that the books call finished was sent as a whole, and no record of it dropped. -/
structure FinishedInFull (order : Order) (limit : Option Nat) (taken : List (SplitBatch Record))
    (books : ConsumerBooks) : Prop where
  sent : ∀ id, books.finished.contains id = true → ∃ split ∈ order.splits, split.id = id ∧
    ((within limit (entriesIn taken)).filter (·.1 == id)).map (·.2) = split.records order.files
  undropped : ∀ entry ∈ beyond limit (entriesIn taken), books.finished.contains entry.1 = false

/-- A batch without records ends a split of which a record was dropped. -/
def EndsLate (limit : Option Nat) (taken : List (SplitBatch Record)) : Prop :=
  ∃ batch ∈ taken, entriesIn [batch] = [] ∧
    ∃ entry ∈ beyond limit (entriesIn taken), batch.finished.contains entry.1 = true

instance (limit : Option Nat) (taken : List (SplitBatch Record)) :
    Decidable (EndsLate limit taken) :=
  inferInstanceAs (Decidable (∃ batch ∈ taken, entriesIn [batch] = [] ∧
    ∃ entry ∈ beyond limit (entriesIn taken), batch.finished.contains entry.1 = true))

/-- Neat batches that tell of each split a front part of its news. -/
structure Told (order : Order) (taken : List (SplitBatch Record)) : Prop where
  neat : ∀ batch ∈ taken, batch.IsNeat order.job.bare
  front : ∀ id, taken.flatMap (·.news id) <+: Split.due order.files id order.splits

variable {order : Order} {limit : Option Nat} {taken earlier : List (SplitBatch Record)}
  {batch : SplitBatch Record} {sink : Sink} {store : FileStore} {books : ConsumerBooks}
  {id : String}

theorem told_front (ht : Told order taken) (h : earlier <+: taken) : Told order earlier where
  neat other hmem := ht.neat other (h.subset hmem)
  front id := by
    obtain ⟨later, rfl⟩ := h
    have hall := ht.front id
    rw [List.flatMap_append] at hall
    exact (List.prefix_append _ _).trans hall

theorem Told.unread (ht : Told order taken) : ∀ batch ∈ taken, batch.IsUnread :=
  fun batch hmem => (ht.neat batch hmem).unread

/-- With the end mark of a split all its records were told. -/
theorem recordsOf_of_ended (honce : (order.splits.map Split.id).Nodup) (ht : Told order taken)
    (hmem : batch ∈ taken) (hends : batch.finished.contains id = true) :
    ∃ split ∈ order.splits, split.id = id ∧
      SplitBatch.recordsOf id taken = split.records order.files := by
  have hmark : none ∈ Split.due order.files id order.splits :=
    (ht.front id).subset (List.mem_flatMap.2 ⟨batch, hmem, SplitBatch.none_mem_news.2 hends⟩)
  obtain ⟨split, hsplit, rfl⟩ := Split.none_mem_due.1 hmark
  have hfront := ht.front split.id
  rw [Split.due_eq_news honce hsplit] at hfront
  exact ⟨split, hsplit, rfl, (SplitBatch.told_of_front hfront).2.2 ⟨batch, hmem, hends⟩⟩

/-- A split of which nothing is dropped is sent as far as it was told. -/
theorem sent_of_undropped (ht : Told order taken)
    (hnone : ∀ entry ∈ beyond limit (entriesIn taken), entry.1 ≠ id) :
    ((within limit (entriesIn taken)).filter (·.1 == id)).map (·.2) =
      SplitBatch.recordsOf id taken := by
  have hdropped : (beyond limit (entriesIn taken)).filter (·.1 == id) = [] :=
    List.filter_eq_nil_iff.2 fun entry hmem => by simpa using hnone entry hmem
  rw [← entriesIn_split ht.unread, ← within_append_beyond limit (entriesIn taken),
    List.filter_append, hdropped, List.append_nil, within_append_beyond]

/-- Nothing that comes behind the end mark of a split is a record of it. -/
theorem undropped_of_whole (honce : (order.splits.map Split.id).Nodup) (ht : Told order taken)
    (h : earlier ++ [batch] <+: taken) (hends : batch.finished.contains id = true)
    (hwhole : beyond limit (entriesIn (earlier ++ [batch])) = []) :
    ∀ entry ∈ beyond limit (entriesIn taken), entry.1 ≠ id := by
  obtain ⟨later, rfl⟩ := h
  have hmem : batch ∈ earlier ++ [batch] := List.mem_append_right _ List.mem_cons_self
  obtain ⟨split, hsplit, rfl, hbefore⟩ :=
    recordsOf_of_ended honce (told_front ht (List.prefix_append _ _)) hmem hends
  obtain ⟨other, hother, hid, hall⟩ :=
    recordsOf_of_ended honce ht (List.mem_append_left later hmem) hends
  obtain rfl : other = split := List.inj_on_of_nodup_map honce hother hsplit hid
  have hlater : SplitBatch.recordsOf other.id later = [] := by
    rw [SplitBatch.recordsOf, List.flatMap_append] at hall
    exact List.append_right_eq_self.1 (hall.trans hbefore.symm)
  rw [← entriesIn_split fun batch hmem => ht.unread batch (List.mem_append_right _ hmem),
    List.map_eq_nil_iff, List.filter_eq_nil_iff] at hlater
  rw [entriesIn_append, beyond_append, hwhole, List.nil_append]
  have hsub : (beyond (remaining limit (entriesIn (earlier ++ [batch]))) (entriesIn later)) ⊆
      entriesIn later := fun entry hmem => by
    rw [← within_append_beyond (remaining limit (entriesIn (earlier ++ [batch])))
      (entriesIn later)]
    exact List.mem_append_right _ hmem
  exact fun entry hmem hid => hlater entry (hsub hmem) (by simpa using hid)

/-- Splits are called finished too early exactly if an end mark comes late. -/
theorem finishedInFull_iff (honce : (order.splits.map Split.id).Nodup) (ht : Told order taken)
    (htally : Tally limit order.sink order.files taken sink store books) :
    FinishedInFull order limit taken books ↔ ¬ EndsLate limit taken := by
  constructor
  · rintro ⟨-, hundropped⟩ ⟨batch, hmem, hbare, entry, hdropped, hends⟩
    obtain ⟨earlier, later, rfl⟩ := List.append_of_mem hmem
    have hfinished : books.finished.contains entry.1 = true :=
      (htally.finished entry.1).2 ⟨earlier, batch, ⟨later, by simp⟩, hends, fun h => h.1 hbare⟩
    simp [hundropped entry hdropped] at hfinished
  · intro htimely
    have hall (id : String) (hfinished : books.finished.contains id = true) :
        (∀ entry ∈ beyond limit (entriesIn taken), entry.1 ≠ id) ∧
          ∃ split ∈ order.splits, split.id = id ∧
            SplitBatch.recordsOf id taken = split.records order.files := by
      obtain ⟨earlier, batch, hprefix, hends, hwhole⟩ := (htally.finished id).1 hfinished
      have hmem : batch ∈ taken :=
        hprefix.subset (List.mem_append_right _ List.mem_cons_self)
      refine ⟨?_, recordsOf_of_ended honce ht hmem hends⟩
      by_cases hbare : entriesIn [batch] = []
      · rintro entry hdropped rfl
        exact htimely ⟨batch, hmem, hbare, entry, hdropped, hends⟩
      · refine undropped_of_whole honce ht hprefix hends ?_
        exact by_contra fun hcut => hwhole ⟨hbare, hcut⟩
    constructor
    · intro id hfinished
      obtain ⟨hundropped, split, hsplit, hid, hrecords⟩ := hall id hfinished
      exact ⟨split, hsplit, hid, (sent_of_undropped ht hundropped).trans hrecords⟩
    · intro entry hdropped
      rw [← Bool.not_eq_true]
      exact fun hfinished => (hall entry.1 hfinished).1 entry hdropped rfl

/-- Over ranges no end mark comes late: with the mark of a range comes a record, or there is none in
the range. -/
theorem not_endsLate_of_ranges (hjob : order.job.IsProper) (ht : Told order taken)
    (hranges : order.sort = .ranges) : ¬ EndsLate limit taken := by
  rintro ⟨batch, hmem, hbare, entry, hdropped, hends⟩
  have hentry : entry ∈ (entriesIn taken).filter (·.1 == entry.1) := by
    refine List.mem_filter.2 ⟨?_, beq_self_eq_true _⟩
    rw [← within_append_beyond limit (entriesIn taken)]
    exact List.mem_append_right _ hdropped
  have hnone : SplitBatch.recordsIn entry.1 batch.groups = [] := by
    have hwaiting : entriesOf batch.waiting = [] := by simpa [entriesIn] using hbare
    rw [SplitBatch.groups_of_unread (ht.unread batch hmem), ← filter_entriesOf, hwaiting]
    rfl
  obtain ⟨split, hsplit, hid, hmay⟩ :=
    ((ht.neat batch hmem).ends entry.1 hends).resolve_right (absurd hnone)
  obtain ⟨other, hother, hid', hrecords⟩ := recordsOf_of_ended hjob.once ht hmem hends
  obtain rfl : other = split :=
    List.inj_on_of_nodup_map hjob.once hother hsplit (hid'.trans hid.symm)
  have hempty : other.records order.files = [] := by
    cases other with
    | range range =>
        have hnothing : range.stop ≤ range.start := hmay
        simp [Split.records, Nat.sub_eq_zero_of_le hnothing]
    | file file =>
        have hsort : ReaderSort.files = order.sort := (hjob.fit _ hother).1
        cases hsort.trans hranges
  rw [← entriesIn_split ht.unread, hempty, List.map_eq_nil_iff] at hrecords
  rw [hrecords] at hentry
  cases hentry

end Marks

namespace Run

variable {order : Order} {limit : Option Nat} {taken : List (SplitBatch Record)} {sink : Sink}
  {store : FileStore} {p q : Pipeline Backend} {run next last : Run} {move : Move}

/-! ### Steps of the consumer -/

/-- The consumer may take batches from the queue, and all splits were given to fetchers. -/
structure Supplied (order : Order) (limit : Option Nat) (taken : List (SplitBatch Record))
    (p : Pipeline Backend) : Prop where
  takes : p.phase.isTaking = true
  errands : ∀ errand ∈ p.errands, errand.LeavesSplits
  tally : Tally limit order.sink order.files taken p.sink p.store p.books
  supplies : p.supervisor.Supplies order.job (taken ++ p.phase.inHand)

/-- How a run ends with a sink that nothing more is sent to. -/
inductive Ends (sink : Sink) (store : FileStore) (p : Pipeline Backend) : Prop
  | doomed (hphase : p.phase.Doomed)
  | leaving (hphase : p.phase = .closingSink (.ok ())) (hsink : p.sink = sink)
      (hstore : p.store = store)
  | closed (hphase : p.phase.Closing p.books.summary (.ok ()))
      (hclosed : sink.close store = (.ok (), p.sink, p.store))

/-- The consumer takes no more batches. -/
structure Sated (order : Order) (limit : Option Nat) (taken : List (SplitBatch Record))
    (p : Pipeline Backend) : Prop where
  told : Told order taken
  tally : ∃ sink store, Tally limit order.sink order.files taken sink store p.books ∧
    Ends sink store p

theorem told_of_supplied (hs : Supplied order limit taken p) : Told order taken := by
  have hfront := Supervisor.taken_front hs.supplies
  have hneat (batch : SplitBatch Record) (hmem : batch ∈ taken ++ p.phase.inHand) :
      batch.IsNeat order.job.bare := hs.supplies.neat batch (List.mem_append_left _ hmem)
  exact told_front ⟨hneat, hfront⟩ (List.prefix_append _ _)

/-- What a consumer without errands does keeps the tally, until it takes no more batches. -/
theorem supplied_feeds (hs : Supplied order limit taken p) (herrands : p.errands = [])
    (h : Feeds p q) : Supplied order limit (taken ++ p.consumes) q ∨
      Sated order limit (taken ++ p.consumes) q := by
  have htold := told_of_supplied hs
  obtain ⟨htakes, hleaves, htally, hsupplies⟩ := hs
  have hsame (hhand : p.phase.inHand = []) : taken ++ p.consumes = taken := by
    rw [Pipeline.consumes_of_emptyHanded hhand, List.append_nil]
  cases h with
  | @turn phase hhand htakes' hempty _ _ _ =>
      rw [hsame hhand]
      refine .inl ⟨htakes', hleaves, htally, ?_⟩
      rw [hhand] at hsupplies
      simpa [Pipeline.enter, hempty] using hsupplies
  | ask hphase bell =>
      obtain ⟨hitems, hclosed⟩ := p.supervisor.queue.availability_same
      rw [hphase] at hsupplies
      rw [hsame (by simp [hphase, ConsumerPhase.inHand])]
      exact .inl ⟨rfl, hleaves, htally,
        Supervisor.supplies_congr hsupplies rfl hitems hclosed hsupplies.agrees⟩
  | poll hphase hitems =>
      rw [hphase] at hsupplies
      rw [hsame (by simp [hphase, ConsumerPhase.inHand])]
      have hnone : taken ++ ConsumerPhase.polling.inHand = taken := List.append_nil _
      rw [hnone] at hsupplies
      exact .inl ⟨rfl, hleaves, htally, Supervisor.supplies_poll hsupplies hitems⟩
  | @consume batch books sink store recycled draining errands hphase hconsumed hgoes =>
      have hconsumes : p.consumes = [batch] := by
        simp [Pipeline.consumes, herrands, hphase, hconsumed]
      have htally' := tally_consume htally hconsumed
      obtain ⟨_, hsent, -⟩ := htally'.sent
      obtain ⟨-, hagrees, -⟩ := Sink.sendAll_cases hsent
      rw [hphase] at hsupplies
      rw [hconsumes]
      refine .inl ⟨rfl, fun errand hmem => ?_, htally', ?_⟩
      · rcases hgoes with ⟨-, rfl⟩ | ⟨-, rfl⟩
        · cases hmem
        · obtain ⟨number, -, rfl⟩ := List.mem_map.1 hmem
          trivial
      · have hafter : { p.supervisor with
            depot := { p.supervisor.depot with recycled, store } }.Supplies order.job
              (taken ++ [batch]) :=
          Supervisor.supplies_congr hsupplies rfl rfl rfl hagrees
        simpa [Pipeline.withStore, ConsumerPhase.inHand] using hafter
  | @sweep bell slot hphase =>
      rw [hphase] at hsupplies
      rw [hsame (by simp [hphase, ConsumerPhase.inHand])]
      rcases Supervisor.vacate_cases p.supervisor slot with hnone | ⟨f, -, -, -, hsome⟩
      · rw [hnone]
        exact .inl ⟨rfl, List.forall_mem_nil _, htally, hsupplies⟩
      · rw [hsome]
        refine .inl ⟨rfl, List.forall_mem_singleton.2 trivial, htally, ?_⟩
        exact Supervisor.supplies_congr hsupplies rfl rfl rfl hsupplies.agrees
  | leave hphase hitems =>
      rw [hsame (by simp [hphase, ConsumerPhase.inHand])]
      exact .inr ⟨htold, p.sink, p.store, htally, .leaving rfl rfl rfl⟩
  | release hphase =>
      rw [hsame (by simp [hphase, ConsumerPhase.inHand])]
      exact .inr ⟨htold, p.sink, p.store, htally, .leaving rfl rfl rfl⟩
  | fail hdoomed hbooks hnothing =>
      rw [hnothing, List.append_nil]
      exact .inr ⟨htold, p.sink, p.store, hbooks ▸ htally, .doomed hdoomed⟩

/-- Its errands come first. -/
theorem supplied_consumer (hs : Supplied order limit taken p) (h : p.stepConsumer? = some q) :
    Supplied order limit (taken ++ p.consumes) q ∨ Sated order limit (taken ++ p.consumes) q := by
  cases herrands : p.errands with
  | nil => exact supplied_feeds hs herrands (feeds_of_consumer hs.takes herrands h)
  | cons errand rest =>
      have hnothing : p.consumes = [] := by simp [Pipeline.consumes, herrands]
      have hleaves := hs.errands
      rw [herrands] at hleaves
      obtain ⟨hfirst, hrest⟩ := List.forall_mem_cons.1 hleaves
      rw [hnothing, List.append_nil, errand_consumer herrands h]
      refine .inl ⟨hs.takes, fun other hmem => ?_, ?_, Supervisor.supplies_run hs.supplies hfirst⟩
      · rcases List.mem_append.1 hmem with hnew | hold
        · exact Supervisor.leavesSplits_run errand p.supervisor other hnew
        · exact hrest other hold
      · have htally := hs.tally
        rwa [Pipeline.store, ← Supervisor.store_run errand] at htally

/-- Nothing more is sent to the sink then, and nothing booked. -/
theorem ends_consumer (he : Ends sink store p) (h : p.stepConsumer? = some q) :
    Ends sink store q ∧ q.books = p.books := by
  cases he with
  | doomed hphase =>
      obtain ⟨hdoomed, hbooks⟩ := doomed_consumer hphase h
      exact ⟨.doomed hdoomed, hbooks⟩
  | leaving hphase hsink hstore =>
      cases herrands : p.errands with
      | cons errand rest =>
          rw [errand_consumer herrands h]
          exact ⟨.leaving hphase hsink ((Supervisor.store_run errand p.supervisor).trans hstore),
            rfl⟩
      | nil =>
          simp only [Pipeline.stepConsumer?, herrands, hphase, Option.some.injEq] at h
          subst h
          rcases hclose : p.sink.close p.store with ⟨result, after, later⟩
          rw [hsink, hstore] at hclose
          simp only [Pipeline.closeSink, hsink, hstore, hclose]
          cases result with
          | error failure =>
              exact ⟨.doomed (@ConsumerPhase.Doomed.closing p.books.summary _ _ .dismissing), rfl⟩
          | ok _ => exact ⟨.closed .dismissing hclose, rfl⟩
  | closed hphase hclosed =>
      obtain ⟨⟨hbooks, hsink, hstore⟩, later, hclosing⟩ := closing_consumer hphase h
      refine ⟨?_, hbooks⟩
      cases later with
      | error failure => exact .doomed (.closing failure hclosing)
      | ok _ => exact .closed hclosing (by rw [hclosed, hsink, hstore])

theorem emptyHanded_of_ends (he : Ends sink store p) : p.phase.inHand = [] := by
  have hclosing {summary : Report.Summary} {sofar : Except Failure Unit} {phase : ConsumerPhase}
      (h : phase.Closing summary sofar) : phase.inHand = [] := by
    cases h <;> rfl
  cases he with
  | doomed hphase =>
      generalize p.phase = phase at hphase
      cases hphase with
      | closing failure h => exact hclosing h
      | closingSink _ | fallen _ => rfl
  | leaving hphase => rw [hphase]; rfl
  | closed hphase => exact hclosing hphase

theorem sated_consumer (hs : Sated order limit taken p) (h : p.stepConsumer? = some q) :
    Sated order limit (taken ++ p.consumes) q := by
  obtain ⟨htold, sink, store, htally, hends⟩ := hs
  obtain ⟨hends', hbooks⟩ := ends_consumer hends h
  rw [Pipeline.consumes_of_emptyHanded (emptyHanded_of_ends hends), List.append_nil]
  exact ⟨htold, sink, store, hbooks ▸ htally, hends'⟩

/-! ### Every move -/

/-- The stages of a run under a limit, with the batches that were consumed. -/
inductive Watched (order : Order) (limit : Option Nat) (taken : List (SplitBatch Record))
    (run : Run) : Prop
  | dealing {lost : String → List (Option Record)} (hphase : run.pipeline.phase = .listening)
      (herrands : run.pipeline.errands = [])
      (htally : Tally limit order.sink order.files taken run.pipeline.sink run.pipeline.store
        run.pipeline.books)
      (hserves : run.pipeline.supervisor.Serves (splitBooks order.job) order.job run.dealing taken
        lost)
  | supplied (hdealt : run.dealing = []) (h : Supplied order limit taken run.pipeline)
  | sated (hdealt : run.dealing = []) (h : Sated order limit taken run.pipeline)

/-- A thread's step, or the end of its nap, changes nothing but the supervisor. -/
theorem watched_beside {supervisor : Supervisor Backend} (hw : Watched order limit taken run)
    (hstore : supervisor.depot.store = run.pipeline.store)
    (hserves : ∀ {tasks lost},
      run.pipeline.supervisor.Serves (splitBooks order.job) order.job tasks taken lost →
        ∃ lost, supervisor.Serves (splitBooks order.job) order.job tasks taken lost)
    (hsupplies : ∀ {taken}, run.pipeline.supervisor.Supplies order.job taken →
      supervisor.Supplies order.job taken) :
    Watched order limit taken { run with pipeline := { run.pipeline with supervisor } } := by
  cases hw with
  | dealing hphase herrands htally hserving =>
      obtain ⟨lost, hafter⟩ := hserves hserving
      exact .dealing hphase herrands (by rwa [← hstore] at htally) hafter
  | supplied hdealt h =>
      obtain ⟨htakes, herrands, htally, hsupply⟩ := h
      exact .supplied hdealt ⟨htakes, herrands, by rwa [← hstore] at htally, hsupplies hsupply⟩
  | sated hdealt h =>
      obtain ⟨htold, sink, store, htally, hends⟩ := h
      refine .sated hdealt ⟨htold, sink, store, htally, ?_⟩
      cases hends with
      | doomed hphase => exact .doomed hphase
      | leaving hphase hsink hsame => exact .leaving hphase hsink (hstore.trans hsame)
      | closed hphase hclosed => exact .closed hphase (by rwa [← hstore] at hclosed)

theorem watched_thread {fetcher : Nat} {disturbed : List Bool} (hjob : order.job.IsProper)
    (hw : Watched order limit taken run) (h : run.step (.thread fetcher disturbed) = some next) :
    Watched order limit taken next := by
  obtain ⟨supervisor, hstep, rfl⟩ := Option.map_eq_some_iff.1 h
  refine watched_beside hw (Supervisor.frame_of_stepThread? hstep).2 (fun hserves => ?_)
    fun hsupplies => Supervisor.supplies_thread hsupplies hstep
  obtain ⟨_, hafter, -⟩ :=
    Supervisor.serves_thread (Supervisor.splitBooks_orderly hjob.once) hserves hstep
  exact ⟨_, hafter⟩

theorem watched_timeOut {fetcher : Nat} (hjob : order.job.IsProper)
    (hw : Watched order limit taken run) (h : run.step (.timeOut fetcher) = some next) :
    Watched order limit taken next := by
  obtain ⟨sleeper, hfound, rfl⟩ := Option.map_eq_some_iff.1 h
  have hnudge : (run.pipeline.supervisor.run (.nudge fetcher .rouse)).2 =
      run.pipeline.supervisor.replace sleeper.timeOut := by
    simp only [Supervisor.run, hfound]
    rfl
  refine watched_beside hw ?_ (fun hserves => ?_) fun hsupplies => ?_
  · rw [← hnudge]
    exact Supervisor.store_run _ _
  · rw [← hnudge]
    exact ⟨_, Supervisor.serves_rouse (Supervisor.splitBooks_orderly hjob.once) hserves⟩
  · rw [← hnudge]
    exact Supervisor.supplies_run hsupplies trivial

/-- The consumer begins when all splits were dealt. -/
theorem watched_work (hjob : order.job.IsProper) (hw : Watched order limit taken run)
    (h : run.step .work = some next) :
    Watched order limit (taken ++ run.consumes .work) next := by
  cases hdealing : run.dealing with
  | nil =>
      simp only [step, hdealing, Option.map_eq_some_iff] at h
      obtain ⟨q, hstep, rfl⟩ := h
      simp only [consumes, hdealing, List.isEmpty_nil, ↓reduceIte]
      have hafter : Supplied order limit (taken ++ run.pipeline.consumes) q ∨
          Sated order limit (taken ++ run.pipeline.consumes) q := by
        cases hw with
        | dealing hphase herrands htally hserves =>
            rw [hdealing] at hserves
            have hhand : taken ++ run.pipeline.phase.inHand = taken := by
              simp [hphase, ConsumerPhase.inHand]
            refine supplied_consumer ⟨by rw [hphase]; rfl, by simp [herrands], htally, ?_⟩ hstep
            rw [hhand]
            exact Supervisor.supplies_of_serves hserves
        | supplied _ h => exact supplied_consumer h hstep
        | sated _ h => exact .inr (sated_consumer h hstep)
      rcases hafter with hsupplied | hsated
      · exact .supplied rfl hsupplied
      · exact .sated rfl hsated
  | cons task later =>
      cases hw with
      | supplied hdealt _ | sated hdealt _ => simp [hdealing] at hdealt
      | dealing hphase herrands htally hserves =>
          rw [hdealing] at hserves
          obtain ⟨more, hmore, hserves'⟩ := Supervisor.serves_perform hjob.feasible
            (Supervisor.splitBooks_orderly hjob.once) hserves
          have hstore := Supervisor.store_perform task run.pipeline.supervisor
          rcases hperform : run.pipeline.supervisor.perform task with ⟨result, supervisor⟩
          rw [hperform] at hmore hserves' hstore
          obtain rfl : result = .ok more := hmore
          simp only [step, hdealing, hperform, Option.some.injEq] at h
          subst h
          simp only [consumes, hdealing, List.isEmpty_cons, Bool.false_eq_true, ↓reduceIte,
            List.append_nil]
          have hsame : supervisor.depot.store = run.pipeline.store := hstore
          rw [← hsame] at htally
          exact .dealing hphase herrands htally hserves'

theorem watched_step (hjob : order.job.IsProper) (hw : Watched order limit taken run)
    (h : run.step move = some next) :
    Watched order limit (taken ++ run.consumes move) next := by
  cases move with
  | work => exact watched_work hjob hw h
  | thread fetcher disturbed =>
      rw [consumes, List.append_nil]
      exact watched_thread hjob hw h
  | timeOut fetcher =>
      rw [consumes, List.append_nil]
      exact watched_timeOut hjob hw h
  | late =>
      obtain rfl := Option.some.inj h
      rw [consumes, List.append_nil]
      cases hw with
      | dealing hphase herrands htally hserves => exact .dealing hphase herrands htally hserves
      | supplied hdealt h =>
          exact .supplied hdealt ⟨h.takes, h.errands, h.tally, h.supplies⟩
      | sated hdealt h =>
          obtain ⟨htold, sink, store, htally, hends⟩ := h
          refine .sated hdealt ⟨htold, sink, store, htally, ?_⟩
          cases hends with
          | doomed hphase => exact .doomed hphase
          | leaving hphase hsink hstore => exact .leaving hphase hsink hstore
          | closed hphase hclosed => exact .closed hphase hclosed

theorem watched_beginning {settings : Settings} {source : String} {expected : Nat}
    (hjob : order.job.IsProper) (hsort : order.sort = settings.source.sort) :
    Watched order settings.runtime.recordLimit [] (beginning settings order source expected) :=
  .dealing rfl rfl (tally_nil _ _ _ rfl rfl) (serves_beginning hjob hsort)

/-! ### The result -/

/-- What was consumed is in the books, its lines were sent, and when the run is over with a summary
the sink was closed after that. -/
theorem tally_of_watched (hw : Watched order limit taken run) :
    Told order taken ∧ ∃ sink store,
      Tally limit order.sink order.files taken sink store run.pipeline.books ∧
        ∀ summary, run.pipeline.phase = .over (.ok summary) →
          summary = run.pipeline.books.summary ∧
            sink.close store = (.ok (), run.pipeline.sink, run.pipeline.store) := by
  cases hw with
  | dealing hphase herrands htally hserves =>
      refine ⟨⟨fun batch hmem => ?_, fun id => ?_⟩, _, _, htally, fun summary hover => ?_⟩
      · exact hserves.neat batch (List.mem_append_left _ hmem)
      · obtain ⟨-, owner, rest, -, -, hsum⟩ := hserves.right id
        change _ <+: Split.due order.job.files id order.job.splits
        rw [← hsum, Supervisor.told, List.flatMap_append, List.append_assoc]
        exact List.prefix_append _ _
      · cases hphase.symm.trans hover
  | supplied hdealt h =>
      refine ⟨told_of_supplied h, _, _, h.tally, fun summary hover => ?_⟩
      simpa [hover, ConsumerPhase.isTaking, ConsumerPhase.isFeeding] using h.takes
  | sated hdealt h =>
      obtain ⟨htold, sink, store, htally, hends⟩ := h
      refine ⟨htold, sink, store, htally, fun summary hover => ?_⟩
      cases hends with
      | doomed hphase => exact absurd hphase (not_doomed_of_over hover)
      | leaving hphase => cases hphase.symm.trans hover
      | closed hphase hclosed =>
          exact ⟨ConsumerPhase.summary_of_closing (hover ▸ hphase), hclosed⟩

/-- A run over ranges or over files that can be read and are not what the sink writes to, with any
record limit and in any order of the steps of threads and consumer, at any time: of the batches that
were consumed, the records that come within the limit were sent to the sink, and when the run is
over with a summary, the sink was closed after them and the summary names the splits that the books
call finished.  These splits were sent as a whole, and nothing of them dropped, exactly if no batch
without records has ended a split of which a record was dropped; over ranges that is always so. -/
theorem finished_in_full_iff_not_ends_late {settings : Settings} {store : FileStore}
    {order : Order} {run last : Run} (moves : List Move) (horder : IsOrder settings store order)
    (hjob : order.job.IsProper) (hopened : opened settings store = .ok run)
    (hrun : Course.follow step moves run = some last) :
    (∃ filled meanwhile,
      SentLines (within settings.runtime.recordLimit (entriesIn (consumed moves run)))
        order.sink order.files filled meanwhile ∧
      ∀ summary, last.pipeline.phase = .over (.ok summary) →
        summary = last.pipeline.books.summary ∧
          filled.close meanwhile = (.ok (), last.pipeline.sink, last.pipeline.store)) ∧
    (FinishedInFull order settings.runtime.recordLimit (consumed moves run)
        last.pipeline.books ↔
      ¬ EndsLate settings.runtime.recordLimit (consumed moves run)) ∧
    (order.sort = .ranges →
      FinishedInFull order settings.runtime.recordLimit (consumed moves run)
        last.pipeline.books) := by
  obtain ⟨source, expected, rfl⟩ := eq_of_opened horder hopened
  have hwatched : Watched order settings.runtime.recordLimit
      ([] ++ consumed moves (beginning settings order source expected)) last :=
    Course.follow_gathers (fun taken run => Watched order settings.runtime.recordLimit taken run)
      (watched_step hjob) hrun (watched_beginning hjob horder.sort)
  obtain ⟨htold, sink, store, htally, hover⟩ := tally_of_watched hwatched
  have hiff := finishedInFull_iff hjob.once htold htally
  exact ⟨⟨sink, store, htally.sent, hover⟩, hiff,
    fun hranges => hiff.2 (not_endsLate_of_ranges hjob htold hranges)⟩

/-- One range of two records, fetched at once, of which only one may be sent. -/
def frugal : Settings where
  source := .ranges { splits := 1, recordsPerSplit := 2, limits := { maxRecords := 2 } }
  sink := .memory
  runtime := { queueCapacity := 1, recordLimit := some 1 }

/-- What it comes to. -/
def frugalOrder : Order :=
  ⟨.empty, .memory [], .ranges, [.range ⟨"range-0", 0, 2⟩]⟩

/-- A course on which thread and consumer wait for each other. -/
def frugalCourse : List Move :=
  List.replicate 6 .work ++ List.replicate 22 (.thread 0 []) ++ List.replicate 5 .work ++
    List.replicate 7 (.thread 0 []) ++ List.replicate 7 .work ++
    List.replicate 5 (.thread 0 []) ++ List.replicate 13 .work

/-- The range is not called finished, as a record of it is dropped. -/
theorem frugal_run_finished_in_full :
    ∃ run last summary, opened frugal .empty = .ok run ∧
      Course.follow step frugalCourse run = some last ∧
        last.pipeline.phase = .over (.ok summary) ∧
          beyond (some 1) (entriesIn (consumed frugalCourse run)) ≠ [] ∧
            FinishedInFull frugalOrder (some 1) (consumed frugalCourse run)
              last.pipeline.books := by
  have horder : IsOrder frugal .empty frugalOrder := ⟨rfl, rfl, rfl⟩
  have hjob : frugalOrder.job.IsProper :=
    ⟨by decide, List.forall_mem_singleton.2 ⟨rfl, by decide⟩, List.forall_mem_singleton.2 trivial⟩
  refine ⟨_, _, _, rfl, rfl, rfl, by decide, ?_⟩
  exact (finished_in_full_iff_not_ends_late frugalCourse horder hjob rfl rfl).2.1.2 (by decide)

/-- One file of two lines, fetched at once, of which only one may be sent. -/
def cramped : Settings where
  source := .files { files := ["a"], limits := { maxRecords := 2 } }
  sink := .memory
  runtime := { recordLimit := some 1 }

/-- The file. -/
def twoLines : FileStore := FileStore.empty.provide "a" (.file [120, 10, 121, 10])

/-- What it comes to. -/
def crampedOrder : Order :=
  ⟨twoLines, .memory [], .files, [.file (FileSplit.ofPath "a")]⟩

/-- A course on which the end mark is in the queue before the consumer begins. -/
def crampedCourse : List Move :=
  List.replicate 6 .work ++ List.replicate 42 (.thread 0 []) ++ List.replicate 5 .work ++
    List.replicate 7 (.thread 0 []) ++ List.replicate 10 .work ++
    List.replicate 5 (.thread 0 []) ++ List.replicate 13 .work

/-- Both ends of a course, if the run can be opened and the course be followed. -/
def ends? (settings : Settings) (store : FileStore) (moves : List Move) : Option (Run × Run) :=
  match opened settings store with
  | .ok run => (Course.follow step moves run).map (run, ·)
  | .error _ => none

/-- Whether a summary names a split of which an entry was dropped. -/
def namesDropped (dropped : List (String × Record)) : ConsumerPhase → Bool
  | .over (.ok summary) => dropped.any (summary.finishedSplits.contains ·.1)
  | _ => false

/-- The summary calls the file finished, though its second line was dropped. -/
theorem cramped_run_finished_early :
    IsOrder cramped twoLines crampedOrder ∧ crampedOrder.job.IsProper ∧
      ∃ run last summary, opened cramped twoLines = .ok run ∧
        Course.follow step crampedCourse run = some last ∧
          last.pipeline.phase = .over (.ok summary) ∧
            ∃ entry ∈ beyond (some 1) (entriesIn (consumed crampedCourse run)),
              entry.1 ∈ summary.finishedSplits := by
  have hreadable : (Split.file (FileSplit.ofPath "a")).IsReadable twoLines := by decide +kernel
  have hopens : twoLines.openRead "a" = .ok 6 := by decide +kernel
  have hjob : crampedOrder.job.IsProper :=
    ⟨by decide, List.forall_mem_singleton.2 ⟨rfl, hreadable⟩,
      List.forall_mem_singleton.2 ⟨6, hopens, trivial⟩⟩
  refine ⟨⟨rfl, rfl, rfl⟩, hjob, ?_⟩
  have hends : (ends? cramped twoLines crampedCourse).any (fun ends => namesDropped
      (beyond (some 1) (entriesIn (consumed crampedCourse ends.1)))
      ends.2.pipeline.phase) = true := by
    decide +kernel
  obtain ⟨⟨run, last⟩, hcourse, hlate⟩ := (Option.any_eq_true _ _).1 hends
  unfold ends? at hcourse
  split at hcourse
  · next hopened =>
      obtain ⟨_, hrun, hboth⟩ := Option.map_eq_some_iff.1 hcourse
      obtain ⟨rfl, rfl⟩ := Prod.mk.inj hboth
      unfold namesDropped at hlate
      split at hlate
      · next summary hover =>
          obtain ⟨entry, hdropped, hfinished⟩ := List.any_eq_true.1 hlate
          exact ⟨_, _, summary, hopened, hrun, hover, entry, hdropped, by simpa using hfinished⟩
      · cases hlate
  · cases hcourse

end Run

end SplitFeed
