/-
# What a fetcher tells the queue of a split

However a fetcher is heckled, it tells the queue of a split that nobody takes away nothing but a
front part of the split's news.  As long as the queue is open and the thread goes on, what was told
and what is owed are together all of the news, from the time when the split is taken on; what is
lost after that is lost at the end.

So the records come in order, none is left out or repeated, and the end mark comes at most once and
only behind all of them.
-/
import SplitFeed.Proofs.Fetcher.Account

namespace SplitFeed.Station

/-- The splits that a move adds. -/
def Move.added : Move → List Split
  | ask (.addSplits splits) => splits
  | _ => []

/-- The splits that moves add can be told apart, suit the reader and can be read, and the files stay
as they are. -/
structure AreFair (store : FileStore) (sort : ReaderSort) (moves : List Move) : Prop where
  once : ((moves.flatMap Move.added).map Split.id).Nodup
  fit : ∀ split ∈ moves.flatMap Move.added, split.sort = sort ∧ split.IsReadable store
  still : ∀ store, .files store ∉ moves

/-- A move takes a split away from the fetcher. -/
def Takes (id : String) (station : Station Backend) : Move → Prop
  | .ask (.removeSplits ids) => ∃ split ∈ station.fetcher.duty.named ids, split.id = id
  | _ => False

instance (id : String) (station : Station Backend) (move : Move) :
    Decidable (station.Takes id move) :=
  match move with
  | .ask (.removeSplits ids) =>
    inferInstanceAs (Decidable (∃ split ∈ station.fetcher.duty.named ids, split.id = id))
  | .ask (.addSplits _) | .ask (.wakeUp _) | .ask .pause | .ask .resume | .ask (.stop _)
  | .ask .releaseLatch | .cycle | .loop | .thread _ | .timeOut | .nudge _ | .queue _ | .files _ =>
    isFalse not_false

/-- While the queue is open, nothing goes wrong for a split, and what was told and what is owed of
it are together what is due. -/
structure Open (store : FileStore) (sort : ReaderSort) (id : String) (due : List (Option Record))
    (station : Station Backend) : Prop where
  faithful : station.fetcher.Faithful store sort id
  accountable : station.fetcher.Accountable store id
  balance : station.fetcher.phase.isOut = false →
    station.sent.flatMap (·.news id) ++ station.fetcher.owed store id = due

/-- What was told of a split is a front part of what is due. -/
structure Tells (store : FileStore) (sort : ReaderSort) (id : String) (due : List (Option Record))
    (station : Station Backend) : Prop where
  files : station.depot.store = store
  told : station.sent.flatMap (·.news id) <+: due
  goesOn : station.depot.queue.closed = false → station.Open store sort id due

variable {store : FileStore} {sort : ReaderSort} {id : String} {due : List (Option Record)}
  {station next last : Station Backend} {move : Move} {moves : List Move}

/-! ### What every move keeps -/

/-- A station goes on telling of a split if its fetcher owes the same as before. -/
theorem tells_congr (hs : station.Tells store sort id due) (hsent : next.sent = station.sent)
    (hfiles : next.depot.store = station.depot.store)
    (hopen : next.depot.queue.closed = false → station.depot.queue.closed = false)
    (hfaithful : station.fetcher.Faithful store sort id → next.fetcher.Faithful store sort id)
    (haccountable : station.fetcher.Accountable store id → next.fetcher.Accountable store id ∧
      next.fetcher.owed store id = station.fetcher.owed store id)
    (hin : next.fetcher.phase.isOut = false → station.fetcher.phase.isOut = false) :
    next.Tells store sort id due where
  files := hfiles.trans hs.files
  told := hsent ▸ hs.told
  goesOn hclosed := by
    obtain ⟨hf, ha, hbalance⟩ := hs.goesOn (hopen hclosed)
    obtain ⟨ha', howed⟩ := haccountable ha
    refine ⟨hfaithful hf, ha', fun hout => ?_⟩
    rw [hsent, howed]
    exact hbalance (hin hout)

/-- The thread tells what it owes, from the front. -/
theorem tells_thread {disturbed : List Bool} (hs : station.Tells store sort id due)
    (h : station.step (.thread disturbed) = some next) : next.Tells store sort id due := by
  obtain ⟨hadvance, hsent⟩ := step_thread h
  have hadvanced := Fetcher.advanced hadvance
  cases hclosed : station.depot.queue.closed with
  | true =>
      obtain ⟨hstill, hsame⟩ := closed_step hclosed h
      exact ⟨hadvanced.store.trans hs.files, hsame ▸ hs.told,
        fun hopen => by simp [hstill] at hopen⟩
  | false =>
      obtain ⟨hf, ha, hbalance⟩ := hs.goesOn hclosed
      have hsame : SplitReader.fetch station.depot.store disturbed station.fetcher.reader =
          SplitReader.fetch store disturbed station.fetcher.reader := by rw [hs.files]
      have howed := Fetcher.owed_advance hf hclosed hsame ha.story hadvance
      refine ⟨hadvanced.store.trans hs.files, ?_, fun _ =>
        ⟨Fetcher.faithful_advance hf hclosed hsame hadvance,
          Fetcher.accountable_advance ha hf hclosed hsame hadvance, fun hin => ?_⟩⟩
      · rw [hsent, List.flatMap_append]
        cases hout : station.fetcher.phase.isOut with
        | true =>
            rw [Fetcher.owed_of_out hout, List.append_eq_nil_iff] at howed
            rw [howed.1, List.append_nil]
            exact hs.told
        | false =>
            rw [← hbalance hout, ← howed, ← List.append_assoc]
            exact List.prefix_append _ _
      · rw [hin, if_neg (by simp), List.append_nil] at howed
        rw [hsent, List.flatMap_append, List.append_assoc, howed]
        exact hbalance (Fetcher.in_of_advance hadvance hin)

/-- Splits that are added are due from then on, if the fetcher takes them on. -/
theorem tells_addSplits {splits : List Split} (hs : station.Tells store sort id due)
    (honce : (splits.map Split.id).Nodup)
    (hfit : ∀ split ∈ splits, split.sort = sort ∧ split.IsReadable store)
    (hfree : Split.due store id splits ≠ [] → due = [])
    (h : station.step (.ask (.addSplits splits)) = some next) :
    next.Tells store sort id due ∨
      next.Tells store sort id (due ++ Split.due store id splits) := by
  obtain rfl := Option.some.inj h
  have hfaithful (hf : station.fetcher.Faithful store sort id) :
      ((Request.addSplits splits).enact station.fetcher).1.Faithful store sort id :=
    Fetcher.faithful_enact hf hfit
  by_cases hrefuses : station.fetcher.duty.refuses = true
  · have hsame : ((Request.addSplits splits).enact station.fetcher).1 = station.fetcher := by
      simp [Request.enact, hrefuses]
    refine .inl (tells_congr hs rfl rfl (fun h => h) hfaithful (fun ha => ?_) fun h => hsame ▸ h)
    exact ⟨hsame.symm ▸ ha, by rw [hsame]⟩
  · have hphase : ((Request.addSplits splits).enact station.fetcher).1.phase =
        station.fetcher.phase := by
      simp only [Request.enact]
      split <;> rfl
    refine .inr ⟨hs.files, hs.told.trans (List.prefix_append _ _), fun hopen => ?_⟩
    obtain ⟨hf, ha, hbalance⟩ := hs.goesOn hopen
    cases hout : station.fetcher.phase.isOut with
    | true =>
        have hout' := (congrArg Phase.isOut hphase).trans hout
        exact ⟨hfaithful hf, ⟨.inl (Fetcher.owed_of_out hout'), fun hin => by simp [hout'] at hin⟩,
          fun hin => by simp [hout'] at hin⟩
    | false =>
        have hbefore := hbalance hout
        obtain ⟨ha', howed⟩ := Fetcher.accountable_addSplits ha hout (Bool.not_eq_true _ ▸ hrefuses)
          honce fun hdue => (List.append_eq_nil_iff.1 (hbefore.trans (hfree hdue))).2
        refine ⟨hfaithful hf, ha', fun _ => ?_⟩
        rw [howed, ← List.append_assoc, hbefore]

/-- Other requests make no difference, unless they take the split away. -/
theorem tells_ask {request : Request} (hs : station.Tells store sort id due)
    (hadds : ∀ splits, request ≠ .addSplits splits) (hkept : ¬ station.Takes id (.ask request))
    (h : station.step (.ask request) = some next) : next.Tells store sort id due := by
  obtain rfl := Option.some.inj h
  have hspares : request.Spares store sort id station.fetcher := by
    cases request with
    | addSplits splits => exact absurd rfl (hadds splits)
    | removeSplits ids => exact fun split hmem hid => hkept ⟨split, hmem, hid⟩
    | wakeUp _ | pause | resume | stop _ | releaseLatch => trivial
  have hphase : (request.enact station.fetcher).1.phase = station.fetcher.phase := by
    cases request with
    | addSplits splits => exact absurd rfl (hadds splits)
    | stop mode =>
        simp only [Request.enact]
        split <;> rfl
    | removeSplits _ | wakeUp _ | pause | resume | releaseLatch => rfl
  refine tells_congr hs rfl rfl (fun h => h) (fun hf => Fetcher.faithful_enact hf hspares)
    (fun ha => Fetcher.accountable_enact ha ?_ hadds) fun hin => hphase ▸ hin
  rintro ids rfl
  exact hspares

theorem tells_nudge (nudge : Nudge) (hs : station.Tells store sort id due)
    (h : station.step (.nudge nudge) = some next) : next.Tells store sort id due := by
  obtain rfl := Option.some.inj h
  refine tells_congr hs rfl ?_ ?_ (Fetcher.faithful_nudge nudge station.depot)
    (Fetcher.accountable_nudge nudge station.depot) ?_ <;> cases nudge <;>
      first | rfl | exact fun h => h

/-- A cycle that begins makes no difference. -/
theorem tells_begin {fetcher : Fetcher Backend} (hs : station.Tells store sort id due)
    (hmay : mayBegin station.fetcher = true)
    (hphase : fetcher.phase = .starting ∨ fetcher.phase = .deciding)
    (hleft : fetcher.leftover = station.fetcher.leftover)
    (hduty : fetcher.duty = station.fetcher.duty)
    (hreader : fetcher.reader = station.fetcher.reader) :
    Tells store sort id due { station with fetcher } := by
  exact tells_congr hs rfl rfl (fun h => h)
    (fun hf => Fetcher.faithful_begin hf hmay hphase hleft hduty hreader)
    (fun ha => Fetcher.accountable_begin ha hmay hphase hleft hduty hreader) fun _ =>
      Fetcher.isOut_of_mayBegin hmay

/-- Whatever happens, what was told of a split stays a front part of what is due; only splits that
are added can add to that. -/
theorem tells_step (hs : station.Tells store sort id due)
    (honce : (move.added.map Split.id).Nodup)
    (hfit : ∀ split ∈ move.added, split.sort = sort ∧ split.IsReadable store)
    (hstill : ∀ store, move ≠ .files store) (hkept : ¬ station.Takes id move)
    (hfree : Split.due store id move.added ≠ [] → due = []) (h : station.step move = some next) :
    next.Tells store sort id due ∨
      next.Tells store sort id (due ++ Split.due store id move.added) := by
  cases move with
  | cycle | loop =>
      simp only [step, Option.ite_none_right_eq_some, Option.some.injEq] at h
      obtain ⟨hmay, rfl⟩ := h
      refine .inl (tells_begin hs hmay ?_ rfl rfl rfl)
      simp [Fetcher.beginCycle, Fetcher.beginLoop, Fetcher.enter]
  | thread disturbed => exact .inl (tells_thread hs h)
  | timeOut => exact .inl (tells_nudge .rouse hs h)
  | ask request =>
      cases request with
      | addSplits splits => exact tells_addSplits hs honce hfit hfree h
      | _ => exact .inl (tells_ask hs (by simp) hkept h)
  | nudge nudge => exact .inl (tells_nudge nudge hs h)
  | queue move =>
      obtain rfl := Option.some.inj h
      refine .inl (tells_congr hs rfl rfl (fun hopen => ?_) (fun h => h) (fun h => ⟨h, rfl⟩)
        fun h => h)
      rw [← Bool.not_eq_true] at hopen ⊢
      exact fun hclosed => hopen (HandoffQueue.closed_apply hclosed)
  | files store => exact absurd rfl (hstill store)

/-! ### What a course tells -/

/-- On a course that does not take a split away, what is told of it are news that were due before or
those of the splits that are added, if these are one story together. -/
theorem told_follow (hs : station.Tells store sort id due) (hfair : AreFair store sort moves)
    (hkept : Course.Never step (Takes id) moves station) (hdue : IsStory due)
    (hstory : IsStory (due ++ Split.due store id (moves.flatMap Move.added)))
    (h : Course.follow step moves station = some last) :
    last.sent.flatMap (·.news id) <+: due ++ Split.due store id (moves.flatMap Move.added) := by
  induction moves generalizing station due with
  | nil =>
      obtain rfl := Option.some.inj h
      exact hs.told.trans (List.prefix_append _ _)
  | cons move moves ih =>
      obtain ⟨next, hstep, hrest⟩ := Course.follow_cons_eq_some.1 h
      obtain ⟨honce, hfit, hstill⟩ := hfair
      rw [List.flatMap_cons, List.map_append] at honce
      rw [List.flatMap_cons] at hfit
      rw [List.flatMap_cons, Split.due_append] at hstory ⊢
      obtain ⟨honce₁, honce₂, -⟩ := List.nodup_append.1 honce
      have hfair' : AreFair store sort moves :=
        ⟨honce₂, fun split hmem => hfit split (List.mem_append_right _ hmem),
          fun store hmem => hstill store (List.mem_cons_of_mem _ hmem)⟩
      have hkept' := (Course.never_cons hstep).1 hkept
      -- Whatever comes behind an end mark is nothing.
      have hfree : due ≠ [] → Split.due store id move.added = [] ∧
          Split.due store id (moves.flatMap Move.added) = [] := fun hne =>
        List.append_eq_nil_iff.1 (hstory.eq_nil_of_none_mem (hdue.none_mem hne))
      have hstep' := tells_step hs honce₁
        (fun split hmem => hfit split (List.mem_append_left _ hmem))
        (fun store hmove => hstill store (hmove ▸ List.mem_cons_self)) hkept'.1
        (fun hne => by_contra fun hdue => hne (hfree hdue).1) hstep
      rcases hstep' with hsame | hmore
      · by_cases hnone : Split.due store id move.added = []
        · rw [hnone, List.nil_append] at hstory ⊢
          exact ih hsame hfair' hkept'.2 hdue hstory hrest
        · -- The split was refused, and it is not added again.
          obtain rfl : due = [] := by_contra fun hne => hnone (hfree hne).1
          have hlater : Split.due store id (moves.flatMap Move.added) = [] := by
            rw [List.nil_append] at hstory
            refine hstory.eq_nil_of_none_mem ?_
            exact (Split.isStory_due store id honce₁).none_mem hnone
          have htold := ih hsame hfair' hkept'.2 hdue (by rw [hlater]; exact .inl rfl) hrest
          rw [hlater, List.append_nil] at htold
          exact htold.trans List.nil_prefix
      · rw [← List.append_assoc] at hstory ⊢
        refine ih hmore hfair' hkept'.2 ?_ hstory hrest
        by_cases hnone : due = []
        · rw [hnone, List.nil_append]
          exact Split.isStory_due store id honce₁
        · rw [(hfree hnone).1, List.append_nil]
          exact hdue

/-- A station that was just made tells nothing. -/
theorem tells_fresh {reader : Backend} (hnew : reader.IsNew) (number : Nat) (depot : Depot)
    (id : String) : (fresh number reader depot).Tells depot.store reader.sort id [] := by
  have hunbooked : (fresh number reader depot).fetcher.unbooked depot.store id = [] := by
    simp [fresh, Fetcher.unbooked, Fetcher.fetched, Fetcher.unheard, Backend.outlook_of_isNew hnew]
  have howed : (fresh number reader depot).fetcher.owed depot.store id = [] := by
    rw [Fetcher.owed_of_in rfl, hunbooked]
    rfl
  refine ⟨rfl, List.nil_prefix, fun _ => ⟨⟨Fetcher.coherent_new number reader, ?_, rfl, ?_, ?_⟩,
    ⟨.inl howed, fun _ => ?_⟩, fun _ => ?_⟩⟩
  · exact ⟨rfl, by simp [fresh], by simp [fresh], by simp [fresh]⟩
  · simp [fresh, Fetcher.unheard]
  · refine fun _ => ⟨Backend.keeps_of_isNew hnew, ?_, fun _ => Backend.replay_of_isNew hnew⟩
    simp [fresh, Backend.replay_of_isNew hnew]
  · rw [hunbooked]
    simp [fresh]
  · rw [howed]
    rfl

/-- A fetcher over a new reader, on any course of cycles, requests, wake-ups and whatever others do
to the queue: of a split that was added once and never taken away, the batches that were put into
the queue tell its records in order, from the first one on and none twice; they tell its end mark at
most once, and only if they tell all its records. -/
theorem split_told_in_order {reader : Backend} {depot : Depot} {moves : List Move}
    {last : Station Backend} {split : Split} (number : Nat) (hnew : reader.IsNew)
    (hfair : AreFair depot.store reader.sort moves)
    (hadded : split ∈ moves.flatMap Move.added)
    (hkept : Course.Never step (Takes split.id) moves (fresh number reader depot))
    (h : Course.follow step moves (fresh number reader depot) = some last) :
    SplitBatch.recordsOf split.id last.sent <+: split.records depot.store ∧
      (last.sent.filter (·.finished.contains split.id)).length ≤ 1 ∧
      ((∃ batch ∈ last.sent, batch.finished.contains split.id = true) →
        SplitBatch.recordsOf split.id last.sent = split.records depot.store) := by
  have hdue : Split.due depot.store split.id (moves.flatMap Move.added) = split.news depot.store :=
    Split.due_eq_news hfair.once hadded
  have htold := told_follow (tells_fresh hnew number depot split.id) hfair hkept (.inl rfl)
    (by simpa [hdue] using Split.isStory_news depot.store split) h
  rw [List.nil_append, hdue] at htold
  exact SplitBatch.told_of_front htold

/-- A fetcher of one record at a time, with room for one batch. -/
def narrow : Station Backend := fresh 0 (.ranges (.withLimits 1 0)) { queue := .ofCapacity 1 }

/-- A wake-up spoils the first fetch, one of two splits is taken away, and the queue is full when
the end mark of the other one comes. -/
def heckledCourse : List Move :=
  [.ask (.addSplits [.range ⟨"a", 0, 2⟩, .range ⟨"b", 0, 1⟩]), .cycle] ++
    List.replicate 6 (.thread []) ++ [.nudge .requestWake] ++ List.replicate 3 (.thread []) ++
    [.ask (.removeSplits ["b"]), .cycle] ++ List.replicate 10 (.thread []) ++ [.cycle] ++
    List.replicate 8 (.thread []) ++ [.queue .poll] ++ List.replicate 3 (.thread [])

/-- On that course the split that stays is told to its end. -/
theorem heckled_split_told :
    ∃ last : Station Backend, Course.follow step heckledCourse narrow = some last ∧
      (∃ batch ∈ last.sent, batch.finished.contains "a" = true) ∧
      SplitBatch.recordsOf "a" last.sent = (Split.range ⟨"a", 0, 2⟩).records .empty := by
  have hfair : AreFair narrow.depot.store .ranges heckledCourse :=
    ⟨by decide, by decide, fun store => by simp [heckledCourse]⟩
  have hadded : .range ⟨"a", 0, 2⟩ ∈ heckledCourse.flatMap Move.added := by decide
  have hkept : Course.Never step (Takes "a") heckledCourse narrow := by decide
  have hnew : (Backend.ranges (.withLimits 1 0)).IsNew := rfl
  exact ⟨_, rfl, by decide, (split_told_in_order 0 hnew hfair hadded hkept rfl).2.2 (by decide)⟩

end SplitFeed.Station
