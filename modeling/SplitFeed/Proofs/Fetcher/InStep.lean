/-
# When a fetcher and its reader agree on the splits

A fetcher keeps a list of its splits, and its reader keeps a roll of them.  Requests change the list
at once; the reader hears of it in the next cycle, and the thread takes the splits that ended off
the list when it books a batch.  The two are in step if the roll that the reader will have, once the
batch at hand is given back and all changes are heard, names the splits on the list, in their order.

The thread books by id.  A split that ended with the batch, was taken away and taken on again since
the thread saw that no wake-up raced the fetch, is taken off the list although its reader will read
it again.  Such a booking, and a split of the wrong sort, are all that brings a fetcher out of step.
-/
import SplitFeed.Proofs.Fetcher.Account
import SplitFeed.Proofs.Fetcher.Suited
import SplitFeed.Proofs.Reading.Roll

namespace SplitFeed

namespace Fetcher

/-- The reader as it will be once it has the fetched batch back and has heard of all changes. -/
def prospect (f : Fetcher Backend) : Backend :=
  (f.fetched.elim f.reader f.reader.rewind).heard f.unheard

/-- The reader will have the splits of the fetcher's list on its roll, in order, each of them once.
A thread that is about to close its reader has no use for that any more. -/
def InStep (f : Fetcher Backend) : Prop :=
  f.phase.isOut = false →
    f.prospect.roll = f.duty.assigned.map Split.id ∧ (f.duty.assigned.map Split.id).Nodup

/-- The thread is about to take a split off the list that the reader will have on its roll: it ended
with the fetched batch and was taken on again since. -/
def Misbooks (f : Fetcher Backend) : Prop :=
  ∃ batch, f.phase = .booking batch ∧ ∃ split ∈ f.duty.assigned,
    split.id ∈ batch.finished.toList ∧ ∃ change ∈ f.duty.pending, change.adds split.id = true

/-- The end marks of the batch that was fetched and is not booked yet. -/
def marks (f : Fetcher Backend) : List String :=
  f.fetched.elim [] (·.finished.toList)

/-- What keeps a fetcher in step: its splits suit its reader, no two batches came back, and the
changes that the reader has not heard of lead from the end marks in the thread's hand and the
reader's roll to the list. -/
structure Steady (sort : ReaderSort) (f : Fetcher Backend) : Prop where
  suited : f.Suited sort
  admitting : f.reader.Admitting
  replay : f.reader.replay.length ≤ 1
  hand : ∀ batch ∈ f.fetched, f.reader.replay = [] ∧
    ∀ id ∈ batch.finished.toList, f.reader.admits id = true
  once : (f.marks ++ f.reader.roll).Nodup
  leads : Leads f.unheard (f.marks ++ f.reader.roll) (f.duty.assigned.map Split.id)

variable {sort : ReaderSort} {f g : Fetcher Backend} {d e : Depot} {disturbed : List Bool}

/-- All changes that the reader has not heard of suit it. -/
theorem suits_unheard (hf : f.Suited sort) :
    ∀ change ∈ f.unheard, Backend.Suits f.reader.sort change := by
  intro change hchange
  rw [hf.reader]
  rcases List.mem_append.1 hchange with hhanding | hpending
  · split at hhanding
    · next changes hphase => exact hf.handing hphase change hhanding
    · cases hhanding
  · exact hf.pending change hpending

/-- The reader when it has the fetched batch back. -/
theorem roll_given_back (hf : f.Steady sort) :
    (f.fetched.elim f.reader f.reader.rewind).roll = f.marks ++ f.reader.roll ∧
      (f.fetched.elim f.reader f.reader.rewind).Admitting ∧
      (f.fetched.elim f.reader f.reader.rewind).sort = f.reader.sort := by
  have hback := hf.hand
  rw [marks]
  cases hhand : f.fetched with
  | none => exact ⟨rfl, hf.admitting, rfl⟩
  | some batch =>
      obtain ⟨hreplay, hadmits⟩ := hback batch hhand
      have hroll := Backend.roll_rewind hreplay hadmits
      refine ⟨hroll, fun id hid => ?_, Backend.sort_rewind rfl⟩
      rw [Option.elim_some, hroll, List.mem_append] at hid
      rw [Option.elim_some, Backend.admits_rewind]
      exact hid.elim (hadmits id) (hf.admitting id)

theorem inStep_of_steady (hf : f.Steady sort) : f.InStep := by
  intro _
  obtain ⟨hroll, hadmitting, hsort⟩ := roll_given_back hf
  refine ⟨Backend.roll_heard ?_ hadmitting (hroll ▸ hf.leads), hf.leads.nodup hf.once⟩
  rw [hsort]
  exact suits_unheard hf.suited

/-! ### Calls into the reader -/

/-- A fetcher whose reader has the same on its roll, with the same list and the same on its way
between them, is as steady. -/
theorem steady_of_reader (hf : f.Steady sort) (hsuited : g.Suited sort)
    (hroll : g.reader.roll = f.reader.roll) (hreplay : g.reader.replay = f.reader.replay)
    (hadmits : ∀ id, g.reader.admits id = f.reader.admits id) (hfetched : g.fetched = f.fetched)
    (hunheard : g.unheard = f.unheard) (hassigned : g.duty.assigned = f.duty.assigned) :
    g.Steady sort where
  suited := hsuited
  admitting id hid := by rw [hadmits]; exact hf.admitting id (hroll ▸ hid)
  replay := hreplay ▸ hf.replay
  hand batch hbatch := by
    obtain ⟨hnone, hended⟩ := hf.hand batch (hfetched ▸ hbatch)
    exact ⟨hreplay.trans hnone, fun id hid => (hadmits id).trans (hended id hid)⟩
  once := by rw [marks, hfetched, hroll]; exact hf.once
  leads := by rw [marks, hfetched, hroll, hunheard, hassigned]; exact hf.leads

theorem steady_congr (hf : f.Steady sort) (hsuited : g.Suited sort)
    (hreader : g.reader = f.reader) (hfetched : g.fetched = f.fetched)
    (hunheard : g.unheard = f.unheard) (hassigned : g.duty.assigned = f.duty.assigned) :
    g.Steady sort :=
  steady_of_reader hf hsuited (by rw [hreader]) (by rw [hreader]) (fun id => by rw [hreader])
    hfetched hunheard hassigned

/-- A change that the reader hears of does to its roll what it did to the list. -/
theorem steady_hand {change : SplitsChange Split} {rest : List (SplitsChange Split)}
    {recycled : List Nat} {reader : Backend} (hf : f.Steady sort)
    (hphase : f.phase = .handing (change :: rest))
    (hcall : SplitReader.change change f.reader = (.returned (), recycled, reader))
    (hsuited : ({ f with reader, phase := .handing rest } : Fetcher Backend).Suited sort) :
    ({ f with reader, phase := .handing rest } : Fetcher Backend).Steady sort := by
  have hchanged := Backend.changed_of_returned (suits_of_hand hf.suited hphase) hcall
  have hleads := hf.leads
  have honce := hf.once
  simp only [marks, fetched, unheard, hphase, Option.elim_none, List.nil_append,
    List.cons_append] at hleads honce
  obtain ⟨hone, hadmitting⟩ := Backend.leads_changed hchanged hf.admitting hleads
  exact
    { suited := hsuited
      admitting := hadmitting
      replay := Nat.le_trans (Backend.replay_changed_le hchanged) hf.replay
      hand := by rintro _ ⟨⟩
      once := hone.nodup honce
      leads := hone.rest hleads }

/-- A fetched batch takes its end marks along. -/
theorem steady_fetch {batch : SplitBatch Record} {reader : Backend} (hf : f.Steady sort)
    (hphase : f.phase = .fetching)
    (hcall : SplitReader.fetch d.store disturbed f.reader = (.returned batch, reader))
    (hsuited : ({ f with reader, phase := .weighing batch } : Fetcher Backend).Suited sort) :
    ({ f with reader, phase := .weighing batch } : Fetcher Backend).Steady sort := by
  obtain ⟨hroll, hreplay, hadmits⟩ := Backend.fetched hcall
  have hleads := hf.leads
  have honce := hf.once
  simp only [marks, fetched, unheard, hphase, Option.elim_none, List.nil_append, ← hroll]
    at hleads honce
  have hmem : ∀ id ∈ batch.finished.toList ++ reader.roll, reader.admits id = true := by
    intro id hid
    rw [hadmits]
    exact hf.admitting id (hroll ▸ hid)
  have hnone : reader.replay = [] := by
    rw [hreplay, ← List.length_eq_zero_iff, List.length_tail]
    have := hf.replay
    omega
  refine ⟨hsuited, fun id hid => hmem id (List.mem_append_right _ hid), by simp [hnone], ?_, honce,
    hleads⟩
  rintro other ⟨⟩
  exact ⟨hnone, fun id hid => hmem id (List.mem_append_left _ hid)⟩

/-- A batch that goes back takes its end marks along. -/
theorem steady_rewind {batch : SplitBatch Record} (hf : f.Steady sort)
    (hphase : f.phase = .rewinding batch)
    (hsuited : ({ f with reader := f.reader.rewind batch, phase := .rewound } :
      Fetcher Backend).Suited sort) :
    ({ f with reader := f.reader.rewind batch, phase := .rewound } :
      Fetcher Backend).Steady sort := by
  obtain ⟨hreplay, hadmits⟩ := hf.hand batch (by simp [fetched, hphase])
  have hroll := Backend.roll_rewind hreplay hadmits
  have hleads := hf.leads
  have honce := hf.once
  simp only [marks, fetched, unheard, hphase, Option.elim_some, ← hroll] at hleads honce
  refine ⟨hsuited, fun id hid => ?_, Backend.replay_rewind_le hreplay, by rintro _ ⟨⟩,
    honce, hleads⟩
  rw [hroll, List.mem_append] at hid
  rw [Backend.admits_rewind]
  exact hid.elim (hadmits id) (hf.admitting id)

/-! ### Bookings -/

/-- The roll after a booking: what the changes make of it without the end marks of the batch.  It
is the list after the booking, unless a split that ended was taken on again. -/
theorem leads_book {batch : SplitBatch Record} (hf : f.Steady sort)
    (hphase : f.phase = .booking batch) :
    ∃ rest, Leads f.duty.pending f.reader.roll rest ∧
      (rest = (f.duty.book batch.finished).assigned.map Split.id ↔ ¬ f.Misbooks) := by
  have hleads := hf.leads
  have honce := hf.once
  simp only [marks, fetched, unheard, hphase, Option.elim_some, List.nil_append] at hleads honce
  obtain ⟨rest, hrest, -, hiff⟩ := hleads.done_with_front honce
  have hbooked : (f.duty.book batch.finished).assigned.map Split.id =
      (f.duty.assigned.map Split.id).filter
        fun id => !batch.finished.toList.contains id := by
    simp [Duty.book, List.filter_map, Function.comp_def, IdSet.contains]
  refine ⟨rest, hrest, ?_⟩
  rw [hbooked, hiff]
  constructor
  · rintro hnever ⟨other, hother, split, hsplit, hended, change, hchange, hadds⟩
    obtain rfl : batch = other := by simpa [hphase] using hother
    simp [hnever split.id (List.mem_map_of_mem hsplit) hended change hchange] at hadds
  · intro hbooks id hid hended change hchange
    obtain ⟨split, hsplit, rfl⟩ := List.mem_map.1 hid
    rw [← Bool.not_eq_true]
    exact fun hadds => hbooks ⟨batch, hphase, split, hsplit, hended, change, hchange, hadds⟩

theorem steady_book {batch : SplitBatch Record} (hf : f.Steady sort) (hbooks : ¬ f.Misbooks)
    (hphase : f.phase = .booking batch) (hsuited : g.Suited sort) (hreader : g.reader = f.reader)
    (hduty : g.duty = f.duty.book batch.finished) (hfetched : g.fetched = none)
    (hunheard : g.unheard = g.duty.pending) : g.Steady sort := by
  obtain ⟨rest, hrest, hiff⟩ := leads_book hf hphase
  obtain rfl := hiff.2 hbooks
  have hmarks : g.marks = [] := by rw [marks, hfetched, Option.elim_none]
  refine ⟨hsuited, hreader ▸ hf.admitting, hreader ▸ hf.replay, by simp [hfetched], ?_, ?_⟩
  · rw [hmarks, hreader, List.nil_append]
    exact (List.nodup_append.1 hf.once).2.1
  · rw [hmarks, hreader, List.nil_append, hunheard, hduty]
    exact hrest

/-- A booking that takes a split off the list which was taken on again leaves the fetcher out of
step. -/
theorem not_inStep_of_misbooks {batch : SplitBatch Record} (hf : f.Steady sort)
    (hbooks : f.Misbooks) (hphase : f.phase = .booking batch) (hreader : g.reader = f.reader)
    (hduty : g.duty = f.duty.book batch.finished) (hfetched : g.fetched = none)
    (hunheard : g.unheard = g.duty.pending) (hin : g.phase.isOut = false) : ¬ g.InStep := by
  obtain ⟨rest, hrest, hiff⟩ := leads_book hf hphase
  intro hstep
  refine (hiff.1 ?_) hbooks
  have hroll : g.prospect.roll = rest := by
    rw [prospect, hfetched, hunheard, hreader, hduty, Option.elim_none]
    refine Backend.roll_heard (fun change hchange => ?_) hf.admitting hrest
    rw [hf.suited.reader]
    exact hf.suited.pending change hchange
  rw [← hroll, (hstep hin).1, hduty]

/-- A thread that books a batch changes nothing but the books. -/
theorem booked_of_advance {batch : SplitBatch Record} (hphase : f.phase = .booking batch)
    (h : Advance disturbed f d g e) :
    g.reader = f.reader ∧ g.duty = f.duty.book batch.finished ∧ g.fetched = none ∧
      g.unheard = g.duty.pending ∧ g.phase.isOut = false := by
  cases h <;> simp_all [fetched, unheard, Phase.isOut]

/-! ### What the thread keeps -/

/-- Only a booking of a split that was taken on again brings the thread out of step. -/
theorem steady_advance (hf : f.Steady sort) (hbooks : ¬ f.Misbooks) (h : Advance disturbed f d g e)
    (hin : g.phase.isOut = false) : g.Steady sort := by
  have hsuited := suited_advance hf.suited h
  cases h with
  | hand hphase hcall => exact steady_hand hf hphase hcall hsuited
  | handFail hphase hcall => cases returned_of_hand hf.suited hphase hcall
  | handPanic | fetchPanic | rewindPanic | drop | unlatch | close | closeFail | closePanic | leave
  | terminate => cases hin
  | fetch hphase hcall => exact steady_fetch hf hphase hcall hsuited
  | fetchFail hphase hcall =>
      obtain ⟨hroll, hreplay, hadmits⟩ := Backend.fetched_of_failed hcall
      exact steady_of_reader hf hsuited hroll hreplay hadmits (by simp [fetched, hphase])
        (by simp [unheard, hphase]) rfl
  | rewind hphase hcall =>
      cases hcall
      exact steady_rewind hf hphase hsuited
  | bookNothingLast hphase | bookNothing hphase | book hphase =>
      exact steady_book hf hbooks hphase hsuited rfl rfl rfl rfl
  | collect hphase =>
      exact steady_congr hf hsuited rfl (by simp [fetched, hphase]) (by simp [unheard, hphase]) rfl
  | doze | flush | flushAgain | flushShut | flushDoze =>
      exact steady_congr hf hsuited rfl rfl rfl rfl
  | _ =>
      rename f.phase = _ => hphase
      exact steady_congr hf hsuited rfl (by simp [fetched, hphase]) (by simp [unheard, hphase]) rfl

/-! ### What requests keep -/

/-- A request that does to the list what the reader will hear of keeps a fetcher steady. -/
theorem steady_ask {duty : Duty} {more : List (SplitsChange Split)} (hf : f.Steady sort)
    (hsuited : ({ f with duty } : Fetcher Backend).Suited sort)
    (hpending : duty.pending = f.duty.pending ++ more)
    (hmore : Leads more (f.duty.assigned.map Split.id) (duty.assigned.map Split.id)) :
    ({ f with duty } : Fetcher Backend).Steady sort where
  suited := hsuited
  admitting := hf.admitting
  replay := hf.replay
  hand := hf.hand
  once := hf.once
  leads := by
    have hbehind := hf.leads.append hmore
    rw [unheard, List.append_assoc, ← hpending] at hbehind
    exact hbehind

theorem steady_assign {splits : List Split} (hf : f.Steady sort)
    (hsuits : ∀ split ∈ Duty.newcomers f.duty.assigned splits, split.sort = sort) :
    ({ f with duty := f.duty.assign (Duty.newcomers f.duty.assigned splits) } :
      Fetcher Backend).Steady sort := by
  refine steady_ask hf (suited_assign hf.suited hsuits) rfl ?_
  rw [Duty.assign, List.map_append]
  exact .gain (Duty.nodup_newcomers splits (hf.leads.nodup hf.once)) (.done _)

/-- Letting splits go takes those off the list that are named, and tells the reader if there are
any. -/
theorem leads_unassign (ids : List String) (duty : Duty) :
    ∃ more, (duty.unassign ids).pending = duty.pending ++ more ∧
      Leads more (duty.assigned.map Split.id) ((duty.unassign ids).assigned.map Split.id) := by
  have hnamed : ∀ split ∈ duty.assigned,
      ((duty.named ids).map Split.id).contains split.id = ids.contains split.id := by
    intro split hsplit
    rw [Bool.eq_iff_iff, List.contains_iff_mem, List.contains_iff_mem, List.mem_map]
    constructor
    · rintro ⟨other, hother, hsame⟩
      exact hsame ▸ by simpa using (List.mem_filter.1 hother).2
    · exact fun hid => ⟨split, List.mem_filter.2 ⟨hsplit, by simpa using hid⟩, rfl⟩
  have hkept : (duty.unassign ids).assigned.map Split.id =
      (duty.assigned.map Split.id).filter
        fun id => !((duty.named ids).map Split.id).contains id := by
    rw [Duty.unassign, List.filter_map]
    refine congrArg _ (List.filter_congr fun split hsplit => ?_)
    rw [Function.comp_apply, hnamed split hsplit]
  rw [hkept]
  by_cases hnone : duty.named ids = []
  · refine ⟨[], by simp [Duty.unassign, hnone], ?_⟩
    simp only [hnone, List.map_nil, List.contains_nil, Bool.not_false, List.filter_true]
    exact .done _
  · exact ⟨[.removal (duty.named ids)], by simp [Duty.unassign, hnone], .lose (.done _)⟩

theorem steady_unassign (ids : List String) (hf : f.Steady sort) :
    ({ f with duty := f.duty.unassign ids } : Fetcher Backend).Steady sort := by
  obtain ⟨more, hpending, hmore⟩ := leads_unassign ids f.duty
  have hsuits : (Request.removeSplits ids).Suits sort := trivial
  exact steady_ask hf (suited_enact hf.suited hsuits) hpending hmore

/-- Taking on a split of the wrong sort leaves a fetcher out of step: the reader will refuse it. -/
theorem not_inStep_of_assign {added : List Split} (hf : f.InStep) (hin : f.phase.isOut = false)
    (hwrong : ¬ Backend.Suits f.reader.sort (.addition added)) :
    ¬ ({ f with duty := f.duty.assign added } : Fetcher Backend).InStep := by
  intro hstep
  have hsort : f.prospect.sort = f.reader.sort := by
    rw [prospect, Backend.sort_heard]
    cases f.fetched with
    | none => rfl
    | some batch => exact Backend.sort_rewind rfl
  have hsame : ({ f with duty := f.duty.assign added } : Fetcher Backend).prospect =
      f.prospect := by
    have hheard : ({ f with duty := f.duty.assign added } : Fetcher Backend).unheard =
        f.unheard ++ [.addition added] := (List.append_assoc ..).symm
    rw [prospect, hheard, Backend.heard_append]
    exact Backend.change_of_not_suits (hsort ▸ hwrong)
  have hroll := (hstep hin).1
  rw [hsame, (hf hin).1, Duty.assign, List.map_append] at hroll
  have hnone : added = [] := by simpa using hroll
  subst hnone
  exact hwrong (List.forall_mem_nil _)

end Fetcher

namespace Station

/-- A move that brings a fetcher out of step: its thread books a split as ended that was taken on
again since it looked for wake-ups, or a split is taken on that its reader refuses. -/
def Slips (station : Station Backend) : Move → Prop
  | .thread _ => station.fetcher.Misbooks
  | .ask (.addSplits splits) =>
    station.fetcher.phase.isOut = false ∧ station.fetcher.duty.refuses = false ∧
      ∃ split ∈ Duty.newcomers station.fetcher.duty.assigned splits,
        split.sort ≠ station.fetcher.reader.sort
  | _ => False

variable {sort : ReaderSort} {move : Move} {station next : Station Backend}

theorem in_of_step (h : station.step move = some next) (hin : next.fetcher.phase.isOut = false) :
    station.fetcher.phase.isOut = false := by
  cases turn_of_step h with
  | cycle hmay | loop hmay =>
      obtain ⟨hphase | ⟨result, hphase⟩, -⟩ := phase_of_mayBegin hmay <;> rw [hphase] <;> rfl
  | thread hadvance => exact Fetcher.in_of_advance hadvance hin
  | beside _ hsame => rwa [← hsame.phase]

/-- Every other move keeps a fetcher steady. -/
theorem steady_step (hs : station.fetcher.phase.isOut = false → station.fetcher.Steady sort)
    (hslips : ¬ station.Slips move) (h : station.step move = some next) :
    next.fetcher.phase.isOut = false → next.fetcher.Steady sort := by
  intro hin
  have hbefore := in_of_step h hin
  have hf := hs hbefore
  have hbeside : move.Suits sort → Beside station next →
      next.fetcher.reader.roll = station.fetcher.reader.roll →
      next.fetcher.reader.replay = station.fetcher.reader.replay →
      (∀ id, next.fetcher.reader.admits id = station.fetcher.reader.admits id) →
      next.fetcher.duty.assigned = station.fetcher.duty.assigned →
      next.fetcher.duty.pending = station.fetcher.duty.pending → next.fetcher.Steady sort := by
    intro hsuits hsame hroll hreplay hadmits hassigned hpending
    exact Fetcher.steady_of_reader hf (suited_step hf.suited hsuits h) hroll hreplay hadmits
      (by simp only [Fetcher.fetched, hsame.phase])
      (by simp only [Fetcher.unheard, hsame.phase, hpending]) hassigned
  cases move with
  | cycle | loop =>
      have hsuited := suited_step hf.suited (by exact trivial) h
      simp only [step, Option.ite_none_right_eq_some, Option.some.injEq] at h
      obtain ⟨hmay, rfl⟩ := h
      obtain ⟨hphase | ⟨result, hphase⟩, -⟩ := phase_of_mayBegin hmay <;>
        exact Fetcher.steady_congr hf hsuited rfl (by simp only [Fetcher.fetched, hphase]; rfl)
          (by simp only [Fetcher.unheard, hphase]; rfl) rfl
  | thread disturbed => exact Fetcher.steady_advance hf hslips (step_thread h).1 hin
  | ask request =>
      have hsame : Beside station next := Option.some.inj h ▸ beside_enact request station
      cases request with
      | addSplits splits =>
          obtain rfl := Option.some.inj h
          simp only [Request.enact]
          split
          · exact hf
          · next htaken =>
              refine Fetcher.steady_assign hf fun split hsplit => by_contra fun hwrong => ?_
              simp only [Bool.or_eq_true, not_or, Bool.not_eq_true] at htaken
              rw [← hf.suited.reader] at hwrong
              exact hslips ⟨hbefore, htaken.1, split, hsplit, hwrong⟩
      | removeSplits ids =>
          obtain rfl := Option.some.inj h
          exact Fetcher.steady_unassign ids hf
      | stop mode =>
          obtain rfl := Option.some.inj h
          cases hstop : station.fetcher.duty.stop <;>
            exact hbeside trivial hsame (by simp [Request.enact, hstop])
              (by simp [Request.enact, hstop]) (by simp [Request.enact, hstop])
              (by simp [Request.enact, hstop]) (by simp [Request.enact, hstop])
      | wakeUp _ | pause | resume | releaseLatch =>
          obtain rfl := Option.some.inj h
          exact hbeside trivial hsame rfl rfl (fun _ => rfl) rfl rfl
  | nudge nudge =>
      obtain rfl := Option.some.inj h
      cases nudge with
      | wakeReader =>
          exact hbeside trivial {} (Backend.roll_wake _) (Backend.replay_wake _)
            (fun id => Backend.admits_wake id _) rfl rfl
      | rouse | requestWake | wakePut =>
          exact hbeside trivial {} rfl rfl (fun _ => rfl) rfl rfl
  | timeOut | queue _ | files _ =>
      obtain rfl := Option.some.inj h
      exact hbeside trivial {} rfl rfl (fun _ => rfl) rfl rfl

/-- A move that slips can be made, and what it leaves is not in step. -/
theorem exists_not_inStep_of_slips (hs : station.fetcher.phase.isOut = false →
    station.fetcher.Steady sort) (hslips : station.Slips move) :
    ∃ next, station.step move = some next ∧ ¬ next.fetcher.InStep := by
  cases move with
  | thread disturbed =>
      have hbooks : station.fetcher.Misbooks := hslips
      obtain ⟨batch, hphase, -⟩ := hslips
      have hf := hs (by rw [hphase]; rfl)
      obtain ⟨next, hnext⟩ : ∃ next, station.step (.thread disturbed) = some next := by
        apply exists_step_thread
        cases hempty : batch.isEmpty <;> simp [Fetcher.step?, hphase, hempty]
      obtain ⟨hreader, hduty, hfetched, hunheard, hin⟩ :=
        Fetcher.booked_of_advance hphase (step_thread hnext).1
      exact ⟨next, hnext,
        Fetcher.not_inStep_of_misbooks hf hbooks hphase hreader hduty hfetched hunheard hin⟩
  | ask request =>
      cases request with
      | addSplits splits =>
          obtain ⟨hin, htakes, split, hsplit, hwrong⟩ := hslips
          refine ⟨_, rfl, ?_⟩
          have hnew : (Duty.newcomers station.fetcher.duty.assigned splits).isEmpty = false :=
            List.isEmpty_eq_false_iff_exists_mem.2 ⟨split, hsplit⟩
          simp only [Request.enact, htakes, hnew, Bool.or_self, Bool.false_eq_true, ↓reduceIte]
          exact Fetcher.not_inStep_of_assign (Fetcher.inStep_of_steady (hs hin)) hin
            fun hsuits => hwrong (hsuits split hsplit)
      | removeSplits _ | wakeUp _ | pause | resume | stop _ | releaseLatch => exact hslips.elim
  | cycle | loop | timeOut | nudge _ | queue _ | files _ => exact hslips.elim

/-- A fetcher that is in step all along makes no slips. -/
theorem never_slips_of_always_inStep {moves : List Move}
    (hs : station.fetcher.phase.isOut = false → station.fetcher.Steady sort)
    (halways : Course.Always step (fun station => station.fetcher.InStep) moves station) :
    Course.Never step Slips moves station := by
  induction moves generalizing station with
  | nil => trivial
  | cons move moves ih =>
      have hnot : ¬ station.Slips move := by
        intro hslips
        obtain ⟨next, hnext, hout⟩ := exists_not_inStep_of_slips hs hslips
        have hstep := Course.first_of_always (halways.2 next hnext)
        exact hout hstep
      exact ⟨hnot, fun next hnext => ih (steady_step hs hnot hnext) (halways.2 next hnext)⟩

theorem steady_fresh (id : Nat) {reader : Backend} (hnew : reader.IsNew) (depot : Depot) :
    (fresh id reader depot).fetcher.Steady reader.sort := by
  have hroll := Backend.roll_of_isNew hnew
  refine ⟨⟨rfl, by simp [fresh], by simp [fresh], by simp [fresh]⟩, ?_, ?_, nofun, ?_, ?_⟩
  · intro id hid
    exact absurd (hroll ▸ hid) List.not_mem_nil
  · simp [fresh, Backend.replay_of_isNew hnew]
  · simp [fresh, hroll, Fetcher.marks, Fetcher.fetched]
  · simp [fresh, hroll, Fetcher.marks, Fetcher.fetched]
    exact .done _

/-- The reader that settings ask for is new, and so its fetcher begins in step. -/
theorem steady_first (id : Nat) (source : SourceSettings) (depot : Depot) :
    (fresh id (Backend.ofSettings source) depot).fetcher.phase.isOut = false →
      (fresh id (Backend.ofSettings source) depot).fetcher.Steady
        (Backend.ofSettings source).sort :=
  fun _ => steady_fresh id (by cases source <;> rfl) depot

/-- Whenever a cycle has ended without a failure, the reader, once it has heard of the pending
changes, has on its roll the splits that are assigned, in order and each of them once. -/
def Agrees (station : Station Backend) : Prop :=
  ∀ outcome, station.fetcher.phase = .cycled (.ok outcome) →
    (station.fetcher.reader.heard station.fetcher.duty.pending).roll =
        station.fetcher.duty.assigned.map Split.id ∧
      (station.fetcher.duty.assigned.map Split.id).Nodup

theorem agrees_of_inStep (h : station.fetcher.InStep) : station.Agrees := by
  intro outcome hphase
  have hin := h (by rw [hphase]; rfl)
  simpa only [Fetcher.prospect, Fetcher.fetched, Fetcher.unheard, hphase, Option.elim_none,
    List.nil_append] using hin

theorem inStep_of_keeping
    (hs : station.fetcher.phase.isOut = false → station.fetcher.Steady sort) :
    station.fetcher.InStep :=
  fun hin => Fetcher.inStep_of_steady (hs hin) hin

/-- A fetcher over a built-in reader is in step all along, wherever in its cycles requests come,
exactly if it makes no slip; and then list and reader agree at the end of each cycle. -/
theorem in_step_iff_never_slips (id : Nat) (source : SourceSettings) (depot : Depot)
    (moves : List Move) :
    (Course.Always step (fun station => station.fetcher.InStep) moves
        (fresh id (Backend.ofSettings source) depot) ↔
      Course.Never step Slips moves (fresh id (Backend.ofSettings source) depot)) ∧
    (Course.Never step Slips moves (fresh id (Backend.ofSettings source) depot) →
      Course.Always step Agrees moves (fresh id (Backend.ofSettings source) depot)) := by
  have hfirst := steady_first id source depot
  refine ⟨⟨never_slips_of_always_inStep hfirst, fun hnever => ?_⟩, fun hnever => ?_⟩
  · exact Course.always_of_never _ steady_step inStep_of_keeping hnever hfirst
  · exact Course.always_of_never _ steady_step
      (fun hs => agrees_of_inStep (inStep_of_keeping hs)) hnever hfirst

/-- A split that ends with its batch, and is taken away and taken on again before that batch is
booked: at the end of the cycle its reader will read it again, and it is not on the list. -/
theorem read_again_by_nobody :
    ¬ Course.Always step Agrees
      ([.ask (.addSplits [.range ⟨"a", 0, 1⟩]), .cycle] ++ List.replicate 7 (.thread []) ++
        [.ask (.removeSplits ["a"]), .ask (.addSplits [.range ⟨"a", 0, 1⟩])] ++
        List.replicate 5 (.thread []))
      (fresh 0 (Backend.ranges (.withLimits 5 0)) { queue := .ofCapacity 1 }) := by
  intro halways
  have hlast := Course.last_of_always halways rfl
  have hagrees := (hlast .published rfl).1
  exact absurd hagrees (by decide)

end Station

end SplitFeed
