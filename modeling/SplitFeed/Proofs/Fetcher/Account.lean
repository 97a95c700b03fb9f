/-
# What a fetcher owes of a split

A fetcher owes the news of a split that it has not put into the queue yet: those of the batch in
its hand, those that its reader has still to tell, and those of additions that the reader has not
heard of, in this order.  A step of the thread puts news from the front of what is owed into the
queue, or leaves what is owed as it is.  Only when the thread winds down, everything that is owed
then is lost.

This holds as long as nothing goes wrong for the split: no call into the reader fails, the queue is
open, and the split is not taken away.  Others may be taken away, and the fetcher may be asked to
drain.
-/
import SplitFeed.Proofs.Fetcher.Idle
import SplitFeed.Proofs.Fetcher.Suited
import SplitFeed.Proofs.Reading.Keeping

namespace SplitFeed

namespace Phase

/-- Whether the thread has let go of everything that it had. -/
def isOut : Phase → Bool
  | closing | leaving _ | terminating _ | ended _ | gone | panicked _ => true
  | _ => false

/-- Whether nothing went wrong: no call failed, and the queue was open. -/
def isFaultless : Phase → Bool
  | fetchLost _ | cycled (.error _) | stopping | finishing true | panicked _ => false
  | noting outcome _ | idling outcome | ringing outcome | cycled (.ok outcome) =>
    outcome ≠ .queueClosed
  | _ => true

end Phase

namespace Fetcher

section Hands

variable {ρ : Type}

/-- The batch that was fetched and is not booked yet. -/
def fetched (f : Fetcher ρ) : Option (SplitBatch Record) :=
  match f.phase with
  | .weighing batch | .rewinding batch | .booking batch => some batch
  | _ => none

/-- The batch that is about to be booked. -/
def booked (f : Fetcher ρ) : Option (SplitBatch Record) :=
  match f.phase with
  | .booking batch => some batch
  | _ => none

/-- The changes that the reader has not heard of yet. -/
def unheard (f : Fetcher ρ) : List (SplitsChange Split) :=
  (match f.phase with
    | .handing changes => changes
    | _ => []) ++ f.duty.pending

/-- A step takes splits off the list only by booking a batch: those that ended with it. -/
theorem assigned_eq_of_advance [SplitReader ρ] {disturbed : List Bool} {f g : Fetcher ρ}
    {d e : Depot} (h : Advance disturbed f d g e) :
    g.duty.assigned = f.duty.assigned.filter fun split =>
      !f.booked.any (·.finished.contains split.id) := by
  cases h with
  | bookNothingLast hphase _ _ | bookNothing hphase _ _ | book hphase _ =>
      simp [booked, hphase, Duty.book]
  | _ => simp_all [booked, Duty.settle]

end Hands

/-- The news of a split that are not booked yet. -/
def unbooked (store : FileStore) (id : String) (f : Fetcher Backend) : List (Option Record) :=
  f.fetched.toList.flatMap (·.news id) ++
    (f.reader.outlook store id ++ f.unheard.flatMap (·.news store id))

/-- The news of a split that the fetcher has still to put into the queue. -/
def owed (store : FileStore) (id : String) (f : Fetcher Backend) : List (Option Record) :=
  if f.phase.isOut then []
  else f.held.toList.flatMap (·.news id) ++ f.unbooked store id

/-- The reader keeps a split, and a batch has come back to it only if the thread has none in its
hand. -/
structure AttentiveTo (store : FileStore) (id : String) (f : Fetcher Backend) : Prop where
  keeps : f.reader.Keeps store id
  replay : f.reader.replay.length ≤ 1
  handFull : f.fetched.isSome = true ∨ f.held.isSome = true → f.reader.replay = []

/-- A fetcher for which nothing went wrong, with splits that its reader can read, and from which a
split is not taken away. -/
structure Faithful (store : FileStore) (sort : ReaderSort) (id : String) (f : Fetcher Backend) :
    Prop where
  coherent : f.Coherent
  suited : f.Suited sort
  faultless : f.phase.isFaultless = true
  spared : ∀ change ∈ f.unheard, change.Spares store id
  attentive : f.phase.isOut = false → f.AttentiveTo store id

/-- What is owed of a split ends as its news do, and the split is assigned until its end mark is
booked. -/
structure Accountable (store : FileStore) (id : String) (f : Fetcher Backend) : Prop where
  story : IsStory (f.owed store id)
  listed : f.phase.isOut = false →
    ((∃ split ∈ f.duty.assigned, split.id = id) ↔ none ∈ f.unbooked store id)

variable {store : FileStore} {sort : ReaderSort} {id : String} {f g : Fetcher Backend}
  {d e : Depot} {disturbed : List Bool}

/-! ### Steps of the thread -/

theorem owed_of_out (h : f.phase.isOut = true) : f.owed store id = [] := if_pos h

theorem owed_of_in (h : f.phase.isOut = false) :
    f.owed store id = f.held.toList.flatMap (·.news id) ++ f.unbooked store id := by
  simp [owed, h]

/-- A thread that is out stays out. -/
theorem out_advance (h : Advance disturbed f d g e) (hout : f.phase.isOut = true) :
    g.phase.isOut = true := by
  cases h <;> simp_all [Phase.isOut]

theorem in_of_advance (h : Advance disturbed f d g e) (hin : g.phase.isOut = false) :
    f.phase.isOut = false := by
  rw [← Bool.not_eq_true]
  exact fun hout => absurd (out_advance h hout) (by simp [hin])

/-- A change that is handed over is one that suits the reader. -/
theorem suits_of_hand {change : SplitsChange Split} {rest : List (SplitsChange Split)}
    (hf : f.Suited sort) (hphase : f.phase = .handing (change :: rest)) :
    Backend.Suits f.reader.sort change := by
  rw [hf.reader]
  exact hf.handing hphase change List.mem_cons_self

theorem returned_of_hand {change : SplitsChange Split} {rest : List (SplitsChange Split)}
    {result : Called Unit} {recycled : List Nat} {reader : Backend} (hf : f.Suited sort)
    (hphase : f.phase = .handing (change :: rest))
    (hcall : SplitReader.change change f.reader = (result, recycled, reader)) :
    result = .returned () := by
  obtain ⟨_, _, hreturned, -⟩ := Backend.change_of_suits (suits_of_hand hf hphase)
  rw [hreturned] at hcall
  exact (Prod.mk.inj hcall).1.symm

theorem changed_of_hand {change : SplitsChange Split} {rest : List (SplitsChange Split)}
    {recycled : List Nat} {reader : Backend} (hf : f.Faithful store sort id)
    (hphase : f.phase = .handing (change :: rest))
    (hcall : SplitReader.change change f.reader = (.returned (), recycled, reader)) :
    Backend.Changed change f.reader recycled reader ∧ change.Spares store id := by
  have hsuits := suits_of_hand hf.suited hphase
  refine ⟨Backend.changed_of_returned hsuits hcall, hf.spared change ?_⟩
  simp [unheard, hphase]

theorem returned_of_fetch {result : Called (SplitBatch Record)} {reader : Backend}
    (hf : f.Faithful store sort id) (hphase : f.phase = .fetching)
    (hcall : SplitReader.fetch store disturbed f.reader = (result, reader)) :
    ∃ batch, result = .returned batch ∧ reader.Keeps store id := by
  obtain ⟨batch, next, hreturned, hnext⟩ :=
    Backend.fetch_of_keeps (hf.attentive (by simp [hphase, Phase.isOut])).keeps disturbed
  obtain ⟨rfl, rfl⟩ := Prod.mk.inj (hcall.symm.trans hreturned)
  exact ⟨batch, rfl, hnext⟩

/-- What is not booked yet changes only by a booking. -/
theorem unbooked_advance (hf : f.Faithful store sort id)
    (hsame : SplitReader.fetch d.store disturbed f.reader =
      SplitReader.fetch store disturbed f.reader)
    (hstory : IsStory (f.unbooked store id)) (h : Advance disturbed f d g e)
    (hin : g.phase.isOut = false) :
    f.booked.toList.flatMap (·.news id) ++ g.unbooked store id = f.unbooked store id := by
  cases h with
  | hand hphase hcall =>
      obtain ⟨hchanged, hspares⟩ := changed_of_hand hf hphase hcall
      have hkeeps := (hf.attentive (by simp [hphase, Phase.isOut])).keeps
      simp only [unbooked, unheard, fetched, hphase, List.cons_append, List.flatMap_cons,
        Option.toList_none, List.flatMap_nil, List.nil_append] at hstory
      have houtlook := Backend.outlook_changed hchanged hkeeps hspares hstory
      simp [unbooked, unheard, fetched, booked, hphase, houtlook]
  | handFail hphase hcall => cases returned_of_hand hf.suited hphase hcall
  | fetch hphase hcall =>
      have hkeeps := (hf.attentive (by simp [hphase, Phase.isOut])).keeps
      have hoff := (Backend.outlook_fetch id (hsame ▸ hcall)
        (Backend.fitsAt_of_keeps hkeeps id)).1
      simp [unbooked, unheard, fetched, booked, hphase, ← hoff]
  | fetchFail hphase hcall =>
      obtain ⟨_, hreturned, -⟩ := returned_of_fetch hf hphase (hsame ▸ hcall)
      cases hreturned
  | rewind hphase hcall hresult =>
      have hattentive := hf.attentive (by simp [hphase, Phase.isOut])
      obtain ⟨-, -, -, houtlook⟩ := Backend.rewind_of_keeps hcall hattentive.keeps
        (hattentive.handFull (.inl (by simp [fetched, hphase])))
      simp [unbooked, unheard, fetched, booked, hphase, houtlook]
  | _ => simp_all [unbooked, unheard, fetched, booked, Phase.isOut, Duty.book]

/-- What is booked is held, and what is held goes into the queue, whatever is read off batches that
have something in them. -/
theorem held_advance {α : Type} {read : SplitBatch Record → List α}
    (hread : ∀ batch, batch.isEmpty = true → read batch = []) (hf : f.Faithful store sort id)
    (hopen : d.queue.closed = false) (h : Advance disturbed f d g e)
    (hin : g.phase.isOut = false) :
    (f.handsOver d).toList.flatMap read ++ g.held.toList.flatMap read =
      f.held.toList.flatMap read ++ f.booked.toList.flatMap read := by
  have hempty := hf.coherent.emptyHanded
  have hfaultless := hf.faultless
  cases h with
  | bookNothingLast hphase hnone _ | bookNothing hphase hnone _ =>
      simp [held, booked, handsOver, offers, hphase, hread _ hnone]
  | _ =>
      simp_all [held, booked, handsOver, offers, Phase.isOut, Phase.isFaultless,
        Phase.isEmptyHanded, Phase.isFetch]

/-- A split is off the list when its end mark is booked. -/
theorem assigned_advance (h : Advance disturbed f d g e) :
    (∃ split ∈ g.duty.assigned, split.id = id) ↔
      (∃ split ∈ f.duty.assigned, split.id = id) ∧
        none ∉ f.booked.toList.flatMap (·.news id) := by
  rw [assigned_eq_of_advance h]
  cases f.booked with
  | none => simp
  | some batch =>
      simp only [Option.any_some, Option.toList_some, List.flatMap_singleton,
        SplitBatch.none_mem_news, List.mem_filter, Bool.not_eq_true', Bool.not_eq_true]
      constructor
      · rintro ⟨split, ⟨hmem, hends⟩, rfl⟩
        exact ⟨⟨split, hmem, rfl⟩, hends⟩
      · rintro ⟨⟨split, hmem, rfl⟩, hends⟩
        exact ⟨split, ⟨hmem, hends⟩, rfl⟩

theorem handsOver_of_out (h : Advance disturbed f d g e) (hout : g.phase.isOut = true) :
    f.handsOver d = none := by
  apply handsOver_eq_none
  cases h <;> simp_all [offers, Phase.isOut]

/-- What a step puts into the queue comes off the front of what is owed; what a thread that winds
down still owes is lost. -/
theorem owed_advance (hf : f.Faithful store sort id) (hopen : d.queue.closed = false)
    (hsame : SplitReader.fetch d.store disturbed f.reader =
      SplitReader.fetch store disturbed f.reader)
    (hstory : IsStory (f.owed store id)) (h : Advance disturbed f d g e) :
    (f.handsOver d).toList.flatMap (·.news id) ++
        (g.owed store id ++ if g.phase.isOut then f.owed store id else []) =
      f.owed store id := by
  cases hphase : g.phase.isOut with
  | true => simp [handsOver_of_out h hphase, owed_of_out hphase]
  | false =>
      have hin : f.phase.isOut = false := in_of_advance h hphase
      rw [owed_of_in hin] at hstory ⊢
      have hunbooked := unbooked_advance hf hsame hstory.of_append h hphase
      have hheld :=
        held_advance (fun _ hnone => SplitBatch.news_of_isEmpty hnone id) hf hopen h hphase
      rw [owed_of_in hphase, if_neg (by simp), List.append_nil, ← List.append_assoc, hheld,
        List.append_assoc, hunbooked]

/-- The list of splits goes on agreeing with what is owed. -/
theorem accountable_advance (ha : f.Accountable store id) (hf : f.Faithful store sort id)
    (hopen : d.queue.closed = false)
    (hsame : SplitReader.fetch d.store disturbed f.reader =
      SplitReader.fetch store disturbed f.reader)
    (h : Advance disturbed f d g e) : g.Accountable store id := by
  cases hphase : g.phase.isOut with
  | true => exact ⟨.inl (owed_of_out hphase), fun hin => absurd (hphase.symm.trans hin) (by simp)⟩
  | false =>
      have hin : f.phase.isOut = false := in_of_advance h hphase
      have howed := owed_advance hf hopen hsame ha.story h
      rw [hphase, if_neg (by simp), List.append_nil] at howed
      have hstory : IsStory (f.unbooked store id) := by
        have := ha.story
        rw [owed_of_in hin] at this
        exact this.of_append
      have hunbooked := unbooked_advance hf hsame hstory h hphase
      refine ⟨(howed ▸ ha.story).of_append, fun _ => ?_⟩
      rw [assigned_advance h, ha.listed hin, ← hunbooked, List.mem_append]
      rw [← hunbooked] at hstory
      constructor
      · rintro ⟨hend | hend, hbooked⟩
        · exact absurd hend hbooked
        · exact hend
      · intro hend
        refine ⟨.inr hend, fun hbooked => ?_⟩
        rw [hstory.eq_nil_of_none_mem hbooked] at hend
        cases hend

/-- Nothing goes wrong. -/
theorem faultless_advance (hf : f.Faithful store sort id) (hopen : d.queue.closed = false)
    (hsame : SplitReader.fetch d.store disturbed f.reader =
      SplitReader.fetch store disturbed f.reader)
    (h : Advance disturbed f d g e) : g.phase.isFaultless = true := by
  have hfaultless := hf.faultless
  cases h with
  | handFail hphase hcall | handPanic hphase hcall =>
      cases returned_of_hand hf.suited hphase hcall
  | fetchFail hphase hcall | fetchPanic hphase hcall =>
      obtain ⟨_, hreturned, -⟩ := returned_of_fetch hf hphase (hsame ▸ hcall)
      cases hreturned
  | rewindPanic hphase hcall | closePanic hphase hcall => cases hcall
  | _ => simp_all [Phase.isFaultless]

/-- The reader does not have to hear of anything new because of a step. -/
theorem mem_unheard_advance (h : Advance disturbed f d g e) {change : SplitsChange Split}
    (hmem : change ∈ g.unheard) : change ∈ f.unheard := by
  cases h with
  | hand hphase hcall =>
      simp only [unheard, hphase, List.cons_append] at hmem ⊢
      exact List.mem_cons_of_mem _ hmem
  | handFail hphase hcall | handPanic hphase hcall =>
      simp only [unheard, hphase] at hmem ⊢
      exact List.mem_append_right _ hmem
  | _ => simp_all [unheard, Duty.book, Duty.settle]

/-- A batch in the thread's hand after a step was there before, or the step fetched it. -/
theorem mem_fetched_advance (h : Advance disturbed f d g e) {batch : SplitBatch Record}
    (hmem : batch ∈ g.fetched) : batch ∈ f.fetched ∨ f.phase = .fetching ∧
      SplitReader.fetch d.store disturbed f.reader = (.returned batch, g.reader) := by
  cases h with
  | fetch hphase hcall =>
      obtain rfl := Option.some.inj hmem
      exact .inr ⟨hphase, hcall⟩
  | turnAway hphase _ | keep hphase _ => exact .inl (by simpa only [fetched, hphase] using hmem)
  | doze | flushAgain | flushDoze => exact .inl hmem
  | flush hphase _ _ _ _ | flushShut hphase _ _ _ => simp [fetched, hphase] at hmem
  | _ => cases hmem

/-- A batch that is held after a step was held before, or was in the thread's hand. -/
theorem mem_held_advance (hf : f.Coherent) (h : Advance disturbed f d g e)
    {batch : SplitBatch Record} (hmem : batch ∈ g.held) : batch ∈ f.held ∨ batch ∈ f.fetched := by
  cases h with
  | retry hphase hleft => exact .inl (by simpa only [held, hphase, hleft] using hmem)
  | book hphase _ => exact .inr (by simpa only [held, fetched, hphase] using hmem)
  | publish hphase _ _ _ | shutOut hphase _ _ =>
      have hnone : f.leftover = none := hf.emptyHanded (by rw [hphase]; rfl)
      simp [held, hnone] at hmem
  | defer hphase _ _ _ _ => exact .inl (by simpa only [held, hphase] using hmem)
  | doze | flushAgain | flushDoze => exact .inl hmem
  | flush hphase _ _ _ _ | flushShut hphase _ _ _ => simp [held, hphase] at hmem
  | drop => cases hmem
  | _ =>
      rename f.phase = _ => hphase
      exact .inl (by simpa only [held, hphase] using hmem)

theorem attentiveTo_congr (hf : f.AttentiveTo store id) (hreader : g.reader = f.reader)
    (hhands : g.fetched.isSome = true ∨ g.held.isSome = true →
      f.fetched.isSome = true ∨ f.held.isSome = true) : g.AttentiveTo store id where
  keeps := hreader ▸ hf.keeps
  replay := hreader ▸ hf.replay
  handFull h := hreader ▸ hf.handFull (hhands h)

theorem attentiveTo_advance (hf : f.Faithful store sort id)
    (hsame : SplitReader.fetch d.store disturbed f.reader =
      SplitReader.fetch store disturbed f.reader)
    (h : Advance disturbed f d g e) (hin : g.phase.isOut = false) : g.AttentiveTo store id := by
  have hempty := hf.coherent.emptyHanded
  have hattentive := hf.attentive (in_of_advance h hin)
  have hstep := h
  cases h with
  | hand hphase hcall =>
      obtain ⟨hchanged, hspares⟩ := changed_of_hand hf hphase hcall
      obtain ⟨hkeeps, hreplay⟩ := Backend.keeps_changed hchanged hattentive.keeps hspares
      refine ⟨hkeeps, Nat.le_trans hreplay hattentive.replay, fun hhands => ?_⟩
      have hnone := hattentive.handFull (by simpa [fetched, held, hphase] using hhands)
      rw [hnone] at hreplay
      exact List.length_eq_zero_iff.1 (Nat.le_zero.1 hreplay)
  | handFail hphase hcall => cases returned_of_hand hf.suited hphase hcall
  | fetch hphase hcall =>
      obtain ⟨-, -, hkeeps⟩ := returned_of_fetch hf hphase (hsame ▸ hcall)
      have hreplay := (Backend.outlook_fetch id hcall
        (Backend.fitsAt_of_keeps hattentive.keeps id)).2
      have htail := hattentive.replay
      refine ⟨hkeeps, ?_, fun _ => ?_⟩
      · simp only [hreplay, List.length_tail]
        omega
      · rw [← List.length_eq_zero_iff, hreplay, List.length_tail]
        omega
  | fetchFail hphase hcall =>
      obtain ⟨_, hreturned, -⟩ := returned_of_fetch hf hphase (hsame ▸ hcall)
      cases hreturned
  | rewind hphase hcall hresult =>
      have hnone : f.leftover = none :=
        hempty (by simp [hphase, Phase.isEmptyHanded, Phase.isFetch])
      obtain ⟨-, hkeeps, hreplay, -⟩ := Backend.rewind_of_keeps hcall hattentive.keeps
        (hattentive.handFull (.inl (by simp [fetched, hphase])))
      exact ⟨hkeeps, hreplay, by simp [fetched, held, hnone]⟩
  | close | closeFail | closePanic | handPanic | fetchPanic | rewindPanic => cases hin
  | _ =>
      rename f.phase = _ => hphase
      refine attentiveTo_congr hattentive rfl ?_
      simp only [Option.isSome_iff_exists, ← Option.mem_def]
      rintro (⟨batch, hmem⟩ | ⟨batch, hmem⟩)
      · rcases mem_fetched_advance hstep hmem with hbefore | ⟨hfetching, -⟩
        · exact .inl ⟨batch, hbefore⟩
        · cases hphase.symm.trans hfetching
      · exact (mem_held_advance hf.coherent hstep hmem).symm.imp (⟨batch, ·⟩) (⟨batch, ·⟩)

theorem faithful_advance (hf : f.Faithful store sort id) (hopen : d.queue.closed = false)
    (hsame : SplitReader.fetch d.store disturbed f.reader =
      SplitReader.fetch store disturbed f.reader)
    (h : Advance disturbed f d g e) : g.Faithful store sort id where
  coherent := coherent_advance hf.coherent h
  suited := suited_advance hf.suited h
  faultless := faultless_advance hf hopen hsame h
  spared change hmem := hf.spared change (mem_unheard_advance h hmem)
  attentive := attentiveTo_advance hf hsame h

/-! ### Cycles that begin -/

theorem isOut_of_mayBegin {ρ : Type} {f : Fetcher ρ} (hmay : Station.mayBegin f = true) :
    f.phase.isOut = false := by
  obtain ⟨hphase | ⟨result, hphase⟩, -⟩ := Station.phase_of_mayBegin hmay <;>
    exact hphase ▸ rfl

/-- A cycle begins where the thread has nothing in its hand but what is left over. -/
theorem faithful_begin (hf : f.Faithful store sort id) (hmay : Station.mayBegin f = true)
    (hphase : g.phase = .starting ∨ g.phase = .deciding) (hleft : g.leftover = f.leftover)
    (hduty : g.duty = f.duty) (hreader : g.reader = f.reader) : g.Faithful store sort id := by
  have hcoherent := coherent_begin hf.coherent hmay hphase hleft hduty
  obtain ⟨-, hsuited, -, hspared, hattentive⟩ := hf
  obtain ⟨hbegins | ⟨result, hbegins⟩, -⟩ := Station.phase_of_mayBegin hmay <;>
    rcases hphase with hg | hg <;>
    refine ⟨hcoherent, ⟨hreader ▸ hsuited.reader, hduty ▸ hsuited.assigned,
      hduty ▸ hsuited.pending, by simp [hg]⟩, by simp [hg, Phase.isFaultless], ?_, fun _ => ?_⟩ <;>
    first
    | refine attentiveTo_congr (hattentive ?_) hreader ?_ <;>
        simp_all [fetched, held, Phase.isOut]
    | simp_all [unheard]

/-- What is owed stays the same then. -/
theorem accountable_begin (ha : f.Accountable store id) (hmay : Station.mayBegin f = true)
    (hphase : g.phase = .starting ∨ g.phase = .deciding) (hleft : g.leftover = f.leftover)
    (hduty : g.duty = f.duty) (hreader : g.reader = f.reader) :
    g.Accountable store id ∧ g.owed store id = f.owed store id := by
  have hout := isOut_of_mayBegin hmay
  have hunbooked : g.unbooked store id = f.unbooked store id := by
    obtain ⟨hbegins | ⟨result, hbegins⟩, -⟩ := Station.phase_of_mayBegin hmay <;>
      rcases hphase with hg | hg <;> simp_all [unbooked, fetched, unheard]
  have hheld : g.held = f.held := by
    obtain ⟨hbegins | ⟨result, hbegins⟩, -⟩ := Station.phase_of_mayBegin hmay <;>
      rcases hphase with hg | hg <;> simp_all [held]
  have hin : g.phase.isOut = false := by rcases hphase with hg | hg <;> simp [hg, Phase.isOut]
  have howed : g.owed store id = f.owed store id := by
    rw [owed_of_in hin, owed_of_in hout, hheld, hunbooked]
  refine ⟨⟨howed ▸ ha.story, fun _ => ?_⟩, howed⟩
  rw [hunbooked, hduty]
  exact ha.listed hout

end Fetcher

/-! ### Requests and nudges -/

/-- A request to a fetcher that adds only splits which the reader can read, and takes a split
away from nobody. -/
def Request.Spares {ρ : Type} (store : FileStore) (sort : ReaderSort) (id : String)
    (f : Fetcher ρ) : Request → Prop
  | addSplits splits => ∀ split ∈ splits, split.sort = sort ∧ split.IsReadable store
  | removeSplits ids => ∀ split ∈ f.duty.named ids, split.id ≠ id
  | wakeUp _ | pause | resume | stop _ | releaseLatch => True

theorem Request.suits_of_spares {ρ : Type} {store : FileStore} {sort : ReaderSort} {id : String}
    {f : Fetcher ρ} {request : Request} (h : request.Spares store sort id f) :
    request.Suits sort := by
  cases request with
  | addSplits splits => exact fun split hmem => (h split hmem).1
  | _ => trivial

/-- A request that neither adds splits nor takes any away. -/
def Request.LeavesSplits : Request → Prop
  | addSplits _ | removeSplits _ => False
  | wakeUp _ | pause | resume | stop _ | releaseLatch => True

/-- Of a split that a fetcher does not have, the same is due of the newcomers as of all splits that
are offered. -/
theorem Duty.due_newcomers {store : FileStore} {id : String} {assigned splits : List Split}
    (honce : (splits.map Split.id).Nodup)
    (hfree : Split.due store id splits ≠ [] → ∀ split ∈ assigned, split.id ≠ id) :
    Split.due store id (Duty.newcomers assigned splits) = Split.due store id splits := by
  induction splits generalizing assigned with
  | nil => rfl
  | cons split splits ih =>
      rw [List.map_cons, List.nodup_cons] at honce
      rw [Split.due_cons] at hfree ⊢
      by_cases hid : split.id = id
      · have hself : Split.due store id [split] ≠ [] := by
          simp [Split.due_eq_nil, hid]
        have hnew : assigned.any (·.id == split.id) = false := by
          simpa [hid] using hfree (by simp [hself])
        have hrest : Split.due store id splits = [] :=
          Split.due_eq_nil.2 fun other hmem hsame =>
            honce.1 (List.mem_map.2 ⟨other, hmem, hsame.trans hid.symm⟩)
        have hlater : Split.due store id (newcomers (assigned ++ [split]) splits) = [] :=
          Split.due_eq_nil.2 fun other hmem =>
            Split.due_eq_nil.1 hrest other (mem_of_mem_newcomers hmem)
        rw [hrest, newcomers, hnew, if_neg (by simp), Split.due_cons, hlater]
      · have hself : Split.due store id [split] = [] := by
          simp [Split.due_eq_nil, hid]
        rw [hself, List.nil_append] at hfree ⊢
        rw [newcomers]
        split
        · exact ih honce.2 hfree
        · rw [Split.due_cons, hself, List.nil_append]
          refine ih honce.2 fun hdue other hmem => ?_
          rcases List.mem_append.1 hmem with hold | hnew
          · exact hfree hdue other hold
          · rwa [List.mem_singleton.1 hnew]

namespace Fetcher

variable {store : FileStore} {sort : ReaderSort} {id : String} {f g : Fetcher Backend}
  {request : Request}

/-- What a fetcher owes depends on its hands, its reader and what that has not heard of. -/
theorem owed_congr (hphase : g.phase = f.phase) (hleft : g.leftover = f.leftover)
    (houtlook : g.reader.outlook store id = f.reader.outlook store id)
    (hpending : g.duty.pending = f.duty.pending) :
    g.unbooked store id = f.unbooked store id ∧ g.owed store id = f.owed store id := by
  have hunbooked : g.unbooked store id = f.unbooked store id := by
    simp only [unbooked, fetched, unheard, hphase, houtlook, hpending]
  refine ⟨hunbooked, ?_⟩
  simp only [owed, held, hunbooked, hphase, hleft]

theorem faithful_congr (hf : f.Faithful store sort id) (hcoherent : g.Coherent)
    (hsuited : g.Suited sort) (hphase : g.phase = f.phase) (hleft : g.leftover = f.leftover)
    (hreader : g.reader = f.reader ∨ g.reader = SplitReader.wake f.reader)
    (hpending : ∀ change ∈ g.duty.pending,
      change ∈ f.duty.pending ∨ change.Spares store id) : g.Faithful store sort id where
  coherent := hcoherent
  suited := hsuited
  faultless := hphase ▸ hf.faultless
  spared change hmem := by
    have hspared := hf.spared change
    simp only [unheard, hphase, List.mem_append] at hmem hspared
    rcases hmem with hhanding | hnew
    · exact hspared (.inl hhanding)
    · exact (hpending change hnew).elim (fun hold => hspared (.inr hold)) fun h => h
  attentive hin := by
    have hattentive := hf.attentive (hphase ▸ hin)
    have hhands : g.fetched = f.fetched ∧ g.held = f.held := by
      simp [fetched, held, hphase, hleft]
    rcases hreader with hsame | hwoken
    · exact attentiveTo_congr hattentive hsame fun h => by simpa only [hhands] using h
    · refine ⟨hwoken ▸ Backend.keeps_wake hattentive.keeps, ?_, fun h => ?_⟩
      · simpa [hwoken] using hattentive.replay
      · rw [hhands.1, hhands.2] at h
        simpa [hwoken] using hattentive.handFull h

theorem faithful_enact (hf : f.Faithful store sort id)
    (hspares : request.Spares store sort id f) : (request.enact f).1.Faithful store sort id := by
  have hcoherent := coherent_enact request hf.coherent
  have hsuited := suited_enact hf.suited (Request.suits_of_spares hspares)
  cases request with
  | addSplits splits =>
      simp only [Request.enact] at hcoherent hsuited ⊢
      split at hcoherent
      · next hrefused => simpa only [if_pos hrefused] using hf
      · next hrefused =>
          simp only [if_neg hrefused] at hsuited ⊢
          refine faithful_congr hf hcoherent hsuited rfl rfl (.inl rfl) fun change hmem => ?_
          rcases List.mem_append.1 hmem with hold | hnew
          · exact .inl hold
          · rw [List.mem_singleton.1 hnew]
            exact .inr fun split hsplit => (hspares split (Duty.mem_of_mem_newcomers hsplit)).2
  | removeSplits ids =>
      refine faithful_congr hf hcoherent hsuited rfl rfl (.inl rfl) fun change hmem => ?_
      simp only [Request.enact, Duty.unassign] at hmem
      split at hmem
      · exact .inl hmem
      · rcases List.mem_append.1 hmem with hold | hnew
        · exact .inl hold
        · rw [List.mem_singleton.1 hnew]
          exact .inr hspares
  | stop mode =>
      simp only [Request.enact] at hcoherent hsuited ⊢
      split
      · exact hf
      · next hstop =>
          rw [hstop] at hcoherent hsuited
          exact faithful_congr hf hcoherent hsuited rfl rfl (.inl rfl) fun change hmem => .inl hmem
  | wakeUp _ | pause | resume | releaseLatch =>
      exact faithful_congr hf hcoherent hsuited rfl rfl (.inl rfl) fun change hmem => .inl hmem

theorem faithful_nudge (nudge : Nudge) (depot : Depot) (hf : f.Faithful store sort id) :
    (nudge.apply f depot).1.Faithful store sort id := by
  have hcoherent := coherent_nudge nudge depot hf.coherent
  have hsuited := suited_nudge nudge depot hf.suited
  cases nudge with
  | wakeReader =>
      exact faithful_congr hf hcoherent hsuited rfl rfl (.inr rfl) fun change hmem => .inl hmem
  | rouse | requestWake | wakePut =>
      exact faithful_congr hf hcoherent hsuited rfl rfl (.inl rfl) fun change hmem => .inl hmem

theorem accountable_congr (ha : f.Accountable store id) (hphase : g.phase = f.phase)
    (hleft : g.leftover = f.leftover)
    (houtlook : g.reader.outlook store id = f.reader.outlook store id)
    (hpending : g.duty.pending = f.duty.pending)
    (hassigned : g.duty.assigned = f.duty.assigned) :
    g.Accountable store id ∧ g.owed store id = f.owed store id := by
  obtain ⟨hunbooked, howed⟩ := owed_congr hphase hleft houtlook hpending
  refine ⟨⟨howed ▸ ha.story, fun hin => ?_⟩, howed⟩
  rw [hunbooked, hassigned]
  exact ha.listed (hphase ▸ hin)

/-- Nudges change nothing about what is owed. -/
theorem accountable_nudge (nudge : Nudge) (depot : Depot) (ha : f.Accountable store id) :
    (nudge.apply f depot).1.Accountable store id ∧
      (nudge.apply f depot).1.owed store id = f.owed store id := by
  cases nudge with
  | wakeReader =>
      exact accountable_congr ha rfl rfl (Backend.outlook_wake store id f.reader) rfl rfl
  | rouse | requestWake | wakePut => exact accountable_congr ha rfl rfl rfl rfl rfl

/-- A request that adds no splits and takes only others away changes nothing about it either. -/
theorem accountable_enact (ha : f.Accountable store id)
    (hspares : ∀ ids, request = .removeSplits ids → ∀ split ∈ f.duty.named ids, split.id ≠ id)
    (hadds : ∀ splits, request ≠ .addSplits splits) :
    (request.enact f).1.Accountable store id ∧
      (request.enact f).1.owed store id = f.owed store id := by
  cases request with
  | addSplits splits => exact absurd rfl (hadds splits)
  | removeSplits ids =>
      have hpending : (f.duty.unassign ids).pending.flatMap (·.news store id) =
          f.duty.pending.flatMap (·.news store id) := by
        simp only [Duty.unassign]
        split
        · rfl
        · rw [List.flatMap_append, List.flatMap_singleton, SplitsChange.news, List.append_nil]
      have hunbooked : ((Request.removeSplits ids).enact f).1.unbooked store id =
          f.unbooked store id := by
        simp only [unbooked, unheard, fetched, Request.enact, List.flatMap_append, hpending]
      have howed : ((Request.removeSplits ids).enact f).1.owed store id = f.owed store id := by
        simp only [owed, hunbooked]
        rfl
      refine ⟨⟨howed ▸ ha.story, fun hin => ?_⟩, howed⟩
      rw [hunbooked, ← ha.listed hin]
      constructor
      · rintro ⟨split, hmem, hid⟩
        exact ⟨split, (List.mem_filter.1 hmem).1, hid⟩
      · rintro ⟨split, hmem, hid⟩
        refine ⟨split, List.mem_filter.2 ⟨hmem, ?_⟩, hid⟩
        rw [Bool.not_eq_true', ← Bool.not_eq_true]
        exact fun hnamed => hspares ids rfl split (List.mem_filter.2 ⟨hmem, hnamed⟩) hid
  | stop mode =>
      simp only [Request.enact]
      split
      · exact ⟨ha, rfl⟩
      · exact accountable_congr ha rfl rfl rfl rfl rfl
  | wakeUp _ | pause | resume | releaseLatch => exact accountable_congr ha rfl rfl rfl rfl rfl

/-- Splits that a fetcher takes on are owed behind what was owed before. -/
theorem accountable_addSplits {splits : List Split} (ha : f.Accountable store id)
    (hin : f.phase.isOut = false) (hrefuses : f.duty.refuses = false)
    (honce : (splits.map Split.id).Nodup)
    (hfree : Split.due store id splits ≠ [] → f.owed store id = []) :
    ((Request.addSplits splits).enact f).1.Accountable store id ∧
      ((Request.addSplits splits).enact f).1.owed store id =
        f.owed store id ++ Split.due store id splits := by
  have hunlisted : Split.due store id splits ≠ [] → ∀ split ∈ f.duty.assigned, split.id ≠ id := by
    intro hdue split hmem hid
    have hunbooked : f.unbooked store id = [] := by
      have howed := hfree hdue
      rw [owed_of_in hin] at howed
      exact (List.append_eq_nil_iff.1 howed).2
    have hlisted := (ha.listed hin).1 ⟨split, hmem, hid⟩
    rw [hunbooked] at hlisted
    cases hlisted
  have hdue := Duty.due_newcomers honce hunlisted
  by_cases hnone : (Duty.newcomers f.duty.assigned splits).isEmpty = true
  · have hempty : Split.due store id splits = [] := by
      rw [← hdue, List.isEmpty_iff.1 hnone, Split.due_nil]
    simp [Request.enact, hnone, hempty, ha]
  · have henact : ((Request.addSplits splits).enact f).1 =
        { f with duty := f.duty.assign (Duty.newcomers f.duty.assigned splits) } := by
      simp [Request.enact, hrefuses, hnone]
    rw [henact]
    have hunbooked : unbooked store id
        { f with duty := f.duty.assign (Duty.newcomers f.duty.assigned splits) } =
        f.unbooked store id ++ Split.due store id splits := by
      rw [← hdue]
      simp [unbooked, fetched, unheard, Duty.assign, SplitsChange.news]
    have howed : owed store id
        { f with duty := f.duty.assign (Duty.newcomers f.duty.assigned splits) } =
        f.owed store id ++ Split.due store id splits := by
      simp only [owed, hin, hunbooked, Bool.false_eq_true, ↓reduceIte, List.append_assoc]
      rfl
    refine ⟨⟨?_, fun _ => ?_⟩, howed⟩
    · rw [howed]
      by_cases hempty : Split.due store id splits = []
      · simpa [hempty] using ha.story
      · rw [hfree hempty, List.nil_append]
        exact Split.isStory_due store id honce
    · rw [hunbooked, List.mem_append, ← ha.listed hin, ← hdue, Split.none_mem_due]
      simp only [Duty.assign, List.mem_append, or_and_right, exists_or]

end Fetcher

end SplitFeed
