/-
# What a fetcher has still to hand on, in order

The lineup of a fetcher are all tidings that its thread has still to put into the queue: those of
the batch that it holds, those of a batch that is not booked yet, those that its reader has still to
bring, and those of additions that the reader has not heard of.  What the lineup says of one split
is what the fetcher owes of it.

A step of the thread takes the tidings of the batch that it hands over off the front, and nothing
else changes the order; only a thread that winds down loses its lineup.  A fetcher that has none
takes on the splits that it is given, each of them once.
-/
import SplitFeed.Proofs.Fetcher.Rest
import SplitFeed.Proofs.Reading.Lineup

namespace SplitFeed

namespace Fetcher

/-- The tidings that are not booked yet. -/
def ahead (store : FileStore) (f : Fetcher Backend) : List Tiding :=
  f.fetched.toList.flatMap (·.tidings) ++
    (f.reader.lineup store ++ f.unheard.flatMap (·.tidings store))

/-- The tidings that the fetcher has still to put into the queue. -/
def lineup (store : FileStore) (f : Fetcher Backend) : List Tiding :=
  if f.phase.isOut then []
  else f.held.toList.flatMap (·.tidings) ++ f.ahead store

variable {store : FileStore} {sort : ReaderSort} {id : String} {f g : Fetcher Backend}
  {d e : Depot} {disturbed : List Bool} {request : Request} {splits : List Split}

theorem newsOf_ahead (store : FileStore) (id : String) (f : Fetcher Backend) :
    Tiding.newsOf id (f.ahead store) = f.unbooked store id := by
  simp only [ahead, unbooked, Tiding.newsOf_append, Tiding.newsOf_flatMap,
    SplitBatch.newsOf_tidings, Backend.newsOf_lineup, SplitsChange.newsOf_tidings]

theorem newsOf_lineup (store : FileStore) (id : String) (f : Fetcher Backend) :
    Tiding.newsOf id (f.lineup store) = f.owed store id := by
  rw [lineup, owed]
  split
  · rfl
  · simp only [Tiding.newsOf_append, Tiding.newsOf_flatMap, SplitBatch.newsOf_tidings,
      newsOf_ahead]

theorem lineup_of_out (h : f.phase.isOut = true) : f.lineup store = [] := if_pos h

theorem lineup_of_in (h : f.phase.isOut = false) :
    f.lineup store = f.held.toList.flatMap (·.tidings) ++ f.ahead store := by
  simp [lineup, h]

/-- There is something in the lineup exactly if something is owed of some split. -/
theorem lineup_eq_nil_iff : f.lineup store = [] ↔ ∀ id, f.owed store id = [] := by
  simp only [← newsOf_lineup]
  exact ⟨fun hnone id => hnone ▸ Tiding.newsOf_nil id, Tiding.eq_nil_of_newsOf⟩

/-- A reliable fetcher has something in its lineup exactly if it is not done. -/
theorem lineup_ne_nil_iff (hf : f.Reliable store sort) (ha : ∀ id, f.Accountable store id) :
    f.lineup store ≠ [] ↔ ¬ f.IsDone := by
  rw [ne_eq, lineup_eq_nil_iff, not_forall, exists_owed_iff hf ha]

/-! ### Steps of the thread -/

/-- What is not booked yet changes only by a booking. -/
theorem ahead_advance (hf : f.Reliable store sort)
    (hsame : SplitReader.fetch d.store disturbed f.reader =
      SplitReader.fetch store disturbed f.reader)
    (hstory : ∀ id, IsStory (f.unbooked store id)) (h : Advance disturbed f d g e)
    (hin : g.phase.isOut = false) :
    f.booked.toList.flatMap (·.tidings) ++ g.ahead store = f.ahead store := by
  have hkeeps (hfetches : f.phase.isOut = false) (id : String) : f.reader.Keeps store id :=
    ((hf.faithful id).attentive hfetches).keeps
  cases h with
  | hand hphase hcall =>
      have hchanged := (changed_of_hand (hf.faithful "") hphase hcall).1
      have hspares (id : String) := (changed_of_hand (hf.faithful id) hphase hcall).2
      have hfirst := Backend.lineup_changed hchanged
        (hkeeps (by simp [hphase, Phase.isOut])) hspares fun id => by
          have := hstory id
          simp only [unbooked, unheard, fetched, hphase, List.cons_append, List.flatMap_cons,
            Option.toList_none, List.flatMap_nil, List.nil_append, ← List.append_assoc] at this
          rw [Tiding.newsOf_append, Backend.newsOf_lineup, SplitsChange.newsOf_tidings]
          exact ⟨_, this⟩
      simp [ahead, unheard, fetched, booked, hphase, hfirst]
  | handFail hphase hcall => cases returned_of_hand hf.suited hphase hcall
  | fetch hphase hcall =>
      have hoff := Backend.lineup_fetch (hsame ▸ hcall)
        (hkeeps (by simp [hphase, Phase.isOut]) "")
      simp [ahead, unheard, fetched, booked, hphase, ← hoff]
  | fetchFail hphase hcall =>
      obtain ⟨_, hreturned, -⟩ := returned_of_fetch (hf.faithful "") hphase (hsame ▸ hcall)
      cases hreturned
  | rewind hphase hcall hresult =>
      have hin' : f.phase.isOut = false := by simp [hphase, Phase.isOut]
      have hback := Backend.lineup_rewind hcall (hkeeps hin')
        ((hf.attentive hin').handFull (.inl (by simp [fetched, hphase])))
      simp [ahead, unheard, fetched, booked, hphase, hback]
  | _ => simp_all [ahead, unheard, fetched, booked, Phase.isOut, Duty.book]

/-- The tidings of the batch that a step hands over come off the front of the lineup; what a thread
has in its lineup when it winds down is lost. -/
theorem lineup_advance (hf : f.Reliable store sort) (ha : ∀ id, f.Accountable store id)
    (hopen : d.queue.closed = false)
    (hsame : SplitReader.fetch d.store disturbed f.reader =
      SplitReader.fetch store disturbed f.reader)
    (h : Advance disturbed f d g e) :
    (f.handsOver d).toList.flatMap (·.tidings) ++
        (g.lineup store ++ if g.phase.isOut then f.lineup store else []) =
      f.lineup store := by
  cases hphase : g.phase.isOut with
  | true => simp [handsOver_of_out h hphase, lineup_of_out hphase]
  | false =>
      have hin : f.phase.isOut = false := in_of_advance h hphase
      have hstory (id : String) : IsStory (f.unbooked store id) := by
        have := (ha id).story
        rw [owed_of_in hin] at this
        exact this.of_append
      have hahead := ahead_advance hf hsame hstory h hphase
      have hheld := held_advance (fun _ hnone => SplitBatch.tidings_of_isEmpty hnone)
        (hf.faithful "") hopen h hphase
      rw [lineup_of_in hphase, lineup_of_in hin, if_neg (by simp), List.append_nil,
        ← List.append_assoc, hheld, List.append_assoc, hahead]

/-! ### Requests and nudges -/

/-- The lineup depends on the fetcher's hands, its reader and what that has not heard of. -/
theorem lineup_congr (hphase : g.phase = f.phase) (hleft : g.leftover = f.leftover)
    (hreader : g.reader.lineup store = f.reader.lineup store)
    (hpending : g.duty.pending = f.duty.pending) : g.lineup store = f.lineup store := by
  simp only [lineup, held, ahead, fetched, unheard, hphase, hleft, hreader, hpending]

theorem lineup_nudge (nudge : Nudge) (depot : Depot) :
    (nudge.apply f depot).1.lineup store = f.lineup store := by
  cases nudge with
  | wakeReader => exact lineup_congr rfl rfl (Backend.lineup_wake store f.reader) rfl
  | rouse | requestWake | wakePut => exact lineup_congr rfl rfl rfl rfl

/-- A request that neither adds splits nor takes any away changes nothing about the lineup. -/
theorem lineup_enact (hleaves : request.LeavesSplits) :
    (request.enact f).1.lineup store = f.lineup store := by
  cases request with
  | addSplits _ | removeSplits _ => exact hleaves.elim
  | stop mode =>
      simp only [Request.enact]
      split
      · rfl
      · exact lineup_congr rfl rfl rfl rfl
  | wakeUp _ | pause | resume | releaseLatch => exact lineup_congr rfl rfl rfl rfl

/-- A fetcher with nothing in its lineup takes on the splits that it is given. -/
theorem lineup_addSplits (ha : ∀ id, f.Accountable store id) (hin : f.phase.isOut = false)
    (hrefuses : f.duty.refuses = false) (hblank : f.lineup store = []) :
    (∀ id, ((Request.addSplits splits).enact f).1.Accountable store id) ∧
      ((Request.addSplits splits).enact f).1.lineup store =
        (Duty.newcomers [] splits).flatMap (·.tidings store) := by
  have howed := lineup_eq_nil_iff.1 hblank
  have hassigned : f.duty.assigned = [] := by
    refine List.eq_nil_iff_forall_not_mem.2 fun split hmem => ?_
    have hlisted := ((ha split.id).listed hin).1 ⟨split, hmem, rfl⟩
    have hnone := howed split.id
    rw [owed_of_in hin, List.append_eq_nil_iff] at hnone
    rw [hnone.2] at hlisted
    cases hlisted
  have honce : ((Duty.newcomers [] splits).map Split.id).Nodup := by
    simpa using @Duty.nodup_newcomers [] splits List.nodup_nil
  -- Splits that are named twice count once, so they may as well be named once.
  have hsame : (Request.addSplits splits).enact f =
      (Request.addSplits (Duty.newcomers [] splits)).enact f := by
    have hself : Duty.newcomers [] (Duty.newcomers [] splits) = Duty.newcomers [] splits :=
      Duty.newcomers_eq_self (by simpa using honce)
    simp only [Request.enact, hassigned, hself]
  have hafter (id : String) := accountable_addSplits (ha id) hin hrefuses honce fun _ => howed id
  rw [hsame]
  refine ⟨fun id => (hafter id).1, ?_⟩
  by_cases hnone : (Duty.newcomers [] splits).isEmpty = true
  · simp [Request.enact, hassigned, List.isEmpty_iff.1 hnone, Duty.newcomers, hblank]
  · rw [← hsame]
    have henact : ((Request.addSplits splits).enact f).1 =
        { f with duty := f.duty.assign (Duty.newcomers [] splits) } := by
      simp [Request.enact, hrefuses, hassigned, hnone]
    have hafter : lineup store { f with duty := f.duty.assign (Duty.newcomers [] splits) } =
        f.lineup store ++ (Duty.newcomers [] splits).flatMap (·.tidings store) := by
      simp [lineup, hin, held, ahead, fetched, unheard, Duty.assign, SplitsChange.tidings]
    rw [henact, hafter, hblank, List.nil_append]

end Fetcher

end SplitFeed
