/-
# Fetchers whose splits suit their reader

A fetcher takes on splits of any sort, but its reader knows one sort only.  Whoever controls a
fetcher knows the sort and adds no others.  Then every change that the thread hands over is taken
note of, and no call into a built-in reader but a fetch fails.
-/
import SplitFeed.Proofs.Fetcher.Station
import SplitFeed.Proofs.Reading.Changes

namespace SplitFeed

namespace Fetcher

/-- All splits that a fetcher has or has yet to tell its reader about are of the reader's sort. -/
structure Suited (sort : ReaderSort) (f : Fetcher Backend) : Prop where
  reader : f.reader.sort = sort
  assigned : ∀ split ∈ f.duty.assigned, split.sort = sort
  pending : ∀ change ∈ f.duty.pending, Backend.Suits sort change
  handing : ∀ {changes}, f.phase = .handing changes → ∀ change ∈ changes, Backend.Suits sort change

variable {sort : ReaderSort} {f g : Fetcher Backend}

theorem suited_congr (hf : f.Suited sort) (hreader : g.reader.sort = f.reader.sort)
    (hassigned : ∀ split ∈ g.duty.assigned, split ∈ f.duty.assigned)
    (hpending : g.duty.pending = f.duty.pending)
    (hphase : ∀ changes, g.phase ≠ .handing changes) : g.Suited sort where
  reader := hreader.trans hf.reader
  assigned split hsplit := hf.assigned split (hassigned split hsplit)
  pending := hpending ▸ hf.pending
  handing h := absurd h (hphase _)

theorem suited_advance {disturbed : List Bool} {d e : Depot} (hf : f.Suited sort)
    (h : Advance disturbed f d g e) : g.Suited sort := by
  cases h with
  | collect hphase hpaused =>
      refine ⟨hf.reader, hf.assigned, fun _ hmem => (List.not_mem_nil hmem).elim, ?_⟩
      intro changes heq
      cases heq
      exact hf.pending
  | hand hphase hcall =>
      have hhanding := hf.handing hphase
      have hsuits := hhanding _ List.mem_cons_self
      rw [← hf.reader] at hsuits
      have hsort := Backend.sort_changed (Backend.changed_of_returned hsuits hcall)
      refine ⟨hsort.trans hf.reader, hf.assigned, hf.pending, ?_⟩
      intro changes heq
      cases heq
      exact fun change hmem => hhanding change (List.mem_cons_of_mem _ hmem)
  | handFail hphase hcall | handPanic hphase hcall =>
      have hsuits := hf.handing hphase _ List.mem_cons_self
      rw [← hf.reader] at hsuits
      obtain ⟨_, _, hreturned, -⟩ := Backend.change_of_suits hsuits
      simp [hreturned] at hcall
  | fetch hphase hcall | fetchFail hphase hcall | fetchPanic hphase hcall =>
      exact suited_congr hf (Backend.sort_fetch hcall) (fun _ hmem => hmem) rfl (by simp)
  | rewind hphase hcall _ | rewindPanic hphase hcall =>
      exact suited_congr hf (Backend.sort_rewind hcall) (fun _ hmem => hmem) rfl (by simp)
  | close hphase hcall | closeFail hphase hcall | closePanic hphase hcall =>
      exact suited_congr hf (Backend.sort_close hcall) (fun _ hmem => hmem) rfl (by simp)
  | bookNothingLast _ _ _ | bookNothing _ _ _ | book _ _ =>
      exact suited_congr hf rfl (fun _ hmem => (List.mem_filter.1 hmem).1) rfl (by simp)
  | doze hphase | flush hphase | flushAgain hphase | flushShut hphase | flushDoze hphase =>
      exact suited_congr hf rfl (fun _ hmem => hmem) rfl (by simp [hphase])
  | _ => exact suited_congr hf rfl (fun _ hmem => hmem) rfl (by simp)

end Fetcher

/-- A request adds splits of one sort only. -/
def Request.Suits (sort : ReaderSort) : Request → Prop
  | addSplits splits => ∀ split ∈ splits, split.sort = sort
  | _ => True

theorem Duty.mem_of_mem_newcomers {split : Split} {assigned splits : List Split}
    (h : split ∈ Duty.newcomers assigned splits) : split ∈ splits := by
  induction splits generalizing assigned with
  | nil => exact h
  | cons other rest ih =>
      unfold newcomers at h
      split at h
      · exact List.mem_cons_of_mem _ (ih h)
      · rcases List.mem_cons.1 h with rfl | hmem
        · exact List.mem_cons_self
        · exact List.mem_cons_of_mem _ (ih hmem)

/-- The splits that are new to a list are not on it, and each of them is new once. -/
theorem Duty.nodup_newcomers {assigned : List Split} (splits : List Split)
    (honce : (assigned.map Split.id).Nodup) :
    (assigned.map Split.id ++ (newcomers assigned splits).map Split.id).Nodup := by
  induction splits generalizing assigned with
  | nil => simpa [newcomers] using honce
  | cons split splits ih =>
      unfold newcomers
      split
      · exact ih honce
      · next hnew =>
          have hfresh : ((assigned ++ [split]).map Split.id).Nodup := by
            rw [List.map_append, List.nodup_append]
            refine ⟨honce, by simp, ?_⟩
            rintro id hid other hother rfl
            obtain ⟨earlier, hearlier, hsame⟩ := List.mem_map.1 hid
            simp only [List.map_cons, List.map_nil, List.mem_singleton] at hother
            simp only [List.any_eq_true, beq_iff_eq, not_exists, not_and] at hnew
            exact hnew earlier hearlier (hsame.trans hother)
          simpa using ih hfresh

/-- Splits with different ids, of which none is on a list, are all new to it. -/
theorem Duty.newcomers_eq_self {assigned splits : List Split}
    (honce : (assigned.map Split.id ++ splits.map Split.id).Nodup) :
    newcomers assigned splits = splits := by
  induction splits generalizing assigned with
  | nil => rfl
  | cons split splits ih =>
      have hnew : (assigned.any (·.id == split.id)) = false := by
        have hdisjoint := (List.nodup_append.1 honce).2.2
        simp only [List.any_eq_false, beq_iff_eq]
        intro other hmem hsame
        exact hdisjoint _ (List.mem_map_of_mem hmem) _ List.mem_cons_self hsame
      have hrest := @ih (assigned ++ [split]) (by simpa using honce)
      simp [newcomers, hnew, hrest]

/-- The id of a split that is offered is on the list or among the newcomers. -/
theorem Duty.exists_newcomer {assigned splits : List Split} {split : Split}
    (hmem : split ∈ splits) :
    ∃ other ∈ assigned ++ newcomers assigned splits, other.id = split.id := by
  induction splits generalizing assigned with
  | nil => cases hmem
  | cons first splits ih =>
      unfold newcomers
      rcases List.mem_cons.1 hmem with rfl | hlater
      · split
        · next hlisted =>
            obtain ⟨other, hother, hsame⟩ := List.any_eq_true.1 hlisted
            exact ⟨other, List.mem_append_left _ hother, by simpa using hsame⟩
        · exact ⟨split, List.mem_append_right _ List.mem_cons_self, rfl⟩
      · split
        · exact ih hlater
        · obtain ⟨other, hother, hsame⟩ := @ih (assigned ++ [first]) hlater
          exact ⟨other, by simpa using hother, hsame⟩

namespace Fetcher

variable {sort : ReaderSort} {f : Fetcher Backend}

/-- Splits that suit the reader can be taken on. -/
theorem suited_assign {added : List Split} (hf : f.Suited sort)
    (hadded : ∀ split ∈ added, split.sort = sort) :
    ({ f with duty := f.duty.assign added } : Fetcher Backend).Suited sort := by
  refine ⟨hf.reader, ?_, ?_, hf.handing⟩
  · intro split hmem
    exact (List.mem_append.1 hmem).elim (hf.assigned split) (hadded split)
  · intro change hmem
    rcases List.mem_append.1 hmem with hold | hnew
    · exact hf.pending change hold
    · rw [List.mem_singleton.1 hnew]
      exact hadded

theorem suited_enact {request : Request} (hf : f.Suited sort) (hsuits : request.Suits sort) :
    (request.enact f).1.Suited sort := by
  cases request with
  | addSplits splits =>
      simp only [Request.enact]
      split
      · exact hf
      · exact suited_assign hf fun split hmem => hsuits split (Duty.mem_of_mem_newcomers hmem)
  | removeSplits ids =>
      refine ⟨hf.reader, fun split hmem => hf.assigned split (List.mem_filter.1 hmem).1, ?_,
        hf.handing⟩
      intro change hmem
      simp only [Request.enact, Duty.unassign] at hmem
      split at hmem
      · exact hf.pending change hmem
      · rcases List.mem_append.1 hmem with hold | hnew
        · exact hf.pending change hold
        · rw [List.mem_singleton.1 hnew]
          exact fun split hsplit => hf.assigned split (List.mem_filter.1 hsplit).1
  | stop mode =>
      simp only [Request.enact]
      split
      · exact hf
      · exact ⟨hf.reader, hf.assigned, hf.pending, hf.handing⟩
  | wakeUp _ | pause | resume | releaseLatch =>
      exact ⟨hf.reader, hf.assigned, hf.pending, hf.handing⟩

theorem suited_nudge (nudge : Nudge) (depot : Depot) (hf : f.Suited sort) :
    (nudge.apply f depot).1.Suited sort := by
  cases nudge with
  | wakeReader =>
      exact ⟨(Backend.sort_wake _).trans hf.reader, hf.assigned, hf.pending, hf.handing⟩
  | rouse | requestWake | wakePut => exact ⟨hf.reader, hf.assigned, hf.pending, hf.handing⟩

end Fetcher

namespace Station

/-- A move adds splits of one sort only. -/
def Move.Suits (sort : ReaderSort) : Move → Prop
  | ask request => request.Suits sort
  | _ => True

variable {sort : ReaderSort} {move : Move} {station next : Station Backend}

theorem suited_step (hf : station.fetcher.Suited sort) (hsuits : move.Suits sort)
    (h : station.step move = some next) : next.fetcher.Suited sort := by
  cases move with
  | cycle | loop =>
      simp only [step, Option.ite_none_right_eq_some, Option.some.injEq] at h
      obtain ⟨-, rfl⟩ := h
      exact Fetcher.suited_congr hf rfl (fun _ hmem => hmem) rfl (fun _ heq => by cases heq)
  | thread disturbed => exact Fetcher.suited_advance hf (step_thread h).1
  | ask request =>
      obtain rfl := Option.some.inj h
      exact Fetcher.suited_enact hf hsuits
  | nudge nudge =>
      obtain rfl := Option.some.inj h
      exact Fetcher.suited_nudge nudge station.depot hf
  | timeOut =>
      obtain rfl := Option.some.inj h
      exact ⟨hf.reader, hf.assigned, hf.pending, hf.handing⟩
  | queue _ | files _ =>
      obtain rfl := Option.some.inj h
      exact hf

end Station

end SplitFeed
