/-
# Fetchers for which nothing went wrong

A reliable fetcher is faithful to every split: nothing is taken away from it, no call into its
reader fails, and the queue is open.  It is not asked to drain either, so that its thread winds down
in one way only, and all that it holds are batches with news.
-/
import SplitFeed.Proofs.Fetcher.Account
import SplitFeed.Proofs.Reading.Ready

namespace SplitFeed

/-- Whether nothing went wrong: no call failed, the queue was open, and nobody asked for the
drain. -/
def Phase.isSmooth : Phase → Bool
  | fetchLost _ | cycled (.error _) | stopping | finishing true | panicked _ => false
  | flushing | flushed | announcing | tolling | latched => false
  | noting outcome _ | idling outcome | ringing outcome | cycled (.ok outcome) =>
    outcome ≠ .queueClosed
  | _ => true

namespace Fetcher

/-- The reader is ready, and a batch has come back to it only if the thread has none in its
hand. -/
structure Attentive (store : FileStore) (f : Fetcher Backend) : Prop where
  ready : f.reader.IsReady store
  replay : f.reader.replay.length ≤ 1
  handFull : f.fetched.isSome = true ∨ f.held.isSome = true → f.reader.replay = []

/-- A fetcher for which nothing went wrong, with splits that its reader can read. -/
structure Reliable (store : FileStore) (sort : ReaderSort) (f : Fetcher Backend) : Prop where
  coherent : f.Coherent
  suited : f.Suited sort
  smooth : f.phase.isSmooth = true
  undrained : f.duty.stop ≠ some .draining
  welcome : ∀ change ∈ f.unheard, change.IsWelcome store
  attentive : f.phase.isOut = false → f.Attentive store
  full : ∀ batch ∈ f.held, batch.isEmpty = false

variable {store : FileStore} {sort : ReaderSort} {id : String} {f g : Fetcher Backend}
  {d e : Depot} {disturbed : List Bool}

theorem faultless_of_smooth {phase : Phase} (h : phase.isSmooth = true) :
    phase.isFaultless = true := by
  unfold Phase.isSmooth at h
  split at h <;> simp_all [Phase.isFaultless]

theorem attentive_iff : f.Attentive store ↔ ∀ id, f.AttentiveTo store id := by
  constructor
  · exact fun h id => ⟨Backend.isReady_iff.1 h.ready id, h.replay, h.handFull⟩
  · exact fun h => ⟨Backend.isReady_iff.2 fun id => (h id).keeps, (h "").replay, (h "").handFull⟩

/-- A reliable fetcher is faithful to every split. -/
theorem Reliable.faithful (hf : f.Reliable store sort) (id : String) :
    f.Faithful store sort id where
  coherent := hf.coherent
  suited := hf.suited
  faultless := faultless_of_smooth hf.smooth
  spared change hmem := SplitsChange.spares_of_isWelcome (hf.welcome change hmem) id
  attentive hin := attentive_iff.1 (hf.attentive hin) id

/-! ### Steps of the thread -/

/-- Nothing goes wrong. -/
theorem smooth_advance (hf : f.Reliable store sort) (hopen : d.queue.closed = false)
    (hsame : SplitReader.fetch d.store disturbed f.reader =
      SplitReader.fetch store disturbed f.reader)
    (h : Advance disturbed f d g e) : g.phase.isSmooth = true := by
  have hfaultless := faultless_advance (hf.faithful "") hopen hsame h
  have hsmooth := hf.smooth
  have hundrained := hf.undrained
  cases h <;> simp_all [Phase.isSmooth, Phase.isFaultless]

theorem undrained_advance (hundrained : f.duty.stop ≠ some .draining)
    (h : Advance disturbed f d g e) : g.duty.stop ≠ some .draining := by
  cases h with
  | stop hphase =>
      cases hstop : f.duty.stop with
      | none => simp
      | some mode => simpa [hstop] using hundrained
  | _ => exact hundrained

theorem reliable_advance (hf : f.Reliable store sort) (hopen : d.queue.closed = false)
    (hsame : SplitReader.fetch d.store disturbed f.reader =
      SplitReader.fetch store disturbed f.reader)
    (h : Advance disturbed f d g e) : g.Reliable store sort where
  coherent := coherent_advance hf.coherent h
  suited := suited_advance hf.suited h
  smooth := smooth_advance hf hopen hsame h
  undrained := undrained_advance hf.undrained h
  welcome change hmem := hf.welcome change (mem_unheard_advance h hmem)
  attentive hin := attentive_iff.2 fun id => attentiveTo_advance (hf.faithful id) hsame h hin
  full := full_advance hf.full hf.coherent h

end Fetcher

/-! ### Requests and nudges -/

namespace Request

/-- A request that takes no splits away, adds only splits that the reader can read, and does not
ask for the drain. -/
def IsGentle (store : FileStore) (sort : ReaderSort) : Request → Prop
  | addSplits splits => ∀ split ∈ splits, split.sort = sort ∧ split.IsReadable store
  | removeSplits _ => False
  | stop mode => mode = .immediate
  | wakeUp _ | pause | resume | releaseLatch => True

/-- Such a request takes no split away. -/
theorem spares_of_isGentle {ρ : Type} {store : FileStore} {sort : ReaderSort} {request : Request}
    (h : request.IsGentle store sort) (id : String) (f : Fetcher ρ) :
    request.Spares store sort id f := by
  cases request with
  | addSplits splits => exact h
  | removeSplits ids => exact h.elim
  | wakeUp _ | pause | resume | stop _ | releaseLatch => trivial

end Request

namespace Fetcher

variable {store : FileStore} {sort : ReaderSort} {f g : Fetcher Backend} {request : Request}

theorem reliable_congr (hf : f.Reliable store sort) (hcoherent : g.Coherent)
    (hsuited : g.Suited sort) (hphase : g.phase = f.phase) (hleft : g.leftover = f.leftover)
    (hreader : g.reader = f.reader ∨ g.reader = SplitReader.wake f.reader)
    (hstop : g.duty.stop ≠ some .draining)
    (hpending : ∀ change ∈ g.duty.pending,
      change ∈ f.duty.pending ∨ change.IsWelcome store) : g.Reliable store sort := by
  have hfaithful (id : String) : g.Faithful store sort id :=
    faithful_congr (hf.faithful id) hcoherent hsuited hphase hleft hreader fun change hmem =>
      (hpending change hmem).imp_right fun h => SplitsChange.spares_of_isWelcome h id
  refine ⟨hcoherent, hsuited, hphase ▸ hf.smooth, hstop, fun change hmem => ?_,
    fun hin => attentive_iff.2 fun id => (hfaithful id).attentive hin, fun batch hbatch => ?_⟩
  · have hwelcome := hf.welcome change
    simp only [unheard, hphase, List.mem_append] at hmem hwelcome
    rcases hmem with hhanding | hnew
    · exact hwelcome (.inl hhanding)
    · exact (hpending change hnew).elim (fun hold => hwelcome (.inr hold)) fun h => h
  · refine hf.full batch ?_
    simpa only [held, hphase, hleft] using hbatch

theorem reliable_enact (hf : f.Reliable store sort) (hgentle : request.IsGentle store sort) :
    (request.enact f).1.Reliable store sort := by
  have hcoherent := coherent_enact request hf.coherent
  have hsuited := suited_enact hf.suited
    (Request.suits_of_spares (Request.spares_of_isGentle hgentle "" f))
  cases request with
  | addSplits splits =>
      by_cases hrefused :
          (f.duty.refuses || (Duty.newcomers f.duty.assigned splits).isEmpty) = true
      · simpa only [Request.enact, if_pos hrefused] using hf
      · simp only [Request.enact, if_neg hrefused] at hcoherent hsuited ⊢
        refine reliable_congr hf hcoherent hsuited rfl rfl (.inl rfl) hf.undrained ?_
        intro change hmem
        rcases List.mem_append.1 hmem with hold | hnew
        · exact .inl hold
        · rw [List.mem_singleton.1 hnew]
          exact .inr fun split hsplit => (hgentle split (Duty.mem_of_mem_newcomers hsplit)).2
  | removeSplits ids => exact hgentle.elim
  | stop mode =>
      obtain rfl : mode = .immediate := hgentle
      simp only [Request.enact] at hcoherent hsuited ⊢
      split
      · exact hf
      · next hstop =>
          rw [hstop] at hcoherent hsuited
          exact reliable_congr hf hcoherent hsuited rfl rfl (.inl rfl) (by simp)
            fun change hmem => .inl hmem
  | wakeUp _ | pause | resume | releaseLatch =>
      exact reliable_congr hf hcoherent hsuited rfl rfl (.inl rfl) hf.undrained
        fun change hmem => .inl hmem

theorem reliable_nudge (nudge : Nudge) (depot : Depot) (hf : f.Reliable store sort) :
    (nudge.apply f depot).1.Reliable store sort := by
  have hcoherent := coherent_nudge nudge depot hf.coherent
  have hsuited := suited_nudge nudge depot hf.suited
  cases nudge with
  | wakeReader =>
      exact reliable_congr hf hcoherent hsuited rfl rfl (.inr rfl) hf.undrained
        fun change hmem => .inl hmem
  | rouse | requestWake | wakePut =>
      exact reliable_congr hf hcoherent hsuited rfl rfl (.inl rfl) hf.undrained
        fun change hmem => .inl hmem

end Fetcher

end SplitFeed
