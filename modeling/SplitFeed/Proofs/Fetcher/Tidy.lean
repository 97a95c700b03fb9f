/-
# Fetchers that keep to their files

A tidy fetcher reads only safe files and has only neat batches.  Its thread keeps it tidy as long as
the safe files are as they were.
-/
import SplitFeed.Proofs.Fetcher.Ledger
import SplitFeed.Proofs.Reading.Neat
import SplitFeed.Proofs.Reading.Undisturbed

namespace SplitFeed

/-- Splits that a tidy fetcher may take on: they are read from safe files, and are known for it if
they may end bare. -/
def Split.IsTame (safe : Nat → Prop) (bare : String → Prop) (store : FileStore) (split : Split) :
    Prop :=
  split.IsSafe safe store ∧ (split.MayEndBare → bare split.id)

namespace Backend

variable {store : FileStore} {backend : Backend}

theorem safe_of_isNew {safe : Nat → Prop} (h : backend.IsNew) : backend.IsSafe safe store := by
  cases backend with
  | ranges reader => trivial
  | files reader => simp [IsSafe, show reader.docket = {} from h]

end Backend

namespace Fetcher

variable {safe : Nat → Prop} {bare : String → Prop} {store : FileStore} {sort : ReaderSort}
  {f g : Fetcher Backend}
  {d e : Depot} {disturbed : List Bool}

/-- A fetcher that keeps to safe files and has only neat batches. -/
structure Tidy (safe : Nat → Prop) (bare : String → Prop) (store : FileStore)
    (f : Fetcher Backend) : Prop where
  reader : f.reader.IsSafe safe store
  neat : f.reader.IsNeat bare
  fetched : ∀ batch ∈ f.fetched, batch.IsNeat bare
  held : ∀ batch ∈ f.held, batch.IsNeat bare
  unheard : ∀ change ∈ f.unheard, ∀ split ∈ change.splits, split.IsTame safe bare store

/-- A new reader makes a tidy fetcher. -/
theorem tidy_beginLoop {reader : Backend} (hnew : reader.IsNew) (id : Nat) :
    ({ id, reader } : Fetcher Backend).beginLoop.Tidy safe bare store where
  reader := Backend.safe_of_isNew hnew
  neat := Backend.neat_of_isNew hnew
  fetched := by simp [beginLoop, Fetcher.fetched]
  held := by simp [beginLoop, Fetcher.held]
  unheard := by simp [beginLoop, Fetcher.unheard]

/-- What a step leaves in the reader is safe and neat. -/
theorem tidy_reader_advance {id : String} (hf : f.Faithful store sort id)
    (ht : f.Tidy safe bare store) (hagrees : store.Agrees safe d.store)
    (h : Advance disturbed f d g e) : g.reader.IsSafe safe store ∧ g.reader.IsNeat bare := by
  obtain ⟨hsame, hnext⟩ := Backend.fetch_agrees hagrees ht.reader disturbed
  cases h with
  | hand hphase hcall =>
      obtain ⟨hchanged, -⟩ := changed_of_hand hf hphase hcall
      have htame := ht.unheard _ (by rw [Fetcher.unheard, hphase]; exact List.mem_cons_self)
      exact ⟨Backend.safe_changed hchanged ht.reader fun split hmem => (htame split hmem).1,
        Backend.neat_changed hchanged ht.neat fun split hmem => (htame split hmem).2⟩
  | handFail hphase hcall | handPanic hphase hcall =>
      cases returned_of_hand hf.suited hphase hcall
  | fetch hphase hcall =>
      rw [hsame] at hcall
      rw [hcall] at hnext
      exact ⟨hnext, (Backend.neat_fetch hcall ht.neat).2⟩
  | fetchFail hphase hcall | fetchPanic hphase hcall =>
      obtain ⟨_, hreturned, -⟩ := returned_of_fetch hf hphase (hsame ▸ hcall)
      cases hreturned
  | rewind hphase hcall hresult =>
      exact ⟨Backend.safe_rewind hcall ht.reader,
        Backend.neat_rewind hcall ht.neat (ht.fetched _ (by simp [Fetcher.fetched, hphase]))⟩
  | rewindPanic hphase hcall => cases hcall
  | close hphase hcall => exact ⟨Backend.safe_close hcall, Backend.neat_close hcall⟩
  | closeFail hphase hcall | closePanic hphase hcall => cases hcall
  | _ => exact ⟨ht.reader, ht.neat⟩

/-- A thread keeps its fetcher tidy. -/
theorem tidy_advance {id : String} (hf : f.Faithful store sort id) (ht : f.Tidy safe bare store)
    (hagrees : store.Agrees safe d.store) (h : Advance disturbed f d g e) :
    g.Tidy safe bare store where
  reader := (tidy_reader_advance hf ht hagrees h).1
  neat := (tidy_reader_advance hf ht hagrees h).2
  fetched batch hmem := by
    rcases mem_fetched_advance h hmem with hbefore | ⟨-, hcall⟩
    · exact ht.fetched batch hbefore
    · rw [(Backend.fetch_agrees hagrees ht.reader disturbed).1] at hcall
      exact (Backend.neat_fetch hcall ht.neat).1 batch rfl
  held batch hmem :=
    (mem_held_advance hf.coherent h hmem).elim (ht.held batch) (ht.fetched batch)
  unheard change hmem := ht.unheard change (mem_unheard_advance h hmem)

/-- What a tidy fetcher puts into the queue is neat. -/
theorem neat_handsOver (ht : f.Tidy safe bare store) :
    ∀ batch ∈ f.handsOver d, batch.IsNeat bare := by
  intro batch hmem
  have hoffers := offers_of_handsOver hmem
  refine ht.held batch ?_
  unfold offers at hoffers
  split at hoffers
  · next hphase => simpa [Fetcher.held, hphase] using hoffers
  · next hphase => simpa [Fetcher.held, hphase] using hoffers
  · cases hoffers

theorem tidy_congr (ht : f.Tidy safe bare store) (hphase : g.phase = f.phase)
    (hleft : g.leftover = f.leftover)
    (hreader : g.reader = f.reader ∨ g.reader = SplitReader.wake f.reader)
    (hpending : ∀ change ∈ g.duty.pending,
      change ∈ f.duty.pending ∨ ∀ split ∈ change.splits, split.IsTame safe bare store) :
    g.Tidy safe bare store where
  reader := hreader.elim (fun hsame => hsame ▸ ht.reader)
    fun hwoken => hwoken ▸ Backend.safe_wake ht.reader
  neat := hreader.elim (fun hsame => hsame ▸ ht.neat)
    fun hwoken => hwoken ▸ Backend.neat_wake ht.neat
  fetched := by simpa only [Fetcher.fetched, hphase] using ht.fetched
  held := by simpa only [Fetcher.held, hphase, hleft] using ht.held
  unheard change hmem := by
    have hsafe := ht.unheard change
    simp only [Fetcher.unheard, hphase, List.mem_append] at hmem hsafe
    rcases hmem with hhanding | hnew
    · exact hsafe (.inl hhanding)
    · exact (hpending change hnew).elim (fun hold => hsafe (.inr hold)) fun h => h

/-- A request that takes no splits away keeps a fetcher tidy if all that it adds is tame. -/
theorem tidy_enact {request : Request} (ht : f.Tidy safe bare store)
    (hleaves : ∀ ids, request ≠ .removeSplits ids)
    (htame : ∀ splits, request = .addSplits splits →
      ∀ split ∈ splits, split.IsTame safe bare store) :
    (request.enact f).1.Tidy safe bare store := by
  cases request with
  | addSplits splits =>
      simp only [Request.enact]
      split
      · exact ht
      · refine tidy_congr ht rfl rfl (.inl rfl) fun change hmem => ?_
        rcases List.mem_append.1 hmem with hold | hnew
        · exact .inl hold
        · rw [List.mem_singleton.1 hnew]
          exact .inr fun split hsplit => htame splits rfl split (Duty.mem_of_mem_newcomers hsplit)
  | removeSplits ids => exact absurd rfl (hleaves ids)
  | stop mode =>
      simp only [Request.enact]
      split
      · exact ht
      · exact tidy_congr ht rfl rfl (.inl rfl) fun change hmem => .inl hmem
  | wakeUp _ | pause | resume | releaseLatch =>
      exact tidy_congr ht rfl rfl (.inl rfl) fun change hmem => .inl hmem

theorem tidy_nudge (nudge : Nudge) (depot : Depot) (ht : f.Tidy safe bare store) :
    (nudge.apply f depot).1.Tidy safe bare store := by
  cases nudge with
  | wakeReader => exact tidy_congr ht rfl rfl (.inr rfl) fun change hmem => .inl hmem
  | rouse | requestWake | wakePut =>
      exact tidy_congr ht rfl rfl (.inl rfl) fun change hmem => .inl hmem

end Fetcher

end SplitFeed
