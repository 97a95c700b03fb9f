/-
# Books by split

The books on a job whose splits can be told apart are kept under the ids of the splits: what a
fetcher has in stock of a split is what it owes of it, and the books are right if they are balanced
for every split.
-/
import SplitFeed.Proofs.Supervisor.Balance
import SplitFeed.Proofs.Supervisor.Serving
import Mathlib.Tactic.Choose

namespace SplitFeed

/-- Books on what becomes of the news of each split of a job. -/
def splitBooks (job : Job) : Bookkeeping String (Option Record) where
  stock f id := f.owed job.files id
  Right tasks taken lost s := ∀ id,
    s.Balanced job.files id taken (tasks.flatMap Task.splits) job.splits (lost id)
  Settled taken missing := ∀ id,
    taken.flatMap (·.news id) ++ missing id = Split.due job.files id job.splits

namespace Supervisor

variable {job : Job} {s next : Supervisor Backend} {tasks : List Task}
  {taken : List (SplitBatch Record)}
  {lost : String → List (Option Record)} {disturbed : List Bool} {number : Nat}

theorem splitBooks_thread (hs : s.Heeds job tasks taken)
    (hb : (splitBooks job).Right tasks taken lost s)
    (h : s.stepThread? number disturbed = some next) :
    ∃ loss, (splitBooks job).Right tasks taken (fun id => loss id ++ lost id) next ∧
      ∀ counts, Course.Costs counts loss ↔ ∃ f ∈ s.crew, f.id = number ∧ f.Forsakes ∧
        Course.Costs counts ((splitBooks job).stock f) := by
  have hsteady := steady_of_heeds hs
  obtain ⟨f, hf, g, hid, ⟨e, hstride⟩, hbalanced⟩ :=
    balanced_thread hs.sound.faithful hs.sound.isOpen hsteady h
  have hreliable :=
    reliable_stride (hs.sound.reliable f hf) hs.sound.isOpen (hsteady f hf disturbed) hstride
  refine ⟨fun id => strideLoss job.files id f g, fun id => hbalanced id _ _ _ _ (hb id),
    fun counts => ?_⟩
  subst hid
  rw [exists_crew_iff hs.sound.unique hf]
  rcases strideLoss_cases (hs.sound.reliable f hf) hreliable (fun id => (hb id).accountable f hf)
    hstride with ⟨hforsakes, hloss⟩ | ⟨hkeeps, hloss⟩
  · simp only [hloss, hforsakes, true_and]
    rfl
  · simp only [hloss, hkeeps, false_and, iff_false]
    exact Course.not_costs_nothing

theorem splitBooks_ends (hb : (splitBooks job).Right [] taken lost s)
    (hnone : s.queue.items = []) :
    ∃ left, (splitBooks job).Settled taken (fun id => left id ++ lost id) ∧
      ∀ counts, Course.Costs counts left ↔
        ∃ f ∈ s.crew, Course.Costs counts ((splitBooks job).stock f) := by
  choose owner rest howed howner hsum using fun id => (hb id).balance
  refine ⟨rest, fun id => ?_, fun counts => ⟨?_, ?_⟩⟩
  · simpa [told, hnone] using hsum id
  · rintro ⟨id, item, hmem, hcounts⟩
    obtain ⟨f, hf, hid⟩ := List.mem_map.1 (howner id (List.ne_nil_of_mem hmem))
    refine ⟨f, hf, id, item, ?_, hcounts⟩
    change item ∈ f.owed job.files id
    rwa [howed id f hf, if_pos hid]
  · rintro ⟨f, hf, id, item, hmem, hcounts⟩
    change item ∈ f.owed job.files id at hmem
    rw [howed id f hf] at hmem
    split at hmem
    · exact ⟨id, item, hmem, hcounts⟩
    · cases hmem

/-- Books by split are orderly. -/
theorem splitBooks_orderly (honce : (job.splits.map Split.id).Nodup) :
    (splitBooks job).Orderly job where
  congr h hcrew _ hitems id := balanced_congr (h id) hcrew hitems
  thread := splitBooks_thread
  perform hs h hmore id := by
    rw [List.flatMap_append]
    exact balanced_perform hs.sound hs.agenda.1 honce (hs.asked _ List.mem_cons_self) hmore (h id)
  rouse _ h id := balanced_run (h id) trivial
  sweep _ h := h
  poll h hitems id := balanced_poll (h id) rfl hitems (items_poll hitems).1
  ends _ := splitBooks_ends
  idle {_ _ _ s f} hs h hf := by
    rw [Course.costs_anything]
    exact Fetcher.exists_owed_iff (hs.sound.reliable f hf) fun id => (h id).accountable f hf

end Supervisor

end SplitFeed
