/-
# Books by fetcher

The splits of a job are dealt over slots, and the fetcher that is started for a slot takes on its
share, each split once.  Two splits with one id that are dealt to different slots are taken on
twice.  So where splits cannot be told apart, books are kept under the ids of the fetchers: what a
fetcher has put into the queue, what is in its lineup and what it lost are together the tidings of
its share, in order.

Who put a batch into the queue cannot be seen from the batch.  The books remember it in parcels,
batches with the ids of their senders.
-/
import SplitFeed.Proofs.Fetcher.Lineup
import SplitFeed.Proofs.Supervisor.Floor
import SplitFeed.Proofs.Supervisor.Serving

namespace SplitFeed

/-! ### Parcels -/

/-- A batch with the id of the fetcher that put it into the queue. -/
abbrev Parcel := Nat × SplitBatch Record

namespace Parcel

/-- The tidings in the parcels of one fetcher. -/
def tidings (number : Nat) (parcels : List Parcel) : List Tiding :=
  (parcels.filter (·.1 == number)).flatMap (·.2.tidings)

/-- Tidings under the id of one fetcher. -/
def under (number : Nat) (tidings : List Tiding) (heading : Nat) : List Tiding :=
  if heading = number then tidings else []

variable {number other : Nat} {parcels more : List Parcel} {numbers : List Nat}
  {tidings : List Tiding}

@[simp]
theorem tidings_nil (number : Nat) : Parcel.tidings number [] = [] := rfl

theorem tidings_append (number : Nat) (parcels more : List Parcel) :
    Parcel.tidings number (parcels ++ more) =
      Parcel.tidings number parcels ++ Parcel.tidings number more := by
  simp [Parcel.tidings]

theorem tidings_cons (number : Nat) (parcel : Parcel) (parcels : List Parcel) :
    Parcel.tidings number (parcel :: parcels) =
      (if number = parcel.1 then parcel.2.tidings else []) ++ Parcel.tidings number parcels := by
  rw [Parcel.tidings, List.filter_cons]
  by_cases hself : parcel.1 = number
  · simp [hself, Parcel.tidings]
  · simp [hself, Ne.symm hself, Parcel.tidings]

/-- What one fetcher has handed over is under its id. -/
theorem tidings_handed (number other : Nat) (batches : List (SplitBatch Record)) :
    Parcel.tidings other (batches.map (number, ·)) =
      under number (batches.flatMap (·.tidings)) other := by
  induction batches with
  | nil => simp [under]
  | cons batch batches ih =>
      rw [List.map_cons, tidings_cons, ih, List.flatMap_cons, under, under]
      split <;> rfl

/-- What is under the id of one fetcher costs what it costs. -/
theorem costs_under {counts : Tiding → Prop} :
    Course.Costs counts (under number tidings) ↔ ∃ tiding ∈ tidings, counts tiding := by
  constructor
  · rintro ⟨heading, tiding, hmem, hcounts⟩
    rw [under] at hmem
    split at hmem
    · exact ⟨tiding, hmem, hcounts⟩
    · cases hmem
  · rintro ⟨tiding, hmem, hcounts⟩
    exact ⟨number, tiding, by rwa [under, if_pos rfl], hcounts⟩

/-- Among different fetchers there is one with a given id, or there is none. -/
theorem flatMap_under (honce : numbers.Nodup) (hmem : number ∈ numbers) :
    (numbers.flatMap fun heading => under number tidings heading) = tidings := by
  induction numbers with
  | nil => cases hmem
  | cons first numbers ih =>
      rw [List.nodup_cons] at honce
      rw [List.flatMap_cons]
      by_cases hself : first = number
      · subst hself
        have hothers : (numbers.flatMap fun heading => under first tidings heading) = [] := by
          refine List.flatMap_eq_nil_iff.2 fun heading hheading => if_neg ?_
          rintro rfl
          exact honce.1 hheading
        rw [hothers, under, if_pos rfl, List.append_nil]
      · rw [under, if_neg hself, List.nil_append,
          ih honce.2 ((List.mem_cons.1 hmem).resolve_left (Ne.symm hself))]

/-- Parcels sorted by their senders are all there. -/
theorem tidings_perm (honce : numbers.Nodup)
    (hstrangers : ∀ number, number ∉ numbers → Parcel.tidings number parcels = []) :
    (parcels.flatMap (·.2.tidings)).Perm
      (numbers.flatMap fun number => Parcel.tidings number parcels) := by
  induction parcels with
  | nil => simp
  | cons parcel parcels ih =>
      have hself (number : Nat) : Parcel.tidings number (parcel :: parcels) =
          under parcel.1 parcel.2.tidings number ++ Parcel.tidings number parcels :=
        tidings_cons number parcel parcels
      have hnone (number : Nat) (hnot : number ∉ numbers) :
          under parcel.1 parcel.2.tidings number = [] ∧ Parcel.tidings number parcels = [] :=
        List.append_eq_nil_iff.1 ((hself number).symm.trans (hstrangers number hnot))
      have hhead : (numbers.flatMap fun number => under parcel.1 parcel.2.tidings number) =
          parcel.2.tidings := by
        by_cases hmem : parcel.1 ∈ numbers
        · exact flatMap_under honce hmem
        · have hempty := (hnone _ hmem).1
          rw [under, if_pos rfl] at hempty
          simp [under, hempty]
      simp only [hself]
      refine .trans ?_ (List.flatMap_append_perm _ _ _)
      rw [hhead, List.flatMap_cons]
      exact (ih fun number hnot => (hnone number hnot).2).append_left _

/-- If one fetcher has sent all parcels, its tidings are all there are. -/
theorem flatMap_tidings (hothers : ∀ other, other ≠ number → Parcel.tidings other parcels = []) :
    parcels.flatMap (·.2.tidings) = Parcel.tidings number parcels := by
  induction parcels with
  | nil => rfl
  | cons parcel parcels ih =>
      simp only [tidings_cons, List.append_eq_nil_iff] at hothers
      rw [List.flatMap_cons, tidings_cons, ih fun other hne => (hothers other hne).2]
      congr 1
      split
      · rfl
      · next hne => simpa using (hothers parcel.1 (Ne.symm hne)).1

end Parcel

/-! ### Shares -/

namespace Job

/-- The splits of a job as they are taken on when they are dealt over slots that are all empty:
slot by slot, each of them once in a slot. -/
def allotment (job : Job) (threads : Nat) : List Split :=
  (List.range threads).flatMap fun slot =>
    Duty.newcomers [] (Supervisor.dealt threads 0 slot job.splits)

end Job

/-- The slot that a task is to give splits to. -/
def Task.slot? : Task → Option Nat
  | .give slot _ => some slot
  | _ => none

/-- What fetchers with given ids have put into the queue makes up, with the rest, all tidings of
their shares, and the shares are what is allotted, less what is given away later. -/
structure Distribution (job : Job) (threads : Nat) (parcels : List Parcel) (numbers : List Nat)
    (share : Nat → List Split) (later : List Split) (rest : Nat → List Tiding) : Prop where
  balance : ∀ number, Parcel.tidings number parcels ++ rest number =
    (share number).flatMap (·.tidings job.files)
  strangers : ∀ number, number ∉ numbers → share number = []
  once : numbers.Nodup
  few : numbers.length ≤ threads
  allotted : numbers.flatMap share ++ later = job.allotment threads

namespace Distribution

variable {job : Job} {threads : Nat} {parcels : List Parcel} {numbers : List Nat}
  {share : Nat → List Split} {later : List Split} {rest : Nat → List Tiding}

/-- Who has no share has nothing to tell. -/
theorem stranger (hd : Distribution job threads parcels numbers share later rest) (number : Nat)
    (hnot : number ∉ numbers) : Parcel.tidings number parcels = [] ∧ rest number = [] := by
  have hbalance := hd.balance number
  rw [hd.strangers number hnot] at hbalance
  exact List.append_eq_nil_iff.1 hbalance

/-- What was put into the queue and the rest are all tidings of what was given away. -/
theorem perm (hd : Distribution job threads parcels numbers share later rest) :
    (parcels.flatMap (·.2.tidings) ++ numbers.flatMap rest).Perm
      ((numbers.flatMap share).flatMap (·.tidings job.files)) := by
  have hparcels := Parcel.tidings_perm hd.once fun number hnot => (hd.stranger number hnot).1
  refine (hparcels.append_right _).trans ((List.flatMap_append_perm _ _ _).trans ?_)
  rw [List.flatMap_assoc]
  exact .of_eq (List.flatMap_congr fun number _ => hd.balance number)

/-- If there is one fetcher at most, what was put into the queue comes first. -/
theorem parcels_front (hd : Distribution job threads parcels numbers share later rest)
    (hone : threads ≤ 1) :
    parcels.flatMap (·.2.tidings) <+: (job.allotment threads).flatMap (·.tidings job.files) := by
  have hstrangers (number : Nat) (hnot : number ∉ numbers) := (hd.stranger number hnot).1
  have hfew := Nat.le_trans hd.few hone
  rw [← hd.allotted, List.flatMap_append]
  refine .trans ?_ (List.prefix_append _ _)
  cases hnumbers : numbers with
  | nil =>
      have hperm := Parcel.tidings_perm hd.once hstrangers
      rw [hnumbers] at hperm
      rw [List.perm_nil.1 hperm]
      exact List.nil_prefix
  | cons number others =>
      rw [hnumbers] at hfew
      obtain rfl : others = [] := List.length_eq_zero_iff.1 (by simpa using hfew)
      have hothers (other : Nat) (hne : other ≠ number) : Parcel.tidings other parcels = [] :=
        hstrangers other (by simpa [hnumbers] using hne)
      rw [Parcel.flatMap_tidings hothers, List.flatMap_singleton, ← hd.balance number]
      exact List.prefix_append _ _

end Distribution

namespace Supervisor

/-- Books by fetcher, with the parcels in which batches were handed over, and everybody's share.
Splits that are still to be given away go to empty slots, one hand to a slot. -/
structure Shared (job : Job) (threads : Nat) (tasks : List Task)
    (taken : List (SplitBatch Record)) (lost : Nat → List Tiding) (parcels : List Parcel)
    (share : Nat → List Split) (s : Supervisor Backend) : Prop where
  accountable : ∀ f ∈ s.crew, ∀ id, f.Accountable job.files id
  handed : parcels.map (·.2) = taken ++ s.queue.items
  balance : ∀ f ∈ s.crew, Parcel.tidings f.id parcels ++ (f.lineup job.files ++ lost f.id) =
    (share f.id).flatMap (·.tidings job.files)
  strangers : ∀ number, number ∉ s.ids →
    Parcel.tidings number parcels = [] ∧ lost number = [] ∧ share number = []
  allotted : s.ids.flatMap share ++ tasks.flatMap (fun task => Duty.newcomers [] task.splits) =
    job.allotment threads
  expects : ∀ number splits later, tasks = .errand (.ask number (.addSplits splits)) :: later →
    share number = [] ∧ ∃ earlier, s.ids = earlier ++ [number]
  vacant : ∀ slot ∈ tasks.filterMap Task.slot?, s.slots[slot]? = some none
  apart : (tasks.filterMap Task.slot?).Nodup
  few : s.crew.length + (tasks.filterMap Task.slot?).length ≤ threads

variable {job : Job} {threads : Nat} {s next : Supervisor Backend} {f g : Fetcher Backend}
  {d e : Depot} {task : Task} {tasks later more : List Task} {taken : List (SplitBatch Record)}
  {lost : Nat → List Tiding} {parcels : List Parcel} {share : Nat → List Split}
  {disturbed : List Bool} {id number slot : Nat} {splits : List Split}

/-- Slots may become empty. -/
theorem shared_congr (hs : s.Shared job threads tasks taken lost parcels share)
    (hcrew : next.crew = s.crew)
    (hslots : ∀ slot : Nat, s.slots[slot]? = some none → next.slots[slot]? = some none)
    (hitems : next.queue.items = s.queue.items) :
    next.Shared job threads tasks taken lost parcels share where
  accountable := hcrew ▸ hs.accountable
  handed := hitems ▸ hs.handed
  balance := hcrew ▸ hs.balance
  strangers := by simpa only [ids, hcrew] using hs.strangers
  allotted := by simpa only [ids, hcrew] using hs.allotted
  expects := by simpa only [ids, hcrew] using hs.expects
  vacant slot hmem := hslots slot (hs.vacant slot hmem)
  apart := hs.apart
  few := hcrew ▸ hs.few

/-- A fetcher's place is taken by one with less in its lineup, for what it has put into the queue
and what is lost. -/
theorem shared_replace {handed : List (SplitBatch Record)} {loss : List Tiding}
    (hs : s.Shared job threads tasks taken lost parcels share) (hf : f ∈ s.crew)
    (hid : g.id = f.id) (ha : ∀ id, g.Accountable job.files id)
    (hitems : e.queue.items = s.queue.items ++ handed)
    (hless : handed.flatMap (·.tidings) ++ (g.lineup job.files ++ loss) = f.lineup job.files) :
    ({ s with depot := e }.replace g).Shared job threads tasks taken
      (fun number => Parcel.under f.id loss number ++ lost number)
      (parcels ++ handed.map (f.id, ·)) share := by
  have hids : ({ s with depot := e }.replace g).ids = s.ids := ids_replace { s with depot := e } g
  refine ⟨forall_crew_replace hs.accountable ha, ?_, fun h hmem => ?_, fun number hnot => ?_,
    hids ▸ hs.allotted, hids ▸ hs.expects, hs.vacant, hs.apart, ?_⟩
  · have hmap : (handed.map (f.id, ·)).map Prod.snd = handed := by
      rw [List.map_map]
      exact List.map_id handed
    change (parcels ++ handed.map (f.id, ·)).map Prod.snd = taken ++ e.queue.items
    rw [List.map_append, hmap, hs.handed, hitems, List.append_assoc]
  · rw [Parcel.tidings_append, Parcel.tidings_handed]
    rcases mem_crew_replace hmem with rfl | ⟨hold, hne⟩
    · have hbalance := hs.balance f hf
      rw [← hless] at hbalance
      simpa [hid, Parcel.under] using hbalance
    · simpa [Parcel.under, hid ▸ hne] using hs.balance h hold
  · rw [hids] at hnot
    have hne : number ≠ f.id := fun hsame => hnot (hsame ▸ List.mem_map_of_mem (f := (·.id)) hf)
    rw [Parcel.tidings_append, Parcel.tidings_handed]
    simpa [Parcel.under, hne] using hs.strangers number hnot
  · simpa [replace] using hs.few

/-- A fetcher's place is taken by one with the same lineup. -/
theorem shared_replace_same (hs : s.Shared job threads tasks taken lost parcels share)
    (hf : f ∈ s.crew) (hid : g.id = f.id) (ha : ∀ id, g.Accountable job.files id)
    (hitems : e.queue.items = s.queue.items) (hsame : g.lineup job.files = f.lineup job.files) :
    ({ s with depot := e }.replace g).Shared job threads tasks taken lost parcels share := by
  have hnone : e.queue.items = s.queue.items ++ [] := by rw [hitems, List.append_nil]
  have hless : ([] : List (SplitBatch Record)).flatMap (·.tidings) ++
      (g.lineup job.files ++ []) = f.lineup job.files := by
    simpa using hsame
  simpa [Parcel.under] using shared_replace hs hf hid ha hnone hless

/-- What is left to do may be put differently, as long as the same splits go to the same slots. -/
theorem shared_tasks (hs : s.Shared job threads tasks taken lost parcels share)
    (hsplits : later.flatMap (fun task => Duty.newcomers [] task.splits) =
      tasks.flatMap fun task => Duty.newcomers [] task.splits)
    (hslots : (later.filterMap Task.slot?).Sublist (tasks.filterMap Task.slot?))
    (hasks : ∀ number splits, .errand (.ask number (.addSplits splits)) ∉ later) :
    s.Shared job threads later taken lost parcels share where
  accountable := hs.accountable
  handed := hs.handed
  balance := hs.balance
  strangers := hs.strangers
  allotted := hsplits ▸ hs.allotted
  expects number splits rest hlater := by
    exact absurd (hlater ▸ List.mem_cons_self) (hasks number splits)
  vacant slot hmem := hs.vacant slot (hslots.subset hmem)
  apart := hs.apart.sublist hslots
  few := Nat.le_trans (Nat.add_le_add_left hslots.length_le _) hs.few

/-- Of tasks that come later, none hands splits to a fetcher. -/
theorem not_asks_of_agenda {store : FileStore} {sort : ReaderSort}
    (h : s.Agenda store sort (task :: later)) (number : Nat) (splits : List Split) :
    .errand (.ask number (.addSplits splits)) ∉ later :=
  fun hmem => (h.2 _ hmem).2.1 splits rfl

/-! ### Threads -/

theorem lineup_stride {store : FileStore} {sort : ReaderSort} (hf : f.Reliable store sort)
    (ha : ∀ id, f.Accountable store id) (hopen : d.queue.closed = false)
    (hsame : SplitReader.fetch d.store disturbed f.reader =
      SplitReader.fetch store disturbed f.reader) (h : Stride disturbed f d g e) :
    (f.handsOver d).toList.flatMap (·.tidings) ++
        (g.lineup store ++ if g.phase.isOut then f.lineup store else []) =
      f.lineup store := by
  cases h with
  | advance h => exact Fetcher.lineup_advance hf ha hopen hsame h
  | vanish hphase =>
      have hout : f.phase.isOut = true := by simp [hphase, Phase.isOut]
      have hnone : f.handsOver d = none :=
        Fetcher.handsOver_eq_none (by simp [Fetcher.offers, hphase])
      simp [hnone, Fetcher.lineup, hphase, Phase.isOut]

/-- A stride loses the whole lineup of a thread that forsakes its splits, and nothing otherwise. -/
theorem lineupLoss_cases {store : FileStore} {sort : ReaderSort} (hf : f.Reliable store sort)
    (hg : g.Reliable store sort) (ha : ∀ id, f.Accountable store id)
    (h : Stride disturbed f d g e) :
    (f.Forsakes ∧ (if g.phase.isOut then f.lineup store else []) = f.lineup store) ∨
      (¬ f.Forsakes ∧ (if g.phase.isOut then f.lineup store else []) = []) := by
  rcases strideLoss_cases hf hg ha h with ⟨hforsakes, -⟩ | ⟨hkeeps, hloss⟩
  · refine .inl ⟨hforsakes, ?_⟩
    cases h with
    | advance h => exact if_pos (Fetcher.out_of_forsakes hf hforsakes h).2
    | vanish hphase =>
        obtain ⟨⟨failed, hfinishing⟩, -⟩ := hforsakes
        simp [hphase] at hfinishing
  · refine .inr ⟨hkeeps, Tiding.eq_nil_of_newsOf fun id => ?_⟩
    rw [← hloss id, strideLoss]
    split
    · exact Fetcher.newsOf_lineup store id f
    · rfl

theorem shared_thread (hh : s.Heeds job tasks taken)
    (hs : s.Shared job threads tasks taken lost parcels share)
    (h : s.stepThread? number disturbed = some next) :
    ∃ f ∈ s.crew, f.id = number ∧ ∃ loss more,
      next.Shared job threads tasks taken
        (fun number => Parcel.under f.id loss number ++ lost number) (parcels ++ more) share ∧
      ((f.Forsakes ∧ loss = f.lineup job.files) ∨ (¬ f.Forsakes ∧ loss = [])) := by
  obtain ⟨f, hf, hid, g, e, hstride, rfl⟩ := stride_of_stepThread? h
  have hsteady := steady_of_heeds hh f hf disturbed
  have hadvanced := advanced_of_stride hstride
  have hreliable := reliable_stride (hh.sound.reliable f hf) hh.sound.isOpen hsteady hstride
  have ha (id : String) : g.Accountable job.files id :=
    (owed_stride (hh.sound.faithful f hf id) hh.sound.isOpen hsteady (hs.accountable f hf id)
      hstride).1
  have hless := lineup_stride (hh.sound.reliable f hf) (hs.accountable f hf) hh.sound.isOpen hsteady
    hstride
  exact ⟨f, hf, hid, _, _, shared_replace hs hf hadvanced.id ha hadvanced.items hless,
    lineupLoss_cases (hh.sound.reliable f hf) hreliable (hs.accountable f hf) hstride⟩

/-! ### Tasks -/

/-- An errand that gives no splits and takes none away leaves the books alone. -/
theorem shared_run {errand : Errand} (hs : s.Shared job threads tasks taken lost parcels share)
    (hleaves : errand.LeavesSplits) :
    (s.run errand).2.Shared job threads tasks taken lost parcels share := by
  cases errand with
  | nudge number nudge =>
      cases hfound : s.fetcher? number with
      | none => simpa [run, hfound] using hs
      | some f =>
          obtain ⟨hf, -⟩ := mem_crew_of_fetcher? hfound
          have ha (id : String) :=
            (Fetcher.accountable_nudge nudge s.depot (hs.accountable f hf id)).1
          have hitems : (nudge.apply f s.depot).2.queue.items = s.queue.items := by
            cases nudge <;> simp [Nudge.apply, queue]
          simp only [run, hfound]
          exact shared_replace_same hs hf (Fetcher.id_nudge _ _ _) ha hitems
            (Fetcher.lineup_nudge nudge s.depot)
  | ask number request =>
      cases hfound : s.fetcher? number with
      | none => simpa [run, hfound] using hs
      | some f =>
          obtain ⟨hf, -⟩ := mem_crew_of_fetcher? hfound
          have ha (id : String) : (request.enact f).1.Accountable job.files id := by
            refine (Fetcher.accountable_enact (hs.accountable f hf id) ?_ ?_).1
            · rintro ids rfl
              exact hleaves.elim
            · rintro splits rfl
              exact hleaves
          simp only [run, hfound]
          exact shared_replace_same (e := s.depot) hs hf (Fetcher.id_enact _ _) ha rfl
            (Fetcher.lineup_enact hleaves)

/-- A fetcher that expects splits takes on its share. -/
theorem shared_addSplits
    (hh : s.Heeds job (.errand (.ask number (.addSplits splits)) :: later) taken)
    (hs : s.Shared job threads (.errand (.ask number (.addSplits splits)) :: later) taken lost
      parcels share) :
    (s.run (.ask number (.addSplits splits))).2.Shared job threads later taken lost parcels
      (Function.update share number (Duty.newcomers [] splits)) := by
  obtain ⟨f, hf, rfl, hseated⟩ := hh.sound.seated number hh.agenda.1.2
  obtain ⟨hnone, earlier, hids⟩ := hs.expects _ _ _ rfl
  have hbalance := hs.balance f hf
  rw [hnone, List.flatMap_nil, List.append_eq_nil_iff, List.append_eq_nil_iff] at hbalance
  obtain ⟨hparcels, hblank, hlost⟩ := hbalance
  obtain ⟨ha, hlineup⟩ := Fetcher.lineup_addSplits (hs.accountable f hf)
    (Fetcher.in_of_isSeated hseated)
    (Fetcher.refuses_of_isSeated (hh.sound.reliable f hf).coherent hseated) hblank
  have hrun : (s.run (.ask f.id (.addSplits splits))).2 =
      s.replace ((Request.addSplits splits).enact f).1 := by
    simp [run, fetcher?_of_mem_crew hh.sound.unique hf]
  have hslots : (Task.errand (.ask f.id (.addSplits splits)) :: later).filterMap Task.slot? =
      later.filterMap Task.slot? := rfl
  have hunique := hh.sound.unique
  rw [hids, List.nodup_append] at hunique
  have hearlier : ∀ other ∈ earlier, other ≠ f.id := fun other hmem =>
    hunique.2.2 other hmem f.id (List.mem_singleton_self _)
  rw [hrun]
  refine ⟨forall_crew_replace hs.accountable ha, hs.handed, fun h hmem => ?_, fun other hnot => ?_,
    ?_, fun other splits rest hlater => ?_, hs.vacant, hs.apart, ?_⟩
  · rcases mem_crew_replace hmem with rfl | ⟨hold, hne⟩
    · rw [Fetcher.id_enact, hparcels, hlost, hlineup, Function.update_self, List.nil_append,
        List.append_nil]
    · rw [Fetcher.id_enact] at hne
      rw [Function.update_of_ne hne]
      exact hs.balance h hold
  · rw [ids_replace] at hnot
    have hne : other ≠ f.id := fun hsame => hnot (hsame ▸ List.mem_map_of_mem (f := (·.id)) hf)
    rw [Function.update_of_ne hne]
    exact hs.strangers other hnot
  · have hothers : earlier.flatMap (Function.update share f.id (Duty.newcomers [] splits)) =
        earlier.flatMap share :=
      List.flatMap_congr fun other hmem => Function.update_of_ne (hearlier other hmem) _ _
    have hallotted := hs.allotted
    rw [hids, List.flatMap_append, List.flatMap_singleton, hnone, List.append_nil,
      List.flatMap_cons] at hallotted
    rw [ids_replace, hids, List.flatMap_append, List.flatMap_singleton, hothers,
      Function.update_self, ← hallotted, List.append_assoc]
    rfl
  · exact absurd (hlater ▸ List.mem_cons_self) (not_asks_of_agenda hh.agenda other splits)
  · rw [← hslots]
    simpa [replace] using hs.few

/-- A fetcher is started for an empty slot, and expects the splits that go there. -/
theorem shared_withSeated {reader : Backend} (hsound : s.Sound job.files job.sort)
    (hnew : reader.IsNew)
    (hs : s.Shared job threads (.give slot splits :: later) taken lost parcels share) :
    (s.withSeated slot (s.recruit reader)).Shared job threads
      (.errand (.ask s.nextId (.addSplits splits)) :: later) taken lost parcels share := by
  have hfresh : s.nextId ∉ s.ids := fun hmem => Nat.lt_irrefl _ (hsound.below _ hmem)
  obtain ⟨hparcels, hlost, hshare⟩ := hs.strangers _ hfresh
  have hids : (s.withSeated slot (s.recruit reader)).ids = s.ids ++ [s.nextId] := by
    simp [ids, withSeated, recruit, Fetcher.beginLoop]
  have hblank : (s.recruit reader).lineup job.files = [] :=
    Fetcher.lineup_eq_nil_iff.2 fun id => (accountable_recruit hnew s).2
  have hslots : (Task.errand (.ask s.nextId (.addSplits splits)) :: later).filterMap Task.slot? =
      later.filterMap Task.slot? := rfl
  have hapart : (slot :: later.filterMap Task.slot?).Nodup := hs.apart
  rw [List.nodup_cons] at hapart
  refine ⟨fun f hf => ?_, hs.handed, fun f hf => ?_, fun number hnot => ?_, ?_,
    fun number added rest htasks => ?_, fun other hmem => ?_, hslots ▸ hapart.2, ?_⟩
  · rcases List.mem_append.1 hf with hold | hadded
    · exact hs.accountable f hold
    · exact List.mem_singleton.1 hadded ▸ fun id => (accountable_recruit hnew s).1
  · rcases List.mem_append.1 hf with hold | hadded
    · exact hs.balance f hold
    · rw [List.mem_singleton.1 hadded, hblank]
      change Parcel.tidings s.nextId parcels ++ ([] ++ lost s.nextId) =
        (share s.nextId).flatMap (·.tidings job.files)
      rw [hparcels, hlost, hshare]
      rfl
  · exact hs.strangers number fun hmem => hnot (hids ▸ List.mem_append_left _ hmem)
  · rw [hids, List.flatMap_append, List.flatMap_singleton, hshare, List.append_nil]
    exact hs.allotted
  · cases htasks
    exact ⟨hshare, s.ids, hids⟩
  · have hother : other ∈ later.filterMap Task.slot? := hslots ▸ hmem
    have hne : slot ≠ other := fun hsame => hapart.1 (hsame ▸ hother)
    change (s.slots.set slot (some s.nextId))[other]? = some none
    rw [List.getElem?_set_ne hne]
    exact hs.vacant other (List.mem_cons_of_mem _ hother)
  · have hfew : s.crew.length + (slot :: later.filterMap Task.slot?).length ≤ threads := hs.few
    rw [hslots, withSeated, List.length_append]
    simp only [List.length_cons, List.length_nil] at hfew ⊢
    omega

/-- Nudges may come first at any time. -/
theorem shared_nudges (hs : s.Shared job threads later taken lost parcels share)
    (hasks : ∀ number splits, .errand (.ask number (.addSplits splits)) ∉ later)
    (hnudges : ∀ task ∈ more, ∃ number nudge, task = .errand (.nudge number nudge)) :
    s.Shared job threads (more ++ later) taken lost parcels share := by
  have hnone : more.flatMap (fun task => Duty.newcomers [] task.splits) = [] := by
    refine List.flatMap_eq_nil_iff.2 fun task hmem => ?_
    obtain ⟨number, nudge, rfl⟩ := hnudges task hmem
    rfl
  have hslots : more.filterMap Task.slot? = [] := by
    refine List.filterMap_eq_nil_iff.2 fun task hmem => ?_
    obtain ⟨number, nudge, rfl⟩ := hnudges task hmem
    rfl
  refine shared_tasks hs ?_ ?_ fun number splits hmem => ?_
  · rw [List.flatMap_append, hnone, List.nil_append]
  · rw [List.filterMap_append, hslots, List.nil_append]
  · rcases List.mem_append.1 hmem with hnew | hold
    · obtain ⟨other, nudge, hsame⟩ := hnudges _ hnew
      cases hsame
    · exact hasks number splits hold

/-- A fair errand keeps the books right. -/
theorem shared_errand {errand : Errand} (hh : s.Heeds job (.errand errand :: later) taken)
    (hs : s.Shared job threads (.errand errand :: later) taken lost parcels share) :
    ∃ share, (s.run errand).2.Shared job threads later taken lost parcels share := by
  have hasks := not_asks_of_agenda hh.agenda
  have hslots : (later.filterMap Task.slot?).Sublist
      ((Task.errand errand :: later).filterMap Task.slot?) := List.Sublist.refl _
  cases errand with
  | nudge number nudge => exact ⟨share, shared_tasks (shared_run hs trivial) rfl hslots hasks⟩
  | ask number request =>
      cases request with
      | addSplits splits => exact ⟨_, shared_addSplits hh hs⟩
      | removeSplits ids => exact hh.agenda.1.1.elim
      | wakeUp _ | pause | resume | stop _ | releaseLatch =>
          exact ⟨share, shared_tasks (shared_run hs trivial) rfl hslots hasks⟩

/-- The next task keeps the books right, with what follows from it. -/
theorem shared_perform (hh : s.Heeds job (task :: later) taken)
    (hs : s.Shared job threads (task :: later) taken lost parcels share)
    (hmore : (s.perform task).1 = .ok more) :
    ∃ share, (s.perform task).2.Shared job threads (more ++ later) taken lost parcels share := by
  have hasks := not_asks_of_agenda hh.agenda
  cases task with
  | errand errand =>
      rw [perform_errand] at hmore ⊢
      obtain rfl := Except.ok.inj hmore
      obtain ⟨share', hafter⟩ := shared_errand hh hs
      refine ⟨share', shared_nudges hafter hasks fun task hmem => ?_⟩
      obtain ⟨single, hsingle, rfl⟩ := List.mem_map.1 hmem
      obtain ⟨number, nudge, rfl⟩ := (sound_run hh.sound hh.agenda.1).2.2 single hsingle
      exact ⟨number, nudge, rfl⟩
  | give slot splits =>
      refine ⟨share, ?_⟩
      rcases perform_give_vacant hh.sound (hs.vacant slot List.mem_cons_self) splits with
        ⟨rfl, hperform⟩ | ⟨reader, hnew, -, hperform⟩ <;> rw [hperform] at hmore ⊢ <;>
        obtain rfl := Except.ok.inj hmore
      · exact shared_tasks hs rfl (List.sublist_cons_self _ _) hasks
      · exact shared_withSeated hh.sound hnew hs
  | sweep slot =>
      refine ⟨share, ?_⟩
      rcases vacate_cases s slot with hnone | ⟨f, hf, -, -, hsome⟩
      · simp only [perform, hnone] at hmore ⊢
        obtain rfl := Except.ok.inj hmore
        exact shared_tasks hs rfl (List.Sublist.refl _) hasks
      · simp only [perform, hsome] at hmore ⊢
        obtain rfl := Except.ok.inj hmore
        have hvacant (other : Nat) (hother : s.slots[other]? = some none) :
            (s.slots.set slot none)[other]? = some none := by
          rw [List.getElem?_set]
          split
          · simpa using (List.getElem?_eq_some_iff.1 (‹slot = other› ▸ hother)).1
          · exact hother
        refine shared_tasks (shared_congr hs rfl hvacant rfl) rfl (List.Sublist.refl _)
          fun number splits hmem => ?_
        rcases List.mem_cons.1 hmem with hsame | hold
        · cases hsame
        · exact hasks number splits hold

/-! ### The books -/

/-- What every fetcher has in its lineup, by its id. -/
def lineups (store : FileStore) (s : Supervisor Backend) (number : Nat) : List Tiding :=
  (s.fetcher? number).elim [] (·.lineup store)

theorem distribution_of_shared (hunique : s.ids.Nodup)
    (hs : s.Shared job threads tasks taken lost parcels share) :
    Distribution job threads parcels s.ids share
      (tasks.flatMap fun task => Duty.newcomers [] task.splits)
      fun number => s.lineups job.files number ++ lost number where
  balance number := by
    cases hfound : s.fetcher? number with
    | none =>
        have hnot : number ∉ s.ids := by
          intro hmem
          obtain ⟨f, hf, rfl⟩ := List.mem_map.1 hmem
          rw [fetcher?_of_mem_crew hunique hf] at hfound
          cases hfound
        obtain ⟨hparcels, hlost, hshare⟩ := hs.strangers number hnot
        simp [lineups, hfound, hparcels, hlost, hshare]
    | some f =>
        obtain ⟨hf, rfl⟩ := mem_crew_of_fetcher? hfound
        simpa [lineups, hfound] using hs.balance f hf
  strangers number hnot := (hs.strangers number hnot).2.2
  once := hunique
  few := by
    rw [ids, List.length_map]
    exact Nat.le_trans (Nat.le_add_right _ _) hs.few
  allotted := hs.allotted

end Supervisor

/-- Books on what becomes of everybody's share. -/
def fetcherBooks (job : Job) (threads : Nat) : Bookkeeping Nat Tiding where
  stock f := Parcel.under f.id (f.lineup job.files)
  Right tasks taken lost s := ∃ parcels share,
    s.Shared job threads tasks taken lost parcels share
  Settled taken missing := ∃ parcels numbers share,
    parcels.map (·.2) = taken ∧ Distribution job threads parcels numbers share [] missing

namespace Supervisor

variable {job : Job} {threads : Nat} {s next : Supervisor Backend} {tasks : List Task}
  {taken : List (SplitBatch Record)} {lost missing : Nat → List Tiding} {disturbed : List Bool}
  {number : Nat}

theorem fetcherBooks_thread (hh : s.Heeds job tasks taken)
    (hb : (fetcherBooks job threads).Right tasks taken lost s)
    (h : s.stepThread? number disturbed = some next) :
    ∃ loss, (fetcherBooks job threads).Right tasks taken
        (fun heading => loss heading ++ lost heading) next ∧
      ∀ counts, Course.Costs counts loss ↔ ∃ f ∈ s.crew, f.id = number ∧ f.Forsakes ∧
        Course.Costs counts ((fetcherBooks job threads).stock f) := by
  obtain ⟨parcels, share, hs⟩ := hb
  obtain ⟨f, hf, rfl, loss, more, hafter, hloss⟩ := shared_thread hh hs h
  refine ⟨Parcel.under f.id loss, ⟨_, _, hafter⟩, fun counts => ?_⟩
  rw [exists_crew_iff hh.sound.unique hf, Parcel.costs_under]
  rcases hloss with ⟨hforsakes, rfl⟩ | ⟨hkeeps, rfl⟩
  · exact ⟨fun hcounts => ⟨hforsakes, Parcel.costs_under.2 hcounts⟩,
      fun ⟨_, hcounts⟩ => Parcel.costs_under.1 hcounts⟩
  · exact ⟨fun ⟨_, hmem, _⟩ => (List.not_mem_nil hmem).elim, fun ⟨hforsakes, _⟩ =>
      (hkeeps hforsakes).elim⟩

theorem fetcherBooks_ends (hh : s.Heeds job [] taken)
    (hb : (fetcherBooks job threads).Right [] taken lost s) (hnone : s.queue.items = []) :
    ∃ left, (fetcherBooks job threads).Settled taken (fun heading => left heading ++ lost heading) ∧
      ∀ counts, Course.Costs counts left ↔
        ∃ f ∈ s.crew, Course.Costs counts ((fetcherBooks job threads).stock f) := by
  obtain ⟨parcels, share, hs⟩ := hb
  have hd := distribution_of_shared hh.sound.unique hs
  refine ⟨s.lineups job.files, ⟨parcels, s.ids, share, ?_, hd⟩, fun counts => ⟨?_, ?_⟩⟩
  · rw [hs.handed, hnone, List.append_nil]
  · rintro ⟨number, tiding, hmem, hcounts⟩
    cases hfound : s.fetcher? number with
    | none => simp [lineups, hfound] at hmem
    | some f =>
        obtain ⟨hf, rfl⟩ := mem_crew_of_fetcher? hfound
        have hlineup : tiding ∈ f.lineup job.files := by simpa [lineups, hfound] using hmem
        exact ⟨f, hf, Parcel.costs_under.2 ⟨tiding, hlineup, hcounts⟩⟩
  · rintro ⟨f, hf, hcosts⟩
    obtain ⟨tiding, hmem, hcounts⟩ := Parcel.costs_under.1 hcosts
    refine ⟨f.id, tiding, ?_, hcounts⟩
    simpa [lineups, fetcher?_of_mem_crew hh.sound.unique hf] using hmem

/-- Books by fetcher are orderly, whatever the splits are. -/
theorem fetcherBooks_orderly (job : Job) (threads : Nat) :
    (fetcherBooks job threads).Orderly job where
  congr := by
    rintro tasks taken lost s next ⟨parcels, share, hs⟩ hcrew hslots hitems
    exact ⟨parcels, share, shared_congr hs hcrew (fun _ hempty => hslots ▸ hempty) hitems⟩
  thread := fetcherBooks_thread
  perform := by
    rintro task more later taken lost s hh ⟨parcels, share, hs⟩ hmore
    obtain ⟨share', hafter⟩ := shared_perform hh hs hmore
    exact ⟨parcels, share', hafter⟩
  rouse := by
    rintro tasks taken lost s number - ⟨parcels, share, hs⟩
    exact ⟨parcels, share, shared_run hs trivial⟩
  sweep := by
    rintro taken lost s slot ⟨parcels, share, hs⟩
    refine ⟨parcels, share, shared_tasks hs rfl (List.Sublist.refl _) fun number splits hmem => ?_⟩
    cases List.mem_singleton.1 hmem
  poll := by
    rintro tasks taken lost s batch rest ⟨parcels, share, hs⟩ hitems
    refine ⟨parcels, share, { hs with handed := ?_ }⟩
    rw [(items_poll hitems).1, hs.handed, hitems, List.append_assoc, List.singleton_append]
  ends := fetcherBooks_ends
  idle := by
    rintro tasks taken lost s f hh ⟨parcels, share, hs⟩ hf
    rw [← Fetcher.lineup_ne_nil_iff (hh.sound.reliable f hf) (hs.accountable f hf), ne_eq,
      List.eq_nil_iff_forall_not_mem, not_forall_not]
    exact Parcel.costs_under.trans (by simp only [and_true])

end Supervisor

/-! ### What batches tell of shares -/

/-- Batches tell no more than there is in the shares of a job, and if there is one fetcher at most,
they tell what comes first there. -/
structure Job.Covers (job : Job) (threads : Nat) (batches : List (SplitBatch Record)) : Prop where
  some : ∃ others, (batches.flatMap (·.tidings) ++ others).Perm
    ((job.allotment threads).flatMap (·.tidings job.files))
  first : threads ≤ 1 →
    batches.flatMap (·.tidings) <+: (job.allotment threads).flatMap (·.tidings job.files)

section Covers

variable {job : Job} {threads : Nat} {s : Supervisor Backend} {tasks : List Task}
  {taken batches : List (SplitBatch Record)} {lost missing : Nat → List Tiding}
  {parcels : List Parcel} {numbers : List Nat} {share : Nat → List Split} {later : List Split}
  {rest : Nat → List Tiding}

theorem Job.covers_of_front (hc : job.Covers threads batches) (h : taken <+: batches) :
    job.Covers threads taken := by
  obtain ⟨⟨others, hperm⟩, hfirst⟩ := hc
  obtain ⟨more, rfl⟩ := h
  rw [List.flatMap_append] at hperm hfirst
  exact ⟨⟨_, List.append_assoc _ _ _ ▸ hperm⟩,
    fun hone => (List.prefix_append _ _).trans (hfirst hone)⟩

theorem Distribution.covers (hd : Distribution job threads parcels numbers share later rest) :
    job.Covers threads (parcels.map (·.2)) := by
  have htidings : (parcels.map (·.2)).flatMap (·.tidings) = parcels.flatMap (·.2.tidings) :=
    List.flatMap_map ..
  refine ⟨⟨numbers.flatMap rest ++ later.flatMap (·.tidings job.files), ?_⟩, fun hone => ?_⟩
  · rw [htidings, ← hd.allotted, List.flatMap_append, ← List.append_assoc]
    exact hd.perm.append_right _
  · exact htidings ▸ hd.parcels_front hone

/-- What was taken from the queue and what is in it was in the shares. -/
theorem Supervisor.covers_of_fetcherBooks (hunique : s.ids.Nodup)
    (hb : (fetcherBooks job threads).Right tasks taken lost s) :
    job.Covers threads (taken ++ s.queue.items) := by
  obtain ⟨parcels, share, hs⟩ := hb
  exact hs.handed ▸ (distribution_of_shared hunique hs).covers

theorem covers_of_settled (h : (fetcherBooks job threads).Settled taken missing) :
    job.Covers threads taken := by
  obtain ⟨parcels, numbers, share, rfl, hd⟩ := h
  exact hd.covers

/-- In the end what was taken and what is missing are all there is in the shares. -/
theorem exists_absent (h : (fetcherBooks job threads).Settled taken missing) :
    ∃ absent,
      (taken.flatMap (·.tidings) ++ absent).Perm
        ((job.allotment threads).flatMap (·.tidings job.files)) ∧
      ∀ counts, Course.Costs counts missing ↔ ∃ tiding ∈ absent, counts tiding := by
  obtain ⟨parcels, numbers, share, rfl, hd⟩ := h
  refine ⟨numbers.flatMap missing, ?_, fun counts => ⟨?_, ?_⟩⟩
  · rw [List.flatMap_map, ← hd.allotted, List.append_nil]
    exact hd.perm
  · rintro ⟨number, tiding, hmem, hcounts⟩
    refine ⟨tiding, List.mem_flatMap.2 ⟨number, ?_, hmem⟩, hcounts⟩
    by_contra hnot
    rw [(hd.stranger number hnot).2] at hmem
    cases hmem
  · rintro ⟨tiding, hmem, hcounts⟩
    obtain ⟨number, -, hnumber⟩ := List.mem_flatMap.1 hmem
    exact ⟨number, tiding, hnumber, hcounts⟩

end Covers

end SplitFeed
