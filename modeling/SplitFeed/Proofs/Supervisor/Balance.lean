/-
# What becomes of the news of a split

The news of a split that somebody was asked to deliver are in one of four places: in a batch that
was put into the queue, owed by a fetcher, lost, or waiting to be given to a fetcher.  Together, and
in this order, they are all that is due.  At most one fetcher owes anything of a split.

Threads and tasks keep this balance.  Only a thread that forsakes its splits adds to what is lost.
-/
import SplitFeed.Proofs.Supervisor.Sound

namespace SplitFeed

/-- Splits that can be told apart by their ids, of which some are among others: either nothing is
due of them under an id, or as much as of all. -/
theorem Split.due_of_sublist (store : FileStore) (id : String) {some all : List Split}
    (honce : (all.map Split.id).Nodup) (h : some.Sublist all) :
    due store id some = [] ∨ due store id some = due store id all := by
  by_cases hsome : ∃ split ∈ some, split.id = id
  · obtain ⟨split, hmem, rfl⟩ := hsome
    have honce' : (some.map Split.id).Nodup := honce.sublist (h.map Split.id)
    exact .inr (by rw [due_eq_news honce' hmem, due_eq_news honce (h.subset hmem)])
  · exact .inl (due_eq_nil.2 fun split hmem hid => hsome ⟨split, hmem, hid⟩)

/-- An errand that gives no splits and takes none away. -/
def Errand.LeavesSplits : Errand → Prop
  | ask _ request => request.LeavesSplits
  | nudge _ _ => True

namespace Supervisor

variable {store : FileStore} {sort : ReaderSort} {id : String} {s next : Supervisor Backend}
  {f g : Fetcher Backend} {d e : Depot} {disturbed : List Bool}
  {taken : List (SplitBatch Record)} {waiting added : List Split} {lost : List (Option Record)}

/-- The news of a split in batches that were taken from the queue or are in it. -/
def told (id : String) (taken : List (SplitBatch Record)) (s : Supervisor Backend) :
    List (Option Record) :=
  (taken ++ s.queue.items).flatMap (·.news id)

/-- The books on one split: what was told of it, what is owed, lost and waiting is what is due. -/
structure Balanced (store : FileStore) (id : String) (taken : List (SplitBatch Record))
    (waiting added : List Split) (lost : List (Option Record)) (s : Supervisor Backend) : Prop where
  accountable : ∀ f ∈ s.crew, f.Accountable store id
  balance : ∃ owner rest,
    (∀ f ∈ s.crew, f.owed store id = if f.id = owner then rest else []) ∧
      (rest ≠ [] → owner ∈ s.ids) ∧
      s.told id taken ++ (rest ++ (lost ++ Split.due store id waiting)) =
        Split.due store id added

/-- The books do not depend on slots, nor on anything in the depot but what is in the queue. -/
theorem balanced_congr (hb : s.Balanced store id taken waiting added lost)
    (hcrew : next.crew = s.crew) (hitems : next.queue.items = s.queue.items) :
    next.Balanced store id taken waiting added lost := by
  obtain ⟨hall, owner, rest, howed, howner, hsum⟩ := hb
  refine ⟨hcrew ▸ hall, owner, rest, hcrew ▸ howed, ?_, ?_⟩
  · simpa only [ids, hcrew] using howner
  · simpa only [told, hitems] using hsum

/-- A fetcher's place is taken by one that owes less, for what it has put into the queue and what
is lost. -/
theorem balanced_replace {handed : List (SplitBatch Record)} {more : List (Option Record)}
    (hb : s.Balanced store id taken waiting added lost) (hf : f ∈ s.crew) (hid : g.id = f.id)
    (ha : g.Accountable store id) (hitems : e.queue.items = s.queue.items ++ handed)
    (hless : handed.flatMap (·.news id) ++ (g.owed store id ++ more) = f.owed store id) :
    ({ s with depot := e }.replace g).Balanced store id taken waiting added (more ++ lost) := by
  obtain ⟨hall, owner, rest, howed, howner, hsum⟩ := hb
  have htold : ({ s with depot := e }.replace g).told id taken =
      s.told id taken ++ handed.flatMap (·.news id) := by
    simp [told, replace, queue, hitems]
  refine ⟨forall_crew_replace hall ha, ?_⟩
  have hmine := howed f hf
  by_cases hown : f.id = owner
  · rw [if_pos hown, ← hless] at hmine
    refine ⟨owner, g.owed store id, ?_, fun _ => ?_, ?_⟩
    · intro h hmem
      rcases mem_crew_replace hmem with rfl | ⟨hold, hne⟩
      · rw [if_pos (hid.trans hown)]
      · have hother : h.id ≠ owner := fun hsame => hne (by rw [hid, hown, hsame])
        rw [howed h hold, if_neg hother, if_neg hother]
    · rw [ids_replace, ← hown]
      exact List.mem_map_of_mem (f := (·.id)) hf
    · rw [htold, ← hsum, ← hmine]
      simp only [List.append_assoc]
  · rw [if_neg hown] at hmine
    simp only [hmine, List.append_eq_nil_iff] at hless
    obtain ⟨hhanded, howed', hmore⟩ := hless
    refine ⟨owner, rest, ?_, ?_, ?_⟩
    · intro h hmem
      rcases mem_crew_replace hmem with rfl | ⟨hold, -⟩
      · rw [if_neg (fun hsame => hown (hid.symm.trans hsame)), howed']
      · exact howed h hold
    · rw [ids_replace]
      exact howner
    · rw [htold, hhanded, hmore]
      simpa using hsum

/-- A fetcher's place is taken by one that owes the same. -/
theorem balanced_replace_same (hb : s.Balanced store id taken waiting added lost)
    (hf : f ∈ s.crew) (hid : g.id = f.id) (ha : g.Accountable store id)
    (hitems : e.queue.items = s.queue.items) (howed : g.owed store id = f.owed store id) :
    ({ s with depot := e }.replace g).Balanced store id taken waiting added lost := by
  have hhanded : e.queue.items = s.queue.items ++ [] := by rw [hitems, List.append_nil]
  have hless : ([] : List (SplitBatch Record)).flatMap (·.news id) ++ (g.owed store id ++ []) =
      f.owed store id := by
    simpa using howed
  exact balanced_replace hb hf hid ha hhanded hless

/-- A batch that is taken from the queue was told before and is told now. -/
theorem balanced_poll {batch : SplitBatch Record} {rest : List (SplitBatch Record)}
    (hb : s.Balanced store id taken waiting added lost) (hcrew : next.crew = s.crew)
    (hbefore : s.queue.items = batch :: rest) (hafter : next.queue.items = rest) :
    next.Balanced store id (taken ++ [batch]) waiting added lost := by
  obtain ⟨hall, owner, rest', howed, howner, hsum⟩ := hb
  refine ⟨hcrew ▸ hall, owner, rest', hcrew ▸ howed, ?_, ?_⟩
  · simpa only [ids, hcrew] using howner
  · rw [← hsum]
    simp [told, hbefore, hafter]

/-- Splits that are asked for wait to be given. -/
theorem balanced_ask (splits : List Split) (hb : s.Balanced store id taken waiting added lost) :
    s.Balanced store id taken (waiting ++ splits) (added ++ splits) lost := by
  obtain ⟨hall, owner, rest, howed, howner, hsum⟩ := hb
  refine ⟨hall, owner, rest, howed, howner, ?_⟩
  rw [Split.due_append, Split.due_append, ← hsum]
  simp only [List.append_assoc]

/-- How the waiting splits are sorted does not matter. -/
theorem balanced_waiting {others : List Split}
    (hb : s.Balanced store id taken waiting added lost)
    (hdue : Split.due store id others = Split.due store id waiting) :
    s.Balanced store id taken others added lost := by
  obtain ⟨hall, owner, rest, howed, howner, hsum⟩ := hb
  exact ⟨hall, owner, rest, howed, howner, by rw [hdue, hsum]⟩

/-! ### Threads -/

/-- What a stride loses: all that a thread owes that winds down in it. -/
def strideLoss (store : FileStore) (id : String) (f g : Fetcher Backend) :
    List (Option Record) :=
  if g.phase.isOut then f.owed store id else []

theorem owed_stride (hf : f.Faithful store sort id) (hopen : d.queue.closed = false)
    (hsame : SplitReader.fetch d.store disturbed f.reader =
      SplitReader.fetch store disturbed f.reader)
    (ha : f.Accountable store id) (h : Stride disturbed f d g e) :
    g.Accountable store id ∧
      (f.handsOver d).toList.flatMap (·.news id) ++
        (g.owed store id ++ strideLoss store id f g) = f.owed store id := by
  cases h with
  | advance h =>
      exact ⟨Fetcher.accountable_advance ha hf hopen hsame h,
        Fetcher.owed_advance hf hopen hsame ha.story h⟩
  | vanish hphase =>
      have hout : f.phase.isOut = true := by simp [hphase, Phase.isOut]
      have hnone : f.handsOver d = none :=
        Fetcher.handsOver_eq_none (by simp [Fetcher.offers, hphase])
      refine ⟨⟨.inl (Fetcher.owed_of_out rfl), fun hin => by cases hin⟩, ?_⟩
      simp [hnone, strideLoss, Fetcher.owed, hphase, Phase.isOut]

/-- What a stride loses is all that a thread owes that forsakes its splits, and nothing
otherwise. -/
theorem strideLoss_cases (hf : f.Reliable store sort) (hg : g.Reliable store sort)
    (ha : ∀ id, f.Accountable store id) (h : Stride disturbed f d g e) :
    (f.Forsakes ∧ ∀ id, strideLoss store id f g = f.owed store id) ∨
      (¬ f.Forsakes ∧ ∀ id, strideLoss store id f g = []) := by
  cases h with
  | advance h =>
      by_cases hforsakes : f.Forsakes
      · obtain ⟨-, hout⟩ := Fetcher.out_of_forsakes hf hforsakes h
        exact .inl ⟨hforsakes, fun id => if_pos hout⟩
      · exact .inr ⟨hforsakes,
          fun id => Fetcher.lost_eq_nil hf.smooth hg.smooth (ha id) h hforsakes⟩
  | vanish hphase =>
      have hout : f.phase.isOut = true := by simp [hphase, Phase.isOut]
      refine .inr ⟨?_, fun id => ?_⟩
      · rintro ⟨⟨failed, hfinishing⟩, -⟩
        simp [hphase] at hfinishing
      · simp [strideLoss, Fetcher.owed_of_out hout]

/-- Something is lost exactly if the thread forsakes its splits. -/
theorem exists_strideLoss_iff (hf : f.Reliable store sort) (hg : g.Reliable store sort)
    (ha : ∀ id, f.Accountable store id) (h : Stride disturbed f d g e) :
    (∃ id, strideLoss store id f g ≠ []) ↔ f.Forsakes := by
  rcases strideLoss_cases hf hg ha h with ⟨hforsakes, hloss⟩ | ⟨hkeeps, hloss⟩
  · obtain ⟨⟨failed, hphase⟩, hspent⟩ := hforsakes
    simp only [hloss]
    exact iff_of_true
      (Fetcher.exists_owed_of_not_isSpent hf ha (by simp [hphase, Phase.isOut]) hspent)
      ⟨⟨failed, hphase⟩, hspent⟩
  · simp [hloss, hkeeps]

/-- A thread's step keeps the balance, with what is lost in it. -/
theorem balanced_thread {number : Nat} (hfaithful : ∀ f ∈ s.crew, ∀ id, f.Faithful store sort id)
    (hopen : s.queue.closed = false) (hsteady : s.Steady store)
    (h : s.stepThread? number disturbed = some next) :
    ∃ f ∈ s.crew, ∃ g, f.id = number ∧ (∃ e, Stride disturbed f s.depot g e) ∧
      ∀ id taken waiting added lost, s.Balanced store id taken waiting added lost →
        next.Balanced store id taken waiting added (strideLoss store id f g ++ lost) := by
  obtain ⟨f, hf, hid, g, e, hstride, rfl⟩ := stride_of_stepThread? h
  refine ⟨f, hf, g, hid, ⟨e, hstride⟩, fun id taken waiting added lost hb => ?_⟩
  have hadvanced := advanced_of_stride hstride
  obtain ⟨ha, hless⟩ := owed_stride (hfaithful f hf id) hopen (hsteady f hf disturbed)
    (hb.accountable f hf) hstride
  exact balanced_replace hb hf hadvanced.id ha hadvanced.items hless

/-! ### Tasks -/

/-- An errand that gives no splits and takes none away leaves the books alone. -/
theorem balanced_run {errand : Errand} (hb : s.Balanced store id taken waiting added lost)
    (hleaves : errand.LeavesSplits) :
    (s.run errand).2.Balanced store id taken waiting added lost := by
  cases errand with
  | nudge number nudge =>
      cases hfound : s.fetcher? number with
      | none => simpa [run, hfound] using hb
      | some f =>
          obtain ⟨hf, -⟩ := mem_crew_of_fetcher? hfound
          obtain ⟨ha, howed⟩ := Fetcher.accountable_nudge nudge s.depot (hb.accountable f hf)
          have hitems : (nudge.apply f s.depot).2.queue.items = s.queue.items := by
            cases nudge <;> simp [Nudge.apply, queue]
          simp only [run, hfound]
          exact balanced_replace_same hb hf (Fetcher.id_nudge _ _ _) ha hitems howed
  | ask number request =>
      cases hfound : s.fetcher? number with
      | none => simpa [run, hfound] using hb
      | some f =>
          obtain ⟨hf, -⟩ := mem_crew_of_fetcher? hfound
          have hremoves (ids : List String) : request ≠ .removeSplits ids := by
            rintro rfl
            exact hleaves
          have hadds (splits : List Split) : request ≠ .addSplits splits := by
            rintro rfl
            exact hleaves
          obtain ⟨ha, howed⟩ := Fetcher.accountable_enact (hb.accountable f hf)
            (fun ids heq => absurd heq (hremoves ids)) hadds
          simp only [run, hfound]
          exact balanced_replace_same (e := s.depot) hb hf (Fetcher.id_enact _ _) ha rfl howed

/-- Splits that wait are owed by the fetcher that they are given to. -/
theorem balanced_addSplits {number : Nat} {splits : List Split} (hs : s.Sound store sort)
    (hlive : number ∈ s.liveIds) (honce : (added.map Split.id).Nodup)
    (hsub : splits.Sublist added)
    (hb : s.Balanced store id taken (splits ++ waiting) added lost) :
    (s.run (.ask number (.addSplits splits))).2.Balanced store id taken waiting added lost := by
  obtain ⟨f, hf, rfl, hseated⟩ := hs.seated number hlive
  have hin := Fetcher.in_of_isSeated hseated
  have hrefuses := Fetcher.refuses_of_isSeated (hs.reliable f hf).coherent hseated
  have hrun : (s.run (.ask f.id (.addSplits splits))).2 =
      { s with depot := s.depot }.replace ((Request.addSplits splits).enact f).1 := by
    simp [run, fetcher?_of_mem_crew hs.unique hf]
  rw [hrun]
  have honce' : (splits.map Split.id).Nodup := honce.sublist (hsub.map Split.id)
  obtain ⟨hall, owner, rest, howed, howner, hsum⟩ := hb
  rw [Split.due_append] at hsum
  rcases Split.due_of_sublist store id honce hsub with hnone | hdue
  · -- Nothing is due of this id, so nothing changes for it.
    obtain ⟨ha, howed'⟩ := Fetcher.accountable_addSplits (hall f hf) hin hrefuses honce'
      fun hne => absurd hnone hne
    rw [hnone, List.append_nil] at howed'
    have hb' : s.Balanced store id taken waiting added lost :=
      ⟨hall, owner, rest, howed, howner, by simpa [hnone] using hsum⟩
    exact balanced_replace_same hb' hf (Fetcher.id_enact _ _) ha rfl howed'
  · -- All that is due is given now, so there was nothing of it anywhere else.
    have hlength := congrArg List.length hsum
    simp only [List.length_append, hdue] at hlength
    obtain ⟨htold, hrest, hlost, hwaiting⟩ :
        s.told id taken = [] ∧ rest = [] ∧ lost = [] ∧ Split.due store id waiting = [] := by
      simp only [← List.length_eq_zero_iff]
      omega
    have hfree (h : Fetcher Backend) (hmem : h ∈ s.crew) : h.owed store id = [] := by
      rw [howed h hmem, hrest, ite_self]
    obtain ⟨ha, howed'⟩ := Fetcher.accountable_addSplits (hall f hf) hin hrefuses honce'
      fun _ => hfree f hf
    rw [hfree f hf, List.nil_append] at howed'
    refine ⟨forall_crew_replace hall ha, f.id, Split.due store id splits, ?_, fun _ => ?_, ?_⟩
    · intro h hmem
      rcases mem_crew_replace hmem with rfl | ⟨hold, hne⟩
      · rw [if_pos (Fetcher.id_enact _ _), howed']
      · rw [if_neg (by simpa using hne), hfree h hold]
    · rw [ids_replace]
      exact List.mem_map_of_mem (f := (·.id)) hf
    · have htold' : ({ s with depot := s.depot }.replace
          ((Request.addSplits splits).enact f).1).told id taken = s.told id taken := rfl
      rw [htold', htold, hlost, hwaiting, hdue]
      simp

/-- A new fetcher owes nothing. -/
theorem accountable_recruit {reader : Backend} (hnew : reader.IsNew) (s : Supervisor Backend) :
    (s.recruit reader).Accountable store id ∧ (s.recruit reader).owed store id = [] := by
  have hunbooked : (s.recruit reader).unbooked store id = [] := by
    simp [Fetcher.unbooked, Fetcher.fetched, Fetcher.unheard, recruit, Fetcher.beginLoop,
      Backend.outlook_of_isNew hnew]
  have hnone : (s.recruit reader).owed store id = [] := by
    rw [Fetcher.owed_of_in rfl, hunbooked]
    rfl
  refine ⟨⟨.inl hnone, fun _ => ?_⟩, hnone⟩
  rw [hunbooked]
  simp [recruit, Fetcher.beginLoop]

theorem balanced_withSeated {reader : Backend} (slot : Nat) (hs : s.Sound store sort)
    (hnew : reader.IsNew) (hb : s.Balanced store id taken waiting added lost) :
    (s.withSeated slot (s.recruit reader)).Balanced store id taken waiting added lost := by
  obtain ⟨hall, owner, rest, howed, howner, hsum⟩ := hb
  obtain ⟨haccountable, hnone⟩ := accountable_recruit hnew s
  refine ⟨?_, owner, rest, ?_, ?_, hsum⟩
  · intro f hf
    rcases List.mem_append.1 hf with hold | hadded
    · exact hall f hold
    · exact List.mem_singleton.1 hadded ▸ haccountable
  · intro f hf
    rcases List.mem_append.1 hf with hold | hadded
    · exact howed f hold
    · rw [List.mem_singleton.1 hadded, hnone]
      split
      · next hown =>
          by_contra hne
          have hmine : s.nextId ∈ s.ids := by
            rw [show s.nextId = owner from hown]
            exact howner (Ne.symm hne)
          exact Nat.lt_irrefl _ (hs.below _ hmine)
      · rfl
  · intro hne
    simp only [ids, withSeated, List.map_append, List.mem_append]
    exact .inl (howner hne)

/-- A fair errand keeps the balance, and only nudges follow from it. -/
theorem balanced_errand {errand : Errand} (hs : s.Sound store sort)
    (hfair : errand.IsFair store sort s) (honce : (added.map Split.id).Nodup)
    (hsub : (Task.errand errand).splits.Sublist added)
    (hb : s.Balanced store id taken ((Task.errand errand).splits ++ waiting) added lost) :
    (s.run errand).2.Balanced store id taken waiting added lost := by
  cases errand with
  | nudge number nudge => exact balanced_run hb trivial
  | ask number request =>
      cases request with
      | addSplits splits => exact balanced_addSplits hs hfair.2 honce hsub hb
      | removeSplits ids => exact hfair.1.elim
      | wakeUp _ | pause | resume | stop _ | releaseLatch => exact balanced_run hb trivial

/-- A fair task keeps the balance: the splits it is to give go on waiting or are given. -/
theorem balanced_perform {task : Task} {more : List Task} (hs : s.Sound store sort)
    (hfair : task.IsFair store sort s) (honce : (added.map Split.id).Nodup)
    (hsub : task.splits.Sublist added) (hmore : (s.perform task).1 = .ok more)
    (hb : s.Balanced store id taken (task.splits ++ waiting) added lost) :
    (s.perform task).2.Balanced store id taken (more.flatMap Task.splits ++ waiting) added
      lost := by
  cases task with
  | errand errand =>
      rw [perform_errand] at hmore ⊢
      obtain rfl := Except.ok.inj hmore
      have hnone : ∀ later ∈ (s.run errand).1.map Task.errand, later.splits = [] := by
        intro later hlater
        obtain ⟨single, hsingle, rfl⟩ := List.mem_map.1 hlater
        obtain ⟨number, nudge, rfl⟩ := (sound_run hs hfair).2.2 single hsingle
        rfl
      rw [List.flatMap_eq_nil_iff.2 hnone]
      exact balanced_errand hs hfair honce hsub hb
  | give slot splits =>
      rcases perform_give_cases hs hfair.1 splits with
        ⟨rfl, hperform⟩ | ⟨number, -, hperform⟩ | ⟨reader, hnew, -, -, hperform⟩
      · rw [hperform] at hmore ⊢
        obtain rfl := Except.ok.inj hmore
        exact hb
      · rw [hperform] at hmore ⊢
        obtain rfl := Except.ok.inj hmore
        simpa [Task.splits] using hb
      · rw [hperform] at hmore ⊢
        obtain rfl := Except.ok.inj hmore
        have hgiven := balanced_withSeated slot hs hnew hb
        simpa [Task.splits] using hgiven
  | sweep slot =>
      rcases vacate_cases s slot with hnone | ⟨f, hf, -, hseat, hsome⟩
      · simp only [perform, hnone] at hmore ⊢
        obtain rfl := Except.ok.inj hmore
        exact hb
      · simp only [perform, hsome] at hmore ⊢
        obtain rfl := Except.ok.inj hmore
        exact balanced_congr hb rfl rfl

end Supervisor

end SplitFeed
