/-
# Splits that stay away

A reader that has taken note of a removal has nothing of the split any more and lets nothing of it
in again: its cursor is gone, batches that wait to be handed out again were swept, and batches that
come back later, however old and however far read, are filtered at the door.  This lasts until the
reader takes note of an addition of the split.

Sweep and filter spare what is there of other splits.  Seen through a sieve that passes only splits
that are never taken away, the batches that came back go out again as they came, one after the
other.
-/
import SplitFeed.Proofs.Batch.Filtering
import SplitFeed.Proofs.Reading.Lending

namespace SplitFeed

/-! ### Sieves -/

namespace SplitBatch

/-- What batches hold of certain splits, without the batches that hold nothing of them. -/
def keeping (lasting : String → Bool) (batches : List (SplitBatch Record)) :
    List (SplitBatch Record) :=
  (batches.map (·.retainSplits lasting)).filter (!·.isEmpty)

variable {keep lasting : String → Bool}

@[simp]
theorem keeping_nil : keeping lasting [] = [] := rfl

theorem keeping_append (first second : List (SplitBatch Record)) :
    keeping lasting (first ++ second) = keeping lasting first ++ keeping lasting second := by
  simp [keeping]

theorem retainSplits_of_le (hle : ∀ id, lasting id = true → keep id = true)
    (batch : SplitBatch Record) :
    (batch.retainSplits keep).retainSplits lasting = batch.retainSplits lasting := by
  have hboth : (fun id => keep id && lasting id) = lasting :=
    funext fun id => by cases h : lasting id <;> simp [hle, h]
  rw [retainSplits_retainSplits, hboth]

/-- Nothing passes a stricter sieve if nothing passes a wider one. -/
theorem isEmpty_retainSplits_of_le (hle : ∀ id, lasting id = true → keep id = true)
    {batch : SplitBatch Record} (h : (batch.retainSplits keep).isEmpty = true) :
    (batch.retainSplits lasting).isEmpty = true := by
  by_contra hsome
  obtain ⟨id, hnews⟩ := exists_news_of_not_isEmpty (Bool.not_eq_true _ ▸ hsome)
  rw [news_retainSplits] at hnews
  split at hnews
  · next hlasting =>
      have hnone := news_of_isEmpty h id
      rw [news_retainSplits, if_pos (hle id hlasting)] at hnone
      exact hnews hnone
  · exact hnews rfl

/-- A wider sieve before a stricter one makes no difference. -/
theorem keeping_keeping (hle : ∀ id, lasting id = true → keep id = true)
    (batches : List (SplitBatch Record)) :
    keeping lasting (keeping keep batches) = keeping lasting batches := by
  induction batches with
  | nil => rfl
  | cons batch batches ih =>
      rw [← List.singleton_append, keeping_append, keeping_append, keeping_append, ih]
      congr 1
      have hretain := retainSplits_of_le hle batch
      by_cases hempty : (batch.retainSplits keep).isEmpty = true
      · simp [keeping, hempty, isEmpty_retainSplits_of_le hle hempty]
      · simp [keeping, hempty, hretain]

end SplitBatch

/-! ### What a reader lets in -/

namespace Docket

variable {κ : Type} [HasSplitId κ]

theorem admits_gain (id : String) (cursors : List κ) (docket : Docket κ) :
    (docket.gain cursors).admits id = (docket.admits id || (cursors.map splitId).contains id) := by
  induction cursors generalizing docket with
  | nil => simp [gain]
  | cons cursor cursors ih =>
      have hgain : docket.gain (cursor :: cursors) = (docket.enter cursor).gain cursors := rfl
      rw [hgain, ih, admits_enter, List.map_cons, List.contains_cons, Bool.or_assoc]

/-- What a docket does not let in, it does not take back. -/
theorem ridOf_takeBack_of_removed {id : String} {docket : Docket κ} {stale : SplitBatch Record}
    (h : docket.RidOf id) (hremoved : docket.admits id = false) :
    (docket.takeBack stale).RidOf id := by
  simp only [takeBack]
  split
  · exact h
  · refine ⟨h.cursors, ?_⟩
    intro batch hbatch
    rcases List.mem_append.1 hbatch with hold | hnew
    · exact h.replay batch hold
    · rw [List.mem_singleton.1 hnew, SplitBatch.news_retainSplits, hremoved]
      simp

end Docket

namespace Backend

variable {id : String} {change : SplitsChange Split} {backend next : Backend} {recycled : List Nat}
  {lasting : String → Bool}

/-- A split is let in once it is added, and is not once it is removed. -/
theorem admits_changed (h : Changed change backend recycled next) (id : String) :
    next.admits id = ((backend.admits id || change.adds id) && !change.removes id) := by
  have hids {σ : Type} (splits : List σ) (name : σ → String) :
      (splits.map name).contains id = splits.any (name · == id) := by
    rw [List.contains_eq_any_beq, List.any_map]
    exact congrArg splits.any (funext fun split => BEq.comm)
  cases h with
  | gainRanges splits reader | gainFiles splits reader =>
      simp only [admits, Docket.admits_gain, SplitsChange.adds, SplitsChange.removes, List.map_map,
        hids, List.any_map, Bool.not_false, Bool.and_true]
      rfl
  | loseRanges splits reader | loseFiles splits reader =>
      simp only [admits, Docket.admits_lose, SplitsChange.adds, SplitsChange.removes, hids,
        Bool.or_false, List.any_map, Bool.and_comm]
      rfl

/-- A change spares what batches that came back hold of splits that are still let in. -/
theorem keeping_replay_changed (h : Changed change backend recycled next)
    (hlasting : ∀ id, lasting id = true → next.admits id = true) :
    SplitBatch.keeping lasting next.replay = SplitBatch.keeping lasting backend.replay := by
  cases h with
  | gainRanges | gainFiles => simp [replay]
  | loseRanges | loseFiles => exact SplitBatch.keeping_keeping hlasting _

/-- So does a batch that comes back. -/
theorem keeping_replay_rewind {stale : SplitBatch Record}
    (hlasting : ∀ id, lasting id = true → backend.admits id = true) :
    SplitBatch.keeping lasting (backend.rewind stale).replay =
      SplitBatch.keeping lasting (backend.replay ++ [stale]) := by
  rw [replay_rewind, SplitBatch.keeping_append, SplitBatch.keeping_append]
  exact congrArg (_ ++ ·) (SplitBatch.keeping_keeping hlasting [stale])

/-- The reader has nothing of a split and lets nothing of it in. -/
structure Bans (id : String) (backend : Backend) : Prop where
  rid : backend.RidOf id
  removed : backend.admits id = false

/-- A removal bans the split. -/
theorem bans_removal (h : Changed change backend recycled next)
    (hremoves : change.removes id = true) : next.Bans id :=
  ⟨ridOf_removal h hremoves, by rw [admits_changed h, hremoves, Bool.not_true, Bool.and_false]⟩

theorem bans_changed (h : Changed change backend recycled next) (hbans : backend.Bans id)
    (hadds : change.adds id = false) : next.Bans id :=
  ⟨ridOf_changed h hbans.rid hadds, by simp [admits_changed h, hbans.removed, hadds]⟩

theorem bans_rewind (hbans : backend.Bans id) (stale : SplitBatch Record) :
    (backend.rewind stale).Bans id := by
  refine ⟨?_, (admits_rewind id).trans hbans.removed⟩
  obtain ⟨hrid, hremoved⟩ := hbans
  cases backend <;> exact Docket.ridOf_takeBack_of_removed hrid hremoved

theorem bans_close (hbans : backend.Bans id) : (SplitReader.close backend).2.Bans id := by
  refine ⟨ridOf_close rfl, ?_⟩
  have hremoved := hbans.removed
  cases backend <;> exact hremoved

end Backend

/-! ### Removals and what comes after -/

namespace Lending

variable {id : String} {lasting : String → Bool} {lending next : Lending} {move : Move}

/-- The reader takes note of an addition of a split. -/
def Adds (id : String) (lending : Lending) : Move → Prop
  | .change change => lending.Hears change ∧ change.adds id = true
  | _ => False

/-- The reader takes note of a removal of certain splits, or is closed. -/
def TakesAway (lasting : String → Bool) (lending : Lending) : Move → Prop
  | .change (.removal splits) =>
    lending.Hears (.removal splits) ∧ ∃ split ∈ splits, lasting split.id = true
  | .close => True
  | _ => False

instance (id : String) (lending : Lending) (move : Move) : Decidable (lending.Adds id move) :=
  match move with
  | .change change => inferInstanceAs (Decidable (lending.Hears change ∧ change.adds id = true))
  | .fetch _ _ | .use _ _ | .giveBack _ | .wake | .close => isFalse fun h => h

instance (lasting : String → Bool) (lending : Lending) (move : Move) :
    Decidable (lending.TakesAway lasting move) :=
  match move with
  | .change (.removal splits) =>
    inferInstanceAs (Decidable (lending.Hears (.removal splits) ∧
      ∃ split ∈ splits, lasting split.id = true))
  | .close => isTrue trivial
  | .change (.addition _) | .fetch _ _ | .use _ _ | .giveBack _ | .wake => isFalse fun h => h

theorem takesAway_of_removes {change : SplitsChange Split} (hheard : lending.Hears change)
    (hid : lasting id = true) (hremoves : change.removes id = true) :
    lending.TakesAway lasting (.change change) := by
  cases change with
  | addition splits => cases hremoves
  | removal splits =>
      obtain ⟨split, hsplit, hsame⟩ := List.any_eq_true.1 hremoves
      exact ⟨hheard, split, hsplit, by rwa [beq_iff_eq.1 hsame]⟩

/-- As far as certain splits are concerned, the batches that waited at first and those that came
back on a course are those that went out again and those that wait at last, in this order. -/
def PassesOn (lasting : String → Bool) (moves : List Move) (first last : Lending) : Prop :=
  SplitBatch.keeping lasting (first.reader.replay ++ Course.gather step givenBack moves first) =
    SplitBatch.keeping lasting (Course.gather step again moves first ++ last.reader.replay)

/-- A split that is banned stays so until it is added, and no fetch brings anything of it. -/
theorem bans_step (hbans : lending.reader.Bans id) (hmove : ¬ lending.Adds id move)
    (h : step move lending = some next) :
    next.reader.Bans id ∧ ∀ batch ∈ lending.returned move, batch.news id = [] := by
  cases move with
  | change change =>
      refine ⟨?_, fun _ hbatch => (List.not_mem_nil hbatch).elim⟩
      rcases change_cases h with ⟨recycled, reader, hheard, -, hchanged, rfl⟩ | ⟨-, -, rfl⟩
      · refine Backend.bans_changed hchanged hbans ?_
        rw [← Bool.not_eq_true]
        exact fun hadds => hmove ⟨hheard, hadds⟩
      · exact hbans
  | fetch store disturbed =>
      rcases fetch_cases h with ⟨batch, reader, hfetch, rfl⟩ | ⟨cause, reader, hfetch, rfl⟩
      · obtain ⟨hnews, hrid⟩ := Backend.ridOf_fetch hfetch hbans.rid
        refine ⟨⟨hrid, ((Backend.fetched hfetch).2.2 id).trans hbans.removed⟩, ?_⟩
        simp [returned, hfetch, hnews]
      · refine ⟨⟨Backend.ridOf_fetchFailed hfetch hbans.rid, ?_⟩, by simp [returned, hfetch]⟩
        exact ((Backend.fetched_of_failed hfetch).2.2 id).trans hbans.removed
  | use place use =>
      obtain rfl := Option.some.inj h
      exact ⟨hbans, fun _ hbatch => (List.not_mem_nil hbatch).elim⟩
  | giveBack place =>
      obtain ⟨stale, -, -, rfl⟩ := giveBack_cases h
      exact ⟨Backend.bans_rewind hbans stale, fun _ hbatch => (List.not_mem_nil hbatch).elim⟩
  | wake =>
      obtain rfl := Option.some.inj h
      exact ⟨⟨Backend.ridOf_wake hbans.rid, (Backend.admits_wake id _).trans hbans.removed⟩,
        fun _ hbatch => (List.not_mem_nil hbatch).elim⟩
  | close =>
      obtain rfl := Option.some.inj h
      exact ⟨Backend.bans_close hbans, fun _ hbatch => (List.not_mem_nil hbatch).elim⟩

/-- The reader bans a split, and there was nothing of it in batches that were fetched. -/
def Shuns (id : String) (fetched : List (SplitBatch Record)) (lending : Lending) : Prop :=
  lending.reader.Bans id ∧ ∀ batch ∈ fetched, batch.news id = []

theorem shuns_step {fetched : List (SplitBatch Record)} (h : lending.Shuns id fetched)
    (hmove : ¬ lending.Adds id move) (hstep : step move lending = some next) :
    next.Shuns id (fetched ++ lending.returned move) := by
  obtain ⟨hnext, hnew⟩ := bans_step h.1 hmove hstep
  refine ⟨hnext, fun batch hbatch => ?_⟩
  rcases List.mem_append.1 hbatch with hold | hmem
  · exact h.2 batch hold
  · exact hnew batch hmem

/-- Splits that the reader lets in are let in as long as they are not taken away. -/
theorem admits_step (hadmits : ∀ id, lasting id = true → lending.reader.admits id = true)
    (hmove : ¬ lending.TakesAway lasting move) (h : step move lending = some next) :
    ∀ id, lasting id = true → next.reader.admits id = true := by
  intro id hid
  have hbefore := hadmits id hid
  cases move with
  | change change =>
      rcases change_cases h with ⟨recycled, reader, hheard, -, hchanged, rfl⟩ | ⟨-, -, rfl⟩
      · have hremoves : change.removes id = false := by
          rw [← Bool.not_eq_true]
          exact fun hremoves => hmove (takesAway_of_removes hheard hid hremoves)
        simp [Backend.admits_changed hchanged, hbefore, hremoves]
      · exact hbefore
  | fetch store disturbed =>
      rcases fetch_cases h with ⟨batch, reader, hfetch, rfl⟩ | ⟨cause, reader, hfetch, rfl⟩
      · exact ((Backend.fetched hfetch).2.2 id).trans hbefore
      · exact ((Backend.fetched_of_failed hfetch).2.2 id).trans hbefore
  | use place use =>
      obtain rfl := Option.some.inj h
      exact hbefore
  | giveBack place =>
      obtain ⟨stale, -, -, rfl⟩ := giveBack_cases h
      exact (Backend.admits_rewind id).trans hbefore
  | wake =>
      obtain rfl := Option.some.inj h
      exact (Backend.admits_wake id _).trans hbefore
  | close => exact (hmove trivial).elim

/-- One move passes on what it is given of such splits. -/
theorem passesOn_step (hadmits : ∀ id, lasting id = true → lending.reader.admits id = true)
    (hmove : ¬ lending.TakesAway lasting move) (h : step move lending = some next) :
    SplitBatch.keeping lasting lending.reader.replay ++
        SplitBatch.keeping lasting (lending.givenBack move) =
      SplitBatch.keeping lasting (lending.again move) ++
        SplitBatch.keeping lasting next.reader.replay := by
  have hafter := admits_step hadmits hmove h
  have hquiet (hgiven : lending.givenBack move = []) (hagain : lending.again move = [])
      (hreplay : SplitBatch.keeping lasting next.reader.replay =
        SplitBatch.keeping lasting lending.reader.replay) :
      SplitBatch.keeping lasting lending.reader.replay ++
          SplitBatch.keeping lasting (lending.givenBack move) =
        SplitBatch.keeping lasting (lending.again move) ++
          SplitBatch.keeping lasting next.reader.replay := by
    rw [hgiven, hagain, hreplay, SplitBatch.keeping_nil, List.append_nil, List.nil_append]
  cases move with
  | change change =>
      refine hquiet rfl (by simp [again, returned]) ?_
      rcases change_cases h with ⟨recycled, reader, -, -, hchanged, rfl⟩ | ⟨-, -, rfl⟩
      · exact Backend.keeping_replay_changed hchanged hafter
      · rfl
  | fetch store disturbed =>
      rw [← again_replay h, SplitBatch.keeping_append]
      exact List.append_nil _
  | use place use =>
      obtain rfl := Option.some.inj h
      exact hquiet rfl (by simp [again, returned]) rfl
  | giveBack place =>
      obtain ⟨stale, -, hgiven, rfl⟩ := giveBack_cases h
      have hagain : lending.again (.giveBack place) = [] := by simp [again, returned]
      rw [hgiven, hagain, Backend.keeping_replay_rewind hadmits, SplitBatch.keeping_append]
      rfl
  | wake =>
      obtain rfl := Option.some.inj h
      exact hquiet rfl (by simp [again, returned]) (by rw [Backend.replay_wake])
  | close => exact (hmove trivial).elim

/-- A course without removals of certain splits passes on what the reader had and was given of
them. -/
theorem passesOn_follow {moves : List Move} {first last : Lending}
    (hadmits : ∀ id, lasting id = true → first.reader.admits id = true)
    (h : Course.follow step moves first = some last)
    (hnever : Course.Never step (TakesAway lasting) moves first) :
    PassesOn lasting moves first last := by
  have hgather (yield : Lending → Move → List (SplitBatch Record)) :
      SplitBatch.keeping lasting (Course.gather step yield moves first) =
        Course.gather step (fun lending move => SplitBatch.keeping lasting (yield lending move))
          moves first :=
    Course.gather_hom rfl SplitBatch.keeping_append moves first
  rw [PassesOn, SplitBatch.keeping_append, SplitBatch.keeping_append, hgather, hgather]
  exact Course.gather_balance_of_never
    (fun lending : Lending => ∀ id, lasting id = true → lending.reader.admits id = true)
    admits_step passesOn_step h hnever hadmits

/-- After a removal of a split that the reader took note of, and until it takes note of an addition
of it, no fetch returns a batch with a record or the end mark of the split, whatever comes back in
the meantime.  From any moment on, batches that wait or come back go out again in order and
unchanged as far as they hold splits that are let in and not taken away. -/
theorem removed_stays_away {change : SplitsChange Split} {asked taken last : Lending}
    {moves : List Move} (hheard : asked.Hears change) (hremoves : change.removes id = true)
    (hremoval : step (.change change) asked = some taken)
    (h : Course.follow step moves taken = some last)
    (hnever : Course.Never step (Adds id) moves taken) :
    (∀ batch ∈ Course.gather step returned moves taken, batch.news id = []) ∧
      ∀ before here after lasting, .change change :: moves = before ++ after →
        Course.follow step before asked = some here →
          (∀ other, lasting other = true → here.reader.admits other = true) →
            Course.Never step (TakesAway lasting) after here →
              PassesOn lasting after here last := by
  have htaken : taken.reader.Bans id := by
    rcases change_cases hremoval with ⟨recycled, reader, -, -, hchanged, rfl⟩ | ⟨hunheard, -, -⟩
    · exact Backend.bans_removal hchanged hremoves
    · exact absurd hheard hunheard
  constructor
  · have hfirst : Shuns id [] taken := ⟨htaken, fun _ hbatch => (List.not_mem_nil hbatch).elim⟩
    exact (Course.follow_gathers_of_never (Shuns id) shuns_step h hnever hfirst).2
  · intro before here after lasting hcourse hbefore hadmits hlasting
    refine passesOn_follow hadmits ?_ hlasting
    have hall : Course.follow step (.change change :: moves) asked = some last :=
      Course.follow_cons_eq_some.2 ⟨taken, hremoval, h⟩
    rw [hcourse, Course.follow_append, hbefore] at hall
    exact hall

/-- A batch of two splits, with the end marks of both. -/
def shared : SplitBatch Record where
  waiting := [("a", [⟨0, "a:0"⟩, ⟨1, "a:1"⟩]), ("b", [⟨0, "b:0"⟩])]
  finished := .ofList ["a", "b"]

/-- One such batch waits to be handed out again, and somebody holds another one. -/
def lent : Lending where
  reader := .ranges { docket := { replay := [shared] }, maxRecords := 1, delayMs := 0 }
  out := [shared]

/-- What is held is read in, the waiting batch is fetched, and both come back. -/
def comeback : List Move :=
  [.use 0 .nextSplit, .use 0 .nextRecord, .fetch .empty [], .giveBack 0, .giveBack 0,
    .fetch .empty [], .fetch .empty []]

/-- Nothing of a removed split comes out of batches that waited or came back half read, and all that
they hold of the other split does. -/
theorem half_read_stays_away :
    ∃ taken last, step (.change (.removal [.range ⟨"a", 0, 2⟩])) lent = some taken ∧
      Course.follow step comeback taken = some last ∧
        (∀ batch ∈ Course.gather step returned comeback taken, batch.news "a" = []) ∧
          PassesOn (· == "b") comeback taken last ∧
            (Course.gather step returned comeback taken).map (·.news "b") =
              List.replicate 3 [some ⟨0, "b:0"⟩, none] := by
  obtain ⟨last, hlast⟩ : ∃ last, Course.follow step
      (.change (.removal [.range ⟨"a", 0, 2⟩]) :: comeback) lent = some last :=
    Option.isSome_iff_exists.1 (by decide +kernel)
  obtain ⟨taken, hremoval, hcomeback⟩ := Course.follow_cons_eq_some.1 hlast
  obtain rfl := Option.some.inj hremoval
  have hremoves : (SplitsChange.removal [.range ⟨"a", 0, 2⟩]).removes "a" = true := by
    decide +kernel
  have hstays := removed_stays_away (by decide +kernel) hremoves hremoval hcomeback
    (by decide +kernel)
  refine ⟨_, last, hremoval, hcomeback, hstays.1, ?_, by decide +kernel⟩
  apply hstays.2 [.change (.removal [.range ⟨"a", 0, 2⟩])] _ comeback (· == "b") rfl rfl
  · intro other hother
    rw [beq_iff_eq.1 hother]
    decide +kernel
  · decide +kernel

end Lending

end SplitFeed
