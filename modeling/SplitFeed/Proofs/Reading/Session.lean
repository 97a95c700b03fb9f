/-
# Keeping batches and giving them back

A session with a reader is a course of fetches, with wake-ups between them and before any line.
Each batch that a fetch brings is kept or goes back to the reader before the next fetch.  At every
moment, what the kept batches tell of a file and what the reader has still to tell of it make up
the news of the file.

So once the end mark of a file is kept, the kept batches hold exactly the records of its lines, the
mark is kept once and last, and the file is never heard of again.
-/
import SplitFeed.Proofs.Course
import SplitFeed.Proofs.Reading.Keeping
import SplitFeed.Proofs.Reading.Pieces

namespace SplitFeed

/-- A reader, and the batches of its fetches that were kept. -/
structure Session where
  reader : Backend
  kept : List (SplitBatch Record) := []

namespace Session

/-- What can be done with a reader: `disturbed` are the wake-ups that land while it fetches, and
`keeps` says whether the batch is kept or goes back. -/
inductive Move where
  | wake
  | fetch (disturbed : List Bool) (keeps : Bool)

/-- What a move makes of a session.  It cannot be made if the reader refuses. -/
def step (store : FileStore) : Move → Session → Option Session
  | .wake, session => some { session with reader := SplitReader.wake session.reader }
  | .fetch disturbed keeps, session =>
    match SplitReader.fetch store disturbed session.reader with
    | (.returned batch, reader) =>
      if keeps then some { reader, kept := session.kept ++ [batch] }
      else
        match SplitReader.rewind batch reader with
        | (.returned (), _, reader) => some { session with reader }
        | _ => none
    | _ => none

/-- The session with a new reader that has taken on files. -/
def opened (limits : FetchLimits) (files : List FileSplit) : Session where
  reader :=
    (SplitReader.change (.addition (files.map Split.file))
      (Backend.files (.withLimits limits))).2.2

/-- The reader keeps a split, at most one batch is with it that came back, and of the news that are
due of the split, the kept batches tell the front and the reader has the rest. -/
structure Tracks (store : FileStore) (id : String) (due : List (Option Record))
    (session : Session) : Prop where
  keeps : session.reader.Keeps store id
  replay : session.reader.replay.length ≤ 1
  told : session.kept.flatMap (·.news id) ++ session.reader.outlook store id = due

variable {store : FileStore} {id : String} {due : List (Option Record)} {session next : Session}
  {move : Move}

/-- What is tracked before a fetch: it returns, and its batch tells the front of what the reader
had still to tell. -/
theorem fetch_of_tracks (h : session.Tracks store id due) (disturbed : List Bool) :
    ∃ batch reader, SplitReader.fetch store disturbed session.reader = (.returned batch, reader) ∧
      reader.Keeps store id ∧ reader.replay = [] ∧
        batch.news id ++ reader.outlook store id = session.reader.outlook store id := by
  obtain ⟨batch, reader, hfetch, hkeeps⟩ := Backend.fetch_of_keeps h.keeps disturbed
  obtain ⟨houtlook, hreplay⟩ := Backend.outlook_fetch id hfetch (Backend.fitsAt_of_keeps h.keeps id)
  refine ⟨batch, reader, hfetch, hkeeps, ?_, houtlook⟩
  have hlength := h.replay
  rw [hreplay, List.eq_nil_iff_length_eq_zero, List.length_tail]
  omega

/-- Every move can be made, and what was tracked is tracked. -/
theorem tracks_step (h : session.Tracks store id due) (move : Move) :
    ∃ next, step store move session = some next ∧ next.Tracks store id due := by
  cases move with
  | wake =>
      exact ⟨_, rfl, Backend.keeps_wake h.keeps, by simpa using h.replay, by simpa using h.told⟩
  | fetch disturbed keeps =>
      obtain ⟨batch, reader, hfetch, hkeeps, hreplay, houtlook⟩ := fetch_of_tracks h disturbed
      have htold := h.told
      cases keeps with
      | true =>
          refine ⟨{ reader, kept := session.kept ++ [batch] }, by simp [step, hfetch], hkeeps,
            by simp [hreplay], ?_⟩
          rw [← htold, ← houtlook]
          simp
      | false =>
          rcases hback : SplitReader.rewind batch reader with ⟨result, recycled, after⟩
          obtain ⟨rfl, hkept, hone, hagain⟩ := Backend.rewind_of_keeps hback hkeeps hreplay
          refine ⟨{ session with reader := after }, by simp [step, hfetch, hback], hkept, hone, ?_⟩
          rw [← htold, ← houtlook, ← hagain]

/-- Every course can be followed, and what was tracked is tracked at its end. -/
theorem tracks_follow (h : session.Tracks store id due) (moves : List Move) :
    ∃ last, Course.follow (step store) moves session = some last ∧ last.Tracks store id due := by
  induction moves generalizing session with
  | nil => exact ⟨session, rfl, h⟩
  | cons move moves ih =>
      obtain ⟨next, hmove, hnext⟩ := tracks_step h move
      obtain ⟨last, hrest, hlast⟩ := ih hnext
      exact ⟨last, Course.follow_cons_eq_some.2 ⟨next, hmove, hrest⟩, hlast⟩

/-- A new reader has all news of its files to tell. -/
theorem tracks_opened (limits : FetchLimits) {files : List FileSplit}
    (honce : (files.map (·.id)).Nodup)
    (hreadable : ∀ file ∈ files, (store.text? file.path).isSome) (id : String) :
    (opened limits files).Tracks store id (Split.due store id (files.map .file)) := by
  have hnew : (Backend.files (.withLimits limits)).IsNew := rfl
  have hsuits : Backend.Suits (Backend.files (.withLimits limits)).sort
      (.addition (files.map Split.file)) := by
    intro split hsplit
    obtain ⟨file, -, rfl⟩ := List.mem_map.1 hsplit
    rfl
  have hspares : (SplitsChange.addition (files.map Split.file)).Spares store id := by
    intro split hsplit
    obtain ⟨file, hfile, rfl⟩ := List.mem_map.1 hsplit
    exact hreadable file hfile
  have hids : ((files.map Split.file).map Split.id).Nodup := by
    simpa [Split.id, Function.comp_def] using honce
  have hkeeps : (Backend.files (.withLimits limits)).Keeps store id := Backend.keeps_of_isNew hnew
  have houtlook : (Backend.files (.withLimits limits)).outlook store id = [] :=
    Backend.outlook_of_isNew hnew
  have hstory : IsStory ((Backend.files (.withLimits limits)).outlook store id ++
      (Split.due store id (files.map .file) ++ [])) := by
    rw [houtlook, List.nil_append, List.append_nil]
    exact Split.isStory_due store id hids
  obtain ⟨recycled, reader, hcall, hchanged⟩ := Backend.change_of_suits hsuits
  obtain ⟨hnext, hreplay⟩ := Backend.keeps_changed hchanged hkeeps hspares
  have hdue := Backend.outlook_changed hchanged hkeeps hspares hstory
  rw [houtlook, List.nil_append] at hdue
  rw [Backend.replay_of_isNew hnew] at hreplay
  rw [opened, hcall]
  exact ⟨hnext, Nat.le_trans hreplay (Nat.zero_le 1), hdue⟩

/-! ### What was kept of a file that ended -/

/-- The kept batches tell a file to its end: they hold the records of its lines, one batch has the
end mark, and none behind it has anything of the file. -/
structure ToldInFull (id : String) (text : List UInt8) (kept : List (SplitBatch Record)) :
    Prop where
  records : SplitBatch.recordsOf id kept = Pieces.records 1 text
  mark : ∃ before last after, kept = before ++ last :: after ∧
    last.finished.contains id = true ∧
    (∀ batch ∈ before, batch.finished.contains id = false) ∧
    ∀ batch ∈ after, batch.news id = []

/-- Batches that tell a story with its end mark tell that in one batch, and nothing after it. -/
theorem exists_mark {kept : List (SplitBatch Record)} (hstory : IsStory (kept.flatMap (·.news id)))
    (hmark : ∃ batch ∈ kept, batch.finished.contains id = true) :
    ∃ before last after, kept = before ++ last :: after ∧ last.finished.contains id = true ∧
      (∀ batch ∈ before, batch.finished.contains id = false) ∧
      ∀ batch ∈ after, batch.news id = [] := by
  obtain ⟨last, hlast, hends⟩ := hmark
  obtain ⟨before, after, rfl⟩ := List.append_of_mem hlast
  have hnone : none ∈ last.news id := SplitBatch.none_mem_news.2 hends
  rw [List.flatMap_append, List.flatMap_cons] at hstory
  refine ⟨before, last, after, rfl, hends, ?_, ?_⟩
  · intro batch hbatch
    by_contra hother
    rw [Bool.not_eq_false] at hother
    have hearly : none ∈ before.flatMap (·.news id) :=
      List.mem_flatMap.2 ⟨batch, hbatch, SplitBatch.none_mem_news.2 hother⟩
    have hempty := hstory.eq_nil_of_none_mem hearly
    rw [List.append_eq_nil_iff] at hempty
    exact List.not_mem_nil (hempty.1 ▸ hnone)
  · exact List.flatMap_eq_nil_iff.1 (hstory.of_append.eq_nil_of_none_mem hnone)

/-- Once the end mark of a file is kept, the reader has nothing of it left to tell. -/
theorem outlook_of_mark (h : session.Tracks store id due) (hstory : IsStory due)
    (hmark : ∃ batch ∈ session.kept, batch.finished.contains id = true) :
    session.reader.outlook store id = [] := by
  obtain ⟨batch, hmem, hends⟩ := hmark
  have hnone : none ∈ session.kept.flatMap (·.news id) :=
    List.mem_flatMap.2 ⟨batch, hmem, SplitBatch.none_mem_news.2 hends⟩
  rw [← h.told] at hstory
  exact hstory.eq_nil_of_none_mem hnone

/-- What was kept stays kept. -/
theorem kept_prefix_step (h : step store move session = some next) :
    session.kept <+: next.kept := by
  cases move with
  | wake =>
      obtain rfl := Option.some.inj h
      exact List.prefix_refl _
  | fetch disturbed keeps =>
      simp only [step] at h
      split at h
      · split at h
        · obtain rfl := Option.some.inj h
          exact List.prefix_append _ _
        · split at h
          · obtain rfl := Option.some.inj h
            exact List.prefix_refl _
          · cases h
      · cases h

theorem kept_prefix_follow {moves : List Move}
    (h : Course.follow (step store) moves session = some next) : session.kept <+: next.kept :=
  Course.follow_preserves (fun later => session.kept <+: later.kept)
    (fun hearlier hmove => hearlier.trans (kept_prefix_step hmove)) h (List.prefix_refl _)

/-- Whatever the ceilings, the wake-ups and the batches that go back, every fetch returns.  Once
the end mark of a file is kept, the kept batches tell the file in full, and no later fetch brings
anything of it. -/
theorem file_told_in_full (limits : FetchLimits) {files : List FileSplit}
    (honce : (files.map (·.id)).Nodup)
    (hreadable : ∀ file ∈ files, (store.text? file.path).isSome) (moves : List Move) :
    ∃ last, Course.follow (step store) moves (opened limits files) = some last ∧
      ∀ file ∈ files, ∀ text, store.text? file.path = some text →
        (∃ batch ∈ last.kept, batch.finished.contains file.id = true) →
          ToldInFull file.id text last.kept ∧
            ∀ later final, Course.follow (step store) later last = some final →
              ∀ disturbed, ∃ batch reader,
                SplitReader.fetch store disturbed final.reader = (.returned batch, reader) ∧
                  batch.news file.id = [] := by
  have hids : ((files.map Split.file).map Split.id).Nodup := by
    simpa [Split.id, Function.comp_def] using honce
  obtain ⟨last, hlast, -⟩ := tracks_follow (tracks_opened limits honce hreadable "") moves
  refine ⟨last, hlast, ?_⟩
  intro file hfile text htext hmark
  have htracks : last.Tracks store file.id ((Split.file file).news store) := by
    obtain ⟨same, hsame, htracks⟩ :=
      tracks_follow (tracks_opened limits honce hreadable file.id) moves
    obtain rfl : same = last := Option.some.inj (hsame.symm.trans hlast)
    rwa [← Split.due_eq_news hids (List.mem_map_of_mem hfile)]
  have hstory : IsStory ((Split.file file).news store) := Split.isStory_news store _
  have hempty := outlook_of_mark htracks hstory hmark
  have htold : last.kept.flatMap (·.news file.id) = (Split.file file).news store := by
    rw [← htracks.told, hempty, List.append_nil]
  constructor
  · constructor
    · show SplitBatch.recordsOf file.id last.kept = Pieces.records 1 text
      rw [← SplitBatch.reduceOption_flatMap_news, htold, Split.reduceOption_news, Split.records,
        htext]
      exact Pieces.recordsOf_eq 0 text
    · exact exists_mark (htold ▸ hstory) hmark
  · intro later final hlater disturbed
    obtain ⟨same, hsame, hfinal⟩ := tracks_follow htracks later
    obtain rfl : same = final := Option.some.inj (hsame.symm.trans hlater)
    have hstill : ∃ batch ∈ same.kept, batch.finished.contains file.id = true := by
      obtain ⟨batch, hmem, hends⟩ := hmark
      exact ⟨batch, (kept_prefix_follow hlater).subset hmem, hends⟩
    obtain ⟨batch, reader, hfetch, -, -, hnews⟩ := fetch_of_tracks hfinal disturbed
    rw [outlook_of_mark hfinal hstory hstill, List.append_eq_nil_iff] at hnews
    exact ⟨batch, reader, hfetch, hnews.1⟩

/-- A file of three lines: one ends with carriage returns, one is blank, and the last one has no
newline. -/
def notes : FileStore := FileStore.empty.provide "a" (.file [120, 13, 13, 10, 10, 121])

/-- The file is read line by line, with a wake-up before a line and a batch that goes back. -/
def notesCourse : List Move :=
  [.fetch [] true, .wake, .fetch [] false, .fetch [] true, .fetch [false, true] false,
    .fetch [] true, .fetch [] true, .fetch [] true, .fetch [] true]

/-- The mark of the file is kept on the course, so the kept batches tell it in full. -/
theorem notes_told_in_full :
    ∃ last, Course.follow (step notes) notesCourse
        (opened { maxRecords := 1 } [FileSplit.ofPath "a"]) = some last ∧
      ToldInFull "a" [120, 13, 13, 10, 10, 121] last.kept ∧
        SplitBatch.recordsOf "a" last.kept = [⟨1, "x"⟩, ⟨3, "y"⟩] := by
  have htext : notes.text? "a" = some [120, 13, 13, 10, 10, 121] := by decide +kernel
  have honce : ([FileSplit.ofPath "a"].map (·.id)).Nodup := by decide
  have hreadable : ∀ file ∈ [FileSplit.ofPath "a"], (notes.text? file.path).isSome := by
    intro file hfile
    rw [List.mem_singleton.1 hfile]
    show (notes.text? "a").isSome
    rw [htext]
    rfl
  obtain ⟨last, hlast, hfiles⟩ :=
    file_told_in_full { maxRecords := 1 } honce hreadable notesCourse
  have hends : ((Course.follow (step notes) notesCourse
      (opened { maxRecords := 1 } [FileSplit.ofPath "a"])).any
        (·.kept.any (·.finished.contains "a"))) = true := by
    decide +kernel
  rw [hlast, Option.any_some] at hends
  have htold : ToldInFull "a" [120, 13, 13, 10, 10, 121] last.kept :=
    (hfiles (FileSplit.ofPath "a") List.mem_cons_self _ htext (List.any_eq_true.1 hends)).1
  refine ⟨last, hlast, htold, ?_⟩
  rw [htold.records]
  decide +kernel

end Session

end SplitFeed
