/-
# Getting to the end of a file

A fetch from a file that can be read either reads on, by at least one line, or tells that the file
ended.  So as many fetches as the file has lines left, and one more, bring its end mark.

All of this hangs on the ceilings.  They are tested before the first line, so a ceiling of zero lets
nothing through: the fetch returns, the reader stays where it was, and so it goes on for ever.
-/
import SplitFeed.Proofs.Reading.Keeping
import SplitFeed.Proofs.Reading.Pieces
import SplitFeed.Settings.Load

namespace SplitFeed

/-- Ceilings under which a fetch may read at all. -/
def FetchLimits.LetRead (limits : FetchLimits) : Prop :=
  0 < limits.maxRecords ∧ 0 < limits.maxBytes

instance (limits : FetchLimits) : Decidable limits.LetRead :=
  inferInstanceAs (Decidable (_ ∧ _))

/-- At least one line of a text was read when something else is left of it. -/
structure ReadOn (text left : List UInt8) : Prop where
  bytes : left.length < text.length
  lines : (Pieces.lines left).length < (Pieces.lines text).length

theorem ReadOn.trans {text middle left : List UInt8} (first : ReadOn text middle)
    (second : ReadOn middle left) : ReadOn text left :=
  ⟨second.bytes.trans first.bytes, second.lines.trans first.lines⟩

namespace LineSource

variable {store : FileStore} {source next : LineSource}

/-- Reading a line reads on. -/
theorem readOn_of_readLine {first : UInt8} {others : List UInt8}
    (hwhole : source.feed.Whole store)
    (hline : source.readLine store = (.ok (first :: others), next)) :
    ReadOn (source.bytes store) (next.bytes store) := by
  obtain ⟨after, hread, -⟩ := readLine_whole hwhole
  have hfirst : firstLine (source.bytes store) = first :: others := by
    simpa using (congrArg Prod.fst (hread.symm.trans hline))
  have hbytes := bytes_readLine hline
  have hne : source.bytes store ≠ [] := by
    rw [hbytes]
    exact List.cons_ne_nil _ _
  have hleft : (source.bytes store).drop (firstLine (source.bytes store)).length =
      next.bytes store := by
    rw [hfirst, hbytes]
    exact List.drop_left
  constructor
  · rw [← hleft]
    exact Pieces.length_behind_firstLine hne
  · obtain ⟨line, mark, -, -, -, hlines⟩ := Pieces.exists_piece hne
    rw [hlines, hleft]
    exact Nat.lt_succ_self _

end LineSource

namespace FileCursor

/-- What was not read of a file yet. -/
def rest (store : FileStore) (cursor : FileCursor) : List UInt8 :=
  match cursor.lines with
  | some lines => lines.bytes store
  | none => (store.text? cursor.split.path).getD []

/-- A file that can be read is open, or can be opened, at what was not read of it yet. -/
theorem opened_at_rest {store : FileStore} {cursor : FileCursor} (h : cursor.IsFine store) :
    ∃ lines, (match cursor.lines with
        | some lines => Except.ok lines
        | none => LineSource.ofPath cursor.split.path store) = .ok lines ∧
      lines.feed.Whole store ∧ lines.bytes store = cursor.rest store := by
  cases hlines : cursor.lines with
  | some lines =>
      simp only [IsFine, hlines] at h
      exact ⟨lines, rfl, h, by simp only [rest, hlines]⟩
  | none =>
      simp only [IsFine, hlines] at h
      obtain ⟨text, htext⟩ := Option.isSome_iff_exists.1 h
      obtain ⟨lines, hopened, hwhole, hbytes⟩ := LineSource.ofPath_of_text htext
      exact ⟨lines, hopened, hwhole, by simp only [rest, hlines, htext, hbytes, Option.getD_some]⟩

end FileCursor

namespace FileReader

variable {store : FileStore} {cursor : FileCursor} {reader : FileReader}

/-- A haul in which no wake-up lands comes to the end, reads on, or has no room for a line. -/
theorem haul_undisturbed (limits : FetchLimits) (records bytes : Nat) {disturbed : List Bool}
    {flag : WakeFlag} {lines : LineSource} (number : Nat) (hquiet : disturbed = [])
    (hcalm : flag.raised = false) (hwhole : lines.feed.Whole store) :
    let haul := haul limits store records bytes disturbed flag lines number
    haul.flag.raised = false ∧
      (haul.reachedEnd = true ∨ ReadOn (lines.bytes store) (haul.lines.bytes store) ∨
        haul.lines = lines ∧ ¬ (records < limits.maxRecords ∧ bytes < limits.maxBytes)) := by
  fun_induction haul limits store records bytes disturbed flag lines number with
  | case1 records bytes disturbed flag lines number hroom flag' hnap =>
      simp [WakeFlag.nap, hquiet, hcalm] at hnap
  | case2 records bytes disturbed flag lines number hroom woken flag' hnap hwoken error lines'
      hline => exact absurd rfl ((LineSource.whole_readLine hwhole hline).1 error)
  | case3 records bytes disturbed flag lines number hroom woken flag' hnap hwoken lines' hline =>
      obtain ⟨-, rfl⟩ := Prod.mk.inj hnap
      exact ⟨rfl, .inl rfl⟩
  | case4 records bytes disturbed flag lines number hroom woken flag' hnap hwoken first rest lines'
      hline _ _ _ _ ih =>
      obtain ⟨-, rfl⟩ := Prod.mk.inj hnap
      have hread := LineSource.readOn_of_readLine hwhole hline
      have hquiet' : disturbed.tail = [] := by rw [hquiet, List.tail_nil]
      rcases ih hquiet' rfl (LineSource.whole_readLine hwhole hline).2 with
        ⟨hflag, hend | hmore | ⟨hsame, -⟩⟩
      · exact ⟨hflag, .inl hend⟩
      · exact ⟨hflag, .inr (.inl (hread.trans hmore))⟩
      · exact ⟨hflag, .inr (.inl (by rwa [hsame]))⟩
  | case5 records bytes disturbed flag lines number hroom woken flag' hnap hwoken first rest lines'
      hline _ _ _ _ _ ih =>
      obtain ⟨-, rfl⟩ := Prod.mk.inj hnap
      have hread := LineSource.readOn_of_readLine hwhole hline
      have hquiet' : disturbed.tail = [] := by rw [hquiet, List.tail_nil]
      rcases ih hquiet' rfl (LineSource.whole_readLine hwhole hline).2 with
        ⟨hflag, hend | hmore | ⟨hsame, -⟩⟩
      · exact ⟨hflag, .inl hend⟩
      · exact ⟨hflag, .inr (.inl (hread.trans hmore))⟩
      · exact ⟨hflag, .inr (.inl (hsame ▸ hread))⟩
  | case6 records bytes disturbed flag lines number hfull => exact ⟨hcalm, .inr (.inr ⟨rfl, hfull⟩)⟩

/-- Without room for a line, nothing is read. -/
theorem haul_of_full {limits : FetchLimits} {records bytes : Nat} {disturbed : List Bool}
    {flag : WakeFlag} {lines : LineSource} {number : Nat}
    (hfull : ¬ (records < limits.maxRecords ∧ bytes < limits.maxBytes)) :
    haul limits store records bytes disturbed flag lines number =
      { lines, lineNumber := number, flag } := by
  rw [haul, dif_neg hfull]

/-- A file that can be read is in front, no batch that came back is waiting, and no wake-up is
pending. -/
structure Faces (store : FileStore) (cursor : FileCursor) (reader : FileReader) : Prop where
  isOpen : reader.docket.closed = false
  replay : reader.docket.replay = []
  calm : reader.docket.flag.raised = false
  front : reader.docket.cursors.head? = some cursor
  fine : cursor.IsFine store

/-- What an undisturbed fetch from the file in front comes to: the file has ended, or it is still in
front and less is left of it, or the ceilings do not let anything through and all is as before. -/
inductive Comes (store : FileStore) (cursor : FileCursor) (reader : FileReader) :
    SplitBatch Record → FileReader → Prop
  | ended {batch : SplitBatch Record} {next : FileReader} (hroom : reader.limits.LetRead)
      (hends : batch.finished.contains cursor.split.id = true) :
      Comes store cursor reader batch next
  | readOn {batch : SplitBatch Record} {next : FileReader} {left : FileCursor}
      (hroom : reader.limits.LetRead)
      (hgoes : batch.finished.contains cursor.split.id = false)
      (hlimits : next.limits = reader.limits)
      (hnext : next.Faces store left) (hsplit : left.split = cursor.split)
      (hleft : ReadOn (cursor.rest store) (left.rest store)) :
      Comes store cursor reader batch next
  | stuck {next : FileReader} {left : FileCursor} (hroom : ¬ reader.limits.LetRead)
      (hlimits : next.limits = reader.limits) (hnext : next.Faces store left)
      (hsplit : left.split = cursor.split) (hleft : left.rest store = cursor.rest store) :
      Comes store cursor reader .empty next

/-- What a fetch makes of the lines that it hauled from the file in front. -/
theorem fetch_front {others : List FileCursor} {lines : LineSource} {haul : Haul}
    (hcursors : reader.docket.cursors = cursor :: others) (h : reader.Faces store cursor)
    (hopened : (match cursor.lines with
        | some lines => Except.ok lines
        | none => LineSource.ofPath cursor.split.path store) = .ok lines)
    (hhaul : FileReader.haul reader.limits store 0 0 [] reader.docket.flag lines
      cursor.lineNumber = haul) (hfailure : haul.failure = none) :
    reader.fetch store [] =
      if haul.reachedEnd then
        (.returned ((SplitBatch.empty.addRecords cursor.split.id haul.records).finishSplit
            cursor.split.id),
          { reader with docket := { reader.docket with flag := haul.flag, cursors := others } })
      else
        (.returned (SplitBatch.empty.addRecords cursor.split.id haul.records),
          { reader with docket := { reader.docket with
              flag := haul.flag
              cursors := { cursor with lines := some haul.lines, lineNumber := haul.lineNumber } ::
                others } }) := by
  simp only [fetch, h.isOpen, h.replay, hcursors, Bool.false_eq_true, ↓reduceIte]
  split
  · next error herror => cases hopened.symm.trans herror
  · next lines' hopened' =>
      obtain rfl : lines = lines' := by simpa using hopened.symm.trans hopened'
      simp only [hhaul, hfailure]

/-- An undisturbed fetch from the file in front returns, with one of these outcomes. -/
theorem fetch_comes (h : reader.Faces store cursor) :
    ∃ batch next, reader.fetch store [] = (.returned batch, next) ∧
      Comes store cursor reader batch next := by
  obtain ⟨others, hcursors⟩ : ∃ others, reader.docket.cursors = cursor :: others :=
    List.head?_eq_some_iff.1 h.front
  obtain ⟨lines, hopened, hwhole, hrest⟩ := FileCursor.opened_at_rest h.fine
  obtain ⟨hcalm, hcomes⟩ := haul_undisturbed reader.limits 0 0 cursor.lineNumber rfl h.calm hwhole
  obtain ⟨hfailure, hleft⟩ :=
    haul_whole reader.limits 0 0 [] reader.docket.flag lines cursor.lineNumber hwhole
  have hfull : ¬ reader.limits.LetRead →
      haul reader.limits store 0 0 [] reader.docket.flag lines cursor.lineNumber =
        { lines, lineNumber := cursor.lineNumber, flag := reader.docket.flag } :=
    fun hroom => haul_of_full hroom
  rw [fetch_front hcursors h hopened rfl hfailure]
  generalize haul reader.limits store 0 0 [] reader.docket.flag lines cursor.lineNumber = haul at *
  let left : FileCursor := { cursor with lines := some haul.lines, lineNumber := haul.lineNumber }
  have hfaces : Faces store left { reader with docket :=
      { reader.docket with flag := haul.flag, cursors := left :: others } } :=
    ⟨h.isOpen, h.replay, hcalm, rfl, hleft⟩
  by_cases hroom : reader.limits.LetRead
  · cases hend : haul.reachedEnd with
    | true =>
        refine ⟨_, _, rfl, .ended hroom ?_⟩
        simp [SplitBatch.finishSplit]
    | false =>
        refine ⟨_, _, rfl, .readOn hroom ?_ rfl hfaces rfl ?_⟩
        · rw [SplitBatch.finished_addRecords]
          rfl
        · show ReadOn (cursor.rest store) (haul.lines.bytes store)
          rcases hcomes with hends | hmore | ⟨-, hnone⟩
          · rw [hend] at hends
            cases hends
          · exact hrest ▸ hmore
          · exact absurd hroom hnone
  · obtain rfl := hfull hroom
    exact ⟨_, _, rfl, .stuck hroom rfl hfaces rfl hrest⟩

/-- The next undisturbed fetch tells that the file in front ended, or leaves fewer bytes of it. -/
def Progresses (store : FileStore) (cursor : FileCursor) (reader : FileReader) : Prop :=
  ∃ batch next, reader.fetch store [] = (.returned batch, next) ∧
    (batch.finished.contains cursor.split.id = true ∨
      ∃ left, next.docket.cursors.head? = some left ∧ left.split = cursor.split ∧
        (left.rest store).length < (cursor.rest store).length)

/-- One of so many undisturbed fetches tells that a file ended, and those before it return. -/
def FinishesWithin (store : FileStore) (id : String) : Nat → FileReader → Prop
  | 0, _ => False
  | fetches + 1, reader =>
    ∃ batch next, reader.fetch store [] = (.returned batch, next) ∧
      (batch.finished.contains id = true ∨ FinishesWithin store id fetches next)

theorem finishesWithin_mono {id : String} {fewer more : Nat} (hle : fewer ≤ more)
    (h : FinishesWithin store id fewer reader) : FinishesWithin store id more reader := by
  induction fewer generalizing more reader with
  | zero => exact h.elim
  | succ fewer ih =>
      cases more with
      | zero => exact absurd hle (Nat.not_succ_le_zero _)
      | succ more =>
          obtain ⟨batch, next, hfetch, hends⟩ := h
          refine ⟨batch, next, hfetch, ?_⟩
          exact hends.imp_right (ih (Nat.le_of_succ_le_succ hle))

/-- With ceilings that let something through, a file is finished by as many fetches as it has lines
left, and one more. -/
theorem finishesWithin_lines (h : reader.Faces store cursor) (hroom : reader.limits.LetRead) :
    FinishesWithin store cursor.split.id ((Pieces.lines (cursor.rest store)).length + 1)
      reader := by
  induction hlines : (Pieces.lines (cursor.rest store)).length using Nat.strongRecOn
    generalizing reader cursor with
  | ind count ih =>
      obtain ⟨batch, next, hfetch, hcomes⟩ := fetch_comes h
      refine ⟨batch, next, hfetch, ?_⟩
      cases hcomes with
      | ended _ hends => exact .inl hends
      | readOn _ _ hlimits hnext hsplit hleft =>
          have hfewer := hlines ▸ hleft.lines
          have hlater := ih _ hfewer hnext (hlimits ▸ hroom) rfl
          rw [hsplit] at hlater
          exact .inr (finishesWithin_mono hfewer hlater)
      | stuck hnone => exact absurd hroom hnone

/-- With a ceiling of zero, no number of fetches finishes a file. -/
theorem not_finishesWithin_of_shut (h : reader.Faces store cursor)
    (hroom : ¬ reader.limits.LetRead) (fetches : Nat) :
    ¬ FinishesWithin store cursor.split.id fetches reader := by
  induction fetches generalizing reader cursor with
  | zero => exact not_false
  | succ fetches ih =>
      obtain ⟨batch, next, hfetch, hcomes⟩ := fetch_comes h
      rintro ⟨batch', next', hfetch', hends⟩
      obtain ⟨hbatch, rfl⟩ := Prod.mk.inj (hfetch.symm.trans hfetch')
      obtain rfl := Called.returned.inj hbatch
      cases hcomes with
      | ended hsome => exact hroom hsome
      | readOn hsome => exact hroom hsome
      | stuck _ hlimits hnext hsplit _ =>
          rcases hends with hends | hlater
          · cases hends
          · rw [← hsplit] at hlater
            exact ih hnext (hlimits ▸ hroom) hlater

/-- A fetch from the file in front gets on exactly if both ceilings let something through. -/
theorem progresses_of_faces (h : reader.Faces store cursor) :
    reader.Progresses store cursor ↔ reader.limits.LetRead := by
  obtain ⟨batch, next, hfetch, hcomes⟩ := fetch_comes h
  constructor
  · rintro ⟨batch', next', hfetch', hgets⟩
    obtain ⟨hbatch, rfl⟩ := Prod.mk.inj (hfetch.symm.trans hfetch')
    obtain rfl := Called.returned.inj hbatch
    cases hcomes with
    | ended hroom => exact hroom
    | readOn hroom => exact hroom
    | stuck _ _ hnext _ hleft =>
        rcases hgets with hends | ⟨left, hfront, -, hless⟩
        · cases hends
        · obtain rfl := Option.some.inj (hnext.front.symm.trans hfront)
          rw [hleft] at hless
          exact absurd hless (Nat.lt_irrefl _)
  · intro hroom
    refine ⟨batch, next, hfetch, ?_⟩
    cases hcomes with
    | ended _ hends => exact .inl hends
    | readOn _ _ _ hnext hsplit hleft => exact .inr ⟨_, hnext.front, hsplit, hleft.bytes⟩
    | stuck hnone => exact absurd hroom hnone

/-- A file that can be read is in front.  A fetch gets on with it exactly if both ceilings let
something through; exactly then as many fetches as it has lines, and one more, finish it, and
exactly then it is ever finished at all. -/
theorem file_gets_finished_iff (h : reader.Faces store cursor) :
    (reader.Progresses store cursor ↔ reader.limits.LetRead) ∧
      (FinishesWithin store cursor.split.id ((Pieces.lines (cursor.rest store)).length + 1)
        reader ↔ reader.limits.LetRead) ∧
      ((∃ fetches, FinishesWithin store cursor.split.id fetches reader) ↔
        reader.limits.LetRead) := by
  have hnever : ∀ fetches, FinishesWithin store cursor.split.id fetches reader →
      reader.limits.LetRead := by
    intro fetches hends
    by_contra hroom
    exact not_finishesWithin_of_shut h hroom fetches hends
  refine ⟨progresses_of_faces h, ⟨hnever _, finishesWithin_lines h⟩, ?_, ?_⟩
  · rintro ⟨fetches, hends⟩
    exact hnever fetches hends
  · intro hroom
    exact ⟨_, finishesWithin_lines h hroom⟩

/-- The reader of a source when it has taken on the source's files. -/
def atWork (source : FileSource) : FileReader :=
  ((ofSource source).change (.addition (source.files.map FileSplit.ofPath))).2

/-- A file of two lines, and settings that ask for it with a ceiling of zero records. -/
def shutStore : FileStore :=
  (FileStore.empty.provide "a" (.file [120, 10, 121])).provide "sfx.toml" (.file (Text.bytes
    ("sink_config = \"InMemory\"\n[reader_config.File]\nfiles = [\"a\"]\n" ++
      "[reader_config.File.common_config]\nmax_records_per_fetch = 0\n")))

theorem faces_shutStore (limits : FetchLimits) :
    Faces shutStore { split := FileSplit.ofPath "a" } (atWork { files := ["a"], limits }) := by
  have htext : shutStore.text? "a" = some [120, 10, 121] := by decide +kernel
  constructor
  case fine =>
    show (shutStore.text? "a").isSome
    rw [htext]
    rfl
  all_goals rfl

/-- With one record a fetch, three fetches finish the file of two lines. -/
theorem two_lines_get_finished :
    FinishesWithin shutStore "a" 3 (atWork { files := ["a"], limits := { maxRecords := 1 } }) := by
  have hrest : FileCursor.rest shutStore { split := FileSplit.ofPath "a" } = [120, 10, 121] := by
    decide +kernel
  have hends := (file_gets_finished_iff (faces_shutStore { maxRecords := 1 })).2.1.2 (by decide)
  rw [hrest] at hends
  exact hends

/-- What the settings ask for. -/
def shutSource : FileSource := { files := ["a"], limits := { maxRecords := 0 } }

/-- The settings are accepted, and their reader never gets on with the file. -/
theorem shut_file_never_finished :
    Settings.load (some "sfx.toml") [] shutStore =
        .ok { source := .files shutSource, sink := .memory } ∧
      Faces shutStore { split := FileSplit.ofPath "a" } (atWork shutSource) ∧
      ¬ (atWork shutSource).Progresses shutStore { split := FileSplit.ofPath "a" } ∧
      ∀ fetches, ¬ FinishesWithin shutStore "a" fetches (atWork shutSource) := by
  have hloaded : (Settings.load (some "sfx.toml") [] shutStore).toOption =
      some { source := .files shutSource, sink := .memory } := by
    decide +kernel
  have hfaces := faces_shutStore { maxRecords := 0 }
  have hshut : ¬ (atWork shutSource).limits.LetRead := by decide
  refine ⟨?_, hfaces, ?_, ?_⟩
  · cases hload : Settings.load (some "sfx.toml") [] shutStore with
    | error error =>
        rw [hload] at hloaded
        cases hloaded
    | ok settings =>
        rw [hload] at hloaded
        rw [Option.some.inj hloaded]
  · intro hgets
    exact hshut ((progresses_of_faces hfaces).1 hgets)
  · exact not_finishesWithin_of_shut hfaces hshut

end FileReader

end SplitFeed
