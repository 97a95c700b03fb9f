/-
# Reading while other files are written

Two states of the files agree on some of them if these hold the same, no name has got lost, and
what was a directory still is one.  Writing to one file leaves a state that agrees on all others.

A reader that has open, or will open, only files on which two states agree does the same in both.
-/
import SplitFeed.Proofs.Reading.Changes

namespace SplitFeed

namespace FileStore

/-- Files of which those with certain numbers are as they were, and all are where they were. -/
structure Agrees (safe : Nat → Prop) (before after : FileStore) : Prop where
  home : after.home = before.home
  names : ∀ {name number}, before.lookup name = some number → after.lookup name = some number
  directories : ∀ {name}, before.isDirectory name = true → after.isDirectory name = true
  entries : ∀ {number}, safe number → after.entry? number = before.entry? number

variable {safe : Nat → Prop} {before between after : FileStore} {path : String} {number : Nat}

theorem agrees_refl (safe : Nat → Prop) (store : FileStore) : Agrees safe store store :=
  ⟨rfl, id, id, fun _ => rfl⟩

theorem agrees_trans (h : Agrees safe before between) (h' : Agrees safe between after) :
    Agrees safe before after where
  home := h'.home.trans h.home
  names hname := h'.names (h.names hname)
  directories hname := h'.directories (h.directories hname)
  entries hsafe := (h'.entries hsafe).trans (h.entries hsafe)

theorem bytes_agrees (h : Agrees safe before after) (hsafe : safe number) :
    after.bytes number = before.bytes number := by
  simp only [bytes, h.entries hsafe]

/-- A way that led to an entry leads there still. -/
theorem walk_agrees (h : Agrees safe before after) {here steps : List String}
    (hwalk : before.walk here steps = .ok (.taken number)) :
    after.walk here steps = .ok (.taken number) := by
  induction steps generalizing here with
  | nil =>
      cases hfound : before.lookup here with
      | none => simp [walk, hfound] at hwalk
      | some found => simpa [walk, hfound, h.names hfound] using hwalk
  | cons component rest ih =>
      cases hfound : before.lookup here with
      | none => simp [walk, hfound] at hwalk
      | some found =>
          cases hdirectory : before.isDirectory here with
          | false => simp [walk, hfound, hdirectory] at hwalk
          | true =>
              simp only [walk, hfound, hdirectory, Bool.not_true, Bool.false_eq_true,
                ↓reduceIte] at hwalk
              simp only [walk, h.names hfound, h.directories hdirectory, Bool.not_true,
                Bool.false_eq_true, ↓reduceIte]
              split at hwalk
              · next hstay => simpa [hstay] using ih hwalk
              · next hstay =>
                split at hwalk
                · next hup => simpa [hstay, hup] using ih hwalk
                · next hup =>
                  split at hwalk
                  · cases hwalk
                  · next hshort =>
                    split at hwalk
                    · next hthere => simpa [hstay, hup, hshort, h.names hthere] using ih hwalk
                    · split at hwalk <;> cases hwalk

theorem openRead_eq_ok {store : FileStore} :
    store.openRead path = .ok number ↔ ∃ way, store.route path = .ok way ∧
      store.walk way.1 way.2 = .ok (.taken number) := by
  simp only [openRead, locate, bind, Except.bind]
  cases store.route path with
  | error error => simp
  | ok way =>
      cases hplace : store.walk way.1 way.2 with
      | error error => simp [hplace]
      | ok place =>
          cases place <;> simp [hplace, pure, Except.pure, throw, throwThe, MonadExceptOf.throw]

theorem openRead_agrees (h : Agrees safe before after) (hopen : before.openRead path = .ok number) :
    after.openRead path = .ok number := by
  obtain ⟨way, hroute, hwalk⟩ := openRead_eq_ok.1 hopen
  refine openRead_eq_ok.2 ⟨way, ?_, walk_agrees h hwalk⟩
  simpa only [route, h.home] using hroute

/-! ### Writing -/

/-- An entry that is no directory can be changed into another one. -/
theorem agrees_set {entry : FileEntry} {store : FileStore}
    (hnone : store.entry? number ≠ some .directory) :
    Agrees (· ≠ number) store { store with entries := store.entries.set number entry } where
  home := rfl
  names := id
  directories {name} hname := by
    simp only [isDirectory, beq_iff_eq] at hname ⊢
    rw [Option.bind_eq_some_iff] at hname ⊢
    obtain ⟨found, hfound, hentry⟩ := hname
    refine ⟨found, hfound, ?_⟩
    have hother : number ≠ found := by
      rintro rfl
      exact hnone hentry
    simpa [ entry?, List.getElem?_set_ne hother] using hentry
  entries {found} hsafe := by simp [ entry?, List.getElem?_set_ne (Ne.symm hsafe)]

theorem agrees_append {bytes : List UInt8} {store next : FileStore}
    (h : store.append number bytes = .ok next) : Agrees (· ≠ number) store next := by
  unfold append at h
  split at h
  · next content hentry =>
      obtain rfl := Except.ok.inj h
      exact agrees_set (by simp [hentry])
  · cases h
  · split at h
    · obtain rfl := Except.ok.inj h
      exact agrees_refl _ _
    · cases h
  · obtain rfl := Except.ok.inj h
    exact agrees_refl _ _
  · obtain rfl := Except.ok.inj h
    exact agrees_refl _ _

end FileStore

namespace Feed

/-- The number of the file that a feed delivers. -/
def number : Feed → Nat
  | plain file _ => file
  | packed file _ _ => file

variable {safe : Nat → Prop} {before after store : FileStore} {feed : Feed}

@[simp]
theorem number_pull (store : FileStore) (feed : Feed) :
    (feed.pull store).2.number = feed.number := by
  unfold pull
  split
  · split <;> rfl
  · rfl
  · split <;> rfl

theorem pull_agrees (h : before.Agrees safe after) (hsafe : safe feed.number) :
    feed.pull after = feed.pull before := by
  cases feed with
  | plain file offset =>
      have hentry : after.entry? file = before.entry? file := h.entries hsafe
      simp only [pull, hentry]
  | packed file chunks ending =>
      cases chunks with
      | cons chunk chunks => rfl
      | nil =>
          have hbytes : after.bytes file = before.bytes file := FileStore.bytes_agrees h hsafe
          simp only [pull, hbytes]

end Feed

namespace LineSource

variable {safe : Nat → Prop} {before after store : FileStore} {source : LineSource}

theorem number_fill (store : FileStore) (source : LineSource) :
    (source.fill store).2.feed.number = source.feed.number := by
  have hpull := source.feed.number_pull store
  unfold fill
  split
  · split <;> simp_all
  · rfl

theorem fill_agrees (h : before.Agrees safe after) (hsafe : safe source.feed.number) :
    source.fill after = source.fill before := by
  simp only [fill, Feed.pull_agrees h hsafe]

theorem number_readLine (store : FileStore) (source : LineSource) :
    (source.readLine store).2.feed.number = source.feed.number := by
  have hnumber (source : LineSource) := number_fill store source
  fun_induction readLine store source with
  | case1 source error filled hfill => simpa [hfill] using hnumber source
  | case2 source filled hfill hbuffer => simpa [hfill] using hnumber source
  | case3 source filled hfill => simpa [hfill] using hnumber source
  | case4 source filled hfill first others hbuffer line hdrop more later hrest ih =>
      rw [hrest] at ih
      exact ih.trans (by simpa [hfill] using hnumber source)
  | case5 source filled hfill first others hbuffer line hdrop error later hrest ih =>
      rw [hrest] at ih
      exact ih.trans (by simpa [hfill] using hnumber source)

theorem readLine_agrees (h : before.Agrees safe after) (hsafe : safe source.feed.number) :
    source.readLine after = source.readLine before := by
  have hnumber (source : LineSource) := number_fill before source
  fun_induction readLine before source with
  | case1 source error filled hfill =>
      rw [readLine, fill_agrees h hsafe, hfill]
  | case2 source filled hfill hbuffer =>
      obtain ⟨buffer, feed⟩ := filled
      obtain rfl : buffer = [] := hbuffer
      rw [readLine, fill_agrees h hsafe, hfill]
  | case3 source filled hfill first others hbuffer line mark rest hdrop =>
      obtain ⟨buffer, feed⟩ := filled
      obtain rfl : buffer = first :: others := hbuffer
      rw [readLine, fill_agrees h hsafe, hfill]
      simp only [hdrop, line]
  | case4 source filled hfill first others hbuffer line hdrop more later hrest ih =>
      have hfilled := hnumber source
      rw [hfill] at hfilled
      obtain ⟨buffer, feed⟩ := filled
      obtain rfl : buffer = first :: others := hbuffer
      rw [readLine, fill_agrees h hsafe, hfill]
      simp only [hdrop, line, ih (hfilled ▸ hsafe), hrest]
  | case5 source filled hfill first others hbuffer line hdrop error later hrest ih =>
      have hfilled := hnumber source
      rw [hfill] at hfilled
      obtain ⟨buffer, feed⟩ := filled
      obtain rfl : buffer = first :: others := hbuffer
      rw [readLine, fill_agrees h hsafe, hfill]
      simp only [hdrop, line, ih (hfilled ▸ hsafe), hrest]

/-- A file that could be opened is opened in the same way. -/
theorem ofPath_agrees {path : String} {number : Nat} (h : before.Agrees safe after)
    (hopen : before.openRead path = .ok number) (hsafe : safe number) :
    ofPath path after = ofPath path before := by
  have hopen' := FileStore.openRead_agrees h hopen
  have hentry : after.entry? number = before.entry? number := h.entries hsafe
  simp only [ofPath, hopen, hopen', bind, Except.bind, hentry]

theorem number_ofPath {path : String} {number : Nat} {lines : LineSource}
    (hopen : store.openRead path = .ok number) (h : ofPath path store = .ok lines) :
    lines.feed.number = number := by
  simp only [ofPath, hopen, bind, Except.bind, pure, Except.pure] at h
  split at h <;> obtain rfl := Except.ok.inj h <;> rfl

end LineSource

namespace FileReader

variable {safe : Nat → Prop} {before after store : FileStore}

theorem number_haul (limits : FetchLimits) (store : FileStore) (records bytes : Nat)
    (disturbed : List Bool) (flag : WakeFlag) (lines : LineSource) (number : Nat) :
    (haul limits store records bytes disturbed flag lines number).lines.feed.number =
      lines.feed.number := by
  have hnumber (lines : LineSource) := LineSource.number_readLine store lines
  fun_induction haul limits store records bytes disturbed flag lines number with
  | case1 | case6 => rfl
  | case2 records bytes disturbed flag lines number hroom woken flag' hnap hwoken error lines'
      hline => simpa [hline] using hnumber lines
  | case3 records bytes disturbed flag lines number hroom woken flag' hnap hwoken lines' hline =>
      simpa [hline] using hnumber lines
  | case4 records bytes disturbed flag lines number hroom woken flag' hnap hwoken first rest lines'
      hline _ _ _ _ ih =>
      exact ih.trans (by simpa [hline] using hnumber lines)
  | case5 records bytes disturbed flag lines number hroom woken flag' hnap hwoken first rest lines'
      hline _ _ _ _ _ ih =>
      exact ih.trans (by simpa [hline] using hnumber lines)

theorem haul_agrees (h : before.Agrees safe after) (limits : FetchLimits) (records bytes : Nat)
    (disturbed : List Bool) (flag : WakeFlag) (lines : LineSource) (number : Nat)
    (hsafe : safe lines.feed.number) :
    haul limits after records bytes disturbed flag lines number =
      haul limits before records bytes disturbed flag lines number := by
  have hnumber (lines : LineSource) := LineSource.number_readLine before lines
  fun_induction haul limits before records bytes disturbed flag lines number with
  | case1 records bytes disturbed flag lines number hroom flag' hnap =>
      rw [haul, dif_pos hroom, hnap]
      rfl
  | case2 records bytes disturbed flag lines number hroom woken flag' hnap hwoken error lines'
      hline =>
      rw [haul, dif_pos hroom, hnap]
      simp only [LineSource.readLine_agrees h hsafe, hline, if_neg hwoken]
  | case3 records bytes disturbed flag lines number hroom woken flag' hnap hwoken lines' hline =>
      rw [haul, dif_pos hroom, hnap]
      simp only [LineSource.readLine_agrees h hsafe, hline, if_neg hwoken]
  | case4 records bytes disturbed flag lines number hroom woken flag' hnap hwoken first rest lines'
      hline _ _ _ hblank ih =>
      have hsame := hnumber lines
      rw [hline] at hsame
      rw [haul, dif_pos hroom, hnap]
      simp only [LineSource.readLine_agrees h hsafe, hline, if_neg hwoken]
      rw [if_pos hblank]
      exact ih (hsame ▸ hsafe)
  | case5 records bytes disturbed flag lines number hroom woken flag' hnap hwoken first rest lines'
      hline _ _ _ hblank later ih =>
      have hsame := hnumber lines
      rw [hline] at hsame
      rw [haul, dif_pos hroom, hnap]
      simp only [LineSource.readLine_agrees h hsafe, hline, if_neg hwoken]
      rw [if_neg hblank, ih (hsame ▸ hsafe)]
  | case6 records bytes disturbed flag lines number hroom => rw [haul, dif_neg hroom]

end FileReader

/-! ### Readers that keep to safe files -/

/-- A file under way is safe if it is open under a safe number or can be opened under one. -/
def FileCursor.IsSafe (safe : Nat → Prop) (store : FileStore) (cursor : FileCursor) : Prop :=
  match cursor.lines with
  | some lines => safe lines.feed.number
  | none => ∃ number, store.openRead cursor.split.path = .ok number ∧ safe number

/-- A split is safe to be read if it is a range, or a file that can be opened under a safe
number. -/
def Split.IsSafe (safe : Nat → Prop) (store : FileStore) : Split → Prop
  | range _ => True
  | file split => ∃ number, store.openRead split.path = .ok number ∧ safe number

/-- The lines of a file under way, which is opened if it is not open. -/
def FileCursor.opened (store : FileStore) (cursor : FileCursor) : Except OsError LineSource :=
  match cursor.lines with
  | some lines => .ok lines
  | none => LineSource.ofPath cursor.split.path store

/-- Opening a safe file, or going on with it, is the same as before, and leads to safe lines. -/
theorem FileCursor.opened_of_safe {safe : Nat → Prop} {store later : FileStore}
    {cursor : FileCursor} (h : store.Agrees safe later) (hsafe : cursor.IsSafe safe store) :
    cursor.opened later = cursor.opened store ∧
      ∀ lines, cursor.opened store = .ok lines → safe lines.feed.number := by
  unfold IsSafe at hsafe
  unfold opened
  split at hsafe
  · next lines hlines => exact ⟨rfl, fun lines' heq => Except.ok.inj heq ▸ hsafe⟩
  · next hlines =>
      obtain ⟨number, hopen, hsafe⟩ := hsafe
      refine ⟨LineSource.ofPath_agrees h hopen hsafe, fun lines hpath => ?_⟩
      rwa [LineSource.number_ofPath hopen hpath]

namespace FileReader

variable {safe : Nat → Prop} {store later : FileStore} {reader : FileReader}

/-- What a fetch brings from the first file under way, once that is open. -/
def bring (cursor : FileCursor) (others : List FileCursor) (haul : Haul) (reader : FileReader) :
    Called (SplitBatch Record) × FileReader :=
  let id := cursor.split.id
  let left := { cursor with lines := some haul.lines, lineNumber := haul.lineNumber }
  let batch := SplitBatch.empty.addRecords id haul.records
  let keeping (cursors : List FileCursor) : FileReader :=
    { reader with docket := { reader.docket with flag := haul.flag, cursors } }
  match haul.failure with
  | some error => (.failed (.unreadableLine id error), keeping (left :: others))
  | none =>
    if haul.reachedEnd then (.returned (batch.finishSplit id), keeping others)
    else (.returned batch, keeping (left :: others))

theorem fetch_cursor {cursor : FileCursor} {others : List FileCursor} (disturbed : List Bool)
    (hopen : reader.docket.closed = false) (hreplay : reader.docket.replay = [])
    (hcursors : reader.docket.cursors = cursor :: others) :
    reader.fetch store disturbed =
      match cursor.opened store with
      | .error error => (.failed (.doorStuck cursor.split.path error), reader)
      | .ok lines => reader.bring cursor others
          (haul reader.limits store 0 0 disturbed reader.docket.flag lines cursor.lineNumber) := by
  obtain ⟨⟨cursors, replay, removed, flag, closed⟩, limits⟩ := reader
  obtain rfl : closed = false := hopen
  obtain rfl : replay = [] := hreplay
  obtain rfl : cursors = cursor :: others := hcursors
  simp only [fetch, FileCursor.opened, bring]
  rfl

/-- Without a file to go on with, a fetch does not look at any. -/
theorem fetch_at_hand (store later : FileStore) (disturbed : List Bool)
    (h : reader.docket.closed = true ∨ reader.docket.replay ≠ [] ∨ reader.docket.cursors = []) :
    reader.fetch later disturbed = reader.fetch store disturbed ∧
      (reader.fetch store disturbed).2.docket.cursors = reader.docket.cursors := by
  obtain ⟨⟨cursors, replay, removed, flag, closed⟩, limits⟩ := reader
  cases closed with
  | true => exact ⟨rfl, rfl⟩
  | false =>
      cases replay with
      | cons stale replay => exact ⟨rfl, rfl⟩
      | nil =>
          obtain rfl : cursors = [] := by simpa using h
          exact ⟨rfl, rfl⟩

theorem bring_safe {cursor : FileCursor} {others : List FileCursor} {haul : Haul}
    (hsafe : safe haul.lines.feed.number) (hothers : ∀ other ∈ others, other.IsSafe safe store) :
    ∀ next ∈ (reader.bring cursor others haul).2.docket.cursors, next.IsSafe safe store := by
  have hleft : ∀ next ∈ ({ cursor with
      lines := some haul.lines, lineNumber := haul.lineNumber } : FileCursor) :: others,
      next.IsSafe safe store := List.forall_mem_cons.2 ⟨hsafe, hothers⟩
  unfold bring
  split
  · exact hleft
  · split
    · exact hothers
    · exact hleft

/-- A reader of safe files does the same whatever becomes of other files, and what it has left is
safe. -/
theorem fetch_agrees (h : store.Agrees safe later)
    (hsafe : ∀ cursor ∈ reader.docket.cursors, cursor.IsSafe safe store) (disturbed : List Bool) :
    reader.fetch later disturbed = reader.fetch store disturbed ∧
      ∀ cursor ∈ (reader.fetch store disturbed).2.docket.cursors, cursor.IsSafe safe store := by
  by_cases hhand : reader.docket.closed = true ∨ reader.docket.replay ≠ [] ∨
      reader.docket.cursors = []
  · obtain ⟨hsame, hcursors⟩ := fetch_at_hand store later disturbed hhand
    exact ⟨hsame, hcursors ▸ hsafe⟩
  · simp only [not_or, Bool.not_eq_true, Classical.not_not] at hhand
    obtain ⟨hopen, hreplay, hsome⟩ := hhand
    obtain ⟨cursor, others, hcursors⟩ := List.exists_cons_of_ne_nil hsome
    rw [hcursors] at hsafe
    have hothers : ∀ other ∈ others, other.IsSafe safe store :=
      fun other hother => hsafe other (List.mem_cons_of_mem _ hother)
    obtain ⟨hsame, hlines⟩ := FileCursor.opened_of_safe h (hsafe cursor List.mem_cons_self)
    rw [fetch_cursor disturbed hopen hreplay hcursors,
      fetch_cursor disturbed hopen hreplay hcursors, hsame]
    cases hopened : cursor.opened store with
    | error error => exact ⟨rfl, hcursors ▸ hsafe⟩
    | ok lines =>
        have hsafe' := hlines lines hopened
        simp only [haul_agrees h _ _ _ _ _ _ _ hsafe']
        refine ⟨trivial, bring_safe ?_ hothers⟩
        rwa [number_haul]

end FileReader

namespace Backend

/-- A reader all of whose splits are safe. -/
def IsSafe (safe : Nat → Prop) (store : FileStore) : Backend → Prop
  | ranges _ => True
  | files reader => ∀ cursor ∈ reader.docket.cursors, cursor.IsSafe safe store

variable {safe : Nat → Prop} {store later : FileStore} {backend next : Backend}

theorem fetch_agrees (h : store.Agrees safe later) (hsafe : backend.IsSafe safe store)
    (disturbed : List Bool) :
    SplitReader.fetch later disturbed backend = SplitReader.fetch store disturbed backend ∧
      (SplitReader.fetch store disturbed backend).2.IsSafe safe store := by
  cases backend with
  | ranges reader => exact ⟨rfl, trivial⟩
  | files reader =>
      obtain ⟨hsame, hnext⟩ := FileReader.fetch_agrees h hsafe disturbed
      exact ⟨by simp only [SplitReader.fetch, fetch, hsame], hnext⟩

/-- Safe splits that a reader takes on leave it safe. -/
theorem safe_changed {change : SplitsChange Split} {recycled : List Nat}
    (h : Changed change backend recycled next) (hsafe : backend.IsSafe safe store)
    (hsplits : ∀ split ∈ change.splits, split.IsSafe safe store) : next.IsSafe safe store := by
  cases h with
  | gainRanges | loseRanges => trivial
  | gainFiles splits reader =>
      intro cursor hmem
      rcases Docket.mem_cursors_gain hmem with hold | hnew
      · exact hsafe cursor hold
      · obtain ⟨split, hsplit, rfl⟩ := List.mem_map.1 hnew
        exact hsplits (.file split) (List.mem_map_of_mem hsplit)
  | loseFiles splits reader => exact fun cursor hmem => hsafe cursor (List.mem_filter.1 hmem).1

theorem safe_wake (hsafe : backend.IsSafe safe store) :
    (SplitReader.wake backend).IsSafe safe store := by
  cases backend <;> exact hsafe

theorem safe_rewind {stale : SplitBatch Record} {result : Called Unit} {recycled : List Nat}
    (h : SplitReader.rewind stale backend = (result, recycled, next))
    (hsafe : backend.IsSafe safe store) : next.IsSafe safe store := by
  cases h
  cases backend with
  | ranges reader => trivial
  | files reader =>
      simp only [rewind, IsSafe, Docket.takeBack]
      split <;> exact hsafe

theorem safe_close {result : Called Unit} (h : SplitReader.close backend = (result, next)) :
    next.IsSafe safe store := by
  cases h
  cases backend with
  | ranges reader => trivial
  | files reader => exact fun cursor hmem => (List.not_mem_nil hmem).elim

end Backend

end SplitFeed
