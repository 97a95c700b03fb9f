/-
# What reading a file line by line brings

A source of lines stands for the bytes that it still delivers, however its feed cuts them into
chunks: `readLine` takes the first line off them.  So the records that a file yields are those of
its text, cut after every newline and numbered from one, without the blank lines.

The text of a file that cannot be read to its end, such as a directory or a damaged compressed
file, is not defined.
-/
import SplitFeed.FileReader

namespace SplitFeed

namespace Gzip

theorem ne_nil_of_mem_pieces {size : Nat} {bytes piece : List UInt8}
    (h : piece ∈ pieces size bytes) : piece ≠ [] := by
  fun_induction pieces size bytes with
  | case1 bytes hend => simp at h
  | case2 bytes hrest ih =>
      rcases List.mem_cons.1 h with rfl | hmem
      · simpa using hrest
      · exact ih hmem

/-- Going on a second time with the same file brings nothing. -/
theorem resume_again (content : List UInt8) (ending : SourceEnding) :
    resume content (resume content ending).2 = ([], (resume content ending).2) := by
  cases ending with
  | starved start seen given =>
      by_cases h : seen < content.length
      · simp only [resume, h, ↓reduceIte, inflated]
        cases (Inflate.decode ⟨content.toArray⟩ start).ending <;> simp [endingOf]
      · simp [resume, h]
  | _ => rfl

/-- The chunks that come out of a stream that goes on are never empty. -/
theorem ne_nil_of_mem_resume {content chunk : List UInt8} {ending : SourceEnding}
    (h : chunk ∈ (resume content ending).1) : chunk ≠ [] := by
  unfold resume at h
  split at h
  · split at h
    · exact ne_nil_of_mem_pieces h
    · simp at h
  · simp at h

/-- The same holds of the chunks of a file that is opened. -/
theorem ne_nil_of_mem_unpack {content chunk : List UInt8}
    (h : chunk ∈ (unpack content).1) : chunk ≠ [] := by
  unfold unpack at h
  split at h
  · simp at h
  · exact ne_nil_of_mem_pieces h

/-- Going on right after opening brings nothing. -/
theorem resume_unpack (content : List UInt8) :
    resume content (unpack content).2 = ([], (unpack content).2) := by
  unfold unpack
  split
  · rfl
  · simp only [inflated]
    cases (Inflate.decode ⟨content.toArray⟩ _).ending <;> simp [endingOf, resume]

/-- What is compressed in a file, if the file can be read to its end. -/
def text? (content : List UInt8) : Option (List UInt8) :=
  match attempt content (unpack content).2 with
  | (.ok (), _) => some (unpack content).1.flatten
  | (.error _, _) => none

end Gzip

namespace FileStore

/-- The text of the file at a path, decompressed if its extension asks for that. -/
def text? (path : String) (store : FileStore) : Option (List UInt8) :=
  match store.openRead path with
  | .error _ => none
  | .ok number =>
    match store.entry? number, LineSource.isCompressed path with
    | some .directory, _ => none
    | some (.file content), true => Gzip.text? content
    | _, true => none
    | _, false => some (store.bytes number)

end FileStore

namespace Feed

/-- The bytes that a feed still delivers from the files as they are. -/
def bytes (store : FileStore) : Feed → List UInt8
  | plain file offset => (store.bytes file).drop offset
  | packed file chunks ending =>
    chunks.flatten ++ (Gzip.resume (store.bytes file) ending).1.flatten

/-- The feed never fails, and no chunk that is ready is empty, so that an empty one means that
there is nothing more. -/
def Whole (store : FileStore) : Feed → Prop
  | plain file _ => store.entry? file ≠ some .directory
  | packed file chunks ending =>
    (∀ chunk ∈ chunks, chunk ≠ []) ∧
      ∃ after, Gzip.attempt (store.bytes file) (Gzip.resume (store.bytes file) ending).2 =
        (.ok (), after)

/-- What a feed delivers next is the front of its bytes. -/
theorem bytes_pull {store : FileStore} {feed next : Feed} {chunk : List UInt8}
    (h : feed.pull store = (.ok chunk, next)) : feed.bytes store = chunk ++ next.bytes store := by
  unfold pull at h
  split at h
  · next file offset =>
    split at h
    · next content hentry =>
        simp only [Prod.mk.injEq, Except.ok.injEq] at h
        obtain ⟨rfl, rfl⟩ := h
        simp only [bytes, FileStore.bytes, hentry]
        rw [← List.drop_drop, List.length_take, ← List.drop_eq_drop_min, List.take_append_drop]
    · simp at h
    · simp only [Prod.mk.injEq, Except.ok.injEq] at h
      obtain ⟨rfl, rfl⟩ := h
      rfl
  · simp only [Prod.mk.injEq, Except.ok.injEq] at h
    obtain ⟨rfl, rfl⟩ := h
    simp [bytes]
  · next file ending =>
    have hend := Gzip.resume_resume (store.bytes file) ending
    split at h
    · next hresume =>
        simp only [Prod.mk.injEq, Except.ok.injEq] at h
        obtain ⟨rfl, rfl⟩ := h
        rw [hresume] at hend
        simp [bytes, hresume, hend]
    · next hresume =>
        split at h
        next result after hattempt =>
        cases result with
        | error error => simp [Except.map] at h
        | ok u =>
            simp only [Except.map, Prod.mk.injEq, Except.ok.injEq] at h
            obtain ⟨rfl, rfl⟩ := h
            obtain rfl := Gzip.eq_finished_of_attempt hattempt
            have hfinished : Gzip.resume (store.bytes file) .finished = ([], .finished) := rfl
            simp [bytes, hresume, hfinished]

/-- A whole feed delivers, stays whole, and delivers nothing only when nothing is left. -/
theorem pull_whole {store : FileStore} {feed : Feed} (hwhole : feed.Whole store) :
    ∃ chunk next, feed.pull store = (.ok chunk, next) ∧ next.Whole store ∧
      (chunk = [] → feed.bytes store = []) := by
  cases feed with
  | plain file offset =>
      cases hentry : store.entry? file with
      | none =>
          exact ⟨[], plain file offset, by simp [pull, hentry], hwhole,
            by simp [bytes, FileStore.bytes, hentry]⟩
      | some entry =>
          cases entry with
          | file content =>
              let chunk := (content.drop offset).take chunkSize
              refine ⟨chunk, plain file (offset + chunk.length), by simp only [pull, hentry, chunk],
                hwhole, fun hnil => ?_⟩
              simpa [bytes, FileStore.bytes, hentry, chunkSize, chunk] using hnil
          | directory => exact absurd hentry hwhole
          | full | null =>
              exact ⟨[], plain file offset, by simp [pull, hentry], hwhole,
                by simp [bytes, FileStore.bytes, hentry]⟩
  | packed file chunks ending =>
      obtain ⟨hchunks, after, hattempt⟩ := hwhole
      cases chunks with
      | cons chunk chunks =>
          exact ⟨chunk, packed file chunks ending, rfl,
            ⟨fun other hother => hchunks other (List.mem_cons_of_mem _ hother), after, hattempt⟩,
            fun hnil => absurd hnil (hchunks chunk List.mem_cons_self)⟩
      | nil =>
          have hagain := Gzip.resume_again (store.bytes file) ending
          have hne : ∀ chunk ∈ (Gzip.resume (store.bytes file) ending).1, chunk ≠ [] :=
            fun chunk hchunk => Gzip.ne_nil_of_mem_resume hchunk
          rcases hresume : Gzip.resume (store.bytes file) ending with ⟨chunks, later⟩
          rw [hresume] at hattempt hagain hne
          cases chunks with
          | cons chunk chunks =>
              refine ⟨chunk, packed file chunks later, by simp only [pull, hresume],
                ⟨fun other hother => hne other (List.mem_cons_of_mem _ hother), after, ?_⟩,
                fun hnil => absurd hnil (hne chunk List.mem_cons_self)⟩
              rw [hagain]
              exact hattempt
          | nil =>
              obtain rfl := Gzip.eq_finished_of_attempt hattempt
              exact ⟨[], packed file [] .finished, by simp [pull, hresume, hattempt, Except.map],
                ⟨by simp, .finished, rfl⟩, fun _ => by simp [bytes, hresume]⟩

end Feed

namespace LineSource

/-- The bytes that a source still delivers. -/
def bytes (store : FileStore) (source : LineSource) : List UInt8 :=
  source.buffer ++ source.feed.bytes store

theorem bytes_fill {store : FileStore} {source filled : LineSource}
    (h : source.fill store = (.ok (), filled)) : filled.bytes store = source.bytes store := by
  unfold fill at h
  split at h
  · next hbuffer =>
    split at h
    · next chunk feed hpull =>
        simp only [Prod.mk.injEq, true_and] at h
        subst h
        simp [bytes, hbuffer, Feed.bytes_pull hpull]
    · simp at h
  · simp only [Prod.mk.injEq, true_and] at h
    rw [h]

/-- A source over a whole feed can be filled; its buffer stays empty only when nothing is left. -/
theorem fill_whole {store : FileStore} {source : LineSource} (hwhole : source.feed.Whole store) :
    ∃ filled, source.fill store = (.ok (), filled) ∧ filled.feed.Whole store ∧
      (filled.buffer = [] → source.bytes store = []) := by
  cases hbuffer : source.buffer with
  | nil =>
      obtain ⟨chunk, feed, hpull, hnext, hnil⟩ := Feed.pull_whole hwhole
      exact ⟨⟨chunk, feed⟩, by simp [fill, hbuffer, hpull], hnext,
        fun hempty => by simp [bytes, hbuffer, hnil hempty]⟩
  | cons first others =>
      exact ⟨source, by simp [fill, hbuffer], hwhole, fun hempty => by simp [hbuffer] at hempty⟩

/-- The first line of some bytes, with the newline that ends it if one does. -/
def firstLine (bytes : List UInt8) : List UInt8 :=
  let line := bytes.takeWhile (· != newline)
  line ++ (bytes.drop line.length).take 1

theorem drop_length_takeWhile (keep : UInt8 → Bool) (bytes : List UInt8) :
    bytes.drop (bytes.takeWhile keep).length = bytes.dropWhile keep := by
  have hsplit : bytes.takeWhile keep ++ bytes.dropWhile keep = bytes :=
    List.takeWhile_append_dropWhile
  calc
    bytes.drop (bytes.takeWhile keep).length
        = (bytes.takeWhile keep ++ bytes.dropWhile keep).drop (bytes.takeWhile keep).length := by
          rw [hsplit]
    _ = bytes.dropWhile keep := List.drop_left

/-- A newline behind bytes without one ends the first line. -/
theorem firstLine_append_newline {line : List UInt8} (h : ∀ byte ∈ line, byte ≠ newline)
    (rest : List UInt8) : firstLine (line ++ newline :: rest) = line ++ [newline] := by
  have hline : (line ++ newline :: rest).takeWhile (· != newline) = line := by
    rw [List.takeWhile_append_of_pos (by simpa using h)]
    simp
  simp [firstLine, hline]

/-- Bytes without a newline are the front of the first line. -/
theorem firstLine_append {line : List UInt8} (h : ∀ byte ∈ line, byte ≠ newline)
    (rest : List UInt8) : firstLine (line ++ rest) = line ++ firstLine rest := by
  have hline : (line ++ rest).takeWhile (· != newline) = line ++ rest.takeWhile (· != newline) :=
    List.takeWhile_append_of_pos (by simpa using h)
  simp [firstLine, hline, List.append_assoc]

theorem firstLine_ne_nil {bytes : List UInt8} (h : bytes ≠ []) : firstLine bytes ≠ [] := by
  cases bytes with
  | nil => exact absurd rfl h
  | cons first others =>
      by_cases hnewline : first = newline <;> simp [firstLine, hnewline]

theorem ne_newline_of_mem_takeWhile {bytes : List UInt8} {byte : UInt8}
    (h : byte ∈ bytes.takeWhile (· != newline)) : byte ≠ newline := by
  simpa using List.all_eq_true.1 List.all_takeWhile byte h

/-- Where a line is cut, there is a newline. -/
theorem cut_at_newline {bytes rest : List UInt8} {mark : UInt8}
    (h : bytes.drop (bytes.takeWhile (· != newline)).length = mark :: rest) :
    mark = newline ∧ bytes = bytes.takeWhile (· != newline) ++ newline :: rest := by
  rw [drop_length_takeWhile] at h
  have hmark : mark = newline := by
    simpa [h] using List.head?_dropWhile_not (· != newline) bytes
  subst hmark
  exact ⟨rfl, by rw [← h, List.takeWhile_append_dropWhile]⟩

/-- Where nothing is left to be cut, there was no newline. -/
theorem not_cut {bytes : List UInt8}
    (h : bytes.drop (bytes.takeWhile (· != newline)).length = []) :
    bytes = bytes.takeWhile (· != newline) := by
  rw [drop_length_takeWhile] at h
  rw [← List.append_nil (bytes.takeWhile _), ← h, List.takeWhile_append_dropWhile]

/-- A line is taken off the front of the bytes that are left. -/
theorem bytes_readLine {store : FileStore} {source next : LineSource} {line : List UInt8}
    (h : source.readLine store = (.ok line, next)) :
    source.bytes store = line ++ next.bytes store := by
  fun_induction readLine store source generalizing line next with
  | case1 source error filled hfill => simp at h
  | case2 source filled hfill hbuffer =>
      obtain ⟨rfl, rfl⟩ : _ ∧ _ := by simpa using h
      rw [← bytes_fill hfill, List.nil_append]
  | case3 source filled hfill first others hbuffer front mark rest =>
      next hdrop =>
        obtain ⟨rfl, rfl⟩ : _ ∧ _ := by simpa using h
        obtain ⟨rfl, hsplit⟩ := cut_at_newline hdrop
        rw [← bytes_fill hfill, bytes, hbuffer, hsplit]
        simp [bytes, front]
  | case4 source filled hfill first others hbuffer front hdrop more later hrest =>
      next ih =>
        obtain ⟨rfl, rfl⟩ : _ ∧ _ := by simpa using h
        rw [← bytes_fill hfill, bytes, hbuffer, not_cut hdrop, List.append_assoc, ← ih hrest]
        rfl
  | case5 => simp at h

/-- What a whole source reads is the first line of the bytes that are left. -/
theorem readLine_whole {store : FileStore} {source : LineSource}
    (hwhole : source.feed.Whole store) :
    ∃ next, source.readLine store = (.ok (firstLine (source.bytes store)), next) ∧
      next.feed.Whole store := by
  fun_induction readLine store source with
  | case1 source error filled hfill =>
      obtain ⟨filled', hfill', -⟩ := fill_whole hwhole
      simp [hfill'] at hfill
  | case2 source filled hfill hbuffer =>
      obtain ⟨filled', hfill', hnext, hnil⟩ := fill_whole hwhole
      obtain rfl : filled' = filled := by simpa [hfill'] using hfill
      rw [hnil hbuffer]
      exact ⟨filled', rfl, hnext⟩
  | case3 source filled hfill first others hbuffer line mark rest hdrop =>
      obtain ⟨filled', hfill', hnext, -⟩ := fill_whole hwhole
      obtain rfl : filled' = filled := by simpa [hfill'] using hfill
      obtain ⟨rfl, hsplit⟩ := cut_at_newline hdrop
      refine ⟨⟨rest, filled'.feed⟩, ?_, hnext⟩
      rw [← bytes_fill hfill, bytes, hbuffer, hsplit, List.append_assoc, List.cons_append,
        firstLine_append_newline fun _ => ne_newline_of_mem_takeWhile]
  | case4 source filled hfill first others hbuffer line hdrop more later hrest ih =>
      obtain ⟨filled', hfill', hnext, -⟩ := fill_whole hwhole
      obtain rfl : filled' = filled := by simpa [hfill'] using hfill
      obtain ⟨later', hlater, hwhole'⟩ := ih hnext
      obtain ⟨rfl, rfl⟩ : _ ∧ _ := by simpa [hrest] using hlater
      have hbytes : source.bytes store = line ++ filled'.feed.bytes store := by
        rw [← bytes_fill hfill, bytes, hbuffer]
        exact congrArg (· ++ _) (not_cut hdrop)
      refine ⟨later, ?_, hwhole'⟩
      rw [hbytes, firstLine_append fun _ => ne_newline_of_mem_takeWhile]
      rfl
  | case5 source filled hfill first others hbuffer line hdrop error later hrest ih =>
      obtain ⟨filled', hfill', hnext, -⟩ := fill_whole hwhole
      obtain rfl : filled' = filled := by simpa [hfill'] using hfill
      obtain ⟨later', hlater, -⟩ := ih hnext
      simp [hlater] at hrest

/-- The records that reading on line by line brings, up to the end or the first error. -/
def recordsFrom (store : FileStore) (number : Nat) (source : LineSource) : List Record :=
  match _hline : source.readLine store with
  | (.ok (first :: rest), next) =>
    let text := FileReader.lineText (first :: rest)
    if text.isEmpty then recordsFrom store (number + 1) next
    else ⟨number + 1, text⟩ :: recordsFrom store (number + 1) next
  | _ => []
termination_by (source.bytes store).length
decreasing_by
  all_goals
    simp only [bytes_readLine _hline, List.length_append, List.length_cons]
    omega

theorem recordsFrom_cons {store : FileStore} {number : Nat} {source next : LineSource}
    {first : UInt8} {rest : List UInt8}
    (h : source.readLine store = (.ok (first :: rest), next)) :
    source.recordsFrom store number =
      if (FileReader.lineText (first :: rest)).isEmpty then next.recordsFrom store (number + 1)
      else ⟨number + 1, FileReader.lineText (first :: rest)⟩ ::
        next.recordsFrom store (number + 1) := by
  rw [recordsFrom]
  split
  · next hline =>
      rw [h] at hline
      injection hline with hread hnext
      injection hread with hread
      injection hread with hfirst hrest
      subst hfirst hrest hnext
      rfl
  · next hother => exact absurd h (hother _ _ _)

theorem recordsFrom_nil {store : FileStore} {number : Nat} {source next : LineSource}
    (h : source.readLine store = (.ok [], next)) : source.recordsFrom store number = [] := by
  rw [recordsFrom]
  split
  · next hline => simp [h] at hline
  · rfl

/-- The records of a text: its lines, numbered behind `number`, without the blank ones. -/
def recordsOf (number : Nat) (text : List UInt8) : List Record :=
  if _hnil : text = [] then []
  else
    let line := firstLine text
    let rest := recordsOf (number + 1) (text.drop line.length)
    if (FileReader.lineText line).isEmpty then rest
    else ⟨number + 1, FileReader.lineText line⟩ :: rest
termination_by text.length
decreasing_by
  have hline := List.length_pos_iff.2 (firstLine_ne_nil _hnil)
  have htext := List.length_pos_iff.2 _hnil
  simp only [List.length_drop]
  omega

theorem recordsOf_append {number : Nat} {line later text : List UInt8}
    (htext : text = line ++ later) (hline : firstLine text = line) (hne : line ≠ []) :
    recordsOf number text =
      if (FileReader.lineText line).isEmpty then recordsOf (number + 1) later
      else ⟨number + 1, FileReader.lineText line⟩ :: recordsOf (number + 1) later := by
  have hnil : text ≠ [] := by simp [htext, hne]
  have hdrop : text.drop line.length = later := by rw [htext, List.drop_left]
  rw [recordsOf, dif_neg hnil]
  simp only [hline, hdrop]

/-- Reading a whole source to its end brings the records of its text. -/
theorem recordsFrom_whole {store : FileStore} (number : Nat) {source : LineSource}
    (hwhole : source.feed.Whole store) :
    source.recordsFrom store number = recordsOf number (source.bytes store) := by
  induction hlength : (source.bytes store).length using Nat.strongRecOn
    generalizing number source with
  | ind length ih =>
      obtain ⟨next, hline, hnext⟩ := readLine_whole hwhole
      have hbytes := bytes_readLine hline
      by_cases hnil : source.bytes store = []
      · have hempty : firstLine (source.bytes store) = [] := by simp [hnil, firstLine]
        rw [hempty] at hline
        rw [recordsFrom_nil hline, recordsOf, dif_pos hnil]
      · have hne := firstLine_ne_nil hnil
        have hshorter : (next.bytes store).length < length := by
          have := List.length_pos_iff.2 hne
          have := congrArg List.length hbytes
          simp only [List.length_append] at this
          omega
        rw [recordsOf_append hbytes rfl hne, ← ih _ hshorter (number + 1) hnext rfl]
        obtain ⟨first, rest, hfirst⟩ := List.exists_cons_of_ne_nil hne
        rw [hfirst] at hline ⊢
        exact recordsFrom_cons hline

/-- A file with a text is opened as a whole source that delivers that text. -/
theorem ofPath_of_text {store : FileStore} {path : String} {text : List UInt8}
    (h : store.text? path = some text) :
    ∃ source, ofPath path store = .ok source ∧ source.feed.Whole store ∧
      source.bytes store = text := by
  unfold FileStore.text? at h
  cases hnumber : store.openRead path with
  | error _ => simp [hnumber] at h
  | ok number =>
      simp only [hnumber] at h
      split at h
      · cases h
      · next content hentry hpacked =>
          unfold Gzip.text? at h
          split at h
          · next after hattempt =>
              obtain rfl := Option.some.inj h
              have hbytes : store.bytes number = content := by simp [FileStore.bytes, hentry]
              refine ⟨{ feed := .packed number (Gzip.unpack content).1 (Gzip.unpack content).2 },
                ?_, ⟨fun _ => Gzip.ne_nil_of_mem_unpack, after, ?_⟩, ?_⟩
              · simp [ofPath, hnumber, hpacked, hentry, bind, Except.bind, pure, Except.pure]
              · rw [hbytes, Gzip.resume_unpack, hattempt]
              · simp [bytes, Feed.bytes, hbytes, Gzip.resume_unpack]
          · cases h
      · cases h
      · next hplain hdirectory =>
          obtain rfl := Option.some.inj h
          refine ⟨{ feed := .plain number 0 }, ?_, hdirectory, by simp [bytes, Feed.bytes]⟩
          simp [ofPath, hnumber, hplain, bind, Except.bind, pure, Except.pure]

end LineSource

namespace FileReader

/-- A fetch that does not fail takes records off the front of what reading on would bring, all of
them if it comes to the end. -/
theorem haul_records (limits : FetchLimits) (store : FileStore) (records bytes : Nat)
    (disturbed : List Bool) (flag : WakeFlag) (lines : LineSource) (number : Nat)
    (hfine : (haul limits store records bytes disturbed flag lines number).failure = none) :
    let haul := haul limits store records bytes disturbed flag lines number
    haul.records ++
        (if haul.reachedEnd then [] else haul.lines.recordsFrom store haul.lineNumber) =
      lines.recordsFrom store number := by
  fun_induction haul limits store records bytes disturbed flag lines number with
  | case1 | case6 => simp
  | case2 => simp at hfine
  | case3 records bytes disturbed flag lines number hroom woken flag' hnap hwoken lines' hline =>
      simp [LineSource.recordsFrom_nil hline]
  | case4 records bytes disturbed flag lines number hroom woken flag' hnap hwoken first rest lines'
      hline _ _ _ hblank ih =>
      rw [LineSource.recordsFrom_cons hline, if_pos hblank]
      exact ih hfine
  | case5 records bytes disturbed flag lines number hroom woken flag' hnap hwoken first rest lines'
      hline _ _ _ hblank later ih =>
      rw [LineSource.recordsFrom_cons hline, if_neg hblank, ← ih hfine]
      rfl

end FileReader

end SplitFeed
