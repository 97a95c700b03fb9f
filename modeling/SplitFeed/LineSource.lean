/-
# Sources of lines

An open file, read through a buffer.  The feed behind the buffer delivers bytes in chunks from the
file as it is at that moment; what is compressed is decompressed as far as the file goes.

Reading a line does not depend on how the feed cuts the bytes into chunks.
-/
import SplitFeed.Gzip
import SplitFeed.Store

namespace SplitFeed

/-- Where the bytes behind the buffer come from. -/
inductive Feed where
  /-- A plain file under its number, read up to an offset. -/
  | plain (file : Nat) (offset : Nat)
  /-- A compressed file under its number, with the chunks that are ready and what comes after
  them. -/
  | packed (file : Nat) (chunks : List (List UInt8)) (ending : SourceEnding)
deriving DecidableEq

/-- An open file with the bytes that were fetched but not consumed yet. -/
structure LineSource where
  buffer : List UInt8 := []
  feed : Feed
deriving DecidableEq

namespace Feed

/-- How many bytes a plain file delivers at a time. -/
def chunkSize : Nat := 8192

/-- The next chunk.  An empty one means that there is nothing more to read now. -/
def pull (store : FileStore) : Feed → Except ReadError (List UInt8) × Feed
  | plain file offset =>
    match store.entry? file with
    | some (.file content) =>
      let chunk := (content.drop offset).take chunkSize
      (.ok chunk, plain file (offset + chunk.length))
    | some .directory => (.error (.system .isADirectory), plain file offset)
    | _ => (.ok [], plain file offset)
  | packed file (chunk :: chunks) ending => (.ok chunk, packed file chunks ending)
  | packed file [] ending =>
    match Gzip.resume (store.bytes file) ending with
    | (chunk :: chunks, ending) => (.ok chunk, packed file chunks ending)
    | ([], ending) =>
      let (result, ending) := Gzip.attempt (store.bytes file) ending
      (result.map fun _ => [], packed file [] ending)

/-- Number of bytes that the feed can still deliver from the files as they are. -/
def left (store : FileStore) : Feed → Nat
  | plain file offset => (store.bytes file).length - offset
  | packed file chunks ending =>
    chunks.flatten.length + (Gzip.resume (store.bytes file) ending).1.flatten.length

theorem left_pull {store : FileStore} {feed : Feed} {chunk : List UInt8} {next : Feed}
    (h : feed.pull store = (.ok chunk, next)) :
    next.left store + chunk.length = feed.left store := by
  unfold pull at h
  split at h
  · split at h
    · next content hentry =>
      simp only [Prod.mk.injEq, Except.ok.injEq] at h
      obtain ⟨rfl, rfl⟩ := h
      simp only [left, FileStore.bytes, hentry, List.length_take, List.length_drop]
      omega
    · simp at h
    · simp only [Prod.mk.injEq, Except.ok.injEq] at h
      obtain ⟨rfl, rfl⟩ := h
      simp
  · simp only [Prod.mk.injEq, Except.ok.injEq] at h
    obtain ⟨rfl, rfl⟩ := h
    simp only [left, List.flatten_cons, List.length_append]
    omega
  · next file ending =>
    have hend := Gzip.resume_resume (store.bytes file) ending
    split at h
    · next hresume =>
      simp only [Prod.mk.injEq, Except.ok.injEq] at h
      obtain ⟨rfl, rfl⟩ := h
      rw [hresume] at hend
      simp [left, hresume, hend, Nat.add_comm]
    · next hresume =>
      split at h
      next result after hattempt =>
      cases result with
      | error error => simp [Except.map] at h
      | ok u =>
        simp only [Except.map, Prod.mk.injEq, Except.ok.injEq] at h
        obtain ⟨rfl, rfl⟩ := h
        have := Gzip.eq_finished_of_attempt hattempt
        subst this
        have hfinished : Gzip.resume (store.bytes file) .finished = ([], .finished) := rfl
        simp [left, hresume, hfinished]

end Feed

namespace LineSource

/-- Fills an empty buffer from the feed. -/
def fill (store : FileStore) (source : LineSource) : Except ReadError Unit × LineSource :=
  match source.buffer with
  | [] =>
    match source.feed.pull store with
    | (.ok chunk, feed) => (.ok (), ⟨chunk, feed⟩)
    | (.error error, feed) => (.error error, ⟨[], feed⟩)
  | _ => (.ok (), source)

/-- Number of bytes that can still be read from the files as they are. -/
def left (store : FileStore) (source : LineSource) : Nat :=
  source.buffer.length + source.feed.left store

theorem left_fill {store : FileStore} {source filled : LineSource}
    (h : source.fill store = (.ok (), filled)) : filled.left store = source.left store := by
  unfold fill at h
  split at h
  · next hbuffer =>
    split at h
    · next chunk feed hpull =>
      simp only [Prod.mk.injEq, true_and] at h
      subst h
      have := Feed.left_pull hpull
      simp only [left, hbuffer, List.length_nil]
      omega
    · simp at h
  · simp only [Prod.mk.injEq, true_and] at h
    rw [h]

/-- The byte that ends a line. -/
def newline : UInt8 := 10

/-- Reads one line with the newline that ends it, or what there is when none does.  No bytes
mean that there is nothing more to read. -/
def readLine (store : FileStore) (source : LineSource) :
    Except ReadError (List UInt8) × LineSource :=
  match _hfill : source.fill store with
  | (.error error, filled) => (.error error, filled)
  | (.ok (), filled) =>
    match _hbuffer : filled.buffer with
    | [] => (.ok [], filled)
    | first :: others =>
      let line := (first :: others).takeWhile (· != newline)
      match (first :: others).drop line.length with
      | mark :: rest => (.ok (line ++ [mark]), { filled with buffer := rest })
      | [] =>
        match readLine store { filled with buffer := [] } with
        | (.ok more, source) => (.ok (line ++ more), source)
        | (.error error, source) => (.error error, source)
termination_by source.left store
decreasing_by
  have hleft := left_fill _hfill
  simp only [left, _hbuffer, List.length_cons, List.length_nil] at hleft ⊢
  omega

/-- The last component of a path, unless the path ends by going up. -/
def fileName? (path : String) : Option String :=
  let steps := (FileStore.components path).filter fun component => component ≠ "" ∧ component ≠ "."
  match steps.getLast? with
  | some ".." => none
  | last => last

/-- What stands behind the last dot of the file name, if something stands before that dot. -/
def extension? (path : String) : Option String :=
  match fileName? path with
  | none => none
  | some name =>
    let behind := (name.toList.reverse.takeWhile (· != '.')).reverse
    if behind.length + 1 < name.length then some (String.ofList behind) else none

/-- Whether a path asks for decompression: its extension is `gz`, in either case. -/
def isCompressed (path : String) : Bool :=
  match extension? path with
  | some extension => extension.toLower = "gz"
  | none => false

/-- Opens the file at a path; the extension tells whether it is compressed.  A directory can be
opened, but not read, and what a device delivers is no compressed file. -/
def ofPath (path : String) (store : FileStore) : Except OsError LineSource := do
  let number ← store.openRead path
  if isCompressed path then
    let (chunks, ending) := match store.entry? number with
      | some (.file content) => Gzip.unpack content
      | some .directory => ([], .once (.system .isADirectory))
      | _ => ([], .once .badHeader)
    return { feed := .packed number chunks ending }
  else return { feed := .plain number 0 }

end LineSource

end SplitFeed
