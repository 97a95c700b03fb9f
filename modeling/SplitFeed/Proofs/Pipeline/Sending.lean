/-
# What a sink has received

A sink is sent payloads and closed.  If all of that went well, the payloads are in memory, or the
file holds their bytes, in the order in which they were sent: what waits in the buffer is behind
what the file holds already, and closing hands it over.

A sink writes to no file but its own, whatever goes wrong.
-/
import SplitFeed.Sink
import SplitFeed.Proofs.Reading.Undisturbed

namespace SplitFeed

namespace Text

theorem toList_eq_data (array : ByteArray) : array.toList = array.data.toList := by
  have hloop (first : Nat) (sofar : List UInt8) :
      ByteArray.toList.loop array first sofar = sofar.reverse ++ array.data.toList.drop first := by
    fun_induction ByteArray.toList.loop array first sofar with
    | case1 first sofar hlt ih =>
        have hbound : first < array.data.toList.length := by simpa using hlt
        have hget : array.get! first = array.data.toList[first] := by
          simp [ByteArray.get!, getElem!_pos, hlt]
        rw [ih, List.reverse_cons, List.append_assoc, List.singleton_append, hget,
          ← List.drop_eq_getElem_cons]
    | case2 first sofar hge =>
        have hnone : array.data.toList.drop first = [] := by
          simpa using Nat.le_of_not_lt hge
        rw [hnone, List.append_nil]
  exact hloop 0 []

theorem bytes_append (first second : String) :
    bytes (first ++ second) = bytes first ++ bytes second := by
  simp [bytes, toList_eq_data, String.toUTF8]

end Text

namespace FileStore

variable {store next : FileStore} {number : Nat} {piece : List UInt8}

/-- What the file with a given number holds; no other entry holds anything. -/
def contents? (number : Nat) (store : FileStore) : Option (List UInt8) :=
  match store.entry? number with
  | some (.file content) => some content
  | _ => none

theorem contents?_append (h : store.append number piece = .ok next) :
    next.contents? number = (store.contents? number).map (· ++ piece) := by
  unfold append at h
  split at h
  · next content hentry =>
      cases h
      obtain ⟨hlt, -⟩ := List.getElem?_eq_some_iff.1 hentry
      have hafter : entry? number { store with
          entries := store.entries.set number (.file (content ++ piece)) } =
          some (.file (content ++ piece)) := by
        simp [ entry?, hlt]
      simp [contents?, hentry, hafter]
  · cases h
  · next hentry =>
      split at h
      · cases h
        simp [contents?, hentry]
      · cases h
  · next hentry =>
      cases h
      simp [contents?, hentry]
  · next hentry =>
      cases h
      simp [contents?, hentry]

/-- Only what is no file cannot be written to. -/
theorem contents?_append_error {error : OsError} (h : store.append number piece = .error error) :
    store.contents? number = none := by
  unfold append at h
  unfold contents?
  split at h
  · cases h
  · next hentry => rw [hentry]
  · next hentry => rw [hentry]
  · cases h
  · cases h

end FileStore

namespace FileSink

variable {sink between next : FileSink} {store meanwhile later : FileStore}
  {bytes piece first second : List UInt8} {result : Except OsError Unit}

/-- What the sink's file holds, and behind that what waits in the buffer. -/
def text? (store : FileStore) (sink : FileSink) : Option (List UInt8) :=
  (store.contents? sink.number).map (· ++ sink.buffer)

/-- A sink has taken bytes: it has written to its own file only, and if all went well, its text has
become longer by the bytes. -/
structure Took (bytes : List UInt8) (sink : FileSink) (store : FileStore)
    (result : Except OsError Unit) (next : FileSink) (later : FileStore) : Prop where
  number : next.number = sink.number
  agrees : store.Agrees (· ≠ sink.number) later
  text : result = .ok () → next.text? later = (sink.text? store).map (· ++ bytes)

theorem took_nothing (sink : FileSink) (store : FileStore) :
    Took [] sink store (.ok ()) sink store where
  number := rfl
  agrees := FileStore.agrees_refl _ store
  text _ := by simp

theorem took_append (h : Took first sink store (.ok ()) between meanwhile)
    (h' : Took second between meanwhile result next later) :
    Took (first ++ second) sink store result next later where
  number := h'.number.trans h.number
  agrees := FileStore.agrees_trans h.agrees (h.number ▸ h'.agrees)
  text hok := by
    rw [h'.text hok, h.text rfl]
    simp [Function.comp_def]

/-- A piece that is handed over goes behind what the file holds, and past the buffer. -/
theorem handOver_cases (h : sink.handOver piece store = (result, next, later)) :
    next.number = sink.number ∧ next.buffer = sink.buffer ∧
      store.Agrees (· ≠ sink.number) later ∧
      (result = .ok () → later.contents? sink.number =
        (store.contents? sink.number).map (· ++ piece)) := by
  unfold handOver at h
  split at h
  · cases h
    exact ⟨rfl, rfl, FileStore.agrees_refl _ store, nofun⟩
  · split at h
    · next after happend =>
        cases h
        exact ⟨rfl, rfl, FileStore.agrees_append happend,
          fun _ => FileStore.contents?_append happend⟩
    · next error happend =>
        cases h
        refine ⟨rfl, rfl, FileStore.agrees_refl _ store, fun _ => ?_⟩
        rw [FileStore.contents?_append_error happend]
        rfl

theorem took_handOver (hempty : sink.buffer = [])
    (h : sink.handOver piece store = (result, next, later)) :
    Took piece sink store result next later ∧ next.buffer = [] := by
  obtain ⟨hnumber, hbuffer, hagrees, hcontents⟩ := handOver_cases h
  rw [hempty] at hbuffer
  refine ⟨⟨hnumber, hagrees, fun hok => ?_⟩, hbuffer⟩
  simp [text?, hnumber, hbuffer, hempty, hcontents hok, Function.comp_def]

/-- Flushing moves what waits in the buffer to the end of the file. -/
theorem took_flushBuffer (h : sink.flushBuffer store = (result, next, later)) :
    Took [] sink store result next later ∧ (result = .ok () → next.buffer = []) := by
  unfold flushBuffer at h
  split at h
  · next hempty =>
      cases h
      exact ⟨took_nothing sink store, fun _ => List.isEmpty_iff.1 hempty⟩
  · split at h
    · next after meanwhile hhanded =>
        cases h
        obtain ⟨hnumber, -, hagrees, hcontents⟩ := handOver_cases hhanded
        refine ⟨⟨hnumber, hagrees, fun hok => ?_⟩, fun _ => rfl⟩
        simp [text?, hnumber, hcontents rfl, Function.comp_def]
    · next error after meanwhile hhanded =>
        cases h
        obtain ⟨hnumber, -, hagrees, -⟩ := handOver_cases hhanded
        exact ⟨⟨hnumber, hagrees, nofun⟩, nofun⟩

theorem took_buffer (sink : FileSink) (store : FileStore) :
    Took bytes sink store (.ok ()) { sink with buffer := sink.buffer ++ bytes } store where
  number := rfl
  agrees := FileStore.agrees_refl _ store
  text _ := by simp [text?, Function.comp_def]

/-- Bytes that are written go behind those that were written before. -/
theorem took_write (h : sink.write bytes store = (result, next, later)) :
    Took bytes sink store result next later := by
  -- Before a piece goes past the buffer, that is empty: it was flushed, or nothing else fits.
  have hflush (bytes : List UInt8) (sink : FileSink) (store : FileStore) {result next later}
      (h : (if bufferSize < sink.buffer.length + bytes.length then sink.flushBuffer store
        else (.ok (), sink, store)) = (result, next, later)) :
      Took [] sink store result next later ∧
        (result = .ok () → ¬ bytes.length < bufferSize → next.buffer = []) := by
    split at h
    · obtain ⟨htook, hempty⟩ := took_flushBuffer h
      exact ⟨htook, fun hok _ => hempty hok⟩
    · next hfits =>
        cases h
        refine ⟨took_nothing sink store, fun _ hlong => List.length_eq_zero_iff.1 ?_⟩
        omega
  fun_induction write bytes sink store generalizing result next later with
  | case1 sink store =>
      cases h
      exact took_nothing sink store
  | case2 bytes sink store hsome flushed error between meanwhile =>
      next hflushed =>
        cases h
        obtain ⟨htook, -⟩ := hflush bytes sink store hflushed
        exact ⟨htook.number, htook.agrees, nofun⟩
  | case3 bytes sink store hsome flushed between meanwhile =>
      next hflushed hshort =>
        cases h
        obtain ⟨htook, -⟩ := hflush bytes sink store hflushed
        exact took_append htook (took_buffer between meanwhile)
  | case4 bytes sink store hsome flushed between meanwhile =>
      next hflushed hlong error after hence hhanded =>
        cases h
        obtain ⟨htook, hempty⟩ := hflush bytes sink store hflushed
        have htook' := took_append htook (took_handOver (hempty rfl hlong) hhanded).1
        exact ⟨htook'.number, htook'.agrees, nofun⟩
  | case5 bytes sink store hsome flushed between meanwhile =>
      next hflushed hlong after hence hhanded ih =>
        obtain ⟨htook, hempty⟩ := hflush bytes sink store hflushed
        have htook' := took_append htook (took_handOver (hempty rfl hlong) hhanded).1
        have hall := took_append htook' (ih h)
        rwa [List.nil_append, List.take_append_drop] at hall

/-- Closing leaves nothing in the buffer. -/
theorem took_close {result : Except Failure Unit}
    (h : sink.close store = (result, next, later)) :
    next.number = sink.number ∧ store.Agrees (· ≠ sink.number) later ∧
      (result = .ok () → later.contents? next.number = sink.text? store) := by
  unfold close at h
  split at h
  · next error between meanwhile hflushed =>
      cases h
      obtain ⟨htook, -⟩ := took_flushBuffer hflushed
      exact ⟨htook.number, htook.agrees, fun hok => by cases hok⟩
  · next between meanwhile hflushed =>
      obtain ⟨htook, hempty⟩ := took_flushBuffer hflushed
      split at h
      · cases h
        exact ⟨htook.number, htook.agrees, fun hok => by cases hok⟩
      · cases h
        refine ⟨htook.number, htook.agrees, fun _ => ?_⟩
        simpa [text?, hempty rfl, Function.comp_def] using htook.text rfl

end FileSink

namespace Sink

variable {sink between next opened : Sink} {store meanwhile later : FileStore} {payload : String}
  {payloads more : List String}

/-- The numbers of the files that a sink does not write to. -/
def Spares : Sink → Nat → Prop
  | memory _, _ => True
  | file sink, number => number ≠ sink.number

/-- The text in a sink: the payloads in memory, or what the file and the buffer hold. -/
def text? (store : FileStore) : Sink → Option (List UInt8)
  | memory payloads => some (Text.bytes (String.join payloads))
  | file sink => sink.text? store

theorem spares_file {sink next : FileSink} (h : next.number = sink.number) :
    (file next).Spares = (file sink).Spares := by
  funext number
  simp only [Spares, h]

/-- A payload goes behind those that were sent before, and to no other file. -/
theorem send_cases {result : Except Failure Unit}
    (h : sink.send payload store = (result, next, later)) :
    next.Spares = sink.Spares ∧ store.Agrees sink.Spares later ∧
      (result = .ok () →
        next.text? later = (sink.text? store).map (· ++ Text.bytes payload)) := by
  cases sink with
  | memory payloads =>
      cases h
      refine ⟨rfl, FileStore.agrees_refl _ store, fun _ => ?_⟩
      simp [text?, String.join_append, Text.bytes_append]
  | file sink =>
      simp only [send, FileSink.send] at h
      split at h
      · next after meanwhile hwritten =>
          cases h
          have htook := FileSink.took_write hwritten
          exact ⟨spares_file htook.number, htook.agrees, fun _ => htook.text rfl⟩
      · next error after meanwhile hwritten =>
          cases h
          have htook := FileSink.took_write hwritten
          exact ⟨spares_file htook.number, htook.agrees, fun hok => by cases hok⟩

/-- Sends payloads one after the other, if that goes well with all of them. -/
def sendAll : List String → Sink → FileStore → Option (Sink × FileStore)
  | [], sink, store => some (sink, store)
  | payload :: payloads, sink, store =>
    match sink.send payload store with
    | (.ok (), sink, store) => sendAll payloads sink store
    | (.error _, _, _) => none

theorem sendAll_cons (h : sink.send payload store = (.ok (), next, later)) :
    sink.sendAll (payload :: payloads) store = next.sendAll payloads later := by
  simp only [sendAll, h]

theorem sendAll_append (h : sink.sendAll payloads store = some (between, meanwhile)) :
    sink.sendAll (payloads ++ more) store = between.sendAll more meanwhile := by
  induction payloads generalizing sink store with
  | nil =>
      cases h
      rfl
  | cons payload payloads ih =>
      simp only [sendAll] at h
      split at h
      · next hsent =>
          rw [List.cons_append, sendAll_cons hsent]
          exact ih h
      · cases h

theorem sendAll_cases (h : sink.sendAll payloads store = some (next, later)) :
    next.Spares = sink.Spares ∧ store.Agrees sink.Spares later ∧
      next.text? later = (sink.text? store).map (· ++ Text.bytes (String.join payloads)) := by
  induction payloads generalizing sink store with
  | nil =>
      cases h
      exact ⟨rfl, FileStore.agrees_refl _ _, by simp [Text.bytes, Text.toList_eq_data]⟩
  | cons payload payloads ih =>
      simp only [sendAll] at h
      split at h
      · next between meanwhile hsent =>
          obtain ⟨hspares, hagrees, htext⟩ := send_cases hsent
          obtain ⟨hspares', hagrees', htext'⟩ := ih h
          rw [hspares] at hagrees'
          refine ⟨hspares'.trans hspares, FileStore.agrees_trans hagrees hagrees', ?_⟩
          rw [htext', htext rfl, String.join_cons, Text.bytes_append]
          simp [Function.comp_def]
      · cases h

/-- A sink that was opened was sent payloads, in this order, and closed, and all went well. -/
def Received (payloads : List String) (opened : Sink) (before : FileStore) (sink : Sink)
    (after : FileStore) : Prop :=
  ∃ filled meanwhile, opened.sendAll payloads before = some (filled, meanwhile) ∧
    filled.close meanwhile = (.ok (), sink, after)

/-- What a sink in memory has received is there. -/
theorem payloads_of_received (h : Received payloads (memory []) store sink later) :
    sink.payloads = payloads := by
  have hsent (payloads sofar : List String) :
      (memory sofar).sendAll payloads store = some (memory (sofar ++ payloads), store) := by
    induction payloads generalizing sofar with
    | nil => simp [sendAll]
    | cons payload payloads ih => simp [sendAll, send, ih]
  obtain ⟨filled, meanwhile, hfilled, hclosed⟩ := h
  rw [hsent] at hfilled
  cases hfilled
  cases hclosed
  rfl

/-- What a sink that writes to a file has received is in the file, if that was empty. -/
theorem contents?_of_received {opened : FileSink} (hbuffer : opened.buffer = [])
    (hempty : store.contents? opened.number = some [])
    (h : Received payloads (file opened) store sink later) :
    later.contents? opened.number = some (Text.bytes (String.join payloads)) := by
  obtain ⟨filled, meanwhile, hfilled, hclosed⟩ := h
  obtain ⟨hspares, -, htext⟩ := sendAll_cases hfilled
  have hwrites : ¬ filled.Spares opened.number := by
    rw [hspares]
    exact fun hspared => hspared rfl
  cases filled with
  | memory _ => exact absurd trivial hwrites
  | file filled =>
      have hnumber : opened.number = filled.number := Classical.not_not.1 hwrites
      rcases hlast : filled.close meanwhile with ⟨outcome, after, last⟩
      simp only [close, hlast] at hclosed
      cases hclosed
      obtain ⟨hsame, -, hcontents⟩ := FileSink.took_close hlast
      rw [hnumber, ← hsame, hcontents rfl]
      simpa [text?, FileSink.text?, hempty, hbuffer] using htext

end Sink

end SplitFeed
