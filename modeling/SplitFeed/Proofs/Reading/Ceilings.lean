/-
# What one fetch may bring

The settings give two ceilings for a single fetch: on its records, and on the bytes of their texts,
where the last record may go beyond.

What can be said of the records of a batch, and remains true when some of them are taken out, holds
of all batches that a reader hands out if it holds of what the reader reads anew.  For between the
fetch that reads them and a fetch that hands them out once more, records can only get fewer.

The ceiling on records is kept in this way.  The ceiling on bytes is not: a reader of ranges does
not know it, and a reader of files counts the bytes that it reads, of which a text can be three
times as long.
-/
import SplitFeed.Proofs.Reading.Lending
import SplitFeed.Proofs.Reading.Progress
import SplitFeed.Proofs.Reading.Undisturbed
import Mathlib.Algebra.BigOperators.Ring.List
import Mathlib.Algebra.Order.BigOperators.Group.List
import Mathlib.Algebra.Ring.Nat
import Mathlib.Data.List.Flatten
import Mathlib.Data.String.Basic

namespace SplitFeed

/-! ### Batches with fewer records -/

namespace SplitBatch

/-- The records of a batch that were not taken yet, in reading order. -/
def records (batch : SplitBatch Record) : List Record :=
  batch.groups.flatMap (·.2)

variable {batch : SplitBatch Record}

theorem recordCount_eq (batch : SplitBatch Record) : batch.recordCount = batch.records.length :=
  rfl

theorem records_retainSplits (keep : String → Bool) (batch : SplitBatch Record) :
    (batch.retainSplits keep).records.Sublist batch.records := by
  rw [records, groups_retainSplits]
  exact List.filter_sublist.flatMap _

@[simp]
theorem records_addRecords (id : String) (records : List Record) :
    ((empty : SplitBatch Record).addRecords id records).records = records := by
  cases records with
  | nil => rfl
  | cons record rest => simp [SplitBatch.records, addRecords, groups, appendGroup, empty]

@[simp]
theorem records_empty : (empty : SplitBatch Record).records = [] := rfl

@[simp]
theorem records_finishSplit (id : String) (batch : SplitBatch Record) :
    (batch.finishSplit id).records = batch.records := rfl

end SplitBatch

/-- Whatever is done with a batch, its records only get fewer. -/
theorem Use.records_apply (use : Use) (batch : SplitBatch Record) :
    (use.apply batch).records.Sublist batch.records := by
  cases use with
  | attach ticket => exact List.Sublist.refl _
  | nextSplit =>
      simp only [apply, SplitBatch.nextSplit, SplitBatch.records, SplitBatch.groups]
      split
      · next hwaiting => simp [hwaiting]
      · next group rest hwaiting => simp [hwaiting]
  | nextRecord =>
      simp only [apply, SplitBatch.nextRecord]
      split
      · next id record rest hcurrent => simp [SplitBatch.records, SplitBatch.groups, hcurrent]
      · exact List.Sublist.refl _

/-! ### What a fetch reads anew -/

/-- What a fetch hands out, when `fresh` are the records that the reader has next: the batch that
came back first, the fresh records, or nothing because it fails. -/
inductive Hands (fresh : List Record) (before after : List (SplitBatch Record)) :
    Called (SplitBatch Record) → Prop
  | again {stale : SplitBatch Record} (hreplay : before = stale :: after) :
      Hands fresh before after (.returned stale)
  | anew {batch : SplitBatch Record} (hbefore : before = []) (hafter : after = [])
      (hrecords : batch.records = fresh) : Hands fresh before after (.returned batch)
  | nothing {cause : Failure} (hreplay : after = before) (hnone : fresh = []) :
      Hands fresh before after (.failed cause)

namespace RangeReader

/-- The records that a reader of ranges has next. -/
def fresh (disturbed : List Bool) (reader : RangeReader) : List Record :=
  if reader.docket.closed then []
  else
    match reader.docket.cursors with
    | [] => []
    | cursor :: _ =>
      if reader.delayMs ≠ 0 ∧ (reader.docket.flag.raised || disturbed.headD false) = true then []
      else pieceRecords reader.maxRecords cursor

variable {reader next : RangeReader} {disturbed : List Bool}
  {result : Called (SplitBatch Record)}

theorem hands_of_fetch (h : reader.fetch disturbed = (result, next)) :
    Hands (reader.fresh disturbed) reader.docket.replay next.docket.replay result ∧
      next.maxRecords = reader.maxRecords := by
  obtain ⟨⟨cursors, replay, removed, flag, closed⟩, maxRecords, delayMs⟩ := reader
  cases closed with
  | true =>
      obtain ⟨rfl, rfl⟩ := Prod.mk.inj h
      exact ⟨.nothing rfl rfl, rfl⟩
  | false =>
      cases replay with
      | cons stale replay =>
          obtain ⟨rfl, rfl⟩ := Prod.mk.inj h
          exact ⟨.again rfl, rfl⟩
      | nil =>
          cases cursors with
          | nil =>
              obtain ⟨rfl, rfl⟩ := Prod.mk.inj h
              exact ⟨.anew rfl rfl rfl, rfl⟩
          | cons cursor others =>
              have hrecords : (piece maxRecords cursor).1.records =
                  pieceRecords maxRecords cursor := by
                simp only [piece]
                split <;> simp [pieceRecords]
              by_cases hdelay : delayMs = 0
              · simp only [fetch, hdelay, Bool.false_eq_true, ↓reduceIte] at h
                obtain ⟨rfl, rfl⟩ := Prod.mk.inj h
                exact ⟨.anew rfl rfl (by simp [fresh, hdelay, hrecords]), rfl⟩
              · cases hwoken : flag.raised || disturbed.headD false with
                | true =>
                    simp only [fetch, if_neg hdelay, WakeFlag.nap, hwoken, Bool.false_eq_true,
                      ↓reduceIte] at h
                    obtain ⟨rfl, rfl⟩ := Prod.mk.inj h
                    exact ⟨.anew rfl rfl (by simp only [fresh, hwoken]; simp [hdelay]), rfl⟩
                | false =>
                    simp only [fetch, if_neg hdelay, WakeFlag.nap, hwoken, Bool.false_eq_true,
                      ↓reduceIte] at h
                    obtain ⟨rfl, rfl⟩ := Prod.mk.inj h
                    exact ⟨.anew rfl rfl (by simp only [fresh, hwoken]; simp [hrecords]), rfl⟩

/-- A fetch reads no more records than the reader may. -/
theorem length_fresh_le (disturbed : List Bool) (reader : RangeReader) :
    (reader.fresh disturbed).length ≤ reader.maxRecords := by
  have hpiece (cursor : RangeCursor) :
      (pieceRecords reader.maxRecords cursor).length ≤ reader.maxRecords := by
    simp only [pieceRecords, List.length_map, List.length_range', pieceEnd, Word.addUpTo]
    omega
  unfold fresh
  split
  · exact Nat.zero_le _
  · split
    · exact Nat.zero_le _
    · split
      · exact Nat.zero_le _
      · exact hpiece _

end RangeReader

namespace FileReader

/-- The records that a reader of files has next. -/
def fresh (store : FileStore) (disturbed : List Bool) (reader : FileReader) : List Record :=
  if reader.docket.closed then []
  else
    match reader.docket.cursors with
    | [] => []
    | cursor :: _ =>
      match cursor.opened store with
      | .error _ => []
      | .ok lines =>
        let haul :=
          haul reader.limits store 0 0 disturbed reader.docket.flag lines cursor.lineNumber
        match haul.failure with
        | some _ => []
        | none => haul.records

variable {reader next : FileReader} {store : FileStore} {disturbed : List Bool}
  {result : Called (SplitBatch Record)}

theorem hands_of_fetch (h : reader.fetch store disturbed = (result, next)) :
    Hands (reader.fresh store disturbed) reader.docket.replay next.docket.replay result ∧
      next.limits = reader.limits := by
  obtain ⟨⟨cursors, replay, removed, flag, closed⟩, limits⟩ := reader
  cases closed with
  | true =>
      obtain ⟨rfl, rfl⟩ := Prod.mk.inj h
      exact ⟨.nothing rfl rfl, rfl⟩
  | false =>
      cases replay with
      | cons stale replay =>
          obtain ⟨rfl, rfl⟩ := Prod.mk.inj h
          exact ⟨.again rfl, rfl⟩
      | nil =>
          cases cursors with
          | nil =>
              obtain ⟨rfl, rfl⟩ := Prod.mk.inj h
              exact ⟨.anew rfl rfl rfl, rfl⟩
          | cons cursor others =>
              rw [fetch_cursor disturbed rfl rfl rfl] at h
              cases hopened : cursor.opened store with
              | error error =>
                  rw [hopened] at h
                  obtain ⟨rfl, rfl⟩ := Prod.mk.inj h
                  exact ⟨.nothing rfl (by simp [fresh, hopened]), rfl⟩
              | ok lines =>
                  simp only [hopened, bring] at h
                  simp only [fresh, hopened, Bool.false_eq_true, ↓reduceIte]
                  generalize haul limits store 0 0 disturbed flag lines cursor.lineNumber = haul
                    at h ⊢
                  cases hfailure : haul.failure with
                  | some error =>
                      simp only [hfailure] at h ⊢
                      obtain ⟨rfl, rfl⟩ := Prod.mk.inj h
                      exact ⟨.nothing rfl rfl, rfl⟩
                  | none =>
                      simp only [hfailure] at h ⊢
                      split at h <;> obtain ⟨rfl, rfl⟩ := Prod.mk.inj h <;>
                        exact ⟨.anew rfl rfl (by simp), rfl⟩

end FileReader

/-! ### How long texts are -/

/-- The bytes of the texts of records. -/
def textBytes (records : List Record) : Nat :=
  (records.map (·.payload.utf8ByteSize)).sum

theorem textBytes_le_of_sublist {fewer more : List Record} (h : fewer.Sublist more) :
    textBytes fewer ≤ textBytes more :=
  (h.map _).sum_le_sum fun _ _ => Nat.zero_le _

theorem dropLast_sublist_dropLast {α : Type} {fewer more : List α} (h : fewer.Sublist more) :
    fewer.dropLast.Sublist more.dropLast := by
  rw [← List.reverse_sublist, ← List.tail_reverse, ← List.tail_reverse]
  exact h.reverse.tail

namespace Text

/-- A character of several bytes takes all of them from the input. -/
theorem length_of_following {count low high code found : Nat} {input : List UInt8}
    (h : (following count low high code input).1 = some found) :
    (following count low high code input).2.length + count = input.length := by
  induction input generalizing count low high code with
  | nil =>
      simp only [following] at h ⊢
      split at h
      · next hzero => simp [hzero]
      · cases h
  | cons byte rest ih =>
      cases count with
      | zero => simp [following]
      | succ count =>
          simp only [following] at h ⊢
          split at h
          · next hfits =>
              rw [if_pos hfits, List.length_cons, ← ih h]
              omega
          · cases h

theorem one_le_following {byte : Nat} {lead : LeadByte} (h : LeadByte.ofByte? byte = some lead) :
    1 ≤ lead.following := by
  unfold LeadByte.ofByte? at h
  repeat' split at h
  all_goals
    cases h
    try exact Nat.le_add_left 1 _

/-- A text is at most three times as long as the bytes that it was read from. -/
theorem utf8Len_decodeLossy_le (input : List UInt8) :
    String.utf8Len (decodeLossy input) ≤ 3 * input.length := by
  have hreplacement : replacement.utf8Size = 3 := rfl
  fun_induction decodeLossy input with
  | case1 => exact Nat.le_refl 0
  | case2 byte rest hsingle ih =>
      have hsize : ∀ code < 0x80, (Char.ofNat code).utf8Size = 1 := by decide
      rw [String.utf8Len_cons, hsize _ hsingle, List.length_cons]
      omega
  | case3 byte rest hlong hlead ih =>
      rw [String.utf8Len_cons, hreplacement, List.length_cons]
      omega
  | case4 byte rest hlong lead hlead read code hcode ih =>
      have hbytes : read.2.length + lead.following = rest.length := length_of_following hcode
      have hmany := one_le_following hlead
      have hsize := (Char.ofNat code).utf8Size_le_four
      rw [String.utf8Len_cons, List.length_cons]
      omega
  | case5 byte rest hlong lead hlead read hcode ih =>
      have hbytes : read.2.length ≤ rest.length := length_following_le _ _ _ _ rest
      rw [String.utf8Len_cons, hreplacement, List.length_cons]
      omega

end Text

/-- The texts of all records but the last are those of lines that have fewer bytes, all together,
than a ceiling. -/
def ReadWithin (ceiling : Nat) (records : List Record) : Prop :=
  ∃ lines : List (List UInt8),
    records.dropLast.map (·.payload) = lines.map FileReader.lineText ∧
      (lines.map List.length).sum < ceiling

section Within

variable {ceiling : Nat} {fewer more records : List Record}

theorem readWithin_nil (hroom : 0 < ceiling) : ReadWithin ceiling [] := ⟨[], rfl, hroom⟩

theorem readWithin_of_sublist (h : fewer.Sublist more) (hmore : ReadWithin ceiling more) :
    ReadWithin ceiling fewer := by
  obtain ⟨lines, htexts, hbytes⟩ := hmore
  have hfewer := (dropLast_sublist_dropLast h).map (·.payload)
  rw [htexts] at hfewer
  obtain ⟨left, hleft, htexts⟩ := List.sublist_map_iff.1 hfewer
  refine ⟨left, htexts, Nat.lt_of_le_of_lt ?_ hbytes⟩
  exact (hleft.map _).sum_le_sum fun _ _ => Nat.zero_le _

theorem utf8ByteSize_lineText_le (line : List UInt8) :
    (FileReader.lineText line).utf8ByteSize ≤ 3 * line.length := by
  rw [FileReader.lineText, String.utf8ByteSize_ofList, String.utf8Len_reverse]
  refine Nat.le_trans ?_ (Text.utf8Len_decodeLossy_le line)
  rw [← String.utf8Len_reverse (Text.decodeLossy line)]
  exact String.utf8Len_le_of_sublist
    ((List.dropWhile_sublist _).trans (List.dropWhile_sublist _))

/-- Texts of lines that were read below a ceiling stay below three times the ceiling. -/
theorem textBytes_of_readWithin (h : ReadWithin ceiling records) :
    textBytes records.dropLast < 3 * ceiling := by
  obtain ⟨lines, htexts, hbytes⟩ := h
  have hsizes : records.dropLast.map (·.payload.utf8ByteSize) =
      lines.map fun line => (FileReader.lineText line).utf8ByteSize := by
    have := congrArg (List.map String.utf8ByteSize) htexts
    simpa [Function.comp_def] using this
  have hlong : (lines.map fun line => (FileReader.lineText line).utf8ByteSize).sum ≤
      3 * (lines.map List.length).sum := by
    rw [← List.sum_map_mul_left lines List.length 3]
    exact List.sum_le_sum fun line _ => utf8ByteSize_lineText_le line
  rw [textBytes, hsizes]
  omega

end Within

namespace FileReader

/-- Hauling lines keeps both ceilings, that on bytes by the lines as they were read. -/
theorem haul_within (limits : FetchLimits) (store : FileStore) (records bytes : Nat)
    (disturbed : List Bool) (flag : WakeFlag) (lines : LineSource) (number : Nat)
    (hrecords : records ≤ limits.maxRecords) :
    let haul := haul limits store records bytes disturbed flag lines number
    records + haul.records.length ≤ limits.maxRecords ∧
      (haul.records ≠ [] → ∃ read : List (List UInt8),
        haul.records.dropLast.map (·.payload) = read.map lineText ∧
          bytes + (read.map List.length).sum < limits.maxBytes) := by
  fun_induction haul limits store records bytes disturbed flag lines number with
  | case1 => exact ⟨hrecords, fun hsome => absurd rfl hsome⟩
  | case2 => exact ⟨hrecords, fun hsome => absurd rfl hsome⟩
  | case3 => exact ⟨hrecords, fun hsome => absurd rfl hsome⟩
  | case4 records bytes disturbed flag lines number hroom woken flag' hnap hwoken first rest lines'
      hline line number' text hblank ih =>
      refine ⟨(ih hrecords).1, fun hsome => ?_⟩
      obtain ⟨read, htexts, hbytes⟩ := (ih hrecords).2 hsome
      exact ⟨read, htexts, by omega⟩
  | case5 records bytes disturbed flag lines number hroom woken flag' hnap hwoken first rest lines'
      hline line number' text hblank later ih =>
      obtain ⟨hlength, hlater⟩ : records + 1 + later.records.length ≤ limits.maxRecords ∧
          (later.records ≠ [] → ∃ read : List (List UInt8),
            later.records.dropLast.map (·.payload) = read.map lineText ∧
              bytes + line.length + (read.map List.length).sum < limits.maxBytes) := ih hroom.1
      refine ⟨by simp only [List.length_cons]; omega, fun _ => ?_⟩
      cases hrest : later.records with
      | nil => exact ⟨[], by simp, hroom.2⟩
      | cons record others =>
          obtain ⟨read, htexts, hbytes⟩ := hlater (by simp [hrest])
          refine ⟨line :: read, ?_, ?_⟩
          · rw [List.dropLast_cons_of_ne_nil (List.cons_ne_nil _ _), List.map_cons, List.map_cons,
              ← hrest, htexts]
          · rw [List.map_cons, List.sum_cons]
            omega
  | case6 => exact ⟨hrecords, fun hsome => absurd rfl hsome⟩

/-- What a reader of files has next is within both ceilings. -/
theorem fresh_within (store : FileStore) (disturbed : List Bool) (reader : FileReader)
    (hroom : 0 < reader.limits.maxBytes) :
    (reader.fresh store disturbed).length ≤ reader.limits.maxRecords ∧
      ReadWithin reader.limits.maxBytes (reader.fresh store disturbed) := by
  have hnone : ([] : List Record).length ≤ reader.limits.maxRecords ∧
      ReadWithin reader.limits.maxBytes [] := ⟨Nat.zero_le _, readWithin_nil hroom⟩
  unfold fresh
  split
  · exact hnone
  · split
    · exact hnone
    · next cursor others hcursors =>
        split
        · exact hnone
        · next lines hopened =>
            obtain ⟨hlength, hwithin⟩ := haul_within reader.limits store 0 0 disturbed
              reader.docket.flag lines cursor.lineNumber (Nat.zero_le _)
            generalize haul reader.limits store 0 0 disturbed reader.docket.flag lines
              cursor.lineNumber = haul at hlength hwithin ⊢
            simp only [Nat.zero_add] at hlength hwithin
            simp only
            split
            · exact hnone
            · refine ⟨hlength, ?_⟩
              by_cases hsome : haul.records = []
              · exact hsome ▸ hnone.2
              · exact hwithin hsome

end FileReader

/-! ### Either reader -/

/-- The ceilings in the settings of a source. -/
def SourceSettings.limits : SourceSettings → FetchLimits
  | ranges source => source.limits
  | files source => source.limits

namespace Backend

/-- The records that a reader has next, if no batch waits to be handed out again. -/
def fresh (store : FileStore) (disturbed : List Bool) : Backend → List Record
  | ranges reader => reader.fresh disturbed
  | files reader => reader.fresh store disturbed

/-- The reader has the limits of a source, as far as readers of its sort know them. -/
def HasLimits : SourceSettings → Backend → Prop
  | .ranges source, ranges reader => reader.maxRecords = max source.limits.maxRecords 1
  | .files source, files reader => reader.limits = source.limits
  | _, _ => False

theorem hasLimits_ofSettings (source : SourceSettings) : (ofSettings source).HasLimits source := by
  cases source <;> rfl

variable {store : FileStore} {disturbed : List Bool} {backend next : Backend}
  {result : Called (SplitBatch Record)} {source : SourceSettings} {batch : SplitBatch Record}
  {change : SplitsChange Split} {recycled : List Nat}

theorem hands_of_fetch (h : SplitReader.fetch store disturbed backend = (result, next)) :
    Hands (backend.fresh store disturbed) backend.replay next.replay result := by
  cases reads_of_fetch h with
  | ranges hread => exact (RangeReader.hands_of_fetch hread).1
  | files hread => exact (FileReader.hands_of_fetch hread).1

theorem hasLimits_fetch (h : SplitReader.fetch store disturbed backend = (result, next))
    (hlimits : backend.HasLimits source) : next.HasLimits source := by
  cases reads_of_fetch h with
  | ranges hread =>
      cases source with
      | ranges source => exact (RangeReader.hands_of_fetch hread).2.trans hlimits
      | files source => exact hlimits.elim
  | files hread =>
      cases source with
      | ranges source => exact hlimits.elim
      | files source => exact (FileReader.hands_of_fetch hread).2.trans hlimits

theorem hasLimits_changed (h : Changed change backend recycled next)
    (hlimits : backend.HasLimits source) : next.HasLimits source := by
  cases h <;> cases source <;> exact hlimits

/-- No reader reads more records than the settings allow. -/
theorem length_fresh_le (hlimits : backend.HasLimits source) (hroom : source.limits.LetRead) :
    (backend.fresh store disturbed).length ≤ source.limits.maxRecords := by
  cases source with
  | ranges source =>
      cases backend with
      | ranges reader =>
          have hmax : reader.maxRecords = source.limits.maxRecords :=
            Eq.trans hlimits (Nat.max_eq_left hroom.1)
          exact hmax ▸ reader.length_fresh_le disturbed
      | files reader => exact hlimits.elim
  | files source =>
      cases backend with
      | ranges reader => exact hlimits.elim
      | files reader =>
          have hsame : reader.limits = source.limits := hlimits
          have hbytes : 0 < reader.limits.maxBytes := by
            rw [hsame]
            exact hroom.2
          show (reader.fresh store disturbed).length ≤ source.limits.maxRecords
          rw [← hsame]
          exact (reader.fresh_within store disturbed hbytes).1

/-- A reader of files reads within the ceiling on bytes, by the lines as they are. -/
theorem fresh_within {source : FileSource} (hlimits : backend.HasLimits (.files source))
    (hroom : source.limits.LetRead) :
    ReadWithin source.limits.maxBytes (backend.fresh store disturbed) := by
  cases backend with
  | ranges reader => exact hlimits.elim
  | files reader =>
      have hsame : reader.limits = source.limits := hlimits
      have hbytes : 0 < reader.limits.maxBytes := by
        rw [hsame]
        exact hroom.2
      show ReadWithin source.limits.maxBytes (reader.fresh store disturbed)
      rw [← hsame]
      exact (reader.fresh_within store disturbed hbytes).2

/-- A change leaves of the batches that wait what it does not take away. -/
theorem records_replay_changed (h : Changed change backend recycled next)
    (hbatch : batch ∈ next.replay) :
    ∃ earlier ∈ backend.replay, batch.records.Sublist earlier.records := by
  cases h with
  | gainRanges splits reader | gainFiles splits reader =>
      exact ⟨batch, by simpa [replay] using hbatch, List.Sublist.refl _⟩
  | loseRanges splits reader | loseFiles splits reader =>
      obtain ⟨earlier, hearlier, rfl⟩ := Docket.mem_replay_lose hbatch
      exact ⟨earlier, hearlier, SplitBatch.records_retainSplits _ _⟩

end Backend

namespace Lending

variable {lending next : Lending} {move : Move} {moves : List Move}

/-- The records that a move makes the reader read anew. -/
def fresh (lending : Lending) : Move → List Record
  | .fetch store disturbed =>
    if lending.reader.replay = [] then lending.reader.fresh store disturbed else []
  | _ => []

theorem hasLimits_step {source : SourceSettings} (h : step move lending = some next)
    (hlimits : lending.reader.HasLimits source) : next.reader.HasLimits source := by
  cases move with
  | change change =>
      rcases change_cases h with ⟨recycled, reader, -, -, hchanged, rfl⟩ | ⟨-, -, rfl⟩
      · exact Backend.hasLimits_changed hchanged hlimits
      · exact hlimits
  | fetch store disturbed =>
      rcases fetch_cases h with ⟨batch, reader, hfetch, rfl⟩ | ⟨cause, reader, hfetch, rfl⟩ <;>
        exact Backend.hasLimits_fetch hfetch hlimits
  | use place use =>
      obtain rfl := Option.some.inj h
      exact hlimits
  | giveBack place =>
      obtain ⟨stale, -, -, rfl⟩ := giveBack_cases h
      cases hreader : lending.reader <;> rw [hreader] at hlimits <;> cases source <;>
        exact hlimits
  | wake | close =>
      obtain rfl := Option.some.inj h
      cases hreader : lending.reader <;> rw [hreader] at hlimits <;> cases source <;>
        exact hlimits

/-- What a move reads anew it returns. -/
theorem exists_returned_of_fresh (hsome : lending.fresh move ≠ []) :
    ∃ batch ∈ lending.returned move, batch.records = lending.fresh move := by
  cases move with
  | fetch store disturbed =>
      rcases hfetch : SplitReader.fetch store disturbed lending.reader with ⟨result, reader⟩
      have hhands := Backend.hands_of_fetch hfetch
      simp only [fresh, returned, hfetch] at hsome ⊢
      cases hhands with
      | again hwaits => simp [hwaits] at hsome
      | anew hbefore _ hrecords =>
          exact ⟨_, List.mem_singleton_self _, by rw [if_pos hbefore, hrecords]⟩
      | nothing _ hnone => simp [hnone] at hsome
  | change _ | use _ _ | giveBack _ | wake | close => exact absurd rfl hsome

/-- What a move returns is out on loan then. -/
theorem exists_out_of_returned {batch : SplitBatch Record} (h : batch ∈ lending.returned move) :
    ∃ next, step move lending = some next ∧ batch ∈ next.out := by
  cases move with
  | fetch store disturbed =>
      rcases hfetch : SplitReader.fetch store disturbed lending.reader with ⟨result, reader⟩
      simp only [returned, step, hfetch] at h ⊢
      cases result with
      | returned fetched => exact ⟨_, rfl, List.mem_append_right _ h⟩
      | failed | panicked => exact (List.not_mem_nil h).elim
  | change _ | use _ _ | giveBack _ | wake | close => exact (List.not_mem_nil h).elim

section Good

variable {good : List Record → Prop}

/-- What is good of the batches that wait and of those on loan, and of fewer records, is good of
them after a move if it is good of what the move makes the reader read. -/
theorem good_step
    (hfewer : ∀ {fewer more : List Record}, fewer.Sublist more → good more → good fewer)
    (hstart : ∀ batch ∈ lending.reader.replay ++ lending.out, good batch.records)
    (hfresh : good (lending.fresh move)) (h : step move lending = some next) :
    ∀ batch ∈ next.reader.replay ++ next.out, good batch.records := by
  obtain ⟨hreplay, hout⟩ := List.forall_mem_append.1 hstart
  rw [List.forall_mem_append]
  cases move with
  | change change =>
      rcases change_cases h with ⟨recycled, reader, -, -, hchanged, rfl⟩ | ⟨-, -, rfl⟩
      · refine ⟨fun batch hbatch => ?_, hout⟩
        obtain ⟨earlier, hearlier, hless⟩ := Backend.records_replay_changed hchanged hbatch
        exact hfewer hless (hreplay earlier hearlier)
      · exact ⟨hreplay, hout⟩
  | fetch store disturbed =>
      rcases fetch_cases h with ⟨batch, reader, hfetch, rfl⟩ | ⟨cause, reader, hfetch, rfl⟩
      · rw [List.forall_mem_append, List.forall_mem_singleton]
        cases Backend.hands_of_fetch hfetch with
        | again hwaits =>
            rw [hwaits, List.forall_mem_cons] at hreplay
            exact ⟨hreplay.2, hout, hreplay.1⟩
        | anew hbefore hafter hrecords =>
            rw [fresh, if_pos hbefore, ← hrecords] at hfresh
            rw [hafter]
            exact ⟨fun _ hnone => (List.not_mem_nil hnone).elim, hout, hfresh⟩
      · cases Backend.hands_of_fetch hfetch with
        | nothing hsame => exact ⟨hsame ▸ hreplay, hout⟩
  | use place use =>
      obtain rfl := Option.some.inj h
      refine ⟨hreplay, fun batch hbatch => ?_⟩
      obtain ⟨index, hindex⟩ := List.mem_iff_getElem?.1 hbatch
      rw [List.getElem?_modify, Option.map_eq_map, Option.map_eq_some_iff] at hindex
      obtain ⟨earlier, hearlier, rfl⟩ := hindex
      have hgood := hout earlier (List.mem_of_getElem? hearlier)
      split
      · exact hfewer (use.records_apply earlier) hgood
      · exact hgood
  | giveBack place =>
      obtain ⟨stale, hstale, -, rfl⟩ := giveBack_cases h
      refine ⟨?_, fun batch hbatch => hout batch (List.mem_of_mem_eraseIdx hbatch)⟩
      rw [Backend.replay_rewind, List.forall_mem_append]
      refine ⟨hreplay, fun batch hbatch => ?_⟩
      rw [List.mem_singleton.1 (List.mem_of_mem_filter hbatch)]
      exact hfewer (SplitBatch.records_retainSplits _ _)
        (hout stale (List.mem_of_getElem? hstale))
  | wake =>
      obtain rfl := Option.some.inj h
      refine ⟨?_, hout⟩
      cases hreader : lending.reader <;> rw [hreader] at hreplay <;> exact hreplay
  | close =>
      obtain rfl := Option.some.inj h
      refine ⟨fun batch hbatch => ?_, hout⟩
      cases hreader : lending.reader <;> simp [hreader, SplitReader.close, Backend.close,
        Docket.close, Backend.replay] at hbatch

/-- The batches that fetches return on a course are good exactly if all is good that they make the
reader read. -/
theorem good_returned_iff
    (hfewer : ∀ {fewer more : List Record}, fewer.Sublist more → good more → good fewer)
    (hnone : good [])
    (hstart : ∀ batch ∈ lending.reader.replay ++ lending.out, good batch.records) :
    (∀ batch ∈ Course.gather step returned moves lending, good batch.records) ↔
      Course.Never step (fun lending move => ¬ good (lending.fresh move)) moves lending := by
  rw [Course.forall_gather_iff]
  constructor
  · intro hnever
    refine Course.never_of_others (fun _ => True) (fun _ _ _ => trivial) ?_ hnever trivial
    intro move lending _ hgood hbad
    obtain ⟨batch, hbatch, hrecords⟩ := exists_returned_of_fresh fun hsame => hbad (hsame ▸ hnone)
    exact hgood ⟨batch, hbatch, hrecords ▸ hbad⟩
  · intro hnever
    refine Course.never_of_others
      (fun lending => ∀ batch ∈ lending.reader.replay ++ lending.out, good batch.records)
      (fun hstart hgood h => good_step hfewer hstart (not_not.1 hgood) h) ?_ hnever hstart
    rintro move lending hstart hgood ⟨batch, hbatch, hbad⟩
    obtain ⟨next, hmove, hout⟩ := exists_out_of_returned hbatch
    exact hbad (good_step hfewer hstart (not_not.1 hgood) hmove batch
      (List.mem_append_right _ hout))

end Good

/-- A move makes the reader read records of which all but the last come to the ceiling. -/
def Overruns (ceiling : Nat) (lending : Lending) (move : Move) : Prop :=
  ceiling ≤ textBytes (lending.fresh move).dropLast

instance (ceiling : Nat) (lending : Lending) (move : Move) :
    Decidable (lending.Overruns ceiling move) :=
  inferInstanceAs (Decidable (_ ≤ _))

/-- With a new reader no batch waits or is on loan. -/
theorem nothing_at_hand (source : SourceSettings) (good : List Record → Prop) :
    ∀ batch ∈ (Backend.ofSettings source).replay ++ [], good batch.records := by
  cases source <;> exact fun _ hnone => (List.not_mem_nil hnone).elim

/-- What is good of all that a reader for a source may have next is good of all that its reader
reads. -/
theorem never_of_hasLimits (source : SourceSettings) {good : List Record → Prop} (hnone : good [])
    (hfresh : ∀ {backend : Backend} {store disturbed}, backend.HasLimits source →
      good (backend.fresh store disturbed)) (moves : List Move) :
    Course.Never step (fun lending move => ¬ good (lending.fresh move)) moves
      { reader := .ofSettings source } := by
  have hgood {lending : Lending} {move : Move} (hlimits : lending.reader.HasLimits source) :
      good (lending.fresh move) := by
    cases move with
    | fetch store disturbed =>
        simp only [fresh]
        split
        · exact hfresh hlimits
        · exact hnone
    | change _ | use _ _ | giveBack _ | wake | close => exact hnone
  have hanything : Course.Never step (fun _ _ => False) moves
      ({ reader := .ofSettings source } : Lending) :=
    Course.never_of_forall _ (fun _ _ _ => id) _
  exact Course.never_of_never (fun lending => lending.reader.HasLimits source)
    (fun hlimits _ h => hasLimits_step h hlimits) (fun hlimits hbad => hbad (hgood hlimits))
    hanything (Backend.hasLimits_ofSettings source)

/-- No batch holds more records than the settings allow. -/
theorem recordCount_returned_le {source : SourceSettings} (hroom : source.limits.LetRead)
    (moves : List Move) :
    ∀ batch ∈ Course.gather step returned moves { reader := .ofSettings source },
      batch.recordCount ≤ source.limits.maxRecords := by
  let good (records : List Record) : Prop := records.length ≤ source.limits.maxRecords
  have hnone : good [] := Nat.zero_le _
  have hnever := never_of_hasLimits source hnone
    (fun hlimits => Backend.length_fresh_le hlimits hroom) moves
  exact (good_returned_iff (fun hless hmore => hless.length_le.trans hmore) hnone
    (nothing_at_hand source good)).2 hnever

/-- The ceiling on bytes is kept exactly on courses on which no move overruns it. -/
theorem textBytes_returned_iff {source : SourceSettings} (hroom : source.limits.LetRead)
    (moves : List Move) :
    (∀ batch ∈ Course.gather step returned moves { reader := .ofSettings source },
      textBytes batch.records.dropLast < source.limits.maxBytes) ↔
      Course.Never step (Overruns source.limits.maxBytes) moves
        { reader := .ofSettings source } := by
  let good (records : List Record) : Prop := textBytes records.dropLast < source.limits.maxBytes
  let first : Lending := { reader := .ofSettings source }
  have hnone : good [] := hroom.2
  have hfewer {fewer more : List Record} (hless : fewer.Sublist more) (hmore : good more) :
      good fewer :=
    Nat.lt_of_le_of_lt (textBytes_le_of_sublist (dropLast_sublist_dropLast hless)) hmore
  have hstart : ∀ batch ∈ first.reader.replay ++ first.out, good batch.records :=
    nothing_at_hand source good
  have hiff : (∀ batch ∈ Course.gather step returned moves first, good batch.records) ↔
      Course.Never step (fun lending move => ¬ good (lending.fresh move)) moves first :=
    good_returned_iff hfewer hnone hstart
  simp only [good, Nat.not_lt] at hiff
  exact hiff

/-- A reader of files keeps the ceiling on bytes by the lines as they are. -/
theorem readWithin_returned {source : FileSource} (hroom : source.limits.LetRead)
    (moves : List Move) :
    ∀ batch ∈ Course.gather step returned moves { reader := .ofSettings (.files source) },
      ReadWithin source.limits.maxBytes batch.records :=
  (good_returned_iff readWithin_of_sublist (readWithin_nil hroom.2)
    (nothing_at_hand (.files source) _)).2
    (never_of_hasLimits (.files source) (readWithin_nil hroom.2)
      (fun hlimits => Backend.fresh_within hlimits hroom) moves)

/-- A reader for settings with ceilings of at least one, whatever it is told and whoever uses and
gives back its batches.  No batch holds more records than the ceiling on records.  The texts of all
its records but the last stay below the ceiling on bytes exactly if no move makes the reader read
records that do not.  A reader of files reads so many lines only as have fewer bytes than the
ceiling before the last, and their texts are less than three times as long. -/
theorem ceilings_kept_iff {source : SourceSettings} (hroom : source.limits.LetRead)
    (moves : List Move) :
    (∀ batch ∈ Course.gather step returned moves { reader := .ofSettings source },
      batch.recordCount ≤ source.limits.maxRecords) ∧
    ((∀ batch ∈ Course.gather step returned moves { reader := .ofSettings source },
        textBytes batch.records.dropLast < source.limits.maxBytes) ↔
      Course.Never step (Overruns source.limits.maxBytes) moves
        { reader := .ofSettings source }) ∧
    ∀ files, source = .files files →
      ∀ batch ∈ Course.gather step returned moves { reader := .ofSettings source },
        ReadWithin source.limits.maxBytes batch.records ∧
          textBytes batch.records.dropLast < 3 * source.limits.maxBytes := by
  refine ⟨recordCount_returned_le hroom moves, textBytes_returned_iff hroom moves, ?_⟩
  rintro files rfl batch hbatch
  have hwithin := readWithin_returned hroom moves batch hbatch
  exact ⟨hwithin, textBytes_of_readWithin hwithin⟩

/-- Three lines, with two bytes of text each. -/
def shortLines : FileStore :=
  FileStore.empty.provide "a" (.file [97, 97, 10, 98, 98, 10, 99, 99, 10])

/-- Settings that ask for their file, four bytes at a time. -/
def shortSource : SourceSettings :=
  .files { files := ["a"], limits := { maxRecords := 3, maxBytes := 4 } }

/-- The lines are read with a batch that goes back and comes again. -/
def shortCourse : List Move :=
  [.change (.addition [.file (.ofPath "a")]), .fetch shortLines [], .giveBack 0,
    .fetch shortLines [], .wake, .fetch shortLines [], .fetch shortLines []]

/-- Four bytes let two of the lines through at a time, and the ceilings are kept. -/
theorem short_lines_keep_ceilings :
    shortSource.limits.LetRead ∧
      Course.Never step (Overruns 4) shortCourse { reader := .ofSettings shortSource } ∧
      (∀ batch ∈ Course.gather step returned shortCourse { reader := .ofSettings shortSource },
        batch.recordCount ≤ 3 ∧ textBytes batch.records.dropLast < 4) ∧
      (Course.gather step returned shortCourse { reader := .ofSettings shortSource }).map
        (·.recordCount) = [2, 2, 0, 1] := by
  have hroom : shortSource.limits.LetRead := by decide
  have hnever : Course.Never step (Overruns 4) shortCourse
      { reader := .ofSettings shortSource } := by
    decide +kernel
  obtain ⟨hrecords, hbytes, -⟩ := ceilings_kept_iff hroom shortCourse
  exact ⟨hroom, hnever, fun batch hbatch => ⟨hrecords batch hbatch, hbytes.2 hnever batch hbatch⟩,
    by decide +kernel⟩

/-- Two numbers of a range. -/
def twoNumbers : List Move :=
  [.change (.addition [.range ⟨"a", 0, 2⟩]), .fetch .empty []]

/-- Two lines of two bytes that are no UTF-8. -/
def strangeLines : FileStore :=
  FileStore.empty.provide "a" (.file [255, 255, 10, 255, 255, 10])

/-- The two lines. -/
def twoLines : List Move :=
  [.change (.addition [.file (.ofPath "a")]), .fetch strangeLines []]

/-- Neither reader keeps a ceiling on bytes: one byte is overrun by the first of two numbers, and
four bytes by the text of the first of two lines. -/
theorem ceilings_overrun :
    (¬ ∀ batch ∈ Course.gather step returned twoNumbers
        { reader := .ofSettings (.ranges { limits := { maxBytes := 1 } }) },
      textBytes batch.records.dropLast < 1) ∧
    ¬ ∀ batch ∈ Course.gather step returned twoLines
        { reader := .ofSettings (.files { files := ["a"], limits := { maxBytes := 4 } }) },
      textBytes batch.records.dropLast < 4 := by
  constructor <;> decide +kernel

/-! ### Readers of ranges -/

/-- A range of two numbers with a long name. -/
def longNamed (length : Nat) : RangeSplit :=
  ⟨String.ofList (List.replicate length 'a'), 0, 2⟩

/-- The name is in the text of either number. -/
theorem le_textBytes_longNamed (length number : Nat) :
    length ≤ textBytes [RangeReader.recordOf (longNamed length).id number] := by
  have hname : String.utf8Len (List.replicate length 'a') = length := by
    induction length with
    | zero => rfl
    | succ length ih => rw [List.replicate_succ, String.utf8Len_cons, ih]; rfl
  have htext : textBytes [RangeReader.recordOf (longNamed length).id number] =
      ((longNamed length).id ++ ":" ++ toString number).utf8ByteSize := Nat.add_zero _
  rw [htext, String.utf8ByteSize_append, String.utf8ByteSize_append, longNamed,
    String.utf8ByteSize_ofList, hname, Nat.add_assoc]
  exact Nat.le_add_right _ _

/-- A reader that may read two numbers reads both of them. -/
theorem pieceRecords_longNamed {maxRecords : Nat} (hmany : 2 ≤ maxRecords) (length : Nat) :
    RangeReader.pieceRecords maxRecords { split := longNamed length, next := 0 } =
      [RangeReader.recordOf (longNamed length).id 0,
        RangeReader.recordOf (longNamed length).id 1] := by
  have hend : RangeReader.pieceEnd maxRecords { split := longNamed length, next := 0 } = 2 := by
    simp only [RangeReader.pieceEnd, Word.addUpTo, Word.greatest, Word.size, longNamed]
    omega
  rw [RangeReader.pieceRecords, hend]
  rfl

/-- A reader of ranges keeps the ceiling on bytes, whatever it is, on all courses exactly if it
reads one number at a time. -/
theorem ranges_keep_bytes_iff {source : RangeSource} (hroom : source.limits.LetRead) :
    (∀ moves, ∀ batch ∈ Course.gather step returned moves
        { reader := .ofSettings (.ranges source) },
      textBytes batch.records.dropLast < source.limits.maxBytes) ↔
      source.limits.maxRecords = 1 := by
  have hceilings : (SourceSettings.ranges source).limits.LetRead := hroom
  constructor
  · intro hkept
    by_contra hone
    have hmany : 2 ≤ max source.limits.maxRecords 1 := by
      have hsome := hroom.1
      omega
    let split := longNamed source.limits.maxBytes
    let told : Lending := { reader := .ranges {
      docket := { cursors := [{ split, next := 0 }] }
      maxRecords := max source.limits.maxRecords 1
      delayMs := source.fetchDelayMs } }
    have htold : step (.change (.addition [.range split]))
        { reader := .ofSettings (.ranges source) } = some told := rfl
    have hfresh : told.fresh (.fetch .empty []) =
        [RangeReader.recordOf split.id 0, RangeReader.recordOf split.id 1] := by
      rw [← pieceRecords_longNamed hmany]
      simp [fresh, told, Backend.fresh, RangeReader.fresh, Backend.replay, split]
    have hnever : Course.Never step (Overruns source.limits.maxBytes)
        [.change (.addition [.range split]), .fetch .empty []]
        { reader := .ofSettings (.ranges source) } :=
      (textBytes_returned_iff hceilings _).1 (hkept _)
    refine (hnever.2 told htold).1 ?_
    rw [Overruns, hfresh]
    exact le_textBytes_longNamed _ 0
  · intro hone moves batch hbatch
    have hfew : batch.recordCount ≤ source.limits.maxRecords :=
      recordCount_returned_le hceilings moves batch hbatch
    have hnone : batch.records.dropLast = [] := by
      rw [← List.length_eq_zero_iff, List.length_dropLast, ← SplitBatch.recordCount_eq]
      omega
    rw [hnone]
    exact hroom.2

end Lending

end SplitFeed
