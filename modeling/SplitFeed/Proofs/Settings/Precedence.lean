/-
# Which layer counts

A file lies on top of the environment and is to win wherever both give a setting.  Layers are joined
key by key, though, and a setting may have more than one key: a former name, or the name of the
alternative it belongs to.  So the file wins knob by knob exactly if the layers do not clash: a knob
has one name in the joined tree, no alternative of the environment comes before the file's, and
nothing that only the environment gives lies hidden under the file.
-/
import SplitFeed.Proofs.Settings.Agreement

namespace SplitFeed

namespace Value

/-- A value on top of another one, where there are any. -/
def stack : Option Value → Option Value → Option Value
  | some lower, some upper => some (lower.overlay upper)
  | some lower, none => some lower
  | none, upper => upper

/-- Values whose parts are joined. -/
def Joins : Value → Value → Prop
  | .table _ _, .table _ _ => True
  | _, _ => False

theorem find?_overlayEntries_eq (key : String) (lower upper : Entries Value) :
    Entries.find? key (overlayEntries lower upper) =
      stack (Entries.find? key lower) (Entries.find? key upper) := by
  rw [find?_overlayEntries]
  cases Entries.find? key upper <;> cases Entries.find? key lower <;> rfl

theorem isSome_stack {lower upper : Option Value} :
    (stack lower upper).isSome ↔ lower.isSome ∨ upper.isSome := by
  cases lower <;> cases upper <;> simp [stack]

variable {lower upper : Value} {step : Step} {way : List Step}

theorem along?_pair (first second : Step) (value : Value) :
    value.along? [first, second] = (value.step? first).bind (·.step? second) := by
  simp [along?]

/-- Where the parts are not joined, the upper value stands alone. -/
theorem overlay_of_not_joins (h : ¬lower.Joins upper) : lower.overlay upper = upper := by
  cases upper with
  | table origin entries =>
    cases lower with
    | table _ _ => exact absurd trivial h
    | _ => rfl
  | _ => rfl

/-- Where only one of some names can be a key, it decides. -/
theorem under_eq_of_only {names : List String} {entries : Entries Value} {name : String}
    (hname : name ∈ names)
    (honly : ∀ other ∈ names, other ≠ name → Entries.find? other entries = none) :
    Entries.under names entries = Entries.find? name entries := by
  unfold Entries.under
  induction names with
  | nil => cases hname
  | cons first rest ih =>
    obtain ⟨hfirst, hrest⟩ := List.forall_mem_cons.1 honly
    rw [List.findSome?_cons]
    by_cases heq : first = name
    · rw [heq]
      cases hfound : Entries.find? name entries with
      | some value => rfl
      | none =>
        refine List.findSome?_eq_none_iff.2 fun other hother => ?_
        by_cases hsame : other = name
        · rw [hsame, hfound]
        · exact hrest other hother hsame
    · rw [hfirst heq]
      exact ih ((List.mem_cons.1 hname).resolve_left (Ne.symm heq)) hrest

/-- Joined tables have joined parts, unless they have them under two names. -/
theorem under_overlayEntries {names : List String} {lower upper : Entries Value}
    (honce : ¬(Value.table .environment (overlayEntries lower upper)).Repeats names) :
    Entries.under names (overlayEntries lower upper) =
      stack (Entries.under names lower) (Entries.under names upper) := by
  have hnone : ∀ {key}, Entries.find? key (overlayEntries lower upper) = none →
      Entries.find? key lower = none ∧ Entries.find? key upper = none := fun {key} h => by
    rw [find?_overlayEntries_eq] at h
    cases hlower : Entries.find? key lower <;> cases hupper : Entries.find? key upper <;>
      simp_all [stack]
  by_cases hpresent : ∃ name ∈ names, (Entries.find? name (overlayEntries lower upper)).isSome
  · obtain ⟨name, hname, hfound⟩ := hpresent
    have honly : ∀ other ∈ names, other ≠ name →
        Entries.find? other (overlayEntries lower upper) = none := fun other hother hne =>
      Option.not_isSome_iff_eq_none.1 fun hsome =>
        honce ⟨other, hother, name, hname, hne, hsome, hfound⟩
    rw [under_eq_of_only hname honly, find?_overlayEntries_eq,
      under_eq_of_only hname fun other h hne => (hnone (honly other h hne)).1,
      under_eq_of_only hname fun other h hne => (hnone (honly other h hne)).2]
  · have hall : ∀ name ∈ names, Entries.find? name (overlayEntries lower upper) = none :=
      fun name hname => Option.not_isSome_iff_eq_none.1 fun hsome => hpresent ⟨name, hname, hsome⟩
    have hunder : ∀ entries : Entries Value,
        (∀ name ∈ names, Entries.find? name entries = none) → Entries.under names entries = none :=
      fun _ h => List.findSome?_eq_none_iff.2 h
    rw [hunder _ hall, hunder _ fun name h => (hnone (hall name h)).1,
      hunder _ fun name h => (hnone (hall name h)).2]
    rfl

/-- What is found a step into joined values. -/
theorem step?_overlay (hstep : step ≠ .choice) (hjoins : lower.Joins upper)
    (hforks : ¬(lower.overlay upper).Forks step) :
    (lower.overlay upper).step? step = stack (lower.step? step) (upper.step? step) := by
  cases lower with
  | table origin below =>
    cases upper with
    | table origin' above =>
      cases step with
      | field names place => exact under_overlayEntries hforks
      | alternative name => exact find?_overlayEntries_eq name below above
      | choice => exact absurd rfl hstep
    | _ => exact hjoins.elim
  | _ => exact hjoins.elim

/-- What is found along a way in joined values: what the upper one has, perhaps on top of what the
lower one has; or else what the lower one has, unless that is hidden. -/
theorem along?_overlay (hway : .choice ∉ way) (hforks : ¬(lower.overlay upper).ForksAlong way) :
    (∀ part, upper.along? way = some part → (lower.overlay upper).along? way = some part ∨
        ∃ hidden, lower.along? way = some hidden ∧
          (lower.overlay upper).along? way = some (hidden.overlay part)) ∧
      (upper.along? way = none → (lower.overlay upper).along? way = none ∨
        (lower.overlay upper).along? way = lower.along? way) := by
  induction way generalizing lower upper with
  | nil =>
    refine ⟨?_, fun h => (Option.some_ne_none _ h).elim⟩
    intro part hpart
    obtain rfl := Option.some.inj hpart
    exact .inr ⟨lower, rfl, rfl⟩
  | cons step rest ih =>
    obtain ⟨hstep, hrest⟩ := not_or.1 (mt List.mem_cons.2 hway)
    obtain ⟨hnow, hlater⟩ := not_or.1 hforks
    by_cases hjoins : lower.Joins upper
    · have hjoined := step?_overlay (Ne.symm hstep) hjoins hnow
      simp only [along?, hjoined]
      cases hlower : lower.step? step with
      | none =>
        simp only [stack, Option.bind_none]
        exact ⟨fun part hpart => .inl hpart, fun hnone => .inl hnone⟩
      | some low =>
        cases hupper : upper.step? step with
        | none => exact ⟨fun part hpart => by simp at hpart, fun _ => .inr rfl⟩
        | some high =>
          refine ih hrest fun hfork => hlater ⟨low.overlay high, ?_, hfork⟩
          rw [hjoined, hlower, hupper]
          rfl
    · rw [overlay_of_not_joins hjoins]
      exact ⟨fun part hpart => .inl hpart, fun hnone => .inl hnone⟩

/-! ### Reading joined values -/

/-- A reading that minds only the upper one of joined values. -/
def IsStable {α : Type} (read : Value → Option α) : Prop :=
  ∀ lower upper, read (overlay lower upper) = read upper

/-- What depends on a table only in that it is one. -/
theorem isStable_of_table {α : Type} {read : Value → Option α}
    (h : ∀ origin origin' entries entries',
      read (.table origin entries) = read (.table origin' entries')) : IsStable read := by
  intro lower upper
  by_cases hjoins : lower.Joins upper
  · cases upper with
    | table origin above =>
      cases lower with
      | table origin' below => exact h _ _ _ _
      | _ => exact hjoins.elim
    | _ => cases lower <;> exact hjoins.elim
  · rw [overlay_of_not_joins hjoins]

theorem isStable_natural? : IsStable natural? := isStable_of_table fun _ _ _ _ => rfl

theorem isStable_truth? : IsStable truth? := isStable_of_table fun _ _ _ _ => rfl

theorem isStable_text? : IsStable text? := isStable_of_table fun _ _ _ _ => rfl

theorem isStable_texts? : IsStable texts? := isStable_of_table fun _ _ _ _ => rfl

theorem isStable_record? : IsStable record? := isStable_of_table fun _ _ _ _ => rfl

/-- The least key of a table. -/
def leastKey? : Value → Option String
  | .table _ ((key, _) :: _) => some key
  | _ => none

/-- Only tables have keys, and one with keys makes a choice. -/
theorem exists_table_of_leastKey? {value : Value} {key : String}
    (h : (value.step? .choice).bind (·.leastKey?) = some key) :
    ∃ origin entries, value = table origin entries ∧ value.step? .choice = some value ∧
      value.leastKey? = some key := by
  cases value with
  | table origin entries =>
    cases entries with
    | nil => cases h
    | cons entry rest => exact ⟨_, _, rfl, rfl, h⟩
  | _ => cases h

theorem leastKey?_eq_some_iff {origin : Origin} {entries : Entries Value} {key : String}
    (h : entries.InOrder IsOrdered) :
    (table origin entries).leastKey? = some key ↔
      (Entries.find? key entries).isSome ∧
        ∀ other, (Entries.find? other entries).isSome → ¬other < key := by
  cases entries with
  | nil => simp [leastKey?]
  | cons entry rest =>
    obtain ⟨first, value⟩ := entry
    have hfirst : ∀ other, (Entries.find? other ((first, value) :: rest)).isSome →
        ¬other < first := by
      intro other hother hlt
      obtain ⟨found, hfound⟩ := Option.isSome_iff_exists.1 hother
      rcases List.mem_cons.1 (Entries.mem_of_find? hfound) with heq | hmem
      · cases heq
        exact String.lt_irrefl _ hlt
      · exact String.lt_asymm hlt ((List.pairwise_cons.1 h.ascending).1 _ hmem)
    have hself : (Entries.find? first ((first, value) :: rest)).isSome := by simp [Entries.find?]
    simp only [leastKey?, Option.some.injEq]
    constructor
    · rintro rfl
      exact ⟨hself, hfirst⟩
    · rintro ⟨hfound, hleast⟩
      exact String.le_antisymm (String.not_lt.1 (hfirst key hfound))
        (String.not_lt.1 (hleast first hself))

/-- Of joined tables, the least key of all is the least key. -/
theorem leastKey?_overlay {origin origin' : Origin} {below above : Entries Value}
    {low high : String} (hbelow : below.InOrder IsOrdered) (habove : above.InOrder IsOrdered)
    (hlow : (table origin below).leastKey? = some low)
    (hhigh : (table origin' above).leastKey? = some high) :
    ((table origin below).overlay (table origin' above)).leastKey? =
      some (if low < high then low else high) := by
  have hjoined : ∀ key, (Entries.find? key (overlayEntries below above)).isSome ↔
      (Entries.find? key below).isSome ∨ (Entries.find? key above).isSome := fun key => by
    rw [find?_overlayEntries_eq, isSome_stack]
  rw [leastKey?_eq_some_iff hbelow] at hlow
  rw [leastKey?_eq_some_iff habove] at hhigh
  rw [overlay, leastKey?_eq_some_iff (inOrder_overlayEntries hbelow habove.each), hjoined]
  split
  · next hlt =>
      refine ⟨.inl hlow.1, fun other hother => ?_⟩
      rcases (hjoined other).1 hother with hfound | hfound
      · exact hlow.2 other hfound
      · exact fun hless => hhigh.2 other hfound (String.lt_trans hless hlt)
  · next hnot =>
      refine ⟨.inr hhigh.1, fun other hother => ?_⟩
      rcases (hjoined other).1 hother with hfound | hfound
      · exact fun hless => hlow.2 other hfound (Std.lt_of_lt_of_le hless (String.not_lt.1 hnot))
      · exact hhigh.2 other hfound

theorem leastKey?_overlayEntries_nil {origin : Origin} {above : Entries Value}
    (habove : above.InOrder IsOrdered) :
    (table origin (overlayEntries [] above)).leastKey? = (table origin above).leastKey? := by
  refine Option.ext fun key => ?_
  have hsame : ∀ key, Entries.find? key (overlayEntries [] above) = Entries.find? key above :=
    fun key => by rw [find?_overlayEntries_eq]; rfl
  rw [leastKey?_eq_some_iff (inOrder_overlayEntries .nil habove.each),
    leastKey?_eq_some_iff habove]
  simp only [hsame]

/-- What a table chooses is told by its least key. -/
theorem chosen?_table (bare withSettings : List String) (origin : Origin)
    (entries : Entries Value) :
    (table origin entries).chosen? bare withSettings =
      (table origin entries).leastKey?.filter (· ∈ withSettings) := by
  cases entries with
  | nil => rfl
  | cons entry rest => simp [chosen?, leastKey?, Option.filter]

end Value

namespace Settings

/-- What a knob is given by two layers: the upper one counts. -/
def prevailing (lower upper : Value) (way : List Step) : Option Value :=
  (upper.along? way).or (lower.along? way)

/-- Two layers clash over settings. -/
inductive Clash (lower upper : Value) (settings : Settings) : Prop
  /-- In the joined tree a knob goes by two names. -/
  | forked {knob : Knob} (hmem : knob ∈ knobs)
      (hforks : (lower.overlay upper).ForksAlong knob.way)
  /-- Of two keys that choose, the lesser one is in the lower layer. -/
  | outranked {knob : Knob} (hmem : knob ∈ choices) {low high : String}
      (hlow : (lower.along? knob.way).bind (·.leastKey?) = some low)
      (hhigh : (upper.along? knob.way).bind (·.leastKey?) = some high) (hlt : low < high)
  /-- What only the lower layer gives is not found in the joined tree, and it is not just what is
  usual. -/
  | hidden {knob : Knob} (hmem : knob ∈ knobs) (hheld : (knob.held settings).isSome)
      {value : Value} (hlower : lower.along? knob.way = some value)
      (hupper : upper.along? knob.way = none)
      (hjoined : (lower.overlay upper).along? knob.way = none)
      (hread : knob.read value ≠ knob.usual)

variable {lower upper : Value} {settings : Settings} {knob : Knob}

theorem isStable_of_details (h : knob ∈ details) : Value.IsStable knob.read := by
  have hlimit : Value.IsStable fun value => value.natural?.map some := fun lower upper =>
    congrArg _ (Value.isStable_natural? lower upper)
  revert knob
  simp [details, RangeSource.knobs, FileSource.knobs, FetchLimits.knobs, SinkSettings.fileKnobs,
    RuntimeSettings.knobs, Knob.ofRecord, Knob.ofField, hlimit, Value.isStable_natural?,
    Value.isStable_truth?, Value.isStable_text?, Value.isStable_texts?, Value.isStable_record?]

theorem choice_notMem_way (h : knob ∈ details) : .choice ∉ knob.way := by
  revert knob
  simp [details, RangeSource.knobs, FileSource.knobs, FetchLimits.knobs, SinkSettings.fileKnobs,
    RuntimeSettings.knobs, Knob.ofRecord, Knob.ofField, sourceWay, sinkWay, runtimeWay]

/-- A knob other than a choice is set in the joined tree to what prevails, or what prevails is
hidden there. -/
theorem told_joined_of_details (h : knob ∈ details)
    (hforks : ¬(lower.overlay upper).ForksAlong knob.way) :
    told knob.read knob.usual ((lower.overlay upper).along? knob.way) =
        told knob.read knob.usual (prevailing lower upper knob.way) ∨
      upper.along? knob.way = none ∧ (lower.overlay upper).along? knob.way = none ∧
        ∃ value, lower.along? knob.way = some value := by
  obtain ⟨hgiven, hmissing⟩ := Value.along?_overlay (choice_notMem_way h) hforks
  unfold prevailing
  cases hupper : upper.along? knob.way with
  | some part =>
    left
    rcases hgiven part hupper with hjoined | ⟨hidden, -, hjoined⟩
    · rw [hjoined, Option.some_or]
    · rw [hjoined, Option.some_or]
      exact isStable_of_details h hidden part
  | none =>
    rcases hmissing hupper with hjoined | hjoined
    · cases hlower : lower.along? knob.way with
      | none =>
        left
        rw [hjoined]
        rfl
      | some value => exact .inr ⟨rfl, hjoined, value, rfl⟩
    · left
      rw [hjoined, Option.none_or]

/-- Of two tables that choose, the upper one prevails unless the lower one has a lesser key. -/
theorem told_joined_of_tables {bare withSettings : List String} {origin origin' : Origin}
    {below above : Entries Value} (hbelow : below.InOrder Value.IsOrdered)
    (habove : above.InOrder Value.IsOrdered) :
    let read := told (Value.chosen? bare withSettings) none
    let low := Value.table origin below
    let high := Value.table origin' above
    read ((low.overlay high).step? .choice) = read ((high.step? .choice).or (low.step? .choice)) ∨
      ∃ least least', (low.step? .choice).bind (·.leastKey?) = some least ∧
        (high.step? .choice).bind (·.leastKey?) = some least' ∧ least < least' := by
  intro read low high
  cases above with
  | nil =>
    left
    cases below <;> rfl
  | cons first rest =>
    have hread : read ((low.overlay high).step? .choice) =
        (low.overlay high).leastKey?.filter (· ∈ withSettings) :=
      (told_chosen? bare withSettings _).trans (Value.chosen?_table _ _ _ _)
    have hread' : read ((high.step? .choice).or (low.step? .choice)) =
        high.leastKey?.filter (· ∈ withSettings) :=
      Value.chosen?_table bare withSettings origin' (first :: rest)
    rw [hread, hread']
    cases below with
    | nil =>
      left
      rw [show (low.overlay high).leastKey? = _ from Value.leastKey?_overlayEntries_nil habove]
    | cons other more =>
      by_cases hlt : other.1 < first.1
      · exact .inr ⟨other.1, first.1, rfl, rfl, hlt⟩
      · have hleast : (low.overlay high).leastKey? =
            some (if other.1 < first.1 then other.1 else first.1) :=
          Value.leastKey?_overlay hbelow habove rfl rfl
        rw [if_neg hlt] at hleast
        left
        rw [hleast]
        rfl

theorem joins_of_isLayer (hlower : lower.IsLayer) (hupper : upper.IsLayer) :
    lower.Joins upper := by
  obtain ⟨_, _, rfl, -⟩ := hlower
  obtain ⟨_, _, rfl, -⟩ := hupper
  trivial

/-- What is found a step into joined layers that has one name only. -/
theorem step?_joined (name : String) (place : Nat) (hlower : lower.IsLayer)
    (hupper : upper.IsLayer) :
    (lower.overlay upper).step? (.field [name] place) =
      Value.stack (lower.step? (.field [name] place)) (upper.step? (.field [name] place)) :=
  Value.step?_overlay (by simp) (joins_of_isLayer hlower hupper) (Value.not_repeats_single _ _)

/-- The same of a choice, unless a lesser key of the lower layer chooses. -/
theorem told_joined_of_choice (bare withSettings : List String) (name : String) (place : Nat)
    (hlower : lower.IsLayer) (hupper : upper.IsLayer) :
    let read := told (Value.chosen? bare withSettings) none
    let way := [.field [name] place, .choice]
    read ((lower.overlay upper).along? way) = read (prevailing lower upper way) ∨
      (upper.along? way = none ∧ (lower.overlay upper).along? way = none ∧
        ∃ value, lower.along? way = some value) ∨
      ∃ low high, (lower.along? way).bind (·.leastKey?) = some low ∧
        (upper.along? way).bind (·.leastKey?) = some high ∧ low < high := by
  intro read way
  simp only [way, prevailing, Value.along?_pair, step?_joined name place hlower hupper]
  cases hhigh : upper.step? (.field [name] place) with
  | none =>
    left
    cases lower.step? (.field [name] place) <;> rfl
  | some high =>
    cases hlow : lower.step? (.field [name] place) with
    | none =>
      left
      simp [Value.stack]
    | some low =>
      have hhighOrdered := Value.isOrdered_of_step? hupper.isOrdered hhigh
      have hlowOrdered := Value.isOrdered_of_step? hlower.isOrdered hlow
      simp only [Value.stack, Option.bind_some]
      by_cases hjoins : low.Joins high
      · cases low with
        | table origin below =>
          cases high with
          | table origin' above =>
            exact (told_joined_of_tables (Value.isOrdered_table_iff.1 hlowOrdered)
              (Value.isOrdered_table_iff.1 hhighOrdered)).imp_right .inr
          | _ => exact hjoins.elim
        | _ => exact hjoins.elim
      · rw [Value.overlay_of_not_joins hjoins]
        cases hchoice : high.step? .choice with
        | some part => exact .inl rfl
        | none =>
          cases hother : low.step? .choice with
          | none => exact .inl rfl
          | some value => exact .inr (.inl ⟨rfl, rfl, value, rfl⟩)

/-- Where a lesser key of the lower layer chooses, the upper layer's choice does not prevail. -/
theorem told_joined_of_outranked (bare withSettings : List String) (name : String) (place : Nat)
    {low high : String} (hlower : lower.IsLayer) (hupper : upper.IsLayer)
    (hlow : (lower.along? [.field [name] place, .choice]).bind (·.leastKey?) = some low)
    (hhigh : (upper.along? [.field [name] place, .choice]).bind (·.leastKey?) = some high)
    (hlt : low < high) {chosen : String}
    (hjoined : told (Value.chosen? bare withSettings) none
      ((lower.overlay upper).along? [.field [name] place, .choice]) = some chosen) :
    told (Value.chosen? bare withSettings) none
      (prevailing lower upper [.field [name] place, .choice]) ≠ some chosen := by
  simp only [prevailing, Value.along?_pair, step?_joined name place hlower hupper]
    at hlow hhigh hjoined ⊢
  cases hl : lower.step? (.field [name] place) with
  | none => simp [hl] at hlow
  | some below =>
    cases hu : upper.step? (.field [name] place) with
    | none => simp [hu] at hhigh
    | some above =>
      have hbelow := Value.isOrdered_of_step? hlower.isOrdered hl
      have habove := Value.isOrdered_of_step? hupper.isOrdered hu
      simp only [hl, hu, Value.stack, Option.bind_some] at hlow hhigh hjoined ⊢
      obtain ⟨origin, entries, rfl, -, hleast⟩ := Value.exists_table_of_leastKey? hlow
      obtain ⟨origin', entries', rfl, hstep, hleast'⟩ := Value.exists_table_of_leastKey? hhigh
      have hleastJoined := Value.leastKey?_overlay (Value.isOrdered_table_iff.1 hbelow)
        (Value.isOrdered_table_iff.1 habove) hleast hleast'
      rw [told_chosen?, Value.overlay, Value.chosen?_table] at hjoined
      rw [Value.overlay, if_pos hlt] at hleastJoined
      rw [hleastJoined, Option.filter_eq_some_iff] at hjoined
      rw [hstep, Option.some_or]
      intro hprevails
      rw [told, Option.elim_some, Value.chosen?_table, hleast', Option.filter_eq_some_iff]
        at hprevails
      rw [Option.some.inj (hjoined.1.trans hprevails.1.symm)] at hlt
      exact String.lt_irrefl _ hlt

/-- What a knob is set to in the joined tree: what prevails, or else the layers clash over it. -/
theorem told_joined (hlower : lower.IsLayer) (hupper : upper.IsLayer) (h : knob ∈ knobs)
    (hforks : ¬(lower.overlay upper).ForksAlong knob.way) :
    told knob.read knob.usual ((lower.overlay upper).along? knob.way) =
        told knob.read knob.usual (prevailing lower upper knob.way) ∨
      (upper.along? knob.way = none ∧ (lower.overlay upper).along? knob.way = none ∧
        ∃ value, lower.along? knob.way = some value) ∨
      knob ∈ choices ∧ ∃ low high, (lower.along? knob.way).bind (·.leastKey?) = some low ∧
        (upper.along? knob.way).bind (·.leastKey?) = some high ∧ low < high := by
  rcases List.mem_append.1 h with hchoice | hdetail
  · rcases List.mem_cons.1 hchoice with rfl | hsink
    · exact (told_joined_of_choice [] ["InMemory", "File"] "reader_config" 0 hlower
        hupper).imp_right (.imp_right fun houtranked => ⟨hchoice, houtranked⟩)
    · cases List.mem_singleton.1 hsink
      exact (told_joined_of_choice ["InMemory"] ["File"] "sink_config" 1 hlower
        hupper).imp_right (.imp_right fun houtranked => ⟨hchoice, houtranked⟩)
  · exact (told_joined_of_details hdetail hforks).imp_right .inl

/-- Joined layers that do not clash set every knob to what prevails. -/
theorem told_joined_of_not_clash (hlower : lower.IsLayer) (hupper : upper.IsLayer)
    (hclash : ¬Clash lower upper settings) (h : knob ∈ knobs)
    (hheld : (knob.held settings).isSome) :
    told knob.read knob.usual ((lower.overlay upper).along? knob.way) =
      told knob.read knob.usual (prevailing lower upper knob.way) := by
  rcases told_joined hlower hupper h fun hforks => hclash (.forked h hforks) with
    hsame | ⟨hnone, hjoined, value, hvalue⟩ | ⟨hchoice, low, high, hlow, hhigh, hlt⟩
  · exact hsame
  · have husual : knob.read value = knob.usual := by
      refine Classical.not_not.1 fun hread => hclash (.hidden h hheld hvalue hnone hjoined hread)
    rw [prevailing, hnone, hjoined, hvalue]
    exact husual.symm
  · exact absurd (.outranked hchoice hlow hhigh hlt) hclash

/-- Where layers clash, the settings that the joined tree gives are not those that prevail. -/
theorem not_agrees_of_clash (hlower : lower.IsLayer) (hupper : upper.IsLayer)
    (hloaded : ofValue (lower.overlay upper) = .ok settings) (hclash : Clash lower upper settings) :
    ¬∀ knob ∈ knobs, knob.Agrees (prevailing lower upper) settings := by
  obtain ⟨hforks, hjoined⟩ := (ofValue_eq_ok_iff _ (hlower.overlay hupper)).1 hloaded
  intro hagrees
  cases hclash with
  | forked hmem hfork => exact hforks _ hmem hfork
  | outranked hmem hlow hhigh hlt =>
    have hknob := List.mem_append_left details hmem
    rcases List.mem_cons.1 hmem with rfl | hsink
    · exact told_joined_of_outranked _ _ "reader_config" 0 hlower hupper hlow hhigh hlt
        (hjoined _ hknob _ rfl) (hagrees _ hknob _ rfl)
    · cases List.mem_singleton.1 hsink
      exact told_joined_of_outranked _ _ "sink_config" 1 hlower hupper hlow hhigh hlt
        (hjoined _ hknob _ rfl) (hagrees _ hknob _ rfl)
  | @hidden knob hmem hheld value hvalue hnone hmissing hread =>
    obtain ⟨kind, hkind⟩ := Option.isSome_iff_exists.1 hheld
    have husual := hjoined knob hmem kind hkind
    have hgiven := hagrees knob hmem kind hkind
    rw [hmissing] at husual
    rw [prevailing, hnone, hvalue] at hgiven
    exact hread (hgiven.trans husual.symm)

/-- The settings that joined layers give are those that prevail exactly if the layers do not
clash. -/
theorem agrees_iff_not_clash (hlower : lower.IsLayer) (hupper : upper.IsLayer)
    (hloaded : ofValue (lower.overlay upper) = .ok settings) :
    (∀ knob ∈ knobs, knob.Agrees (prevailing lower upper) settings) ↔
      ¬Clash lower upper settings := by
  refine ⟨fun hagrees hclash => not_agrees_of_clash hlower hupper hloaded hclash hagrees,
    fun hclash knob hmem kind hkind => ?_⟩
  have hjoined := ((ofValue_eq_ok_iff _ (hlower.overlay hupper)).1 hloaded).2 knob hmem kind hkind
  rw [← told_joined_of_not_clash hlower hupper hclash hmem (hkind ▸ rfl)]
  exact hjoined

/-- The settings that prevail are given by the joined layers exactly if these do not clash. -/
theorem ofValue_overlay_iff_not_clash (hlower : lower.IsLayer) (hupper : upper.IsLayer)
    (hagrees : ∀ knob ∈ knobs, knob.Agrees (prevailing lower upper) settings) :
    ofValue (lower.overlay upper) = .ok settings ↔ ¬Clash lower upper settings := by
  refine ⟨fun hloaded hclash => not_agrees_of_clash hlower hupper hloaded hclash hagrees,
    fun hclash => ?_⟩
  refine (ofValue_eq_ok_iff _ (hlower.overlay hupper)).2
    ⟨fun knob hmem hforks => hclash (.forked hmem hforks), fun knob hmem kind hkind => ?_⟩
  rw [told_joined_of_not_clash hlower hupper hclash hmem (hkind ▸ rfl)]
  exact hagrees knob hmem kind hkind

/-! ### Files on top of the environment -/

variable {path : String} {environment : List (String × String)} {store : FileStore}

theorem load_eq (hlower : Environment.layer environment = .ok lower)
    (hupper : fileLayer path store = .ok upper) :
    load (some path) environment store =
      (ofValue (lower.overlay upper)).mapError (.refused (some path)) := by
  have hlayers : layers (some path) environment store = .ok (lower.overlay upper) := by
    simp only [layers, hlower, hupper]
    rfl
  rw [load, hlayers]
  rfl

theorem load_eq_ok_iff (hlower : Environment.layer environment = .ok lower)
    (hupper : fileLayer path store = .ok upper) :
    load (some path) environment store = .ok settings ↔
      ofValue (lower.overlay upper) = .ok settings := by
  rw [load_eq hlower hupper, ← toOption_eq_some_iff, ← toOption_eq_some_iff, toOption_mapError]

/-- Without variables, only the file gives anything. -/
theorem prevailing_empty (h : knob ∈ knobs) :
    (Value.table .environment []).along? knob.way = none := by
  have hstep : ∀ names place, (Value.table .environment []).step? (.field names place) = none :=
    fun names _ => List.findSome?_eq_none_iff.2 fun _ _ => rfl
  revert knob
  simp [knobs, choices, details, RangeSource.knobs, FileSource.knobs, FetchLimits.knobs,
    SinkSettings.fileKnobs, RuntimeSettings.knobs, Knob.ofRecord, Knob.ofField, sourceChoice,
    sinkChoice, sourceWay, sinkWay, runtimeWay, Value.along?, hstep]

/-- Settings that a file gives on its own have every knob as the file gives it. -/
theorem agrees_of_alone (hupper : fileLayer path store = .ok upper)
    (hloaded : load (some path) [] store = .ok settings) (hmem : knob ∈ knobs) :
    knob.Agrees upper.along? settings := by
  have hlayer : Environment.layer [] = .ok (.table .environment []) := rfl
  rw [load_eq_ok_iff hlayer hupper] at hloaded
  have hclash : ¬Clash (.table .environment []) upper settings := by
    intro hclash
    cases hclash with
    | forked h hforks =>
      exact ((ofValue_eq_ok_iff _ (Value.isLayer_empty.overlay
        (isLayer_of_fileLayer hupper))).1 hloaded).1 _ h hforks
    | outranked h hlow =>
      rw [prevailing_empty (List.mem_append_left _ h)] at hlow
      cases hlow
    | hidden h _ hlower =>
      rw [prevailing_empty h] at hlower
      cases hlower
  intro kind hkind
  have hgiven := (agrees_iff_not_clash Value.isLayer_empty (isLayer_of_fileLayer hupper)
    hloaded).2 hclash knob hmem kind hkind
  rwa [prevailing, prevailing_empty hmem, Option.or_none] at hgiven

/-- A file wins over the environment exactly if the two do not clash.  Settings that are loaded have
every knob as the file gives it, or else as the environment gives it, or else as usual, exactly if
the layers do not clash over these settings; and settings that have every knob so are loaded
exactly if the layers do not clash over them.  In particular, variables that set nothing but what
the file sets as well change nothing, and refuse nothing, exactly if they do not clash with it. -/
theorem file_prevails_iff_not_clash (hlower : Environment.layer environment = .ok lower)
    (hupper : fileLayer path store = .ok upper) :
    (∀ settings, load (some path) environment store = .ok settings →
      ((∀ knob ∈ knobs, knob.Agrees (prevailing lower upper) settings) ↔
        ¬Clash lower upper settings)) ∧
    (∀ settings, (∀ knob ∈ knobs, knob.Agrees (prevailing lower upper) settings) →
      (load (some path) environment store = .ok settings ↔ ¬Clash lower upper settings)) ∧
    ∀ settings, load (some path) [] store = .ok settings →
      (∀ knob ∈ knobs, (knob.held settings).isSome → (lower.along? knob.way).isSome →
        (upper.along? knob.way).isSome) →
      (load (some path) environment store = .ok settings ↔ ¬Clash lower upper settings) := by
  have hbelow := Environment.isLayer_of_layer hlower
  have habove := isLayer_of_fileLayer hupper
  have hwins : ∀ settings, (∀ knob ∈ knobs, knob.Agrees (prevailing lower upper) settings) →
      (load (some path) environment store = .ok settings ↔ ¬Clash lower upper settings) :=
    fun settings hagrees => by
      rw [load_eq_ok_iff hlower hupper]
      exact ofValue_overlay_iff_not_clash hbelow habove hagrees
  refine ⟨fun settings hloaded => ?_, hwins, fun settings halone hgiven => hwins settings ?_⟩
  · rw [load_eq_ok_iff hlower hupper] at hloaded
    exact agrees_iff_not_clash hbelow habove hloaded
  · intro knob hmem kind hkind
    have hfile := agrees_of_alone hupper halone hmem kind hkind
    cases hfound : upper.along? knob.way with
    | some value => rwa [prevailing, hfound, Option.some_or, ← hfound]
    | none =>
      have hlower : lower.along? knob.way = none := by
        rw [← Option.not_isSome_iff_eq_none]
        intro hsome
        simpa [hfound] using hgiven knob hmem (hkind ▸ rfl) hsome
      rwa [prevailing, hlower, Option.or_none]

end Settings

/-! ### A file of settings -/

namespace Value

mutual

/-- Whether two values are the same. -/
def decEq : (a b : Value) → Decidable (a = b)
  | scalar origin content, scalar origin' content' =>
    decidable_of_iff (origin = origin' ∧ content = content') (by simp)
  | list origin items, list origin' items' =>
    have := decEqItems items items'
    decidable_of_iff (origin = origin' ∧ items = items') (by simp)
  | table origin entries, table origin' entries' =>
    have := decEqEntries entries entries'
    decidable_of_iff (origin = origin' ∧ entries = entries') (by simp)
  | scalar _ _, list _ _ | scalar _ _, table _ _ | list _ _, scalar _ _ | list _ _, table _ _
  | table _ _, scalar _ _ | table _ _, list _ _ => isFalse nofun

/-- Whether two lists have the same items. -/
def decEqItems : (a b : List Value) → Decidable (a = b)
  | [], [] => isTrue rfl
  | item :: rest, item' :: rest' =>
    have := decEq item item'
    have := decEqItems rest rest'
    decidable_of_iff (item = item' ∧ rest = rest') (by simp)
  | [], _ :: _ | _ :: _, [] => isFalse nofun

/-- Whether two tables have the same entries. -/
def decEqEntries : (a b : List (String × Value)) → Decidable (a = b)
  | [], [] => isTrue rfl
  | (key, value) :: rest, (key', value') :: rest' =>
    have := decEq value value'
    have := decEqEntries rest rest'
    decidable_of_iff (key = key' ∧ value = value' ∧ rest = rest') (by simp [and_assoc])
  | [], _ :: _ | _ :: _, [] => isFalse nofun

end

instance : DecidableEq Value := decEq

end Value

namespace Settings

/-- Generated numbers, kept in memory, with a queue of eight. -/
def tunedFile : String :=
  "sink_config = \"InMemory\"\n[reader_config.InMemory]\n[runtime]\nqueue_capacity = 8\n"

/-- The file at home. -/
def tunedStore : FileStore :=
  { FileStore.empty with
    entries := FileStore.empty.entries ++ [.file tunedFile.toUTF8.toList]
    names := FileStore.empty.names ++ [(["tmp", "home", "sfx.toml"], 6)] }

/-- What the file makes of them. -/
def tuned : Settings where
  source := .ranges {}
  sink := .memory
  runtime := { queueCapacity := 8 }

/-- The layer of the file. -/
def tunedLayer : Value :=
  let origin := .file "sfx.toml"
  .table origin
    [("reader_config", .table origin [("InMemory", .table origin [])]),
     ("runtime", .table origin [("queue_capacity", .scalar origin (.signed 8))]),
     ("sink_config", .scalar origin (.text "InMemory"))]

/-- A variable for the same setting and one for another. -/
def tuningVariables : List (String × String) :=
  [("SFX_RUNTIME__QUEUE_CAPACITY", "5"), ("SFX_RUNTIME__RECORD_LIMIT", "7")]

/-- The layer of the variables. -/
def tuningLayer : Value :=
  .table .environment [("runtime", .table .environment
    [("queue_capacity", .scalar .environment (.unsigned 5)),
     ("record_limit", .scalar .environment (.unsigned 7))])]

/-- What both make of them. -/
def retuned : Settings :=
  { tuned with runtime := { queueCapacity := 8, recordLimit := some 7 } }

theorem agrees_retuned :
    ∀ knob ∈ knobs, knob.Agrees (prevailing tuningLayer tunedLayer) retuned := by
  simp [knobs, choices, details, RangeSource.knobs, FileSource.knobs, FetchLimits.knobs,
    SinkSettings.fileKnobs, RuntimeSettings.knobs, Knob.ofRecord, Knob.ofField, sourceChoice,
    sinkChoice, sourceWay, sinkWay, runtimeWay, Knob.Agrees, told, prevailing, tuningLayer,
    tunedLayer, retuned, tuned, Value.along?, Value.step?, Value.part?, Value.entries,
    Entries.find?, SourceSettings.name, SourceSettings.ranges?, SourceSettings.files?, SinkSettings.name,
    SinkSettings.file?, Value.chosen?, Value.record?, Value.isRecord, Value.natural?,
    Value.asNatural, Except.toOption]

theorem fileLayer_tuned : fileLayer "sfx.toml" tunedStore = .ok tunedLayer :=
  toOption_eq_some_iff.1 (by decide +kernel)

/-- The file's capacity counts, and so does the limit that only a variable sets. -/
theorem tuned_file_prevails :
    Environment.layer tuningVariables = .ok tuningLayer ∧
      fileLayer "sfx.toml" tunedStore = .ok tunedLayer ∧
      (∀ knob ∈ knobs, knob.Agrees (prevailing tuningLayer tunedLayer) retuned) ∧
      load (some "sfx.toml") tuningVariables tunedStore = .ok retuned ∧
      ¬Clash tuningLayer tunedLayer retuned := by
  have hlower : Environment.layer tuningVariables = .ok tuningLayer :=
    toOption_eq_some_iff.1 (by decide +kernel)
  have hloaded : load (some "sfx.toml") tuningVariables tunedStore = .ok retuned :=
    (load_eq_ok_iff hlower fileLayer_tuned).2 (by rfl)
  exact ⟨hlower, fileLayer_tuned, agrees_retuned, hloaded,
    ((file_prevails_iff_not_clash hlower fileLayer_tuned).1 _ hloaded).1 agrees_retuned⟩

/-- The file is read on its own, but a variable that sets the same capacity by its former name makes
it an error. -/
theorem former_name_refused :
    load (some "sfx.toml") [] tunedStore = .ok tuned ∧
      load (some "sfx.toml") [("SFX_RUNTIME__ELEMENT_QUEUE_CAPACITY", "5")] tunedStore =
        .error (.refused (some "sfx.toml")
          ⟨["runtime"], some (.file "sfx.toml"), .duplicateField "queue_capacity"⟩) := by
  have hlower : Environment.layer [("SFX_RUNTIME__ELEMENT_QUEUE_CAPACITY", "5")] =
      .ok (.table .environment [("runtime", .table .environment
        [("element_queue_capacity", .scalar .environment (.unsigned 5))])]) :=
    toOption_eq_some_iff.1 (by decide +kernel)
  have hnothing : Environment.layer [] = .ok (.table .environment []) := rfl
  exact ⟨(load_eq_ok_iff hnothing fileLayer_tuned).2 (by rfl),
    (load_eq hlower fileLayer_tuned).trans (by rfl)⟩

/-- A variable may even choose another source than the file does, since `File` comes before
`InMemory`. -/
example :
    let files : Value := .table .environment [("files", .list .environment [])]
    let lower : Value := .table .environment [("reader_config", .table .environment
      [("File", files)])]
    ofValue (lower.overlay tunedLayer) = .ok { tuned with source := .files { files := [] } } := by
  rfl

end Settings

end SplitFeed
