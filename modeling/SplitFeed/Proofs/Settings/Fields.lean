/-
# What a record is made of

A record is read from a table in the order of the table's keys, or from a list in the order of its
own fields.  Either way each field is entered at most once and none of them minds the others, so
what is read depends only on what the value gives for each field: its part under one of the
field's names, or at the field's place.
-/
import SplitFeed.Proofs.Settings.Order

namespace SplitFeed

section Outcomes

variable {ε ε' α β : Type}

theorem toOption_bind (result : Except ε α) (next : α → Except ε β) :
    (result >>= next).toOption = result.toOption.bind fun a => (next a).toOption := by
  cases result <;> rfl

theorem toOption_map (f : α → β) (result : Except ε α) :
    (f <$> result).toOption = result.toOption.map f := by
  cases result <;> rfl

theorem toOption_mapError (result : Except ε α) (f : ε → ε') :
    (result.mapError f).toOption = result.toOption := by
  cases result <;> rfl

theorem toOption_eq_some_iff {result : Except ε α} {a : α} :
    result.toOption = some a ↔ result = .ok a := by
  cases result <;> simp [Except.toOption]

theorem toOption_foldlM (f : β → α → Except ε β) (items : List α) (start : β) :
    (items.foldlM f start).toOption = items.foldlM (fun b a => (f b a).toOption) start := by
  induction items generalizing start with
  | nil => rfl
  | cons a rest ih =>
    rw [List.foldlM_cons, List.foldlM_cons, toOption_bind]
    exact congrArg _ (funext ih)

end Outcomes

/-! ### Parts of a value -/

/-- The part of a value that has one of some names or, in a list, a place. -/
def Value.part? (names : List String) (place : Nat) : Value → Option Value
  | .table _ entries => names.findSome? (Entries.find? · entries)
  | .list _ items => items[place]?
  | .scalar _ _ => none

/-- A value that can be read as a record at all. -/
def Value.isRecord : Value → Bool
  | .scalar _ _ => false
  | _ => true

/-- Two of some names are keys of one table. -/
def Value.Repeats (names : List String) : Value → Prop
  | .table _ entries => ∃ a ∈ names, ∃ b ∈ names, a ≠ b ∧
      (Entries.find? a entries).isSome ∧ (Entries.find? b entries).isSome
  | _ => False

namespace RecordField

variable {ρ : Type} {field : RecordField ρ} {key : String}

/-- All names of a field. -/
def names (field : RecordField ρ) : List String := field.name :: field.alias?.toList

theorem goesBy_iff : field.goesBy key ↔ key ∈ field.names := by
  simp only [goesBy, names, Bool.or_eq_true, beq_iff_eq, List.mem_cons, Option.mem_toList,
    eq_comm (a := key)]

/-- Enters what is given for a field, if anything is. -/
def receive (field : RecordField ρ) (given : Option Value) (record : ρ) : Option ρ :=
  match given with
  | some value => (field.enter value record).toOption
  | none => if field.isRequired then none else some record

theorem receive_some (value : Value) (record : ρ) :
    field.receive (some value) record = (field.enter value record).toOption := rfl

theorem receive_none (record : ρ) :
    field.receive none record = if field.isRequired then none else some record := rfl

/-- It does not matter which of two fields is entered first. -/
def Commutes (field other : RecordField ρ) : Prop :=
  ∀ value value' record,
    (field.enter value record).toOption.bind (fun record => (other.enter value' record).toOption) =
      (other.enter value' record).toOption.bind (fun record => (field.enter value record).toOption)

theorem toOption_reads {α : Type} (read : Reading α) (put : α → ρ → ρ) (value : Value)
    (record : ρ) :
    (reads read put value record).toOption = (read value).toOption.map (put · record) := by
  simp only [reads]
  cases read value <;> rfl

theorem commutes_of_reads {α β : Type} {read : Reading α} {put : α → ρ → ρ} {read' : Reading β}
    {put' : β → ρ → ρ} {other : RecordField ρ} (hfield : field.enter = reads read put)
    (hother : other.enter = reads read' put')
    (h : ∀ a b record, put a (put' b record) = put' b (put a record)) : field.Commutes other := by
  intro value value' record
  simp only [hfield, hother, reads]
  cases read value <;> cases read' value' <;>
    simp [Except.toOption, bind, Except.bind, pure, Except.pure, h]

end RecordField

namespace RecordShape

variable {ρ : Type} (shape : RecordShape ρ)

/-- No two fields share a name, and it does not matter which one is entered first. -/
structure IsOrderly : Prop where
  apart : shape.fields.Pairwise fun field other => ∀ name ∈ field.names, name ∉ other.names
  commute : shape.fields.Pairwise RecordField.Commutes

/-- The record that comes about when each field is entered in turn. -/
def assemble (given : RecordField ρ → Nat → Option Value) : Option ρ :=
  shape.fields.zipIdx.foldlM
    (fun record (field, place) => field.receive (given field place) record) shape.blank

/-- A table gives one of the fields under two names. -/
def Doubles (value : Value) : Prop :=
  ∃ field ∈ shape.fields, value.Repeats field.names

end RecordShape

/-! ### Entering what is given -/

namespace RecordField

variable {ρ : Type}

/-- Enters what is given for some fields, whether or not they have to be given. -/
def supply (given : RecordField ρ → Option Value) (fields : List (RecordField ρ)) (record : ρ) :
    Option ρ :=
  fields.foldlM
    (fun record field => (given field).elim (some record) fun value =>
      (field.enter value record).toOption)
    record

theorem supply_cons (given : RecordField ρ → Option Value) (field : RecordField ρ)
    (fields : List (RecordField ρ)) (record : ρ) :
    supply given (field :: fields) record =
      ((given field).elim (some record) fun value => (field.enter value record).toOption).bind
        (supply given fields) := rfl

theorem supply_append (given : RecordField ρ → Option Value) (front rest : List (RecordField ρ))
    (record : ρ) :
    supply given (front ++ rest) record = (supply given front record).bind (supply given rest) :=
  List.foldlM_append

theorem supply_none (fields : List (RecordField ρ)) (record : ρ) :
    supply (fun _ => none) fields record = some record := by
  induction fields with
  | nil => rfl
  | cons field rest ih => exact ih

theorem supply_congr {given given' : RecordField ρ → Option Value}
    {fields : List (RecordField ρ)} (h : ∀ field ∈ fields, given field = given' field) :
    supply given fields = supply given' fields := by
  funext record
  induction fields generalizing record with
  | nil => rfl
  | cons field rest ih =>
    obtain ⟨hfirst, hrest⟩ := List.forall_mem_cons.1 h
    rw [supply_cons, supply_cons, hfirst]
    exact congrArg _ (funext (ih hrest))

/-- A field that commutes with others may be entered before them. -/
theorem supply_bind_enter {given : RecordField ρ → Option Value} {fields : List (RecordField ρ)}
    {field : RecordField ρ} (h : ∀ other ∈ fields, other.Commutes field) (value : Value)
    (record : ρ) :
    (supply given fields record).bind (fun record => (field.enter value record).toOption) =
      (field.enter value record).toOption.bind (supply given fields) := by
  induction fields generalizing record with
  | nil => exact (Option.bind_fun_some _).symm
  | cons other rest ih =>
    obtain ⟨hother, hrest⟩ := List.forall_mem_cons.1 h
    have hswap : ∀ record, ((given other).elim (some record) fun value =>
        (other.enter value record).toOption).bind
          (fun record => (field.enter value record).toOption) =
        (field.enter value record).toOption.bind fun record =>
          (given other).elim (some record) fun value => (other.enter value record).toOption := by
      intro record
      cases given other with
      | none => exact (Option.bind_fun_some _).symm
      | some value' => exact hother value' value record
    simp only [supply_cons, Option.bind_assoc, ih hrest]
    rw [← Option.bind_assoc, hswap, Option.bind_assoc]
    rfl

/-- Where one field more is given, it can be entered first. -/
theorem supply_of_given {given given' : RecordField ρ → Option Value}
    {fields : List (RecordField ρ)} {field : RecordField ρ} {value : Value}
    (hcommute : fields.Pairwise Commutes) (hmem : field ∈ fields)
    (hnew : given' field = some value) (hold : given field = none)
    (hothers : ∀ front rest, fields = front ++ field :: rest →
      ∀ other ∈ front ++ rest, given' other = given other) (record : ρ) :
    supply given' fields record =
      (field.enter value record).toOption.bind (supply given fields) := by
  obtain ⟨front, rest, rfl⟩ := List.append_of_mem hmem
  have hsame := hothers front rest rfl
  have hfront : supply given' front = supply given front :=
    supply_congr fun other h => hsame other (List.mem_append_left _ h)
  have hrest : supply given' rest = supply given rest :=
    supply_congr fun other h => hsame other (List.mem_append_right _ h)
  have hbefore : ∀ other ∈ front, other.Commutes field := fun other h =>
    (List.pairwise_append.1 hcommute).2.2 other h field List.mem_cons_self
  calc supply given' (front ++ field :: rest) record
      = ((supply given front record).bind fun record =>
          (field.enter value record).toOption).bind (supply given rest) := by
        rw [supply_append, hfront, Option.bind_assoc]
        congr 1
        funext between
        rw [supply_cons, hnew, hrest]
        rfl
    _ = (field.enter value record).toOption.bind (supply given (front ++ field :: rest)) := by
        rw [supply_bind_enter hbefore, Option.bind_assoc]
        congr 1
        funext between
        rw [supply_append]
        congr 1
        funext last
        rw [supply_cons, hold]
        rfl

end RecordField

/-! ### Tables -/

/-- What stands under the first of some names that is a key. -/
def Entries.under (names : List String) (entries : Entries Value) : Option Value :=
  names.findSome? (Entries.find? · entries)

namespace Entries

variable {names : List String} {key : String} {value : Value} {rest : Entries Value}

theorem isSome_under_iff {entries : Entries Value} :
    (under names entries).isSome ↔ ∃ name ∈ names, (Entries.find? name entries).isSome := by
  simp [under, List.isSome_findSome?]

theorem under_cons_of_notMem (h : key ∉ names) :
    under names ((key, value) :: rest) = under names rest := by
  unfold under
  induction names with
  | nil => rfl
  | cons name more ih =>
    obtain ⟨hname, hmore⟩ := not_or.1 (mt List.mem_cons.2 h)
    rw [List.findSome?_cons, List.findSome?_cons, Entries.find?, if_neg hname, ih hmore]

/-- Under one name only, that is what stands there. -/
theorem under_cons_of_mem (h : key ∈ names) (hrest : under names rest = none) :
    under names ((key, value) :: rest) = some value := by
  unfold under at hrest ⊢
  rw [List.findSome?_eq_none_iff] at hrest
  induction names with
  | nil => cases h
  | cons name more ih =>
    rw [List.findSome?_cons, Entries.find?]
    obtain ⟨hname, hmore⟩ := List.forall_mem_cons.1 hrest
    by_cases heq : key = name
    · rw [if_pos heq]
    · rw [if_neg heq, hname]
      exact ih ((List.mem_cons.1 h).resolve_left heq) hmore

theorem isSome_find?_cons {name : String} :
    (Entries.find? name ((key, value) :: rest)).isSome ↔
      key = name ∨ (Entries.find? name rest).isSome := by
  by_cases h : key = name <;> simp [Entries.find?, h]

end Entries

namespace RecordField

variable {ρ : Type} {fields : List (RecordField ρ)} {field other : RecordField ρ} {key : String}

/-- Fields without common names are found by any of their names. -/
theorem find?_goesBy
    (hapart : fields.Pairwise fun field other => ∀ name ∈ field.names, name ∉ other.names)
    (hmem : field ∈ fields) (hkey : key ∈ field.names) :
    fields.find? (·.goesBy key) = some field := by
  induction fields with
  | nil => cases hmem
  | cons first rest ih =>
    obtain ⟨hfirst, hrest⟩ := List.pairwise_cons.1 hapart
    rcases List.mem_cons.1 hmem with rfl | hlater
    · exact List.find?_cons_of_pos (goesBy_iff.2 hkey)
    · rw [List.find?_cons_of_neg, ih hrest hlater]
      exact fun hgoes => hfirst field hlater key (goesBy_iff.1 hgoes) hkey

theorem eq_of_shared
    (hapart : fields.Pairwise fun field other => ∀ name ∈ field.names, name ∉ other.names)
    (hmem : field ∈ fields) (hother : other ∈ fields) (hkey : key ∈ field.names)
    (hshared : key ∈ other.names) : field = other :=
  Option.some.inj ((find?_goesBy hapart hmem hkey).symm.trans (find?_goesBy hapart hother hshared))

theorem ne_of_apart {front rest : List (RecordField ρ)}
    (hapart : (front ++ field :: rest).Pairwise
      fun field other => ∀ name ∈ field.names, name ∉ other.names)
    (hother : other ∈ front ++ rest) : other ≠ field := by
  obtain ⟨-, hrest, hacross⟩ := List.pairwise_append.1 hapart
  have hname : field.name ∈ field.names := List.mem_cons_self
  rintro rfl
  rcases List.mem_append.1 hother with hfront | hlater
  · exact hacross other hfront other List.mem_cons_self _ hname hname
  · exact (List.pairwise_cons.1 hrest).1 other hlater _ hname hname

/-- What is given for a field, with what was entered before, is too much. -/
def Exceeds (field : RecordField ρ) (given : List String) (entries : Entries Value) : Prop :=
  (field.name ∈ given ∧ (Entries.under field.names entries).isSome) ∨
    ∃ a ∈ field.names, ∃ b ∈ field.names, a ≠ b ∧
      (Entries.find? a entries).isSome ∧ (Entries.find? b entries).isSome

/-- One entry more does not make it less. -/
theorem Exceeds.cons {given : List String} {entries : Entries Value}
    (h : field.Exceeds given entries) (key : String) (value : Value) :
    field.Exceeds given ((key, value) :: entries) := by
  have hpresent : ∀ name, (Entries.find? name entries).isSome →
      (Entries.find? name ((key, value) :: entries)).isSome := fun name hname =>
    Entries.isSome_find?_cons.2 (.inr hname)
  rcases h with ⟨hgiven, hunder⟩ | ⟨a, ha, b, hb, hne, hfirst, hsecond⟩
  · obtain ⟨name, hname, hfound⟩ := Entries.isSome_under_iff.1 hunder
    exact .inl ⟨hgiven, Entries.isSome_under_iff.2 ⟨name, hname, hpresent name hfound⟩⟩
  · exact .inr ⟨a, ha, b, hb, hne, hpresent a hfirst, hpresent b hsecond⟩

end RecordField

namespace RecordShape

variable {ρ : Type} {shape : RecordShape ρ} {whole : Value} {field : RecordField ρ}
  {given : List String} {record : ρ} {key : String} {value : Value} {entries : Entries Value}

theorem enter_of_foreign (h : ∀ field ∈ shape.fields, key ∉ field.names) :
    shape.enter whole (record, given) (key, value) = .ok (record, given) := by
  have hnone : shape.fields.find? (·.goesBy key) = none :=
    List.find?_eq_none.2 fun field hmem hgoes => h field hmem (RecordField.goesBy_iff.1 hgoes)
  simp [enter, hnone]

theorem enter_of_field (hshape : shape.IsOrderly) (hmem : field ∈ shape.fields)
    (hkey : key ∈ field.names) :
    (shape.enter whole (record, given) (key, value)).toOption =
      if field.name ∈ given then none
      else (field.enter value record).toOption.map (·, field.name :: given) := by
  simp only [enter, RecordField.find?_goesBy hshape.apart hmem hkey, List.contains_iff_mem]
  split
  · rfl
  · cases field.enter value record <;> rfl

/-- Nothing that was entered is forgotten. -/
theorem mem_of_enter {sofar : ρ × List String}
    (h : (shape.enter whole (record, given) (key, value)).toOption = some sofar) {name : String}
    (hname : name ∈ given) : name ∈ sofar.2 := by
  rw [toOption_eq_some_iff] at h
  simp only [enter] at h
  split at h
  · cases h
    exact hname
  · split at h
    · cases h
    · next field _ _ =>
        cases henter : field.enter value record with
        | error complaint =>
          rw [henter] at h
          cases h
        | ok next =>
          rw [henter] at h
          cases h
          exact List.mem_cons_of_mem _ hname

/-- A field that is given twice is refused. -/
theorem refused_of_exceeds (hshape : shape.IsOrderly) (hmem : field ∈ shape.fields)
    (h : field.Exceeds given entries) :
    (entries.foldlM (shape.enter whole) (record, given)).toOption = none := by
  induction entries generalizing record given with
  | nil => simp [RecordField.Exceeds, Entries.under] at h
  | cons entry rest ih =>
    obtain ⟨key, value⟩ := entry
    rw [List.foldlM_cons, toOption_bind, Option.bind_eq_none_iff]
    intro sofar hsofar
    apply ih
    by_cases hkey : key ∈ field.names
    · rw [enter_of_field hshape hmem hkey] at hsofar
      split at hsofar
      · cases hsofar
      · next hnew =>
          obtain ⟨next, -, rfl⟩ := Option.map_eq_some_iff.1 hsofar
          refine .inl ⟨List.mem_cons_self, Entries.isSome_under_iff.2 ?_⟩
          obtain ⟨a, ha, b, hb, hne, hfirst, hsecond⟩ := h.resolve_left fun hgiven => hnew hgiven.1
          rcases Entries.isSome_find?_cons.1 hfirst with rfl | hfound
          · exact ⟨b, hb, (Entries.isSome_find?_cons.1 hsecond).resolve_left hne⟩
          · exact ⟨a, ha, hfound⟩
    · have hother : ∀ name ∈ field.names, key ≠ name := fun name hname heq => hkey (heq ▸ hname)
      refine h.imp (fun hgiven => ⟨mem_of_enter hsofar hgiven.1, ?_⟩) ?_
      · rw [← Entries.under_cons_of_notMem hkey]
        exact hgiven.2
      · rintro ⟨a, ha, b, hb, hne, hfirst, hsecond⟩
        exact ⟨a, ha, b, hb, hne,
          (Entries.isSome_find?_cons.1 hfirst).resolve_left (hother a ha),
          (Entries.isSome_find?_cons.1 hsecond).resolve_left (hother b hb)⟩

/-- What exceeds later exceeds now: nothing that was entered is given again. -/
theorem exceeds_cons (hshape : shape.IsOrderly) {other : RecordField ρ}
    (hmem : field ∈ shape.fields) (hother : other ∈ shape.fields) (hkey : key ∈ field.names)
    (hnew : key ∉ entries.map (·.1)) (h : other.Exceeds (field.name :: given) entries) :
    other.Exceeds given ((key, value) :: entries) ∨
      field.Exceeds given ((key, value) :: entries) := by
  rcases h with ⟨hgiven, hunder⟩ | hrepeats
  · rcases List.mem_cons.1 hgiven with heq | hbefore
    · have hsame : other = field := RecordField.eq_of_shared hshape.apart hother hmem
        (List.mem_cons_self : other.name ∈ other.names) (heq ▸ List.mem_cons_self)
      subst hsame
      obtain ⟨name, hname, hfound⟩ := Entries.isSome_under_iff.1 hunder
      refine .inr (.inr ⟨key, hkey, name, hname, ?_, Entries.isSome_find?_cons.2 (.inl rfl),
        Entries.isSome_find?_cons.2 (.inr hfound)⟩)
      rintro rfl
      obtain ⟨found, hfound⟩ := Option.isSome_iff_exists.1 hfound
      exact hnew (List.mem_map.2 ⟨_, Entries.mem_of_find? hfound, rfl⟩)
    · exact .inl (RecordField.Exceeds.cons (.inl ⟨hbefore, hunder⟩) key value)
  · exact .inl (RecordField.Exceeds.cons (.inr hrepeats) key value)

/-- An entry of one field is of no concern to the others. -/
theorem under_cons_of_ne (hshape : shape.IsOrderly) {other : RecordField ρ}
    (hmem : field ∈ shape.fields) (hother : other ∈ shape.fields) (hkey : key ∈ field.names)
    (hne : other ≠ field) :
    Entries.under other.names ((key, value) :: entries) = Entries.under other.names entries :=
  Entries.under_cons_of_notMem fun hshared =>
    hne (RecordField.eq_of_shared hshape.apart hother hmem hshared hkey)

/-- The entry of a field that is not given again may be entered before the rest. -/
theorem supply_cons_of_mem (hshape : shape.IsOrderly) (hmem : field ∈ shape.fields)
    (hkey : key ∈ field.names) (hrest : Entries.under field.names entries = none) (record : ρ) :
    RecordField.supply (fun field => Entries.under field.names ((key, value) :: entries))
        shape.fields record =
      (field.enter value record).toOption.bind
        (RecordField.supply (fun field => Entries.under field.names entries) shape.fields) := by
  refine RecordField.supply_of_given hshape.commute hmem (Entries.under_cons_of_mem hkey hrest)
    hrest (fun front later hsplit other hother => ?_) record
  have hin : other ∈ shape.fields := by
    rw [hsplit]
    exact List.mem_append.2 ((List.mem_append.1 hother).imp_right (List.mem_cons_of_mem _))
  exact under_cons_of_ne hshape hmem hin hkey
    (RecordField.ne_of_apart (hsplit ▸ hshape.apart) hother)

/-- After the entry of a field, what is entered is that field and whatever the rest enters. -/
theorem mem_entered_cons (hshape : shape.IsOrderly) (hmem : field ∈ shape.fields)
    (hkey : key ∈ field.names) {entered : List String}
    (h : ∀ other ∈ shape.fields, other.name ∈ entered ↔
      other.name ∈ field.name :: given ∨ (Entries.under other.names entries).isSome)
    {other : RecordField ρ} (hother : other ∈ shape.fields) :
    other.name ∈ entered ↔
      other.name ∈ given ∨ (Entries.under other.names ((key, value) :: entries)).isSome := by
  rw [h other hother]
  by_cases heq : other = field
  · have hpresent : (Entries.under field.names ((key, value) :: entries)).isSome :=
      Entries.isSome_under_iff.2 ⟨key, hkey, Entries.isSome_find?_cons.2 (.inl rfl)⟩
    simp [heq, hpresent]
  · have hname : other.name ≠ field.name := fun hname =>
      heq (RecordField.eq_of_shared hshape.apart hother hmem
        (List.mem_cons_self : other.name ∈ other.names) (hname ▸ List.mem_cons_self))
    simp [under_cons_of_ne hshape hmem hother hkey heq, hname]

/-- If no field is given twice, all that is given is entered, and it is known which fields were. -/
theorem entered_of_not_exceeds (whole : Value) (record : ρ) (hshape : shape.IsOrderly)
    (hkeys : (entries.map (·.1)).Nodup)
    (h : ∀ field ∈ shape.fields, ¬field.Exceeds given entries) :
    ∃ entered, (entries.foldlM (shape.enter whole) (record, given)).toOption =
        (RecordField.supply (fun field => Entries.under field.names entries) shape.fields
          record).map (·, entered) ∧
      ∀ field ∈ shape.fields, field.name ∈ entered ↔
        field.name ∈ given ∨ (Entries.under field.names entries).isSome := by
  induction entries generalizing record given with
  | nil =>
    have hnone : ∀ field : RecordField ρ, Entries.under field.names [] = none := fun field => by
      simp [Entries.under]
    refine ⟨given, ?_, by simp [hnone]⟩
    simp only [hnone, RecordField.supply_none]
    rfl
  | cons entry rest ih =>
    obtain ⟨key, value⟩ := entry
    obtain ⟨hnew, hkeys⟩ := List.nodup_cons.1 hkeys
    rw [List.foldlM_cons, toOption_bind]
    by_cases hforeign : ∀ field ∈ shape.fields, key ∉ field.names
    · -- A key of no field is passed over.
      have hsame : ∀ field ∈ shape.fields,
          Entries.under field.names ((key, value) :: rest) = Entries.under field.names rest :=
        fun field hmem => Entries.under_cons_of_notMem (hforeign field hmem)
      have hlater : ∀ field ∈ shape.fields, ¬field.Exceeds given rest :=
        fun field hmem hexceeds => h field hmem (hexceeds.cons key value)
      obtain ⟨entered, hfold, hentered⟩ := ih record hkeys hlater
      refine ⟨entered, ?_, fun field hmem => hsame field hmem ▸ hentered field hmem⟩
      rw [enter_of_foreign hforeign, RecordField.supply_congr hsame]
      exact hfold
    · obtain ⟨field, hmem, hkey⟩ : ∃ field ∈ shape.fields, key ∈ field.names := by
        simpa using hforeign
      have hlater : ∀ other ∈ shape.fields, ¬other.Exceeds (field.name :: given) rest :=
        fun other hother hexceeds =>
          (exceeds_cons hshape hmem hother hkey hnew hexceeds).elim (h other hother) (h field hmem)
      have hrest : Entries.under field.names rest = none := by
        rw [← Option.not_isSome_iff_eq_none]
        exact fun hsome => hlater field hmem (.inl ⟨List.mem_cons_self, hsome⟩)
      have hfresh : field.name ∉ given := fun hgiven =>
        h field hmem (.inl ⟨hgiven, by simp [Entries.under_cons_of_mem hkey hrest]⟩)
      rw [enter_of_field hshape hmem hkey, if_neg hfresh,
        supply_cons_of_mem hshape hmem hkey hrest]
      cases (field.enter value record).toOption with
      | none =>
        obtain ⟨entered, -, hentered⟩ := ih record hkeys hlater
        exact ⟨entered, rfl, fun _ => mem_entered_cons hshape hmem hkey hentered⟩
      | some next =>
        obtain ⟨entered, hfold, hentered⟩ := ih next hkeys hlater
        exact ⟨entered, hfold, fun _ => mem_entered_cons hshape hmem hkey hentered⟩

/-- Where places do not matter, each field that has to be given is, or nothing comes about. -/
theorem assemble_eq_supply (given : RecordField ρ → Option Value) :
    shape.assemble (fun field _ => given field) =
      if shape.fields.any fun field => field.isRequired && (given field).isNone then none
      else RecordField.supply given shape.fields shape.blank := by
  have hplain : shape.assemble (fun field _ => given field) =
      shape.fields.foldlM (fun record field => field.receive (given field) record) shape.blank := by
    have hfields := congrArg
      (List.foldlM (fun record field => RecordField.receive field (given field) record) shape.blank)
      (List.zipIdx_map_fst 0 shape.fields)
    rw [← hfields, List.foldlM_map]
    rfl
  rw [hplain]
  generalize shape.blank = record
  induction shape.fields generalizing record with
  | nil => rfl
  | cons field rest ih =>
    rw [List.foldlM_cons, RecordField.supply_cons, List.any_cons]
    cases hgiven : given field with
    | none =>
      cases hrequired : field.isRequired with
      | true => simp [RecordField.receive_none, hrequired]
      | false => simpa [RecordField.receive_none, hrequired] using ih record
    | some value =>
      simp only [RecordField.receive_some, Option.isNone_some, Bool.and_false, Bool.false_or,
        Option.elim_some]
      cases (field.enter value record).toOption with
      | none => simp
      | some next => simpa using ih next

theorem read_table_of_doubles (hshape : shape.IsOrderly) {origin : Origin}
    (h : shape.Doubles (.table origin entries)) :
    (shape.read (.table origin entries)).toOption = none := by
  obtain ⟨field, hmem, hrepeats⟩ := h
  rw [read, toOption_bind, refused_of_exceeds hshape hmem (.inr hrepeats)]
  rfl

theorem read_table_of_not_doubles (hshape : shape.IsOrderly) {origin : Origin}
    (hkeys : (entries.map (·.1)).Nodup) (h : ¬shape.Doubles (.table origin entries)) :
    (shape.read (.table origin entries)).toOption =
      shape.assemble fun field _ => Entries.under field.names entries := by
  have hexceeds : ∀ field ∈ shape.fields, ¬field.Exceeds [] entries := by
    rintro field hmem (hgiven | hrepeats)
    · exact absurd hgiven.1 (List.not_mem_nil)
    · exact h ⟨field, hmem, hrepeats⟩
  obtain ⟨entered, hfold, hentered⟩ :=
    entered_of_not_exceeds (.table origin entries) shape.blank hshape hkeys hexceeds
  have hmissing : (shape.fields.find? fun field =>
        field.isRequired && !entered.contains field.name).isNone =
      !shape.fields.any fun field =>
        field.isRequired && (Entries.under field.names entries).isNone := by
    rw [Bool.eq_iff_iff]
    simp only [Option.isNone_iff_eq_none, List.find?_eq_none, List.any_eq_false,
      Bool.and_eq_true, Bool.not_eq_eq_eq_not, Bool.not_true]
    refine forall₂_congr fun field hmem => not_congr (and_congr_right fun _ => ?_)
    rw [← Bool.not_eq_true, List.contains_iff_mem, hentered field hmem]
    simp
  rw [read, toOption_bind, hfold, assemble_eq_supply]
  cases RecordField.supply (fun field => Entries.under field.names entries) shape.fields
      shape.blank with
  | none => simp
  | some record =>
    simp only [Option.map_some, Option.bind_some]
    cases hfind : shape.fields.find? fun field =>
        field.isRequired && !entered.contains field.name with
    | none =>
      rw [hfind] at hmissing
      rw [if_neg (by simpa using hmissing)]
      rfl
    | some field =>
      rw [hfind] at hmissing
      rw [if_pos (by simpa using hmissing)]
      rfl

/-- A record is read exactly if the value can be one, gives no field twice, and the fields it gives
make up the record. -/
theorem read_eq_ok_iff (hshape : shape.IsOrderly) {value : Value} (hvalue : value.IsOrdered) :
    shape.read value = .ok record ↔
      value.isRecord ∧ ¬shape.Doubles value ∧
        shape.assemble (fun field place => value.part? field.names place) = some record := by
  rw [← toOption_eq_some_iff]
  cases value with
  | scalar origin content => simp [read, Value.isRecord, Except.toOption]
  | list origin items =>
    have hlist : (shape.read (.list origin items)).toOption =
        shape.assemble fun field place => (Value.list origin items).part? field.names place := by
      rw [read, ofItems, toOption_foldlM]
      unfold assemble
      congr 1
      funext record ⟨field, place⟩
      simp only [Value.part?, RecordField.receive]
      cases items[place]? with
      | none => cases field.isRequired <;> rfl
      | some value => exact toOption_mapError _ _
    simp [hlist, Value.isRecord, Doubles, Value.Repeats]
  | table origin entries =>
    have hkeys := (Value.isOrdered_table_iff.1 hvalue).nodup
    by_cases hdoubles : shape.Doubles (.table origin entries)
    · simp [read_table_of_doubles hshape hdoubles, hdoubles]
    · rw [read_table_of_not_doubles hshape hkeys hdoubles]
      simp [Value.isRecord, hdoubles, Value.part?, Entries.under]

end RecordShape

end SplitFeed
