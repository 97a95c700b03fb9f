/-
# Sets of split ids

A finite set of ids, kept as a strictly ascending list, so that two sets with the same members
are equal and walking a set visits its members in order.
-/

namespace SplitFeed

/-- A set of ids in ascending order, each once. -/
structure IdSet where
  toList : List String
  ascending : toList.Pairwise (· < ·)
deriving DecidableEq

namespace IdSet

/-- The set without members. -/
def empty : IdSet := ⟨[], .nil⟩

instance : EmptyCollection IdSet := ⟨empty⟩
instance : Inhabited IdSet := ⟨empty⟩

/-- Inserts an id into an ascending list unless it is there. -/
def insertInto (id : String) : List String → List String
  | [] => [id]
  | head :: rest =>
    if id < head then id :: head :: rest
    else if id = head then head :: rest
    else head :: insertInto id rest

theorem mem_insertInto {id other : String} {ids : List String} :
    other ∈ insertInto id ids ↔ other = id ∨ other ∈ ids := by
  induction ids with
  | nil => simp [insertInto]
  | cons head rest ih =>
    unfold insertInto
    split
    · simp
    · split
      · next hsame =>
          simp [hsame]
      · simp [ih]
        grind

theorem pairwise_insertInto {id : String} {ids : List String}
    (h : ids.Pairwise (· < ·)) : (insertInto id ids).Pairwise (· < ·) := by
  induction ids with
  | nil => simp [insertInto]
  | cons head rest ih =>
    rw [List.pairwise_cons] at h
    unfold insertInto
    split
    · next hlt =>
        refine List.pairwise_cons.2 ⟨fun other hmem => ?_, List.pairwise_cons.2 h⟩
        rcases List.mem_cons.1 hmem with rfl | hrest
        · exact hlt
        · exact String.lt_trans hlt (h.1 other hrest)
    · split
      · exact List.pairwise_cons.2 h
      · next hnlt hne =>
          refine List.pairwise_cons.2 ⟨fun other hmem => ?_, ih h.2⟩
          rcases mem_insertInto.1 hmem with rfl | hrest
          · exact Std.lt_of_le_of_ne (String.not_lt.1 hnlt) (Ne.symm hne)
          · exact h.1 other hrest

/-- The set with one more member. -/
def insert (id : String) (ids : IdSet) : IdSet :=
  ⟨insertInto id ids.toList, pairwise_insertInto ids.ascending⟩

/-- The members of a list, as a set. -/
def ofList (ids : List String) : IdSet :=
  ids.foldl (fun set id => set.insert id) empty

/-- The members that pass a test. -/
def filter (keep : String → Bool) (ids : IdSet) : IdSet :=
  ⟨ids.toList.filter keep, ids.ascending.filter keep⟩

/-- The set without an id. -/
def erase (id : String) (ids : IdSet) : IdSet :=
  ids.filter (· != id)

/-- Whether an id is a member. -/
def contains (id : String) (ids : IdSet) : Bool := ids.toList.contains id

/-- Whether there are no members. -/
def isEmpty (ids : IdSet) : Bool := ids.toList.isEmpty

/-- Number of members. -/
def size (ids : IdSet) : Nat := ids.toList.length

@[simp]
theorem toList_empty : (empty : IdSet).toList = [] := rfl

@[simp]
theorem toList_filter (keep : String → Bool) (ids : IdSet) :
    (ids.filter keep).toList = ids.toList.filter keep := rfl

@[simp]
theorem mem_toList_insert {id other : String} {ids : IdSet} :
    other ∈ (ids.insert id).toList ↔ other = id ∨ other ∈ ids.toList :=
  mem_insertInto

end IdSet

end SplitFeed
