/-
# Entries

Values under keys, in ascending order of the keys, each key once.  Putting a value under a key
changes what is found there and nowhere else.
-/

namespace SplitFeed

/-- Values under keys. -/
abbrev Entries (α : Type) := List (String × α)

namespace Entries

variable {α : Type}

/-- The value under a key. -/
def find? (key : String) : Entries α → Option α
  | [] => none
  | (head, value) :: rest => if head = key then some value else find? key rest

/-- Puts a value under a key, in place of the one that was there. -/
def put (key : String) (value : α) : Entries α → Entries α
  | [] => [(key, value)]
  | (head, old) :: rest =>
    if key < head then (key, value) :: (head, old) :: rest
    else if head = key then (key, value) :: rest
    else (head, old) :: put key value rest

@[simp]
theorem find?_nil (key : String) : find? key ([] : Entries α) = none := rfl

@[simp]
theorem find?_put_self (key : String) (value : α) (entries : Entries α) :
    (entries.put key value).find? key = some value := by
  induction entries with
  | nil => simp [put, find?]
  | cons entry rest ih =>
    unfold put
    split
    · simp [find?]
    · split
      · simp [find?]
      · next hne =>
          simp [find?, hne, ih]

theorem find?_put_of_ne {key other : String} (h : key ≠ other) (value : α)
    (entries : Entries α) : (entries.put key value).find? other = entries.find? other := by
  induction entries with
  | nil => simp [put, find?, h]
  | cons entry rest ih =>
    unfold put
    split
    · simp [find?, h]
    · split
      · next hsame =>
          simp [find?, hsame, h]
      · simp [find?, ih]

theorem mem_put {key : String} {value : α} {other : String × α} {entries : Entries α}
    (h : other ∈ entries.put key value) : other = (key, value) ∨ other ∈ entries := by
  induction entries with
  | nil => simpa [put] using h
  | cons entry rest ih =>
    unfold put at h
    split at h
    · simpa using h
    · split at h
      · exact (List.mem_cons.1 h).imp_right (List.mem_cons_of_mem _)
      · rcases List.mem_cons.1 h with rfl | hrest
        · exact .inr List.mem_cons_self
        · exact (ih hrest).imp_right (List.mem_cons_of_mem _)

/-- The keys stay in strictly ascending order. -/
theorem pairwise_put {key : String} {value : α} {entries : Entries α}
    (h : entries.Pairwise (·.1 < ·.1)) : (entries.put key value).Pairwise (·.1 < ·.1) := by
  induction entries with
  | nil => simp [put]
  | cons entry rest ih =>
    rw [List.pairwise_cons] at h
    unfold put
    split
    · next hlt =>
        refine List.pairwise_cons.2 ⟨fun other hmem => ?_, List.pairwise_cons.2 h⟩
        rcases List.mem_cons.1 hmem with rfl | hrest
        · exact hlt
        · exact String.lt_trans hlt (h.1 other hrest)
    · split
      · next hsame =>
          exact List.pairwise_cons.2 ⟨fun other hmem => hsame ▸ h.1 other hmem, h.2⟩
      · next hnlt hne =>
          refine List.pairwise_cons.2 ⟨fun other hmem => ?_, ih h.2⟩
          rcases mem_put hmem with rfl | hrest
          · exact Std.lt_of_le_of_ne (String.not_lt.1 hnlt) hne
          · exact h.1 other hrest

end Entries

end SplitFeed
