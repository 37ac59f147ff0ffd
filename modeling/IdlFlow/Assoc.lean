/-
  Association lists in the order in which their keys first came.

  Inserting under a known key replaces the value in place.  `find?_insert` is
  the one law of looking up, `isSome_find?_iff` says which keys are found;
  `nodup_keys_insert` says that a list built by inserting holds every key once.
-/
namespace IdlFlow

/-- Values under keys, in the order of the keys' first insertion. -/
abbrev Assoc (κ α : Type) := List (κ × α)

namespace Assoc

variable {κ α : Type} [DecidableEq κ]

/-- The value under a key. -/
def find? (key : κ) : Assoc κ α → Option α
  | [] => none
  | (k, value) :: entries => if k = key then some value else find? key entries

/-- Puts a value under a key: in the place of the old value, or last. -/
def insert (key : κ) (value : α) : Assoc κ α → Assoc κ α
  | [] => [(key, value)]
  | (k, old) :: entries =>
    if k = key then (k, value) :: entries else (k, old) :: insert key value entries

/-- The keys in order. -/
def keys (entries : Assoc κ α) : List κ := entries.map Prod.fst

/-- Inserts all pairs, from the first to the last. -/
def ofList (pairs : List (κ × α)) : Assoc κ α :=
  pairs.foldl (fun entries pair => insert pair.1 pair.2 entries) []

theorem find?_insert (key other : κ) (value : α) (entries : Assoc κ α) :
    find? other (insert key value entries) =
      if key = other then some value else find? other entries := by
  induction entries with
  | nil => simp [insert, find?]
  | cons e entries ih =>
    obtain ⟨k, old⟩ := e
    by_cases hk : k = key
    · subst hk; by_cases ho : k = other <;> simp [insert, find?, ho]
    · by_cases ho : k = other
      · subst ho; simp [insert, find?, hk, Ne.symm hk]
      · simp [insert, find?, hk, ih, ho]

theorem keys_insert (key : κ) (value : α) (entries : Assoc κ α) :
    keys (insert key value entries) =
      if key ∈ keys entries then keys entries else keys entries ++ [key] := by
  induction entries with
  | nil => simp [insert, keys]
  | cons e entries ih =>
    obtain ⟨k, old⟩ := e
    simp only [keys, List.map_cons] at ih ⊢
    by_cases hk : k = key
    · simp [insert, hk]
    · have hk' : key ≠ k := Ne.symm hk
      simp only [insert, if_neg hk, List.map_cons, ih, List.mem_cons, hk', false_or]
      by_cases mem : key ∈ List.map Prod.fst entries <;> simp [mem]

theorem nodup_keys_insert {entries : Assoc κ α} (h : (keys entries).Nodup) (key : κ)
    (value : α) : (keys (insert key value entries)).Nodup := by
  rw [keys_insert]
  split
  · exact h
  · next hk => exact List.nodup_append.2 ⟨h, by simp, fun a ha b hb => by
      rw [List.mem_singleton.1 hb]; rintro rfl; exact hk ha⟩

theorem isSome_find?_iff {key : κ} {entries : Assoc κ α} :
    (entries.find? key).isSome = true ↔ key ∈ entries.keys := by
  induction entries with
  | nil => simp [find?, keys]
  | cons e entries ih =>
    obtain ⟨k, v⟩ := e
    by_cases hk : k = key
    · simp [find?, keys, hk]
    · simpa [find?, keys, hk, Ne.symm hk] using ih

theorem mem_of_find? {key : κ} {value : α} {entries : Assoc κ α}
    (h : entries.find? key = some value) : (key, value) ∈ entries := by
  induction entries with
  | nil => cases h
  | cons e entries ih =>
    obtain ⟨k, v⟩ := e
    rw [find?] at h
    split at h
    · next same =>
      cases h
      rw [same]
      exact List.mem_cons_self
    · exact List.mem_cons_of_mem _ (ih h)

/-- Under distinct keys every pair is found. -/
theorem find?_of_mem {key : κ} {value : α} {entries : Assoc κ α} (distinct : entries.keys.Nodup)
    (h : (key, value) ∈ entries) : entries.find? key = some value := by
  induction entries with
  | nil => cases h
  | cons e entries ih =>
    obtain ⟨k, v⟩ := e
    obtain ⟨new, distinct⟩ := List.nodup_cons.1 distinct
    rw [find?]
    rcases List.mem_cons.1 h with eq | mem
    · cases eq
      rw [if_pos rfl]
    · have other : k ≠ key := by
        rintro rfl
        exact new (List.mem_map.2 ⟨(k, value), mem, rfl⟩)
      rw [if_neg other, ih distinct mem]

theorem insert_of_not_mem {key : κ} {value : α} {entries : Assoc κ α} (h : key ∉ entries.keys) :
    entries.insert key value = entries ++ [(key, value)] := by
  induction entries with
  | nil => rfl
  | cons e entries ih =>
    obtain ⟨k, v⟩ := e
    simp only [keys, List.map_cons, List.mem_cons, not_or] at h
    simp [insert, Ne.symm h.1, ih h.2]

end Assoc

end IdlFlow
