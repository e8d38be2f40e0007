namespace PageCache

-- A finite map as a list of entries, of which the first with a key counts.
structure Assoc (κ α : Type) where
  entries : List (κ × α) := []

namespace Assoc

variable {κ α : Type} [DecidableEq κ]

def get? (map : Assoc κ α) (key : κ) : Option α :=
  (map.entries.find? fun entry => decide (entry.1 = key)).map (·.2)

def erase (map : Assoc κ α) (key : κ) : Assoc κ α :=
  ⟨map.entries.filter fun entry => decide (entry.1 ≠ key)⟩

def set (map : Assoc κ α) (key : κ) (value : α) : Assoc κ α :=
  ⟨(key, value) :: (map.erase key).entries⟩

theorem get?_set_self (map : Assoc κ α) (key : κ) (value : α) :
    (map.set key value).get? key = some value := by
  simp [get?, set]

theorem get?_erase_of_ne (map : Assoc κ α) {key other : κ} (h : other ≠ key) :
    (map.erase key).get? other = map.get? other := by
  unfold get? erase
  congr 1
  rw [List.find?_filter]
  congr 1
  funext entry
  by_cases he : entry.1 = other
  · simp [he, h]
  · simp [he]

theorem get?_set_of_ne (map : Assoc κ α) {key other : κ} (value : α) (h : other ≠ key) :
    (map.set key value).get? other = map.get? other := by
  have h' : ¬ key = other := fun e => h e.symm
  rw [← map.get?_erase_of_ne h]
  simp [get?, set, h']

end Assoc

end PageCache
