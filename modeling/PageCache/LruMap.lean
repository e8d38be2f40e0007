namespace PageCache

-- One key of an `LruMap`: the stamp is the time of its last use.
structure LruMap.Slot (α : Type) where
  key : Nat
  stamp : Nat
  value : α

-- A map that remembers the order in which its keys were last used. `order` lists
-- the stamps with their keys, oldest first, and `next` is a stamp never handed out.
-- A stamp is drawn for a place in the order. Draws to other ends are left out: they would
-- only leave gaps between the stamps, which are compared and no more.
structure LruMap (α : Type) where
  slots : List (LruMap.Slot α) := []
  order : List (Nat × Nat) := []
  next : Nat := 0

namespace LruMap

variable {α : Type}

def empty : LruMap α := {}

def slot? (map : LruMap α) (key : Nat) : Option (Slot α) := map.slots.find? (·.key == key)

def find? (map : LruMap α) (key : Nat) : Option α := (map.slot? key).map (·.value)

def contains (map : LruMap α) (key : Nat) : Bool := (map.slot? key).isSome

def size (map : LruMap α) : Nat := map.slots.length

-- The keys from the least to the most recently used.
def keys (map : LruMap α) : List Nat := map.order.map (·.2)

def erase (map : LruMap α) (key : Nat) : LruMap α :=
  match map.slot? key with
  | none => map
  | some slot =>
      { map with
        slots := map.slots.filter (·.key != key)
        order := map.order.filter (·.1 != slot.stamp) }

def eraseAll (map : LruMap α) (keys : List Nat) : LruMap α := keys.foldl erase map

-- Makes the key the most recently used one, with this value.
def insert (map : LruMap α) (key : Nat) (value : α) : LruMap α :=
  let rest := map.erase key
  { slots := ⟨key, rest.next, value⟩ :: rest.slots
    order := rest.order ++ [(rest.next, key)]
    next := rest.next + 1 }

def touch (map : LruMap α) (key : Nat) : LruMap α :=
  match map.find? key with
  | none => map
  | some value => map.insert key value

-- Changes a value in place. The order stays as it is.
def modify (map : LruMap α) (key : Nat) (change : α → α) : LruMap α :=
  { map with
    slots := map.slots.map fun slot =>
      if slot.key = key then { slot with value := change slot.value } else slot }

theorem keys_modify (map : LruMap α) (key : Nat) (change : α → α) :
    (map.modify key change).keys = map.keys := rfl

theorem slots_erase (map : LruMap α) (key : Nat) :
    (map.erase key).slots = map.slots.filter (·.key != key) := by
  unfold erase
  split
  · rename_i h
    simp only [slot?, List.find?_eq_none] at h
    exact (List.filter_eq_self.mpr fun slot hs => by simpa using h slot hs).symm
  · rfl

theorem find?_erase_self (map : LruMap α) (key : Nat) : (map.erase key).find? key = none := by
  simp [find?, slot?, slots_erase]

theorem find?_erase_of_ne (map : LruMap α) {key other : Nat} (h : other ≠ key) :
    (map.erase key).find? other = map.find? other := by
  simp only [find?, slot?, slots_erase, List.find?_filter]
  congr 2
  funext slot
  by_cases he : slot.key = other
  · simp [he, h]
  · simp [he]

theorem find?_insert_self (map : LruMap α) (key : Nat) (value : α) :
    (map.insert key value).find? key = some value := by
  simp [find?, slot?, insert]

theorem find?_insert_of_ne (map : LruMap α) {key other : Nat} (value : α) (h : other ≠ key) :
    (map.insert key value).find? other = map.find? other := by
  have hk : ¬ key = other := fun e => h e.symm
  rw [← map.find?_erase_of_ne h]
  simp [find?, slot?, insert, hk]

-- A key that is touched keeps its value, as all others do.
theorem find?_touch (map : LruMap α) (key other : Nat) :
    (map.touch key).find? other = map.find? other := by
  cases hf : map.find? key with
  | none => simp only [touch, hf]
  | some value =>
      simp only [touch, hf]
      by_cases h : other = key
      · rw [h, find?_insert_self, hf]
      · exact map.find?_insert_of_ne value h

theorem find?_modify (map : LruMap α) (key other : Nat) (change : α → α) :
    (map.modify key change).find? other =
      if other = key then (map.find? other).map change else map.find? other := by
  simp only [modify, find?, slot?]
  induction map.slots with
  | nil => simp
  | cons slot rest ih =>
      rw [List.map_cons, List.find?_cons, List.find?_cons]
      by_cases hs : slot.key = other
      · by_cases hk : other = key <;> simp [hs, hk]
      · have hkey : (if slot.key = key then
            { slot with value := change slot.value } else slot).key = slot.key := by
          split <;> rfl
        simp only [hkey, beq_eq_false_iff_ne.mpr hs]
        exact ih

theorem keys_insert (map : LruMap α) (key : Nat) (value : α) :
    (map.insert key value).keys = (map.erase key).keys ++ [key] := by
  simp [keys, insert]

end LruMap

end PageCache
