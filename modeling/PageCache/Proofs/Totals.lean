import Mathlib.Algebra.GroupWithZero.Nat
import PageCache.Proofs.Recency

namespace PageCache

namespace LruMap

variable {α : Type}

-- What the values of a map weigh together.
def total (weight : α → Nat) (map : LruMap α) : Nat :=
  (map.slots.map fun slot => weight slot.value).sum

theorem total_one (map : LruMap α) : map.total (fun _ => 1) = map.size := by
  simp [total, size]

theorem erase_eq_self {map : LruMap α} {key : Nat} (h : map.find? key = none) :
    map.erase key = map := by
  simp only [find?, Option.map_eq_none_iff] at h
  simp only [erase, h]

theorem exists_slot {map : LruMap α} {key : Nat} {value : α} (h : map.find? key = some value) :
    ∃ slot ∈ map.slots, slot.key = key ∧ slot.value = value := by
  obtain ⟨slot, hs, hv⟩ := Option.map_eq_some_iff.mp h
  exact ⟨slot, List.mem_of_find?_eq_some hs, by simpa using List.find?_some hs, hv⟩

-- Keys are distinct, so that what goes with a key is its own slot and nothing else.
theorem sum_filter_key (weight : α → Nat) {slots : List (Slot α)}
    (hn : (slots.map (·.key)).Nodup) {slot : Slot α} (hs : slot ∈ slots) :
    ((slots.filter (·.key != slot.key)).map fun other => weight other.value).sum +
      weight slot.value = (slots.map fun other => weight other.value).sum := by
  induction slots with
  | nil => cases hs
  | cons first rest ih =>
      rw [List.map_cons, List.nodup_cons] at hn
      rcases List.mem_cons.mp hs with rfl | hs
      · have hrest : rest.filter (·.key != slot.key) = rest := by
          refine List.filter_eq_self.mpr fun other ho => ?_
          have hne : other.key ≠ slot.key := fun he => hn.1 (he ▸ List.mem_map_of_mem ho)
          simpa using hne
        rw [List.filter_cons_of_neg (by simp), hrest, List.map_cons, List.sum_cons, Nat.add_comm]
      · have hne : first.key ≠ slot.key := fun he => hn.1 (he ▸ List.mem_map_of_mem hs)
        rw [List.filter_cons_of_pos (by simpa using hne), List.map_cons, List.sum_cons,
          List.map_cons, List.sum_cons, ← ih hn.2 hs, Nat.add_assoc]

theorem Ordered.total_erase {map : LruMap α} (h : map.Ordered) (weight : α → Nat) {key : Nat}
    {value : α} (hf : map.find? key = some value) :
    (map.erase key).total weight + weight value = map.total weight := by
  obtain ⟨slot, hs, rfl, rfl⟩ := exists_slot hf
  rw [total, slots_erase]
  exact sum_filter_key weight h.keys hs

theorem Ordered.total_insert {map : LruMap α} (h : map.Ordered) (weight : α → Nat) (key : Nat)
    (value : α) :
    (map.insert key value).total weight + ((map.find? key).map weight).getD 0 =
      map.total weight + weight value := by
  have hinsert : (map.insert key value).total weight =
      weight value + (map.erase key).total weight := by
    simp [total, LruMap.insert]
  rw [hinsert]
  cases hf : map.find? key with
  | none =>
      rw [erase_eq_self hf, Option.map_none, Option.getD_none, Nat.add_zero, Nat.add_comm]
  | some old =>
      rw [← h.total_erase weight hf, Option.map_some, Option.getD_some]
      omega

theorem Ordered.total_touch {map : LruMap α} (h : map.Ordered) (weight : α → Nat) (key : Nat) :
    (map.touch key).total weight = map.total weight := by
  unfold LruMap.touch
  cases hf : map.find? key with
  | none => rfl
  | some value =>
      have hi := h.total_insert weight key value
      rw [hf, Option.map_some, Option.getD_some] at hi
      exact Nat.add_right_cancel hi

theorem Ordered.total_modify {map : LruMap α} (h : map.Ordered) (weight : α → Nat) {key : Nat}
    {value : α} (hf : map.find? key = some value) (change : α → α) :
    (map.modify key change).total weight + weight value =
      map.total weight + weight (change value) := by
  obtain ⟨slot, hs, rfl, rfl⟩ := exists_slot hf
  have hk := h.keys
  simp only [total, LruMap.modify]
  generalize map.slots = slots at hs hk
  induction slots with
  | nil => cases hs
  | cons first rest ih =>
      rw [List.map_cons, List.nodup_cons] at hk
      simp only [List.map_cons, List.sum_cons]
      rcases List.mem_cons.mp hs with rfl | hs
      · -- no other slot has this key
        have hrest : rest.map (fun other =>
            if other.key = slot.key then { other with value := change other.value } else other) =
            rest := by
          refine (List.map_congr_left fun other ho => ?_).trans (List.map_id _)
          have hne : other.key ≠ slot.key := fun he => hk.1 (he ▸ List.mem_map_of_mem ho)
          rw [if_neg hne]
          rfl
        rw [hrest, if_pos rfl]
        dsimp only
        omega
      · have hne : first.key ≠ slot.key := fun he => hk.1 (he ▸ List.mem_map_of_mem hs)
        have hi := ih hs hk.2
        rw [if_neg hne]
        omega

theorem modify_eq_self {map : LruMap α} {key : Nat} (h : map.find? key = none)
    (change : α → α) : map.modify key change = map := by
  simp only [find?, slot?, Option.map_eq_none_iff, List.find?_eq_none] at h
  have hslots : (map.modify key change).slots = map.slots := by
    refine (List.map_congr_left fun slot hs => ?_).trans (List.map_id _)
    rw [if_neg (by simpa using h slot hs)]
    rfl
  exact congrArg (fun slots => { map with slots := slots }) hslots

theorem size_modify (map : LruMap α) (key : Nat) (change : α → α) :
    (map.modify key change).size = map.size := List.length_map _

theorem Ordered.size_erase {map : LruMap α} (h : map.Ordered) {key : Nat}
    (hk : key ∈ map.keys) : (map.erase key).size + 1 = map.size := by
  obtain ⟨value, hf⟩ := h.mem_keys.mp hk
  rw [← total_one, ← total_one]
  exact h.total_erase _ hf

theorem Ordered.size_eraseAll {map : LruMap α} (h : map.Ordered) {keys : List Nat}
    (hn : keys.Nodup) (hk : keys ⊆ map.keys) :
    (map.eraseAll keys).size + keys.length = map.size := by
  unfold LruMap.eraseAll
  induction keys generalizing map with
  | nil => rfl
  | cons key rest ih =>
      rw [List.nodup_cons] at hn
      rw [List.cons_subset] at hk
      have hrest : rest ⊆ (map.erase key).keys := by
        intro other ho
        obtain ⟨value, hf⟩ := h.mem_keys.mp (hk.2 ho)
        have hne : other ≠ key := fun he => hn.1 (he ▸ ho)
        exact (h.erase key).mem_keys.mpr ⟨value, (find?_erase_of_ne map hne).trans hf⟩
      rw [List.foldl_cons, List.length_cons, ← h.size_erase hk.1, ← ih (h.erase key) hn.2 hrest,
        Nat.add_assoc]

end LruMap

end PageCache
