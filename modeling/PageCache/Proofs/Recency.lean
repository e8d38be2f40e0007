import PageCache.LruMap
import Mathlib.Data.List.Nodup

namespace PageCache

namespace LruMap

variable {α : Type}

-- Every key has one slot, and the order lists the slots by their stamps.
structure Ordered (map : LruMap α) : Prop where
  keys : (map.slots.map (·.key)).Nodup
  order : map.order.Perm (map.slots.map fun slot => (slot.stamp, slot.key))
  sorted : map.order.Pairwise (·.1 < ·.1)
  bounded : ∀ entry ∈ map.order, entry.1 < map.next

theorem Ordered.empty : (LruMap.empty : LruMap α).Ordered :=
  ⟨List.nodup_nil, .refl _, .nil, by simp [LruMap.empty]⟩

theorem Ordered.slot_eq_of_key {map : LruMap α} (h : map.Ordered) {slot other : Slot α}
    (hs : slot ∈ map.slots) (ho : other ∈ map.slots) (hk : slot.key = other.key) :
    slot = other :=
  List.inj_on_of_nodup_map h.keys hs ho hk

theorem Ordered.slot_eq_of_stamp {map : LruMap α} (h : map.Ordered) {slot other : Slot α}
    (hs : slot ∈ map.slots) (ho : other ∈ map.slots) (hk : slot.stamp = other.stamp) :
    slot = other := by
  have hn : (map.order.map (·.1)).Nodup :=
    (List.pairwise_map.mpr h.sorted).imp Nat.ne_of_lt
  have hm := (h.order.map (·.1)).nodup_iff.mp hn
  rw [List.map_map] at hm
  exact List.inj_on_of_nodup_map hm hs ho hk

theorem find?_eq_some_iff {map : LruMap α} (h : map.Ordered) {key : Nat} {value : α} :
    map.find? key = some value ↔ ∃ slot ∈ map.slots, slot.key = key ∧ slot.value = value := by
  simp only [find?, slot?, Option.map_eq_some_iff]
  constructor
  · rintro ⟨slot, hs, hv⟩
    exact ⟨slot, List.mem_of_find?_eq_some hs, by simpa using List.find?_some hs, hv⟩
  · rintro ⟨slot, hs, hk, hv⟩
    cases hf : map.slots.find? (·.key == key) with
    | none =>
        have := List.find?_eq_none.mp hf slot hs
        simp [hk] at this
    | some found =>
        have hkey : found.key = key := by simpa using List.find?_some hf
        have he := h.slot_eq_of_key (List.mem_of_find?_eq_some hf) hs (hkey.trans hk.symm)
        exact ⟨found, rfl, he ▸ hv⟩

theorem Ordered.nodup_keys {map : LruMap α} (h : map.Ordered) : map.keys.Nodup := by
  have hm := (h.order.map (·.2)).nodup_iff
  rw [List.map_map] at hm
  exact hm.mpr h.keys

theorem Ordered.mem_keys {map : LruMap α} (h : map.Ordered) {key : Nat} :
    key ∈ map.keys ↔ ∃ value, map.find? key = some value := by
  have hm : key ∈ _ ↔ _ := (h.order.map (·.2)).mem_iff
  rw [List.map_map] at hm
  simp only [LruMap.keys, hm, find?_eq_some_iff h, List.mem_map, Function.comp_apply]
  constructor
  · rintro ⟨slot, hs, hk⟩
    exact ⟨slot.value, slot, hs, hk, rfl⟩
  · rintro ⟨_, slot, hs, hk, _⟩
    exact ⟨slot, hs, hk⟩

-- A slot goes together with its entry in the order: stamps tell slots apart as keys do.
theorem Ordered.erase {map : LruMap α} (h : map.Ordered) (key : Nat) :
    (map.erase key).Ordered := by
  unfold LruMap.erase
  split
  · exact h
  · rename_i slot hslot
    have hm : slot ∈ map.slots := List.mem_of_find?_eq_some hslot
    have hk : slot.key = key := by simpa using List.find?_some hslot
    have hf : map.slots.filter (·.key != key) = map.slots.filter (·.stamp != slot.stamp) := by
      apply List.filter_congr
      intro other ho
      have hiff : other.key = key ↔ other.stamp = slot.stamp :=
        ⟨fun he => h.slot_eq_of_key ho hm (he.trans hk.symm) ▸ rfl,
          fun he => h.slot_eq_of_stamp ho hm he ▸ hk⟩
      simp only [bne, beq_eq_decide, hiff]
    refine ⟨(h.keys.sublist (List.filter_sublist.map _)), ?_, h.sorted.filter _,
      fun entry he => h.bounded entry (List.mem_of_mem_filter he)⟩
    have hp := h.order.filter (·.1 != slot.stamp)
    rw [List.filter_map] at hp
    simpa only [hf, Function.comp_def] using hp

theorem Ordered.eraseAll {map : LruMap α} (h : map.Ordered) (keys : List Nat) :
    (map.eraseAll keys).Ordered := by
  unfold LruMap.eraseAll
  induction keys generalizing map with
  | nil => exact h
  | cons key rest ih => exact ih (h.erase key)

theorem Ordered.insert {map : LruMap α} (h : map.Ordered) (key : Nat) (value : α) :
    (map.insert key value).Ordered := by
  have hr := h.erase key
  refine ⟨?_, ?_, ?_, ?_⟩
  · simp only [LruMap.insert, List.map_cons, List.nodup_cons]
    refine ⟨?_, hr.keys⟩
    simp [slots_erase]
  · simp only [LruMap.insert, List.map_cons]
    exact (List.perm_append_singleton _ _).trans (hr.order.cons _)
  · simp only [LruMap.insert, List.pairwise_append, List.pairwise_cons, List.mem_singleton]
    refine ⟨hr.sorted, ⟨by simp, .nil⟩, ?_⟩
    rintro entry he _ rfl
    exact hr.bounded entry he
  · intro entry he
    simp only [LruMap.insert, List.mem_append, List.mem_singleton] at he ⊢
    rcases he with he | rfl
    · exact Nat.lt_succ_of_lt (hr.bounded entry he)
    · exact Nat.lt_succ_self _

theorem Ordered.touch {map : LruMap α} (h : map.Ordered) (key : Nat) :
    (map.touch key).Ordered := by
  unfold LruMap.touch
  split
  · exact h
  · exact h.insert key _

theorem Ordered.modify {map : LruMap α} (h : map.Ordered) (key : Nat) (change : α → α) :
    (map.modify key change).Ordered := by
  have hs : ∀ {β : Type} (f : Nat → Nat → β),
      (map.modify key change).slots.map (fun slot => f slot.stamp slot.key) =
        map.slots.map fun slot => f slot.stamp slot.key := by
    intro β f
    simp only [LruMap.modify, List.map_map]
    apply List.map_congr_left
    intro slot _
    simp only [Function.comp_apply]
    split <;> rfl
  refine ⟨?_, ?_, h.sorted, h.bounded⟩
  · rw [hs fun _ key => key]
    exact h.keys
  · rw [hs Prod.mk]
    exact h.order

theorem find?_eraseAll (map : LruMap α) (keys : List Nat) (key : Nat) :
    (map.eraseAll keys).find? key = if key ∈ keys then none else map.find? key := by
  unfold eraseAll
  induction keys generalizing map with
  | nil => simp
  | cons first rest ih =>
      rw [List.foldl_cons, ih]
      by_cases hr : key ∈ rest
      · simp [hr]
      · by_cases hk : key = first
        · subst hk
          simp [find?_erase_self]
        · simp [hr, hk, find?_erase_of_ne]

theorem find?_of_erase {map : LruMap α} {key other : Nat} {value : α}
    (h : (map.erase key).find? other = some value) :
    other ≠ key ∧ map.find? other = some value := by
  by_cases he : other = key
  · rw [he, find?_erase_self] at h
    cases h
  · exact ⟨he, (find?_erase_of_ne map he).symm.trans h⟩

-- The two ways a key can be looked up after an insertion, in one equation.
theorem find?_insert (map : LruMap α) (key other : Nat) (value : α) :
    (map.insert key value).find? other =
      if other = key then some value else map.find? other := by
  by_cases h : other = key
  · rw [if_pos h, h, find?_insert_self]
  · rw [if_neg h, find?_insert_of_ne _ _ h]

theorem contains_eq_isSome (map : LruMap α) (key : Nat) :
    map.contains key = (map.find? key).isSome := by
  simp [contains, find?]

end LruMap

end PageCache
