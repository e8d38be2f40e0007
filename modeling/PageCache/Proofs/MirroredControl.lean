import PageCache.Proofs.Accounting
import PageCache.Proofs.MirroredOutcomes

namespace PageCache

namespace LruMap

variable {α : Type} {map : LruMap α}

theorem Ordered.total_eq_zero (h : map.Ordered) (weight : α → Nat)
    (hn : ∀ key, map.find? key = none) : map.total weight = 0 := by
  have hslots : map.slots = [] := List.eq_nil_iff_forall_not_mem.mpr fun slot hs => by
    have hf := (find?_eq_some_iff h).mpr ⟨slot, hs, rfl, rfl⟩
    rw [hn] at hf
    cases hf
  simp only [total, hslots, List.map_nil, List.sum_nil]

theorem Ordered.total_eq_of_alone (h : map.Ordered) (weight : α → Nat) {key : Nat} {value : α}
    (hf : map.find? key = some value) (hn : ∀ other ≠ key, map.find? other = none) :
    map.total weight = weight value := by
  have hbare : (map.erase key).total weight = 0 := by
    refine (h.erase key).total_eq_zero weight fun other => ?_
    by_cases he : other = key
    · rw [he, find?_erase_self]
    · rw [find?_erase_of_ne _ he, hn other he]
  rw [← h.total_erase weight hf, hbare, Nat.zero_add]

end LruMap

namespace Pool

variable {τ : Type} {pool mirror : Pool τ} {file : FileId} {mine : ReadId → Prop}
  {numbers : Numbering} {id : ReadId}

-- A pass over the files has nothing to do as long as the low watermark is kept.
theorem evict_of_le (h : pool.pagesUsed ≤ pool.limits.lowWatermark) : pool.evict = (pool, 0) := by
  have hsweep : ∀ (files : List FileId) (pool : Pool τ),
      files.foldl sweep (pool, 0) = (pool, 0) := by
    intro files pool
    induction files with
    | nil => rfl
    | cons file rest ih => rw [List.foldl_cons, sweep, if_pos rfl, ih]
  simp only [evict, Nat.sub_eq_zero_of_le h, hsweep, Nat.sub_zero]
  rfl

section Mirrors

variable (h : Mirrors file mine numbers pool mirror)
include h

-- What the one file holds is no more than what all of them do.
theorem Mirrors.pagesUsed_le (hp : pool.Ordered) (hm : mirror.Ordered) (ha : pool.Accounted)
    (hb : mirror.Accounted) : mirror.pagesUsed ≤ pool.pagesUsed := by
  rw [ha.used, hb.used, pagesHeld, pagesHeld]
  cases hf : pool.files.find? file with
  | none =>
      have hnone : ∀ other, mirror.files.find? other = none := by
        intro other
        by_cases he : other = file
        · rw [he, h.absent hf]
        · exact h.alone other he
      rw [hm.files.total_eq_zero _ hnone]
      exact Nat.zero_le _
  | some cached =>
      obtain ⟨other, ho, htwins⟩ := h.found hf
      rw [hm.files.total_eq_of_alone _ ho h.alone, htwins.pages, LruMap.size_map,
        ← hp.files.total_erase _ hf]
      exact Nat.le_add_left _ _

theorem Mirrors.attributes? : mirror.attributes? file = pool.attributes? file := by
  unfold Pool.attributes?
  cases hf : pool.files.find? file with
  | none => rw [h.absent hf]
  | some cached =>
      obtain ⟨other, ho, htwins⟩ := h.found hf
      rw [ho, Option.bind_some, Option.bind_some, htwins.attributes]

theorem Mirrors.contains (offset : Nat) :
    mirror.contains file offset = pool.contains file offset := by
  unfold Pool.contains
  rw [h.limits]
  cases hf : pool.files.find? file with
  | none => rw [h.absent hf]
  | some cached =>
      obtain ⟨other, ho, htwins⟩ := h.found hf
      rw [ho, Option.any_some, Option.any_some, htwins.pages, LruMap.find?_map]
      cases cached.pages.find? (pool.limits.pageOf offset) with
      | none => rfl
      | some found => exact found.isLoaded_renumber

theorem Mirrors.result (hid : mine id) : mirror.result (numbers.read id) = pool.result id := by
  unfold Pool.result
  rw [h.gathering id hid]

theorem Mirrors.invalidate :
    Mirrors file mine numbers (pool.invalidate file).1 (mirror.invalidate file).1 ∧
      (mirror.invalidate file).2 = (pool.invalidate file).2 := by
  refine ⟨h.updates (trims_invalidate ..).rests (trims_invalidate ..).rests
    (updates_invalidate ..) (updates_invalidate ..) FileCache.forget_renumber fun _ => rfl, ?_⟩
  unfold Pool.invalidate
  cases hf : pool.files.find? file with
  | none => rw [h.absent hf]
  | some cached =>
      obtain ⟨other, ho, htwins⟩ := h.found hf
      rw [ho]
      exact congrArg List.length (htwins.unwaited)

theorem Mirrors.revalidate (attributes : Attributes) :
    Mirrors file mine numbers (pool.revalidate file attributes).1
        (mirror.revalidate file attributes).1 ∧
      (mirror.revalidate file attributes).2 = (pool.revalidate file attributes).2 := by
  refine ⟨h.updates (trims_revalidate ..).rests (trims_revalidate ..).rests
    (updates_revalidate ..) (updates_revalidate ..) (fun cached => cached.refresh_renumber ..)
    fun cached => cached.refresh_anonymous .., ?_⟩
  unfold Pool.revalidate
  cases hf : pool.files.find? file with
  | none => rw [h.absent hf]
  | some cached =>
      obtain ⟨other, ho, htwins⟩ := h.found hf
      have hstale : other.isStale attributes = cached.isStale attributes := by
        rw [FileCache.isStale, FileCache.isStale, htwins.attributes]
      simp only [ho, hstale]
      split <;> rfl

theorem Mirrors.release :
    Mirrors file mine numbers (pool.release file).1 (mirror.release file).1 ∧
      (mirror.release file).2 = (pool.release file).2 := by
  unfold Pool.release
  cases hf : pool.files.find? file with
  | none =>
      rw [h.absent hf]
      exact ⟨h, rfl⟩
  | some cached =>
      obtain ⟨other, ho, htwins⟩ := h.found hf
      have hidle : other.isIdle = cached.isIdle := by
        rw [FileCache.isIdle, FileCache.isIdle, htwins.readers]
      simp only [ho, hidle]
      split
      · exact ⟨h.removeFile hf, rfl⟩
      · exact ⟨h.modifyFile (fun cached => { cached with released := true })
          (fun cached => { cached with released := true }) (fun _ => rfl) fun _ => rfl, rfl⟩

end Mirrors

end Pool

end PageCache
