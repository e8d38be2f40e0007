import Mathlib.Algebra.Order.BigOperators.Group.List
import Mathlib.Algebra.Order.Group.Nat
import PageCache.Proofs.Accounting
import PageCache.Proofs.Updates

namespace PageCache

theorem LruMap.Ordered.total_mono {α : Type} {map : LruMap α} (h : map.Ordered)
    {weight heavier : α → Nat}
    (hw : ∀ key value, map.find? key = some value → weight value ≤ heavier value) :
    map.total weight ≤ map.total heavier :=
  List.sum_le_sum fun slot hs =>
    hw slot.key slot.value ((find?_eq_some_iff h).mpr ⟨slot, hs, rfl, rfl⟩)

namespace FileCache

variable {cached : FileCache} {limit : Nat}

-- How many pages of a file reads wait for, as long as any read is in progress.
def pinned (cached : FileCache) : Nat :=
  cached.pages.total fun page => (!cached.isIdle && page.isWaited).toNat

-- A pass that takes less of a file than it may takes all that it can.
theorem mem_victims_of_lt (ho : cached.pages.Ordered) (hl : (cached.victims limit).length < limit)
    {page : Nat} {found : Page} (hp : cached.pages.find? page = some found)
    (hn : (!cached.isIdle && found.isWaited) = false) : page ∈ cached.victims limit := by
  rw [victims, List.length_take] at hl
  rw [victims, List.take_of_length_le (by omega)]
  refine List.mem_filter.mpr ⟨ho.mem_keys.mpr ⟨found, hp⟩, ?_⟩
  rw [isWaited, hp, Option.any_some]
  revert hn
  cases cached.isIdle <;> simp

theorem size_le_pinned (ho : cached.pages.Ordered) (hl : (cached.victims limit).length < limit) :
    (cached.drop (cached.victims limit)).pages.size ≤
      (cached.drop (cached.victims limit)).pinned := by
  rw [← LruMap.total_one]
  refine LruMap.Ordered.total_mono (ho.eraseAll _) fun page found hp => ?_
  obtain ⟨hkept, hfound⟩ := find?_drop_eq_some_iff.mp hp
  cases hn : (!(cached.drop (cached.victims limit)).isIdle && found.isWaited) with
  | true => exact Nat.le_refl 1
  | false => exact absurd (mem_victims_of_lt ho hl hfound hn) hkept

end FileCache

namespace Pool

variable {τ : Type} {pool left : Pool τ} {file : FileId} {cached : FileCache}

-- How many pages reads wait for, in the files that reads are in progress of.
def pinned (pool : Pool τ) : Nat := pool.files.total FileCache.pinned

theorem pagesUsed_dropPages (pool : Pool τ) (file : FileId) (pages : List Nat) (event : Event) :
    (pool.dropPages file pages event).pagesUsed = pool.pagesUsed - pages.length := rfl

theorem pagesUsed_removeFile (hf : pool.files.find? file = some cached) :
    (pool.removeFile file).pagesUsed = pool.pagesUsed - cached.pages.size := by
  simp only [removeFile, hf]
  rfl

-- Victims are taken of one file, which goes with its last page if nobody reads it.
structure Evicts (pool left : Pool τ) (file : FileId) (cached : FileCache) (victims : List Nat) :
    Prop where
  used : left.pagesUsed = pool.pagesUsed - victims.length
  others : ∀ other ≠ file, left.files.find? other = pool.files.find? other
  file : ∀ found, left.files.find? file = some found → found = cached.drop victims

theorem evicts_evictFile (hf : pool.files.find? file = some cached) (excess : Nat) :
    pool.Evicts (pool.evictFile file excess).1 file cached (cached.victims excess) := by
  obtain ⟨evicted, left, he, hevicted, hleft⟩ := evictFile_cases hf excess
  have hused : evicted.pagesUsed = pool.pagesUsed - (cached.victims excess).length := by
    rcases hevicted with ⟨hnone, rfl⟩ | rfl
    · rw [pagesUsed_require, pagesUsed_require, hnone, List.length_nil, Nat.sub_zero]
    · rw [pagesUsed_dropPages, pagesUsed_require, pagesUsed_require]
  have hfind : ∀ other, evicted.files.find? other =
      if other = file then some (cached.drop (cached.victims excess))
      else pool.files.find? other := by
    intro other
    rcases hevicted with ⟨hnone, rfl⟩ | rfl
    · rw [files_require, files_require, hnone]
      split
      · rename_i ho
        rw [ho, hf]
        rfl
      · rfl
    · rw [(updates_dropPages ..).find? other, files_require, files_require]
      split
      · rename_i ho
        rw [ho, hf, Option.map_some]
      · rfl
  have hown : evicted.files.find? file = some (cached.drop (cached.victims excess)) := by
    rw [hfind, if_pos rfl]
  rw [he]
  rcases hleft with rfl | ⟨bare, hbare, _, hempty, rfl⟩
  · refine ⟨hused, fun other ho => ?_, fun found hfound => ?_⟩
    · rw [hfind, if_neg ho]
    · exact (Option.some.inj (hown.symm.trans hfound)).symm
  · refine ⟨?_, fun other ho => ?_, fun found hfound => ?_⟩
    · rw [pagesUsed_removeFile hbare, hempty, Nat.sub_zero, hused]
    · rw [files_removeFile hbare, LruMap.find?_erase_of_ne _ ho, hfind, if_neg ho]
    · rw [files_removeFile hbare, LruMap.find?_erase_self] at hfound
      cases hfound

theorem ordered_evictFile (ho : pool.Ordered) (file : FileId) (excess : Nat) :
    (pool.evictFile file excess).1.Ordered := by
  have hmoves : Moves .prune pool (pool.evictFile file excess).1 := moves_evictFile ..
  exact (hmoves.preserve (P := fun _ => True) (fun _ _ _ _ h => h) ho trivial).1

-- Eviction can take nothing more of the file.
def Drained (pool : Pool τ) (file : FileId) : Prop :=
  ∀ cached, pool.files.find? file = some cached → cached.pages.size ≤ cached.pinned

-- An excess that remains after a pass over the files is one that no file could make up for.
theorem drained_sweeps (files : List FileId) (ho : pool.Ordered) {excess : Nat}
    (hd : excess ≠ 0 → ∀ file ∉ files, pool.Drained file)
    (hleft : (files.foldl sweep (pool, excess)).2 ≠ 0) (file : FileId) :
    (files.foldl sweep (pool, excess)).1.Drained file := by
  induction files generalizing pool excess with
  | nil => exact hd hleft file List.not_mem_nil
  | cons first rest ih =>
      rw [List.foldl_cons] at hleft ⊢
      by_cases he : excess = 0
      · rw [sweep, if_pos he] at hleft ⊢
        exact ih ho (fun hn => absurd he hn) hleft
      · rw [sweep, if_neg he] at hleft ⊢
        refine ih (ordered_evictFile ho first excess) (fun hmore other hother => ?_) hleft
        cases hf : pool.files.find? first with
        | none =>
            simp only [evictFile, hf]
            by_cases hfirst : other = first
            · intro cached hcached
              rw [hfirst, hf] at hcached
              cases hcached
            · exact hd he other (by simp [hfirst, hother])
        | some cached =>
            have hevicts := evicts_evictFile hf excess
            intro found hfound
            by_cases hfirst : other = first
            · subst hfirst
              have hspare : (cached.victims excess).length < excess := by
                simp only [hf] at hmore
                omega
              rw [hevicts.file found hfound]
              exact FileCache.size_le_pinned (ho.pages other cached hf) hspare
            · rw [hevicts.others other hfirst] at hfound
              exact hd he other (by simp [hfirst, hother]) found hfound

-- The excess is what is above the mark, all along.
theorem excess_evictFile (pool : Pool τ) (file : FileId) {excess mark : Nat}
    (h : excess = pool.pagesUsed - mark) :
    (pool.evictFile file excess).2 = (pool.evictFile file excess).1.pagesUsed - mark := by
  cases hf : pool.files.find? file with
  | none => rw [evictFile_of_none hf, h]
  | some cached =>
      obtain ⟨evicted, left, he, _⟩ := evictFile_cases hf excess
      have hused := (evicts_evictFile hf excess).used
      rw [he] at hused ⊢
      simp only at hused ⊢
      omega

theorem excess_sweeps (files : List FileId) (pool : Pool τ) (mark : Nat) :
    (files.foldl sweep (pool, pool.pagesUsed - mark)).2 =
      (files.foldl sweep (pool, pool.pagesUsed - mark)).1.pagesUsed - mark :=
  sweeps_induction (P := fun swept => swept.2 = swept.1.pagesUsed - mark)
    (fun swept file h => excess_evictFile swept.1 file h) files rfl

-- A pass over the files, before the number of pages that it counted is looked at.
def swept (pool : Pool τ) : Pool τ × Nat :=
  pool.files.keys.foldl sweep (pool, pool.pagesUsed - pool.limits.lowWatermark)

theorem files_evict_eq (pool : Pool τ) : pool.evict.1.files = pool.swept.1.files :=
  files_require ..

theorem pagesUsed_evict_eq (pool : Pool τ) : pool.evict.1.pagesUsed = pool.swept.1.pagesUsed :=
  pagesUsed_require ..

-- A pass ends at the low watermark, or what is left are pages that reads wait for.
theorem pagesUsed_evict_le (ho : pool.Ordered) (ha : pool.Accounted) :
    pool.evict.1.pagesUsed ≤ max pool.limits.lowWatermark pool.evict.1.pinned := by
  have hmoves : Moves .prune pool pool.evict.1 := moves_evict pool
  have hafter := hmoves.preserve (fun _ _ hm => hm.accounted) ho ha
  have hexcess : pool.swept.2 = pool.swept.1.pagesUsed - pool.limits.lowWatermark :=
    excess_sweeps pool.files.keys pool pool.limits.lowWatermark
  by_cases hleft : pool.swept.2 = 0
  · rw [hleft, ← pagesUsed_evict_eq] at hexcess
    exact le_max_of_le_left (Nat.sub_eq_zero_iff_le.mp hexcess.symm)
  · have hdrained : ∀ file, pool.evict.1.Drained file := by
      intro file
      rw [Drained, files_evict_eq]
      refine drained_sweeps pool.files.keys ho (fun _ file hfile cached hf => ?_) hleft file
      exact absurd (ho.files.mem_keys.mpr ⟨cached, hf⟩) hfile
    rw [hafter.2.used]
    exact le_max_of_le_right (hafter.1.files.total_mono fun file cached hf =>
      hdrained file cached hf)

theorem pagesUsed_enforceBudget_le (ho : pool.Ordered) (ha : pool.Accounted) :
    pool.enforceBudget.pagesUsed ≤ max pool.limits.pageBudget pool.enforceBudget.pinned := by
  unfold enforceBudget
  split
  · exact (pagesUsed_evict_le ho ha).trans
      (max_le_max_right _ pool.limits.lowWatermark_le)
  · rename_i hb
    exact le_max_of_le_left (Nat.le_of_not_lt hb)

end Pool

end PageCache
