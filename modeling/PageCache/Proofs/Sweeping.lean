import Mathlib.Data.List.Flatten
import PageCache.Proofs.Bookkeeping
import PageCache.Proofs.Calm
import PageCache.Proofs.Pinning

namespace PageCache

namespace LruMap.Ordered

variable {α : Type} {map : LruMap α}

-- The order of use has every value once, so that it can be weighed along it.
theorem total_eq_sum_keys (h : map.Ordered) (weight : α → Nat) :
    map.total weight = (map.keys.map fun key => ((map.find? key).map weight).getD 0).sum := by
  have hkeys : map.keys.Perm (map.slots.map (·.key)) := by
    have hm := h.order.map (·.2)
    rwa [List.map_map] at hm
  rw [(hkeys.map _).sum_eq, List.map_map, total]
  refine congrArg List.sum (List.map_congr_left fun slot hs => ?_)
  have hf : map.find? slot.key = some slot.value :=
    (find?_eq_some_iff h).mpr ⟨slot, hs, rfl, rfl⟩
  rw [Function.comp_apply, hf, Option.map_some, Option.getD_some]

theorem length_keys (h : map.Ordered) : map.keys.length = map.size := by
  have hl := h.order.length_eq
  rw [List.length_map] at hl
  rw [LruMap.keys, List.length_map, hl, size]

end LruMap.Ordered

namespace FileCache

variable {cached left : FileCache} {limit : Nat}

-- The pages that eviction may take, the oldest first.
def spare (cached : FileCache) : List Nat :=
  cached.pages.keys.filter fun page => cached.isIdle || !cached.isWaited page

theorem victims_eq_take (cached : FileCache) (limit : Nat) :
    cached.victims limit = cached.spare.take limit := rfl

-- What a pass with room for `limit` pages leaves of a file.
def swept? (cached : FileCache) (limit : Nat) : Option FileCache :=
  if limit ≠ 0 ∧ cached.readers = 0 ∧ (cached.drop (cached.victims limit)).pages.size = 0 then
    none
  else some (cached.drop (cached.victims limit))

theorem swept?_of_ne_zero (hl : limit ≠ 0) :
    cached.swept? limit =
      if cached.isIdle && (cached.drop (cached.victims limit)).pages.size == 0 then none
      else some (cached.drop (cached.victims limit)) := by
  simp [swept?, hl, isIdle]

theorem eq_of_swept? (h : cached.swept? limit = some left) :
    left = cached.drop (cached.victims limit) := by
  unfold swept? at h
  split at h
  · cases h
  · exact (Option.some.inj h).symm

theorem swept?_eq_none_iff (ho : cached.pages.Ordered) :
    cached.swept? limit = none ↔
      limit ≠ 0 ∧ cached.readers = 0 ∧
        ∀ page ∈ cached.pages.keys, page ∈ cached.victims limit := by
  have hsize : (cached.drop (cached.victims limit)).pages.size = 0 ↔
      ∀ page ∈ cached.pages.keys, page ∈ cached.victims limit := by
    rw [drop, ← (ho.eraseAll _).length_keys, List.length_eq_zero_iff, ho.keys_eraseAll,
      List.filter_eq_nil_iff]
    simp
  unfold swept?
  rw [← hsize]
  split
  · exact iff_of_true rfl ‹_›
  · exact iff_of_false (Option.some_ne_none _) ‹_›

end FileCache

namespace Pool

variable {τ : Type} {pool next middle : Pool τ} {file : FileId} {cached : FileCache}

-- Eviction may take a page that no read waits for, and any page of a file that nobody reads.
def evictable (pool : Pool τ) (entry : FileId × Nat) : Bool :=
  (pool.files.find? entry.1).any fun cached => cached.isIdle || !cached.isWaited entry.2

-- The pages of these files, those of each file from the least to the most recently used.
def entriesOf (pool : Pool τ) (files : List FileId) : List (FileId × Nat) :=
  files.flatMap fun file => (pool.pagesOf file).map (file, ·)

-- All pages, those of the least recently used file first.
def entries (pool : Pool τ) : List (FileId × Nat) := pool.entriesOf pool.files.keys

def sparesOf (pool : Pool τ) (files : List FileId) : List (FileId × Nat) :=
  (pool.entriesOf files).filter pool.evictable

-- The pages that eviction may take, in the order in which it does.
def spares (pool : Pool τ) : List (FileId × Nat) := pool.entries.filter pool.evictable

def spareOf (pool : Pool τ) (file : FileId) : List Nat :=
  (pool.pagesOf file).filter fun page => pool.evictable (file, page)

theorem spareOf_eq (hf : pool.files.find? file = some cached) :
    pool.spareOf file = cached.spare := by
  simp [spareOf, pagesOf, evictable, hf, FileCache.spare]

theorem spareOf_of_none (hf : pool.files.find? file = none) : pool.spareOf file = [] := by
  simp [spareOf, pagesOf, hf]

theorem spareOf_congr (hf : next.files.find? file = pool.files.find? file) :
    next.spareOf file = pool.spareOf file := by
  simp only [spareOf, pagesOf, evictable, hf]

theorem sparesOf_eq_flatMap (pool : Pool τ) (files : List FileId) :
    pool.sparesOf files = files.flatMap fun file => (pool.spareOf file).map (file, ·) := by
  simp only [sparesOf, entriesOf, List.filter_flatMap, List.filter_map]
  rfl

theorem sparesOf_append (pool : Pool τ) (first second : List FileId) :
    pool.sparesOf (first ++ second) = pool.sparesOf first ++ pool.sparesOf second := by
  simp only [sparesOf_eq_flatMap, List.flatMap_append]

theorem sparesOf_cons (pool : Pool τ) (file : FileId) (rest : List FileId) :
    pool.sparesOf (file :: rest) = (pool.spareOf file).map (file, ·) ++ pool.sparesOf rest := by
  simp only [sparesOf_eq_flatMap, List.flatMap_cons]

theorem mem_sparesOf {files : List FileId} {entry : FileId × Nat} :
    entry ∈ pool.sparesOf files ↔ entry.1 ∈ files ∧ entry.2 ∈ pool.spareOf entry.1 := by
  rw [sparesOf_eq_flatMap, List.mem_flatMap]
  constructor
  · rintro ⟨file, hf, hm⟩
    obtain ⟨page, hp, rfl⟩ := List.mem_map.mp hm
    exact ⟨hf, hp⟩
  · rintro ⟨hf, hp⟩
    exact ⟨entry.1, hf, List.mem_map.mpr ⟨entry.2, hp, rfl⟩⟩

theorem sparesOf_congr {files : List FileId}
    (hf : ∀ file ∈ files, next.files.find? file = pool.files.find? file) :
    next.sparesOf files = pool.sparesOf files := by
  simp only [sparesOf_eq_flatMap]
  exact List.flatMap_congr fun file hm => by rw [spareOf_congr (hf file hm)]

-- A file gets what room the files before it leave.
theorem mem_take_sparesOf {before after : List FileId} (hn : (before ++ file :: after).Nodup)
    (excess page : Nat) :
    (file, page) ∈ (pool.sparesOf (before ++ file :: after)).take excess ↔
      page ∈ (pool.spareOf file).take (excess - (pool.sparesOf before).length) := by
  have hbefore : file ∉ before := fun hm =>
    (List.disjoint_of_nodup_append hn) hm List.mem_cons_self
  have hafter : file ∉ after := ((List.nodup_append.mp hn).2.1.notMem)
  have hearlier : (file, page) ∉ (pool.sparesOf before).take excess := fun hm =>
    hbefore (mem_sparesOf.mp (List.mem_of_mem_take hm)).1
  have hlater : ∀ room, (file, page) ∉ (pool.sparesOf after).take room := fun room hm =>
    hafter (mem_sparesOf.mp (List.mem_of_mem_take hm)).1
  rw [sparesOf_append, sparesOf_cons, List.take_append, List.take_append, List.mem_append,
    List.mem_append, ← List.map_take, List.mem_map]
  constructor
  · rintro (hm | ⟨found, hfound, he⟩ | hm)
    · exact absurd hm hearlier
    · cases he
      exact hfound
    · exact absurd hm (hlater _)
  · intro hm
    exact .inr (.inl ⟨page, hm, rfl⟩)

section Sweep

-- What goes on outside of the files while `count` pages are evicted.
structure Evicted (pool next : Pool τ) (count : Nat) : Prop where
  limits : next.limits = pool.limits
  serials : next.serials = pool.serials
  fetches : next.fetches = pool.fetches
  gatherings : next.gatherings = pool.gatherings
  live : next.live = pool.live
  used : next.pagesUsed = pool.pagesUsed - count
  counters : next.counters =
    { pool.counters with
      evictions := pool.counters.evictions + count
      pages := next.pagesUsed }

theorem Evicted.refl (hg : pool.counters.pages = pool.pagesUsed) : pool.Evicted pool 0 where
  limits := rfl
  serials := rfl
  fetches := rfl
  gatherings := rfl
  live := rfl
  used := rfl
  counters := by rw [← hg]; rfl

theorem Evicted.gauge {count : Nat} (h : pool.Evicted next count) :
    next.counters.pages = next.pagesUsed := by
  rw [h.counters]

theorem Evicted.trans {first second : Nat} (h : pool.Evicted middle first)
    (hn : middle.Evicted next second) : pool.Evicted next (first + second) where
  limits := hn.limits.trans h.limits
  serials := hn.serials.trans h.serials
  fetches := hn.fetches.trans h.fetches
  gatherings := hn.gatherings.trans h.gatherings
  live := hn.live.trans h.live
  used := by rw [hn.used, h.used, Nat.sub_sub]
  counters := by
    rw [hn.counters, h.counters]
    simp only [Nat.add_assoc]

theorem evicted_require (hg : pool.counters.pages = pool.pagesUsed) (holds : Bool)
    (breach : Breach) : pool.Evicted (pool.require holds breach) 0 where
  limits := limits_require ..
  serials := serials_require ..
  fetches := fetches_require ..
  gatherings := gatherings_require ..
  live := live_require ..
  used := pagesUsed_require ..
  counters := by
    rw [counters_require, pagesUsed_require]
    exact (Evicted.refl hg).counters

theorem evicted_shrink (pool : Pool τ) (file : FileId) (pages : Nat) :
    pool.Evicted ((pool.emit (.pagesEvicted file pages)).shrink pages) pages where
  limits := limits_require ..
  serials := serials_require ..
  fetches := fetches_require ..
  gatherings := gatherings_require ..
  live := live_require ..
  used := rfl
  counters := counters_shrink ..

theorem evicted_removeFile (hf : pool.files.find? file = some cached)
    (hempty : cached.pages.size = 0) : pool.Evicted (pool.removeFile file) 0 := by
  simp only [removeFile, hf, hempty]
  exact ⟨rfl, rfl, rfl, rfl, rfl, rfl, rfl⟩

theorem updates_self {change : FileCache → FileCache}
    (hc : ∀ cached, pool.files.find? file = some cached → change cached = cached) :
    pool.Updates pool file change := by
  refine ⟨fun other => ?_⟩
  split
  · rename_i he
    subst he
    cases hf : pool.files.find? other with
    | none => rfl
    | some cached => rw [Option.map_some, hc cached hf]
  · rfl

-- The pages of one file go, and the file too if nothing is left of it and nobody reads it.
theorem exists_evictFile (ho : pool.Ordered) (hg : pool.counters.pages = pool.pagesUsed)
    (hf : pool.files.find? file = some cached) (excess : Nat) :
    ∃ evicted, pool.Updates evicted file (·.drop (cached.victims excess)) ∧
      pool.Evicted evicted (cached.victims excess).length ∧
      (cached.victims excess = [] → evicted = pool) ∧
      pool.evictFile file excess =
        (if cached.isIdle && (cached.drop (cached.victims excess)).pages.size == 0
          then evicted.removeFile file else evicted,
          excess - (cached.victims excess).length) := by
  have hchecked : (pool.require cached.isOrdered .strayOrder).require
      (decide ((cached.victims excess).length ≤ excess)) .excessUnderflow = pool := by
    have hlimit : (cached.victims excess).length ≤ excess := List.length_take_le ..
    rw [isOrdered_of_ordered (ho.pages file cached hf), decide_eq_true hlimit]
    rfl
  simp only [evictFile, hf, hchecked]
  by_cases hv : cached.victims excess = []
  · have hupdates : pool.Updates pool file (·.drop (cached.victims excess)) :=
      updates_self fun _ _ => hv ▸ rfl
    refine ⟨pool, hupdates, hv ▸ .refl hg, fun _ => rfl, ?_⟩
    simp only [hv, List.isEmpty_nil, if_true, hf, Option.any_some]
    rfl
  · have hupdates := updates_dropPages pool file (cached.victims excess)
      (.pagesEvicted file (cached.victims excess).length)
    have hframe := evicted_shrink (pool.modifyFile file (·.drop (cached.victims excess))) file
      (cached.victims excess).length
    have hleft := hupdates.find? file
    rw [if_pos rfl, hf, Option.map_some] at hleft
    refine ⟨_, hupdates, ⟨hframe.limits, hframe.serials, hframe.fetches, hframe.gatherings,
      hframe.live, hframe.used, hframe.counters⟩, fun he => absurd he hv, ?_⟩
    simp only [List.isEmpty_eq_false_iff.mpr hv, Bool.false_eq_true, if_false, hleft,
      Option.any_some]
    rfl

theorem ordered_sweep (ho : pool.Ordered) (file : FileId) (excess : Nat) :
    (sweep (pool, excess) file).1.Ordered := by
  unfold sweep
  split
  · exact ho
  · exact ordered_evictFile ho file excess

theorem find?_evictFile (ho : pool.Ordered) (hg : pool.counters.pages = pool.pagesUsed)
    (file : FileId) {excess : Nat} (he : excess ≠ 0) (other : FileId) :
    (pool.evictFile file excess).1.files.find? other =
      if other = file then (pool.files.find? other).bind (·.swept? excess)
      else pool.files.find? other := by
  cases hf : pool.files.find? file with
  | none =>
      simp only [evictFile, hf]
      split
      · rename_i hother
        rw [hother, hf, Option.bind_none]
      · rfl
  | some cached =>
      obtain ⟨evicted, hupdates, _, _, hevict⟩ := exists_evictFile ho hg hf excess
      have hleft := hupdates.find? file
      rw [if_pos rfl, hf, Option.map_some] at hleft
      rw [hevict]
      by_cases hother : other = file
      · subst hother
        rw [if_pos rfl, hf, Option.bind_some, FileCache.swept?_of_ne_zero he]
        split
        · rw [files_removeFile hleft, LruMap.find?_erase_self]
        · exact hleft
      · rw [if_neg hother]
        have hkept := hupdates.find? other
        rw [if_neg hother] at hkept
        split
        · rw [files_removeFile hleft, LruMap.find?_erase_of_ne _ hother, hkept]
        · exact hkept

theorem find?_sweep (ho : pool.Ordered) (hg : pool.counters.pages = pool.pagesUsed)
    (file : FileId) (excess : Nat) (other : FileId) :
    (sweep (pool, excess) file).1.files.find? other =
      if other = file then (pool.files.find? other).bind (·.swept? excess)
      else pool.files.find? other := by
  by_cases he : excess = 0
  · subst he
    rw [sweep, if_pos rfl]
    split
    · cases pool.files.find? other <;> rfl
    · rfl
  · rw [sweep, if_neg he]
    exact find?_evictFile ho hg file he other

theorem room_sweep (pool : Pool τ) (file : FileId) (excess : Nat) :
    (sweep (pool, excess) file).2 = excess - (pool.spareOf file).length := by
  unfold sweep
  split
  · rename_i he
    have hzero : excess = 0 := he
    rw [hzero, Nat.zero_sub]
  · cases hf : pool.files.find? file with
    | none => simp only [evictFile, hf, spareOf_of_none hf, List.length_nil, Nat.sub_zero]
    | some cached =>
        simp only [evictFile, hf, spareOf_eq hf, FileCache.victims_eq_take, List.length_take]
        omega

theorem evicted_sweep (ho : pool.Ordered) (hg : pool.counters.pages = pool.pagesUsed)
    (file : FileId) (excess : Nat) :
    pool.Evicted (sweep (pool, excess) file).1 (min excess (pool.spareOf file).length) := by
  by_cases he : excess = 0
  · rw [sweep, if_pos he, he, Nat.zero_min]
    exact .refl hg
  rw [sweep, if_neg he]
  cases hf : pool.files.find? file with
  | none =>
      simp only [evictFile, hf, spareOf_of_none hf, List.length_nil, Nat.min_zero]
      exact .refl hg
  | some cached =>
      obtain ⟨evicted, hupdates, hevicted, _, hevict⟩ := exists_evictFile ho hg hf excess
      have hleft := hupdates.find? file
      rw [if_pos rfl, hf, Option.map_some] at hleft
      rw [FileCache.victims_eq_take, List.length_take] at hevicted
      rw [hevict, spareOf_eq hf]
      split
      · rename_i hbare
        rw [Bool.and_eq_true, beq_iff_eq] at hbare
        exact hevicted.trans (evicted_removeFile hleft hbare.2)
      · exact hevicted

theorem find?_sweeps_of_notMem {files : List FileId} (ho : pool.Ordered)
    (hg : pool.counters.pages = pool.pagesUsed) (hm : file ∉ files) (excess : Nat) :
    (files.foldl sweep (pool, excess)).1.files.find? file = pool.files.find? file := by
  induction files generalizing pool excess with
  | nil => rfl
  | cons first rest ih =>
      rw [List.mem_cons, not_or] at hm
      rw [List.foldl_cons]
      refine (ih (ordered_sweep ho first excess) (evicted_sweep ho hg first excess).gauge hm.2
        (sweep (pool, excess) first).2).trans ?_
      rw [find?_sweep ho hg, if_neg hm.1]

-- What one file loses is nothing to the files that come after it.
theorem sparesOf_sweep {first : FileId} {rest : List FileId} (ho : pool.Ordered)
    (hg : pool.counters.pages = pool.pagesUsed) (hn : (first :: rest).Nodup) (excess : Nat) :
    (sweep (pool, excess) first).1.sparesOf rest = pool.sparesOf rest := by
  refine sparesOf_congr fun file hm => ?_
  have hne : file ≠ first := fun he => (List.nodup_cons.mp hn).1 (he ▸ hm)
  rw [find?_sweep ho hg, if_neg hne]

theorem ordered_sweeps (files : List FileId) (ho : pool.Ordered) (excess : Nat) :
    (files.foldl sweep (pool, excess)).1.Ordered :=
  sweeps_induction (P := fun swept => swept.1.Ordered)
    (fun swept file h => ordered_evictFile h file swept.2) files ho

-- As many pages go as there are to spare, and at most the excess.
theorem evicted_sweeps {files : List FileId} (ho : pool.Ordered)
    (hg : pool.counters.pages = pool.pagesUsed) (hn : files.Nodup) (excess : Nat) :
    (files.foldl sweep (pool, excess)).2 = excess - (pool.sparesOf files).length ∧
      pool.Evicted (files.foldl sweep (pool, excess)).1
        (min excess (pool.sparesOf files).length) := by
  induction files generalizing pool excess with
  | nil => exact ⟨rfl, Nat.min_zero excess ▸ .refl hg⟩
  | cons first rest ih =>
      have hordered := ordered_sweep ho first excess
      have hfirst := evicted_sweep ho hg first excess
      have hleft := room_sweep pool first excess
      have hspares := sparesOf_sweep ho hg hn excess
      rw [List.foldl_cons, sparesOf_cons, List.length_append, List.length_map]
      generalize sweep (pool, excess) first = swept at hordered hfirst hleft hspares
      obtain ⟨middle, room⟩ := swept
      obtain ⟨hroom, hrest⟩ := ih hordered hfirst.gauge (List.nodup_cons.mp hn).2 room
      simp only at hleft hspares
      rw [hspares] at hroom hrest
      refine ⟨?_, ?_⟩
      · rw [hroom, hleft, Nat.sub_sub]
      · have hcount : min excess ((pool.spareOf first).length + (pool.sparesOf rest).length) =
            min excess (pool.spareOf first).length +
              min room (pool.sparesOf rest).length := by
          omega
        rw [hcount]
        exact hfirst.trans hrest

-- A file is left as the room that is there for it says.
theorem find?_sweeps {before after : List FileId} (ho : pool.Ordered)
    (hg : pool.counters.pages = pool.pagesUsed) (hn : (before ++ file :: after).Nodup)
    (excess : Nat) :
    ((before ++ file :: after).foldl sweep (pool, excess)).1.files.find? file =
      (pool.files.find? file).bind (·.swept? (excess - (pool.sparesOf before).length)) := by
  obtain ⟨hbefore, hafter, hdisjoint⟩ := List.nodup_append.mp hn
  have hearlier : file ∉ before := fun hm => hdisjoint file hm file List.mem_cons_self rfl
  obtain ⟨hroom, hevicted⟩ := evicted_sweeps ho hg hbefore excess
  have hordered := ordered_sweeps before ho excess
  have hfound := find?_sweeps_of_notMem ho hg hearlier excess
  rw [List.foldl_append, List.foldl_cons]
  generalize before.foldl sweep (pool, excess) = swept at hroom hevicted hordered hfound
  obtain ⟨middle, room⟩ := swept
  refine (find?_sweeps_of_notMem (ordered_sweep hordered file room)
    (evicted_sweep hordered hevicted.gauge file room).gauge hafter.notMem _).trans ?_
  rw [find?_sweep hordered hevicted.gauge, if_pos rfl, hfound, ← hroom]

end Sweep

end Pool

end PageCache
