import PageCache.Proofs.Crowding
import PageCache.Proofs.Marking

namespace PageCache

namespace LruMap

variable {α : Type}

theorem modify_modify (map : LruMap α) (key : Nat) (first second : α → α) :
    (map.modify key first).modify key second = map.modify key (second ∘ first) := by
  simp only [modify, List.map_map, LruMap.mk.injEq, and_true]
  refine List.map_congr_left fun slot _ => ?_
  simp only [Function.comp_apply]
  by_cases hk : slot.key = key <;> simp [hk]

theorem modify_comm_of_ne (map : LruMap α) {key other : Nat} (h : key ≠ other)
    (first second : α → α) :
    (map.modify key first).modify other second = (map.modify other second).modify key first := by
  simp only [modify, List.map_map, LruMap.mk.injEq, and_true]
  refine List.map_congr_left fun slot _ => ?_
  obtain ⟨name, stamp, value⟩ := slot
  simp only [Function.comp_apply]
  by_cases hk : name = key
  · subst hk
    simp [h]
  · by_cases ho : name = other <;> simp [hk, ho, Ne.symm h]

end LruMap

namespace Pool

variable {τ : Type} {pool kept : Pool τ} {file : FileId} {id : ReadId}

-- The pool over which an operation has pages evicted, if it comes to that.
def swept? (pool : Pool τ) : Op → Option (Pool τ)
  | .read file offset length _ =>
      let looked := pool.lookupSpan file offset (offset + length)
      if 0 < length ∧ offset + length < wordLimit ∧ pool.fetches.size < looked.fetches.size ∧
          looked.limits.pageBudget < looked.pagesUsed then some looked
      else none
  | .prune => some pool
  | _ => none

section Eviction

variable {extra : Nat} {live : List LiveRead}

theorem isIdle_crowd {cached : FileCache} {extra : Nat} (h : extra = 0 ∨ 0 < cached.readers) :
    (cached.crowd extra).isIdle = cached.isIdle := by
  simp only [FileCache.isIdle, FileCache.crowd]
  rw [Bool.eq_iff_iff, beq_iff_eq, beq_iff_eq]
  omega

-- A file that is read is not idle, no matter how many readers it has.
theorem evictFile_crowd
    (h : ∀ cached, pool.files.find? file = some cached → 0 < cached.readers) (other : FileId)
    (excess : Nat) :
    (pool.crowd file extra live).evictFile other excess =
      ((pool.evictFile other excess).1.crowd file extra live, (pool.evictFile other excess).2) := by
  unfold evictFile
  rw [find?_crowd]
  cases hf : pool.files.find? other with
  | none => rfl
  | some cached =>
      let more := if other = file then extra else 0
      have hmore : more = 0 ∨ 0 < cached.readers := by
        by_cases he : other = file
        · exact .inr (h cached (he ▸ hf))
        · exact .inl (if_neg he)
      have hvictims : (cached.crowd more).victims excess = cached.victims excess := by
        simp only [FileCache.victims, isIdle_crowd hmore]
        rfl
      have hbare : ∀ left : FileCache, left.readers = cached.readers →
          ((left.crowd more).isIdle && (left.crowd more).pages.size == 0) =
            (left.isIdle && left.pages.size == 0) := by
        intro left hl
        rw [isIdle_crowd (hl ▸ hmore)]
        rfl
      have hremove : ∀ evicted : Pool τ, (∀ left, evicted.files.find? other = some left →
          left.readers = cached.readers) →
          (if ((evicted.crowd file extra live).files.find? other).any
              (fun cached => cached.isIdle && cached.pages.size == 0) then
            (evicted.crowd file extra live).removeFile other
          else evicted.crowd file extra live) =
          (if (evicted.files.find? other).any
              (fun cached => cached.isIdle && cached.pages.size == 0) then
            evicted.removeFile other
          else evicted).crowd file extra live := by
        intro evicted hl
        rw [find?_crowd, removeFile_crowd]
        cases hfound : evicted.files.find? other with
        | none => rfl
        | some left =>
            have hkept := hbare left (hl left hfound)
            simp only [more] at hkept
            simp only [Option.map_some, Option.any_some, hkept]
            split <;> rfl
      have hordered : (cached.crowd more).isOrdered = cached.isOrdered := rfl
      simp only [Option.map_some]
      rw [hvictims, hordered, require_crowd, require_crowd]
      by_cases hv : (cached.victims excess).isEmpty
      · simp only [hv, if_true, Prod.mk.injEq, and_true]
        refine hremove _ fun left hl => ?_
        rw [files_require, files_require, hf, Option.some.injEq] at hl
        rw [hl]
      · simp only [hv, Bool.false_eq_true, if_false, Prod.mk.injEq, and_true]
        rw [dropPages_crowd]
        refine hremove _ fun left hl => ?_
        rw [files_dropPages, find?_modifyFile, if_pos rfl, files_require, files_require, hf,
          Option.map_some, Option.some.injEq] at hl
        rw [← hl]
        rfl

theorem Leased.readers_pos (h : pool.Leased) (hb : pool.Busy file) (cached : FileCache)
    (hf : pool.files.find? file = some cached) : 0 < cached.readers := by
  rw [h.readers file cached hf]
  exact (busy_iff_countP_pos pool file).mp hb

theorem sweep_crowd (files : List FileId) (h : pool.Leased) (hb : pool.Busy file)
    (excess : Nat) :
    files.foldl sweep (pool.crowd file extra live, excess) =
      ((files.foldl sweep (pool, excess)).1.crowd file extra live,
        (files.foldl sweep (pool, excess)).2) := by
  induction files generalizing pool excess with
  | nil => rfl
  | cons other rest ih =>
      rw [List.foldl_cons, List.foldl_cons]
      by_cases he : excess = 0
      · simp only [sweep, he, if_true]
        exact ih h hb 0
      · have ht := trims_evictFile h other excess
        simp only [sweep, he, if_false, evictFile_crowd (h.readers_pos hb)]
        exact ih (ht.leased h) ((ht.busy_iff file).mpr hb) _

theorem evict_crowd (h : pool.Leased) (hb : pool.Busy file) :
    (pool.crowd file extra live).evict =
      (pool.evict.1.crowd file extra live, pool.evict.2) := by
  have hkeys : (pool.crowd file extra live).files.keys = pool.files.keys := rfl
  simp only [evict, hkeys, pagesUsed_crowd, limits_crowd, sweep_crowd _ h hb, require_crowd]

theorem enforceBudget_crowd (h : pool.Leased)
    (hb : pool.limits.pageBudget < pool.pagesUsed → pool.Busy file) :
    (pool.crowd file extra live).enforceBudget =
      pool.enforceBudget.crowd file extra live := by
  unfold enforceBudget
  rw [limits_crowd, pagesUsed_crowd]
  by_cases hover : pool.limits.pageBudget < pool.pagesUsed
  · rw [if_pos hover, if_pos hover, evict_crowd h (hb hover)]
  · rw [if_neg hover, if_neg hover]

end Eviction

-- The two pools differ in one read. In the first it has been given up, and in the second it
-- is still in progress, so that its file has one reader more.
structure Spares (id : ReadId) (file : FileId) (pool kept : Pool τ) : Prop where
  same : kept = pool.crowd file 1 kept.live
  others : pool.live = kept.live.filter (·.id != id)
  spared : ∃ read ∈ kept.live, read.id = id ∧ read.lease.file = file

-- What does the same to a pool however many readers the file has keeps two such pools apart in
-- nothing else.
theorem Spares.apply (h : Spares id file pool kept) (act : Pool τ → Pool τ)
    (change : List LiveRead → List LiveRead)
    (ha : ∀ extra live, act (pool.crowd file extra live) =
      (act pool).crowd file extra (change live))
    (hc : ∀ live : List LiveRead,
      change (live.filter (·.id != id)) = (change live).filter (·.id != id))
    (hk : ∀ read ∈ kept.live, read.id = id →
      ∃ left ∈ change kept.live, left.id = id ∧ left.lease = read.lease) :
    Spares id file (act pool) (act kept) := by
  have hkept : act kept = (act pool).crowd file 1 (change kept.live) := by
    rw [← ha, ← h.same]
  have hlive : (act pool).live = change pool.live := by
    have hself := ha 0 pool.live
    rw [crowd_zero] at hself
    exact congrArg Pool.live hself
  obtain ⟨read, hr, hid, hfile⟩ := h.spared
  obtain ⟨left, hl, hleft, hlease⟩ := hk read hr hid
  rw [hkept]
  refine ⟨rfl, ?_, left, hl, hleft, hlease ▸ hfile⟩
  rw [hlive, h.others, hc]
  rfl

theorem Spares.applySame (h : Spares id file pool kept) (act : Pool τ → Pool τ)
    (ha : ∀ extra live, act (pool.crowd file extra live) =
      (act pool).crowd file extra live) : Spares id file (act pool) (act kept) :=
  h.apply act (fun live => live) ha (fun _ => rfl) fun read hr hid => ⟨read, hr, hid, rfl⟩

end Pool

namespace Mount

variable {σ τ : Type}

-- The pools over which pages are evicted in a run, in order.
def sweeps (backend : Backend σ τ) (mount : Mount σ τ) : List (Act σ) → List (Pool τ)
  | [] => []
  | .ask op :: rest =>
      (mount.pool.swept? op).toList ++ sweeps backend (mount.step backend op).1 rest
  | .change become :: rest =>
      sweeps backend { mount with storage := become mount.storage } rest

theorem sweeps_append (backend : Backend σ τ) (mount : Mount σ τ) (first second : List (Act σ)) :
    mount.sweeps backend (first ++ second) =
      mount.sweeps backend first ++ (mount.run backend first).sweeps backend second := by
  induction first generalizing mount with
  | nil => rfl
  | cons act rest ih =>
      cases act with
      | ask op =>
          simp only [List.cons_append, sweeps, ih, List.append_assoc]
          rfl
      | change become => exact ih _

end Mount

end PageCache
