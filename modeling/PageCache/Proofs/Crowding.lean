import PageCache.Proofs.Moves

namespace PageCache

namespace LruMap

variable {α : Type}

@[simp] theorem next_modify (map : LruMap α) (key : Nat) (change : α → α) :
    (map.modify key change).next = map.next := rfl

theorem slot?_modify (map : LruMap α) (key other : Nat) (change : α → α) :
    ((map.modify key change).slot? other).map (·.stamp) = (map.slot? other).map (·.stamp) := by
  simp only [slot?, modify]
  induction map.slots with
  | nil => rfl
  | cons slot rest ih =>
      have hkey : (if slot.key = key then { slot with value := change slot.value }
          else slot).key = slot.key := by split <;> rfl
      rw [List.map_cons, List.find?_cons, List.find?_cons, hkey]
      cases slot.key == other with
      | true =>
          simp only [Option.map_some]
          split <;> rfl
      | false => exact ih

-- What is changed in place stays in its place.
theorem erase_eq (map : LruMap α) (key : Nat) :
    map.erase key =
      { map with
        slots := map.slots.filter (·.key != key)
        order := map.order.filter fun entry =>
          ((map.slot? key).map (·.stamp)).all (entry.1 != ·) } := by
  unfold erase
  cases hs : map.slot? key with
  | some slot => simp
  | none =>
      have hslots : map.slots.filter (·.key != key) = map.slots := by
        simp only [slot?, List.find?_eq_none] at hs
        exact List.filter_eq_self.mpr fun slot hm => by simpa using hs slot hm
      simp [hslots]

theorem erase_modify (map : LruMap α) (key other : Nat) (change : α → α) :
    (map.modify key change).erase other = (map.erase other).modify key change := by
  rw [erase_eq, erase_eq, slot?_modify]
  simp only [modify, List.filter_map, LruMap.mk.injEq, and_true]
  congr 1
  refine List.filter_congr fun slot _ => ?_
  simp only [Function.comp_apply]
  split <;> rfl

theorem modify_insert_of_ne (map : LruMap α) {key other : Nat} (h : other ≠ key)
    (change : α → α) (value : α) :
    (map.modify key change).insert other value = (map.insert other value).modify key change := by
  unfold insert
  rw [erase_modify]
  simp [modify, h]

theorem modify_insert_self (map : LruMap α) (key : Nat) (change : α → α) (value : α) :
    (map.modify key change).insert key (change value) =
      (map.insert key value).modify key change := by
  unfold insert
  rw [erase_modify]
  simp [modify]

theorem modify_touch (map : LruMap α) (key other : Nat) (change : α → α) :
    (map.modify key change).touch other = (map.touch other).modify key change := by
  unfold touch
  rw [find?_modify]
  by_cases h : other = key
  · subst h
    cases hf : map.find? other with
    | none => simp
    | some value => simp [modify_insert_self]
  · simp only [h, if_false]
    cases map.find? other with
    | none => rfl
    | some value => exact map.modify_insert_of_ne h change value

theorem modify_comm (map : LruMap α) (key other : Nat) {first second : α → α}
    (h : ∀ value, first (second value) = second (first value)) :
    (map.modify key first).modify other second = (map.modify other second).modify key first := by
  simp only [modify, List.map_map, LruMap.mk.injEq, and_true]
  refine List.map_congr_left fun slot _ => ?_
  obtain ⟨name, stamp, value⟩ := slot
  simp only [Function.comp_apply]
  by_cases hk : name = key
  · subst hk
    by_cases ho : name = other <;> simp [ho, h]
  · by_cases ho : name = other
    · subst ho
      simp [hk]
    · simp [hk, ho]

-- In place only the value of the key counts.
theorem Ordered.modify_congr {map : LruMap α} (h : map.Ordered) {key : Nat} {first second : α → α}
    (hc : ∀ value, map.find? key = some value → first value = second value) :
    map.modify key first = map.modify key second := by
  unfold LruMap.modify
  congr 1
  refine List.map_congr_left fun slot hs => ?_
  split
  · rename_i hk
    rw [hc slot.value ((find?_eq_some_iff h).mpr ⟨slot, hs, hk, rfl⟩)]
  · rfl

theorem modify_id (map : LruMap α) (key : Nat) {change : α → α}
    (h : ∀ value, change value = value) : map.modify key change = map := by
  simp [modify, h]

end LruMap

-- The same cached file with some more readers.
def FileCache.crowd (extra : Nat) (cached : FileCache) : FileCache :=
  { cached with readers := cached.readers + extra }

namespace Pool

variable {τ : Type} (pool : Pool τ) (file : FileId) (extra : Nat) (live : List LiveRead)

-- The same pool with other reads in progress, of which one file counts some more.
def crowd : Pool τ :=
  { pool with files := pool.files.modify file (·.crowd extra), live := live }

theorem crowd_zero : pool.crowd file 0 pool.live = pool := by
  have hfiles : pool.files.modify file (·.crowd 0) = pool.files :=
    LruMap.modify_id _ _ fun _ => rfl
  rw [crowd, hfiles]

@[simp] theorem live_crowd : (pool.crowd file extra live).live = live := rfl

@[simp] theorem limits_crowd : (pool.crowd file extra live).limits = pool.limits := rfl

@[simp] theorem fetches_crowd : (pool.crowd file extra live).fetches = pool.fetches := rfl

@[simp] theorem gatherings_crowd :
    (pool.crowd file extra live).gatherings = pool.gatherings := rfl

@[simp] theorem pagesUsed_crowd : (pool.crowd file extra live).pagesUsed = pool.pagesUsed := rfl

theorem find?_crowd (other : FileId) :
    (pool.crowd file extra live).files.find? other =
      (pool.files.find? other).map (·.crowd (if other = file then extra else 0)) := by
  rw [crowd, LruMap.find?_modify]
  split
  · rfl
  · cases pool.files.find? other <;> rfl

theorem emit_crowd (event : Event) :
    (pool.crowd file extra live).emit event = (pool.emit event).crowd file extra live := rfl

theorem require_crowd (holds : Bool) (breach : Breach) :
    (pool.crowd file extra live).require holds breach =
      (pool.require holds breach).crowd file extra live := by
  cases holds <;> rfl

theorem shrink_crowd (pages : Nat) :
    (pool.crowd file extra live).shrink pages = (pool.shrink pages).crowd file extra live := by
  unfold shrink
  rw [require_crowd, pagesUsed_crowd]
  rfl

theorem modifyFile_crowd (other : FileId) {change : FileCache → FileCache}
    (h : ∀ cached, change (cached.crowd extra) = (change cached).crowd extra) :
    (pool.crowd file extra live).modifyFile other change =
      (pool.modifyFile other change).crowd file extra live := by
  simp only [modifyFile, crowd]
  rw [LruMap.modify_comm _ _ _ fun cached => (h cached).symm]

theorem dropPages_crowd (other : FileId) (pages : List Nat) (event : Event) :
    (pool.crowd file extra live).dropPages other pages event =
      (pool.dropPages other pages event).crowd file extra live := by
  unfold dropPages
  rw [modifyFile_crowd, emit_crowd, shrink_crowd]
  exact fun _ => rfl

theorem removeFile_crowd (other : FileId) :
    (pool.crowd file extra live).removeFile other =
      (pool.removeFile other).crowd file extra live := by
  unfold removeFile
  rw [find?_crowd]
  cases pool.files.find? other with
  | none => rfl
  | some cached =>
      have herase : { pool.crowd file extra live with
          files := (pool.crowd file extra live).files.erase other } =
            crowd { pool with files := pool.files.erase other } file extra live := by
        simp only [crowd]
        rw [LruMap.erase_modify]
      simp only [Option.map_some, herase, shrink_crowd, emit_crowd]
      rfl

theorem leased?_crowd (lease : Lease) :
    (pool.crowd file extra live).leased? lease =
      (pool.leased? lease).map (·.crowd (if lease.file = file then extra else 0)) := by
  unfold leased?
  rw [find?_crowd]
  cases pool.files.find? lease.file with
  | none => rfl
  | some cached =>
      simp only [Option.map_some, Option.filter, FileCache.crowd]
      split <;> rfl

theorem page?_crowd (lease : Lease) (page : Nat) :
    (pool.crowd file extra live).page? lease page = pool.page? lease page := by
  unfold page?
  rw [leased?_crowd]
  cases pool.leased? lease <;> rfl

theorem attributes?_crowd (other : FileId) :
    (pool.crowd file extra live).attributes? other = pool.attributes? other := by
  unfold attributes?
  rw [find?_crowd]
  cases pool.files.find? other <;> rfl

theorem contains_crowd (other : FileId) (offset : Nat) :
    (pool.crowd file extra live).contains other offset = pool.contains other offset := by
  unfold contains
  rw [find?_crowd]
  cases pool.files.find? other <;> rfl

section Deliveries

theorem addPage_crowd (id : ReadId) (page : Nat) (data : Bytes) :
    (pool.crowd file extra live).addPage id page data =
      (pool.addPage id page data).crowd file extra live := by
  unfold addPage
  rw [gatherings_crowd, require_crowd, require_crowd]
  rfl

theorem arrive_crowd (id : ReadId) :
    (pool.crowd file extra live).arrive id = (pool.arrive id).crowd file extra live := by
  unfold arrive
  rw [gatherings_crowd, require_crowd, require_crowd]
  rfl

theorem foldl_crowd {α : Type} {act : Pool τ → α → Pool τ}
    (h : ∀ pool item, act (pool.crowd file extra live) item =
      (act pool item).crowd file extra live) (items : List α) :
    items.foldl act (pool.crowd file extra live) =
      (items.foldl act pool).crowd file extra live := by
  induction items generalizing pool with
  | nil => rfl
  | cons item rest ih => rw [List.foldl_cons, h, ih, List.foldl_cons]

end Deliveries

theorem dropStale_crowd (other : FileId) (keep : Nat) :
    (pool.crowd file extra live).dropStale other keep =
      (pool.dropStale other keep).crowd file extra live := by
  unfold dropStale
  rw [find?_crowd]
  cases pool.files.find? other with
  | none => rfl
  | some cached =>
      have hsame : (cached.crowd (if other = file then extra else 0)).unwaited =
          cached.unwaited := rfl
      simp only [Option.map_some, hsame]
      split
      · rfl
      · exact dropPages_crowd ..

theorem store_crowd (other : FileId) (wait : Wait) (waiters : List ReadId) (data : Bytes)
    (attributes : Attributes) :
    (pool.crowd file extra live).store other wait waiters data attributes =
      (pool.store other wait waiters data attributes).crowd file extra live := by
  have hchanged : ((pool.crowd file extra live).files.find? other).any (·.isStale attributes) =
      (pool.files.find? other).any (·.isStale attributes) := by
    rw [find?_crowd]
    cases pool.files.find? other <;> rfl
  unfold store
  simp only
  rw [hchanged, modifyFile_crowd]
  case h => exact fun _ => rfl
  split
  · rw [dropStale_crowd, emit_crowd]
    exact foldl_crowd _ _ _ _ (fun pool id => by rw [addPage_crowd, arrive_crowd]) waiters
  · rw [emit_crowd]
    exact foldl_crowd _ _ _ _ (fun pool id => by rw [addPage_crowd, arrive_crowd]) waiters

theorem giveUp_crowd (other : FileId) (wait : Wait) (waiters : List ReadId) (error : Error) :
    (pool.crowd file extra live).giveUp other wait waiters error =
      (pool.giveUp other wait waiters error).crowd file extra live := by
  unfold giveUp
  rw [dropPages_crowd]
  exact foldl_crowd _ _ _ _ (fun pool id => arrive_crowd (pool.spoil id error) ..) waiters

theorem resolve_crowd (lease : Lease) (wait : Wait) (outcome : Outcome) :
    (pool.crowd file extra live).resolve lease wait outcome =
      (pool.resolve lease wait outcome).crowd file extra live := by
  unfold resolve
  rw [page?_crowd]
  split
  · split
    · split
      · exact store_crowd ..
      · exact giveUp_crowd ..
    · rfl
  · rfl

theorem invalidate_crowd (other : FileId) :
    (pool.crowd file extra live).invalidate other =
      ((pool.invalidate other).1.crowd file extra live, (pool.invalidate other).2) := by
  unfold invalidate
  rw [find?_crowd]
  cases pool.files.find? other with
  | none => rfl
  | some cached =>
      simp only [Option.map_some]
      rw [modifyFile_crowd, dropPages_crowd]
      · rfl
      · exact fun _ => rfl

theorem revalidate_crowd (other : FileId) (attributes : Attributes) :
    (pool.crowd file extra live).revalidate other attributes =
      ((pool.revalidate other attributes).1.crowd file extra live,
        (pool.revalidate other attributes).2) := by
  unfold revalidate
  rw [find?_crowd]
  cases pool.files.find? other with
  | none => rfl
  | some cached =>
      have hsame : (cached.crowd (if other = file then extra else 0)).isStale attributes =
          cached.isStale attributes := rfl
      simp only [Option.map_some, hsame]
      rw [modifyFile_crowd]
      case h => exact fun _ => rfl
      split
      · rw [dropPages_crowd]
        rfl
      · rfl

-- Whether a file is idle is noticed by its own release.
theorem release_crowd {other : FileId} (h : other ≠ file) :
    (pool.crowd file extra live).release other =
      ((pool.release other).1.crowd file extra live, (pool.release other).2) := by
  unfold release
  rw [find?_crowd]
  cases pool.files.find? other with
  | none => rfl
  | some cached =>
      have hsame : (cached.crowd 0).isIdle = cached.isIdle := rfl
      simp only [Option.map_some, if_neg h, hsame]
      split
      · rw [removeFile_crowd]
      · rw [modifyFile_crowd]
        exact fun _ => rfl

end Pool

end PageCache
