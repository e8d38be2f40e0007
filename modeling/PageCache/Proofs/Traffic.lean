import PageCache.Proofs.Moves
import PageCache.Proofs.Running

namespace PageCache

-- What a read that is made of the part waits for.
def Part.wait? (part : Part) : Option Wait :=
  part.fetch?.map fun fetch => ⟨part.page, fetch⟩

namespace Pool

variable {τ : Type} {pool : Pool τ} {lease : Lease} {file : FileId}

-- The reads of storage behind all fetches, in the order in which their pages were created.
def calls (pool : Pool τ) : List Call := pool.fetches.toList.map (·.call)

-- Those of the pages that the file does not hold.
def absent (pool : Pool τ) (file : FileId) (pages : List Nat) : List Nat :=
  pages.filter fun page => (pool.pageAt? file page).isNone

-- A fetch of a page that has yet to be polled.
def fresh (pool : Pool τ) (file : FileId) (page : Nat) : Fetch τ :=
  ⟨⟨file, page, pool.limits.pageSize⟩, .idle⟩

theorem getElem?_calls (pool : Pool τ) (fetch : FetchId) :
    pool.calls[fetch]? = pool.call? fetch := by
  simp [calls, call?]

theorem length_calls (pool : Pool τ) : pool.calls.length = pool.fetches.size := by
  simp [calls]

theorem calls_eq_of_call? {next : Pool τ} (h : next.call? = pool.call?) :
    next.calls = pool.calls := by
  apply List.ext_getElem?
  intro fetch
  rw [getElem?_calls, getElem?_calls, h]

theorem absent_congr {other : Pool τ} {pages : List Nat}
    (h : ∀ page ∈ pages, other.pageAt? file page = pool.pageAt? file page) :
    other.absent file pages = pool.absent file pages :=
  List.filter_congr fun page hp => by rw [h page hp]

-- One page after another is looked up, and each that is not there comes with a fetch.
theorem fetches_lookups (id : ReadId) {pages : List Nat} (h : pool.Holds lease)
    (hn : pages.Nodup) :
    (pages.foldl (lookup id lease) pool).fetches.toList =
      pool.fetches.toList ++ (pool.absent lease.file pages).map (pool.fresh lease.file) := by
  induction pages generalizing pool with
  | nil => simp [absent]
  | cons page rest ih =>
      rw [List.nodup_cons] at hn
      have hrest : (lookup id lease pool page).absent lease.file rest =
          pool.absent lease.file rest := by
        apply absent_congr
        intro name hname
        exact pageAt?_lookup_of_ne h id page lease.file fun he => hn.1 (he ▸ hname)
      have hfresh : (lookup id lease pool page).fresh lease.file = pool.fresh lease.file := by
        funext name
        rw [fresh, fresh, (keeps_lookup id lease pool page).limits]
      rw [List.foldl_cons, ih (h.lookup id page) hn.2, hrest, hfresh, fetches_lookup h]
      by_cases hp : (pool.pageAt? lease.file page).isNone = true
      · simp [absent, hp, fresh]
      · simp [absent, hp]

theorem live?_modifyLive (pool : Pool τ) (id : ReadId) {change : LiveRead → LiveRead}
    (hi : ∀ read, (change read).id = read.id) :
    (pool.modifyLive id change).live? id = (pool.live? id).map change := by
  have hsame : ((·.id == id) ∘ fun read : LiveRead => if read.id = id then change read else read) =
      (·.id == id) := by
    funext read
    simp only [Function.comp_apply]
    split <;> simp [hi]
  simp only [live?, modifyLive, List.find?_map, hsame]
  cases hf : pool.live.find? (·.id == id) with
  | none => rfl
  | some read =>
      have hid : read.id = id := by simpa using List.find?_some hf
      rw [Option.map_some, Option.map_some, if_pos hid]

theorem live?_of_live {other : Pool τ} (h : other.live = pool.live) (id : ReadId) :
    other.live? id = pool.live? id := by
  rw [live?, live?, h]

theorem live?_filter_of_ne (pool : Pool τ) {id other : ReadId} (h : other ≠ id) :
    live? { pool with live := pool.live.filter (·.id != id) } other = pool.live? other := by
  simp only [live?, List.find?_filter]
  congr 1
  funext read
  by_cases he : read.id = other <;> simp [he, h]

-- A read waits for each page that is not loaded when it is looked up.
theorem live?_lookup (h : pool.Holds lease) (id : ReadId) (page : Nat) :
    (lookup id lease pool page).live? id = (pool.live? id).map fun read =>
      { read with waits := read.waits ++
        (Part.wait? ⟨page, pool.source lease.file page pool.fetches.size⟩).toList } := by
  have hjoin : ∀ (pool : Pool τ) (wait : Wait), (pool.join id lease wait).live? id =
      (pool.live? id).map fun read => { read with waits := read.waits ++ [wait] } := by
    intro pool wait
    rw [live?_of_live (join_frame pool id lease wait).2.2.2.2.2]
    exact live?_modifyLive pool id fun _ => rfl
  unfold lookup source
  rw [page?_eq_pageAt? page h]
  cases hp : pool.pageAt? lease.file page with
  | none => exact hjoin _ _
  | some found =>
      cases found with
      | fetching fetch waiters => exact hjoin pool _
      | loaded fetch data =>
          dsimp only
          rw [live?_of_live (delivers_addPage ..).live]
          simp only [Part.wait?, Part.fetch?, Option.map_none, Option.toList_none, List.append_nil]
          exact Option.map_id'.symm

theorem live?_lookups (id : ReadId) {pages : List Nat} (h : pool.Holds lease)
    (hn : pages.Nodup) :
    (pages.foldl (lookup id lease) pool).live? id = (pool.live? id).map fun read =>
      { read with waits := read.waits ++
        (pool.partsFrom lease.file pool.fetches.size pages).filterMap Part.wait? } := by
  induction pages generalizing pool with
  | nil => simp [partsFrom]
  | cons page rest ih =>
      rw [List.nodup_cons] at hn
      have hparts : (lookup id lease pool page).partsFrom lease.file
          (lookup id lease pool page).fetches.size rest =
          pool.partsFrom lease.file
            (if (pool.pageAt? lease.file page).isNone then pool.fetches.size + 1
              else pool.fetches.size) rest := by
        rw [size_fetches_lookup h]
        refine partsFrom_congr (fun name hname => ?_) _
        exact pageAt?_lookup_of_ne h id page lease.file fun he => hn.1 (he ▸ hname)
      rw [List.foldl_cons, ih (h.lookup id page) hn.2, hparts, live?_lookup h, Option.map_map]
      congr 1
      funext read
      simp only [Function.comp_apply, partsFrom, List.filterMap_cons]
      cases Part.wait? ⟨page, pool.source lease.file page pool.fetches.size⟩ <;> simp

-- New fetches are numbered in the order of the pages, after all that are there.
theorem fetches_partsFrom {count : Nat}
    (hk : ∀ page fetch waiters, pool.pageAt? file page = some (.fetching fetch waiters) →
      fetch < count) {pages : List Nat} {next : FetchId} (hle : count ≤ next) :
    ((pool.partsFrom file next pages).filterMap Part.fetch?).filter (decide <| count ≤ ·) =
      List.range' next (pool.absent file pages).length := by
  induction pages generalizing next with
  | nil => rfl
  | cons page rest ih =>
      rw [partsFrom, List.filterMap_cons, absent, List.filter_cons]
      unfold source
      cases hp : pool.pageAt? file page with
      | none =>
          simp only [Part.fetch?, Option.isNone_none, if_true, List.length_cons,
            List.range'_succ]
          rw [List.filter_cons_of_pos (by simpa using hle), ih (Nat.le_succ_of_le hle)]
          rfl
      | some found =>
          simp only [Option.isNone_some, Bool.false_eq_true, if_false]
          cases found with
          | loaded fetch data =>
              simp only [Part.fetch?]
              exact ih hle
          | fetching fetch waiters =>
              have hlt := hk page fetch waiters hp
              simp only [Part.fetch?]
              rw [List.filter_cons_of_neg (by simp; omega)]
              exact ih hle

-- Among the fetches that are waited for is that of each page that is not there.
theorem exists_wait_partsFrom {pages : List Nat} {page : Nat} (hm : page ∈ pages)
    (hp : pool.pageAt? file page = none) (next : FetchId) :
    ∃ fetch, next ≤ fetch ∧
      ⟨page, fetch⟩ ∈ (pool.partsFrom file next pages).filterMap Part.wait? := by
  induction pages generalizing next with
  | nil => cases hm
  | cons first rest ih =>
      rw [partsFrom, List.filterMap_cons]
      rcases List.mem_cons.mp hm with rfl | hm
      · refine ⟨next, Nat.le_refl _, ?_⟩
        simp [Part.wait?, Part.fetch?, source, hp]
      · obtain ⟨fetch, hle, hmem⟩ := ih hm
          (if (pool.pageAt? file first).isNone then next + 1 else next)
        refine ⟨fetch, Nat.le_trans ?_ hle, ?_⟩
        · split
          · exact Nat.le_succ next
          · exact Nat.le_refl next
        · cases Part.wait? ⟨first, pool.source file first next⟩ with
          | none => exact hmem
          | some wait => exact List.mem_cons_of_mem wait hmem

section StartRead

variable {plans : ReadId → Plan}

-- The lookups of a read create a fetch for each page of its span that is not there.
theorem fetches_lookedUp (hs : pool.Sound plans) (file : FileId) (offset stop : Nat) :
    (pool.lookedUp file offset stop).fetches.toList =
      pool.fetches.toList ++
        (pool.absent file (pool.limits.span offset stop)).map (pool.fresh file) := by
  have hregistered := starting_registered hs file offset stop
  have halike := alike_registered pool file offset stop
  rw [lookedUp, fetches_lookups _ hregistered.cached (pool.limits.nodup_span offset stop)]
  congr 1
  · exact congrArg Array.toList (enter_frame pool file).2.1
  · rw [absent_congr fun page _ => congrFun (congrFun halike.pageAt? file) page]
    have hfresh : (pool.registered file offset stop).fresh file = pool.fresh file := by
      funext name
      rw [fresh, fresh, halike.limits]
    rw [hfresh]

theorem fetches_startRead (hs : pool.Sound plans) (file : FileId) (offset stop : Nat) :
    (pool.startRead file offset stop).fetches.toList =
      pool.fetches.toList ++
        (pool.absent file (pool.limits.span offset stop)).map (pool.fresh file) := by
  obtain ⟨kept, htrims, he⟩ := exists_trims_startRead hs file offset stop
  rw [he, (delivers_arrive kept _).fetches, htrims.fetches, lookupSpan_eq, fetches_require,
    fetches_lookedUp hs]

-- A read within the 64-bit offsets does not create more pages than a word can count.
theorem created_lt (hs : pool.Sound plans) (file : FileId) (offset : Nat) {stop : Nat}
    (hw : stop < wordLimit) :
    (pool.lookedUp file offset stop).fetches.size - pool.fetches.size < wordLimit := by
  have hcreated := congrArg List.length (fetches_lookedUp hs file offset stop)
  have habsent : (pool.absent file (pool.limits.span offset stop)).length ≤
      (pool.limits.span offset stop).length := List.length_filter_le ..
  have hspan := pool.limits.length_span_lt offset hw
  simp only [Array.length_toList, List.length_append, List.length_map] at hcreated
  omega

-- And it waits for all fetches of its plan, in file order.
theorem live?_startRead (hs : pool.Sound plans) (file : FileId) (offset stop : Nat) :
    (pool.startRead file offset stop).live? pool.gatherings.size =
      some ⟨pool.gatherings.size, ⟨file, (pool.resident file).serial⟩,
        (pool.plan file offset stop).parts.filterMap Part.wait?⟩ := by
  obtain ⟨kept, htrims, he⟩ := exists_trims_startRead hs file offset stop
  have hregistered := starting_registered hs file offset stop
  have halike := alike_registered pool file offset stop
  have hnew : (pool.registered file offset stop).live? pool.gatherings.size =
      some { id := pool.gatherings.size, lease := ⟨file, (pool.resident file).serial⟩ } := by
    refine hregistered.sound.leased.live?_eq_some_iff.mpr ⟨?_, rfl⟩
    rw [live_registered]
    exact List.mem_append_right _ (List.mem_singleton_self _)
  rw [he, live?_of_live (delivers_arrive kept _).live, live?_of_live htrims.live, lookupSpan_eq,
    live?_of_live (live_require ..), lookedUp,
    live?_lookups _ hregistered.cached (pool.limits.nodup_span offset stop), hnew,
    Option.map_some]
  have hsize : (pool.registered file offset stop).fetches.size = pool.fetches.size :=
    congrArg Array.size (enter_frame pool file).2.1
  rw [hsize, partsFrom_congr fun page _ => congrFun (congrFun halike.pageAt? file) page]
  rfl

theorem Backed.fetch_lt (h : pool.Backed) {page : Nat} {fetch : FetchId} {waiters : List ReadId}
    (hp : pool.pageAt? file page = some (.fetching fetch waiters)) :
    fetch < pool.fetches.size := by
  by_contra hn
  have hcall := (h.fetching file page fetch waiters hp).1
  rw [call?_eq_none_iff.mpr (Nat.le_of_not_lt hn)] at hcall
  cases hcall

-- The new ones among these are those that it has created.
theorem fetches_plan (hs : pool.Sound plans) (file : FileId) (offset stop : Nat) :
    (pool.plan file offset stop).fetches.filter (decide <| pool.fetches.size ≤ ·) =
      List.range' pool.fetches.size (pool.absent file (pool.limits.span offset stop)).length :=
  fetches_partsFrom (fun _ _ _ hp => hs.backed.fetch_lt hp) (Nat.le_refl _)

end StartRead

end Pool

end PageCache
