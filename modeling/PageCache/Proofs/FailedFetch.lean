import PageCache.Proofs.Accounting
import PageCache.Proofs.Bookkeeping
import PageCache.Proofs.FaultResolution
import PageCache.Proofs.Issuing
import PageCache.Proofs.Renewal

namespace PageCache

namespace Pool

variable {τ : Type} {pool next : Pool τ} {file : FileId} {wait : Wait} {waiters : List ReadId}
  {error : Error}

-- A page is given up, and the reads that it lists get the error. No other page changes, in what
-- it holds, in its waiters or in its place in the order of use, and no file does in anything
-- else. The failure is counted, the page is off the count, and what was fetched or is being
-- fetched otherwise is left alone.
structure Fails (pool next : Pool τ) (file : FileId) (wait : Wait) (error : Error)
    (waiters : List ReadId) : Prop where
  waiting : pool.pageAt? file wait.page = some (.fetching wait.fetch waiters)
  gone : next.pageAt? file wait.page = none
  pages : ∀ other name, ¬ (other = file ∧ name = wait.page) →
    next.pageAt? other name = pool.pageAt? other name
  pageOrder : ∀ other, next.pagesOf other =
    if other = file then (pool.pagesOf other).filter (· ≠ wait.page) else pool.pagesOf other
  fileOrder : next.files.keys = pool.files.keys
  files : ∀ other, (next.files.find? other).map FileCache.outline =
    (pool.files.find? other).map FileCache.outline
  told : ∀ id ∈ waiters, ∃ gathering, pool.gatherings[id]? = some gathering ∧
    next.gatherings[id]? = some (gathering.spoil error).arrive
  untold : ∀ id ∉ waiters, next.gatherings[id]? = pool.gatherings[id]?
  used : next.pagesUsed + 1 = pool.pagesUsed
  counters : next.counters =
    { pool.counters with
      faults := pool.counters.faults + (pool.idle? wait.fetch).toList.length
      faultFailures := pool.counters.faultFailures + 1
      pages := next.pagesUsed }
  size : next.fetches.size = pool.fetches.size
  fetches : ∀ other ≠ wait.fetch, next.fetches[other]? = pool.fetches[other]?
  limits : next.limits = pool.limits
  serials : next.serials = pool.serials

-- What giving up a page does.
theorem delivers_giveUp (hn : waiters.Nodup) (pool : Pool τ) (file : FileId) (wait : Wait)
    (error : Error) :
    Delivers (pool.dropPages file [wait.page]
      (.fetchFailed file wait.page wait.fetch error waiters.length))
      (pool.giveUp file wait waiters error) waiters (Gathering.arrive ∘ (·.spoil error)) :=
  delivers_foldl (fun pool id =>
    (delivers_modifyGathering pool id (·.spoil error)).comp (delivers_arrive _ id)) hn _

theorem uncounted_giveUp (pool : Pool τ) (file : FileId) (wait : Wait) (waiters : List ReadId)
    (error : Error) :
    Uncounted (pool.dropPages file [wait.page]
      (.fetchFailed file wait.page wait.fetch error waiters.length))
      (pool.giveUp file wait waiters error) :=
  uncounted_foldl (fun pool id => (uncounted_spoil pool id error).trans (uncounted_arrive _ id)) _ _

-- A page that is there is on the count.
theorem pagesUsed_pos (ho : pool.Ordered) (ha : pool.Accounted) {page : Nat} {found : Page}
    (hp : pool.pageAt? file page = some found) : 0 < pool.pagesUsed := by
  obtain ⟨cached, hf, hfound⟩ := Option.bind_eq_some_iff.mp hp
  have hkey := (ho.pages file cached hf).mem_keys.mpr ⟨found, hfound⟩
  have hheld := ho.pagesHeld_drop hf (List.nodup_singleton page) (by simpa using hkey)
  rw [ha.used, ← hheld]
  exact Nat.succ_pos _

theorem pageAt?_giveUp (hn : waiters.Nodup) (pool : Pool τ) (file : FileId) (wait : Wait)
    (other : FileId) (name : Nat) :
    (pool.giveUp file wait waiters error).pageAt? other name =
      if other = file ∧ name = wait.page then none else pool.pageAt? other name := by
  have hupdates := updates_dropPages pool file [wait.page]
    (.fetchFailed file wait.page wait.fetch error waiters.length)
  rw [pageAt?, (delivers_giveUp hn pool file wait error).files, hupdates.find? other, pageAt?]
  by_cases hother : other = file
  · rw [if_pos hother]
    cases hf : pool.files.find? other with
    | none => simp
    | some cached => simp [FileCache.drop, LruMap.find?_eraseAll, hother]
  · simp [hother]

theorem files_giveUp (hn : waiters.Nodup) (pool : Pool τ) (file : FileId) (wait : Wait) :
    (pool.giveUp file wait waiters error).files =
      pool.files.modify file (·.drop [wait.page]) := by
  rw [(delivers_giveUp hn pool file wait error).files, files_dropPages]
  rfl

theorem pagesOf_giveUp (ho : pool.Ordered) (hn : waiters.Nodup) (file : FileId) (wait : Wait)
    (other : FileId) :
    (pool.giveUp file wait waiters error).pagesOf other =
      if other = file then (pool.pagesOf other).filter (· ≠ wait.page)
      else pool.pagesOf other := by
  rw [pagesOf, files_giveUp hn, LruMap.find?_modify, pagesOf]
  by_cases he : other = file
  · cases hf : pool.files.find? other with
    | none => simp [he]
    | some cached =>
        simp [he, FileCache.drop, (ho.pages other cached hf).keys_eraseAll]
  · simp only [he, if_false]

theorem fails_giveUp (ho : pool.Ordered) (ha : pool.Accounted) (hn : waiters.Nodup)
    (hk : ∀ id ∈ waiters, id < pool.gatherings.size) (hi : pool.idle? wait.fetch = none)
    (hp : pool.pageAt? file wait.page = some (.fetching wait.fetch waiters)) (error : Error) :
    pool.Fails (pool.giveUp file wait waiters error) file wait error waiters := by
  have hd := delivers_giveUp hn pool file wait error
  have hu := uncounted_giveUp pool file wait waiters error
  have hgathered : (pool.dropPages file [wait.page]
      (.fetchFailed file wait.page wait.fetch error waiters.length)).gatherings =
        pool.gatherings := gatherings_require ..
  have hused : (pool.giveUp file wait waiters error).pagesUsed = pool.pagesUsed - 1 := hu.used
  have hfetches : (pool.giveUp file wait waiters error).fetches = pool.fetches :=
    hd.fetches.trans (fetches_dropPages ..)
  exact
    { waiting := hp
      gone := by rw [pageAt?_giveUp hn, if_pos ⟨rfl, rfl⟩]
      pages := fun other name hne => by rw [pageAt?_giveUp hn, if_neg hne]
      pageOrder := pagesOf_giveUp ho hn file wait
      fileOrder := by rw [files_giveUp hn, LruMap.keys_modify]
      files := fun other => by
        rw [files_giveUp hn, LruMap.find?_modify]
        split
        · rw [Option.map_map]
          rfl
        · rfl
      told := fun id hid => by
        have hfound := Array.getElem?_eq_getElem (hk id hid)
        refine ⟨_, hfound, ?_⟩
        rw [hd.gatherings, if_pos hid, hgathered, hfound]
        rfl
      untold := fun id hid => by rw [hd.gatherings, if_neg hid, hgathered]
      used := by
        have hpos := pagesUsed_pos ho ha hp
        omega
      counters := by
        rw [hu.counters, counters_dropPages, hused, hi]
        rfl
      size := congrArg Array.size hfetches
      fetches := fun other _ => by rw [hfetches]
      limits := hd.limits.trans (limits_dropPages ..)
      serials := hu.serials.trans (serials_dropPages ..) }

-- A fetch is polled, and maybe launched first.
structure Drives (pool driven : Pool τ) (fetch : FetchId) : Prop where
  limits : driven.limits = pool.limits
  files : driven.files = pool.files
  serials : driven.serials = pool.serials
  used : driven.pagesUsed = pool.pagesUsed
  gatherings : driven.gatherings = pool.gatherings
  live : driven.live = pool.live
  counters : driven.counters =
    { pool.counters with
      faults := pool.counters.faults + (pool.idle? fetch).toList.length }
  size : driven.fetches.size = pool.fetches.size
  others : ∀ other ≠ fetch, driven.fetches[other]? = pool.fetches[other]?
  launched : driven.idle? fetch = none

-- If it is launched first, that is counted.
theorem drives_withPhase {journal : List Event} {counters : Counters} {fetch : FetchId}
    {phase : Phase τ} (hp : phase.isIdle = false)
    (hc : counters =
      { pool.counters with faults := pool.counters.faults + (pool.idle? fetch).toList.length }) :
    pool.Drives ({ pool with journal := journal, counters := counters }.withPhase fetch phase)
      fetch where
  limits := rfl
  files := rfl
  serials := rfl
  used := rfl
  gatherings := rfl
  live := rfl
  counters := hc
  size := Array.size_modify
  others other ho := by
    rw [withPhase, Array.getElem?_modify, if_neg (Ne.symm ho)]
  launched := by
    rw [idle?, withPhase, Array.getElem?_modify, if_pos rfl]
    cases pool.fetches[fetch]? with
    | none => rfl
    | some found => simp [Option.filter, hp]

theorem Fails.of_drives {driven : Pool τ} (hd : pool.Drives driven wait.fetch)
    (h : driven.Fails next file wait error waiters) : pool.Fails next file wait error waiters := by
  have hpages : driven.pageAt? = pool.pageAt? := by
    funext other page
    rw [pageAt?, pageAt?, hd.files]
  have hcounters := h.counters
  rw [hd.counters, hd.launched] at hcounters
  exact
    { waiting := hpages ▸ h.waiting
      gone := h.gone
      pages := hpages ▸ h.pages
      pageOrder := pagesOf_of_files hd.files ▸ h.pageOrder
      fileOrder := hd.files ▸ h.fileOrder
      files := hd.files ▸ h.files
      told := hd.gatherings ▸ h.told
      untold := hd.gatherings ▸ h.untold
      used := h.used.trans hd.used
      counters := hcounters
      size := h.size.trans hd.size
      fetches := fun other ho => (h.fetches other ho).trans (hd.others other ho)
      limits := h.limits.trans hd.limits
      serials := h.serials.trans hd.serials }

theorem Fails.observe (h : pool.Fails next file wait error waiters) (id : ReadId) :
    pool.Fails (next.observe id wait) file wait error waiters :=
  ⟨h.waiting, h.gone, h.pages, h.pageOrder, h.fileOrder, h.files, h.told, h.untold, h.used,
    h.counters, h.size, h.fetches, h.limits, h.serials⟩

end Pool

namespace Mount

variable {σ τ : Type} {mount : Mount σ τ} {plans : ReadId → Plan}

theorem drives_drive (backend : Backend σ τ) (mount : Mount σ τ) (fetch : FetchId) :
    mount.pool.Drives (mount.drive backend fetch).1.pool fetch := by
  have hadvance : ∀ (start : Mount σ τ) (call : Call) (token : τ), ∃ phase : Phase τ,
      phase.isIdle = false ∧
        (start.advance backend fetch call token).1.pool = start.pool.withPhase fetch phase := by
    intro start call token
    rcases start.advance_cases backend fetch call token with ⟨rest, _, h⟩ | ⟨answer, _, h⟩
    · exact ⟨.running rest, rfl, congrArg (·.1.pool) h⟩
    · exact ⟨.complete (call.outcome answer), rfl, congrArg (·.1.pool) h⟩
  have hbusy : mount.pool.idle? fetch = none →
      mount.pool.counters = { mount.pool.counters with
        faults := mount.pool.counters.faults + (mount.pool.idle? fetch).toList.length } := by
    intro hi
    rw [hi]
    rfl
  unfold drive
  split
  · rename_i hf
    have hi : mount.pool.idle? fetch = none := by simp [Pool.idle?, hf]
    exact ⟨rfl, rfl, rfl, rfl, rfl, rfl, hbusy hi, rfl, fun _ _ => rfl, hi⟩
  · rename_i hf
    have hi : mount.pool.idle? fetch = none := by
      simp [Pool.idle?, hf, Option.filter, Phase.isIdle]
    exact ⟨rfl, rfl, rfl, rfl, rfl, rfl, hbusy hi, rfl, fun _ _ => rfl, hi⟩
  · rename_i call token hf
    obtain ⟨phase, hp, he⟩ := hadvance mount call token
    have hi : mount.pool.idle? fetch = none := by
      simp [Pool.idle?, hf, Option.filter, Phase.isIdle]
    rw [he]
    exact Pool.drives_withPhase hp (hbusy hi)
  · rename_i call hf
    obtain ⟨phase, hp, he⟩ := hadvance (mount.launch backend fetch call).1 call
      (mount.launch backend fetch call).2
    have hi : mount.pool.idle? fetch = some call := by
      simp [Pool.idle?, hf, Option.filter, Phase.isIdle]
    simp only [he]
    refine Pool.drives_withPhase hp ?_
    rw [hi]
    rfl

theorem exists_advance (backend : Backend σ τ) {fetch : FetchId} {call : Call}
    (hc : mount.pool.call? fetch = some call) (ho : mount.pool.outcome? fetch = none) :
    ∃ (start : Mount σ τ) (token : τ),
      mount.drive backend fetch = start.advance backend fetch call token := by
  obtain ⟨⟨asked, phase⟩, hf, rfl⟩ := Option.map_eq_some_iff.mp hc
  cases phase with
  | complete outcome => simp [Pool.outcome?, hf, Phase.outcome?] at ho
  | running token => exact ⟨mount, token, by simp only [drive, hf]⟩
  | idle =>
      let launched := mount.launch backend fetch asked
      exact ⟨launched.1, launched.2, by simp only [drive, hf, launched]⟩

-- An error comes from storage, or storage has sent more than the page.
theorem cause_of_drive (backend : Backend σ τ) {fetch : FetchId} {call : Call}
    (hc : mount.pool.call? fetch = some call) (ho : mount.pool.outcome? fetch = none)
    {error : Error} (hd : (mount.drive backend fetch).2 = some (.error error)) :
    ∃ answer, backend.Gives call answer ∧ (answer = .error error ∨
      ∃ fetched, answer = .ok fetched ∧ call.length < fetched.length ∧
        error = .malformedRead call.length fetched.length) := by
  obtain ⟨start, token, hadvance⟩ := exists_advance backend hc ho
  rw [hadvance] at hd
  obtain ⟨answer, hgives, houtcome⟩ :
      ∃ answer, backend.Gives call answer ∧ call.outcome answer = .error error := by
    rcases start.advance_cases backend fetch call token with ⟨rest, _, he⟩ | ⟨answer, ha, he⟩
    · rw [he] at hd
      cases hd
    · rw [he] at hd
      exact ⟨answer, ⟨_, _, ha⟩, Option.some.inj hd⟩
  refine ⟨answer, hgives, ?_⟩
  cases answer with
  | error cause => exact .inl (congrArg Except.error (Except.error.inj houtcome))
  | ok fetched =>
      by_cases hl : fetched.length ≤ call.length
      · simp [Call.outcome, Except.bind, Fetched.toPage, hl] at houtcome
      · simp only [Call.outcome, Except.bind, Fetched.toPage, hl, if_false] at houtcome
        exact .inr ⟨fetched, rfl, Nat.lt_of_not_le hl, (Except.error.inj houtcome).symm⟩

theorem fails_pollWait (backend : Backend σ τ) (hs : mount.pool.Sound plans)
    (ha : mount.pool.Accounted) {read : LiveRead} (hr : read ∈ mount.pool.live) {wait : Wait}
    (hw : wait ∈ read.waits) (ho : mount.pool.outcome? wait.fetch = none) {error : Error}
    (hd : (mount.drive backend wait.fetch).2 = some (.error error)) :
    let next := pollWait backend read.id read.lease mount wait
    (∃ waiters, mount.pool.Fails next.pool read.lease.file wait error waiters) ∧
      next.pool.live = (mount.pool.observe read.id wait).live := by
  have ht := hs.tracked read.id (hs.leased.known read hr)
  have hreads := ht.reading read hr rfl
  obtain ⟨_, waiters, hp⟩ := hreads.unseen _ _ (hreads.planned wait hw) ho
  rw [← hreads.file] at hp
  obtain ⟨hsorted, hknown⟩ := hs.waiters _ _ _ _ hp
  have hdrives := drives_drive backend mount wait.fetch
  have hdriven : (mount.drive backend wait.fetch).1.pool.Accounted :=
    ha.aside (aside_drive backend mount wait.fetch).1
  have hpage : (mount.drive backend wait.fetch).1.pool.page? read.lease wait.page =
      some (.fetching wait.fetch waiters) := by
    rw [← hp, ← hs.leased.page?_eq hr, Pool.page?, Pool.leased?, hdrives.files, Pool.page?,
      Pool.leased?]
  have hpageAt : (mount.drive backend wait.fetch).1.pool.pageAt? read.lease.file wait.page =
      some (.fetching wait.fetch waiters) := by
    rw [← hp, Pool.pageAt?, hdrives.files, Pool.pageAt?]
  have hfails := Pool.fails_giveUp (hs.ordered.of_files hdrives.files) hdriven
    (hsorted.imp Nat.ne_of_lt) (fun id hid => hdrives.gatherings ▸ hknown id hid)
    hdrives.launched hpageAt error
  have hlive := (Pool.delivers_giveUp (hsorted.imp Nat.ne_of_lt)
    (mount.drive backend wait.fetch).1.pool read.lease.file wait error).live
  have hsame := (hlive.trans (Pool.live_require ..)).trans hdrives.live
  simp only [pollWait, hd, Pool.resolve, hpage, if_true]
  refine ⟨⟨waiters, (hfails.of_drives hdrives).observe read.id⟩, ?_⟩
  simp only [Pool.observe, Pool.modifyLive, hsame]

section Drive

variable (backend : Backend σ τ)

-- How far a fetch can be taken is up to storage and the fetch, and to nothing else.
theorem drive_congr {other : Mount σ τ} (hs : other.storage = mount.storage)
    (hf : other.pool.fetches = mount.pool.fetches) (fetch : FetchId) :
    (other.drive backend fetch).1.storage = (mount.drive backend fetch).1.storage ∧
      (other.drive backend fetch).1.pool.fetches = (mount.drive backend fetch).1.pool.fetches := by
  have hadvance : ∀ (start first : Mount σ τ) (call : Call) (token : τ),
      start.storage = first.storage → start.pool.fetches = first.pool.fetches →
      (start.advance backend fetch call token).1.storage =
          (first.advance backend fetch call token).1.storage ∧
        (start.advance backend fetch call token).1.pool.fetches =
          (first.advance backend fetch call token).1.pool.fetches := by
    intro start first call token hstorage hfetches
    simp only [advance, hstorage]
    split <;> simp only [setPhase, hfetches, and_self]
  unfold drive
  rw [hf]
  split
  · exact ⟨hs, hf⟩
  · exact ⟨hs, hf⟩
  · exact hadvance other mount _ _ hs hf
  · rename_i call _
    simp only [launch, hs]
    exact hadvance _ _ _ _ rfl hf

-- Takes some fetches as far as they can go, one after another, and does nothing with it.
def driveAll (mount : Mount σ τ) (waits : List Wait) : Mount σ τ :=
  waits.foldl (fun mount wait => (mount.drive backend wait.fetch).1) mount

theorem driveAll_append (mount : Mount σ τ) (first second : List Wait) :
    mount.driveAll backend (first ++ second) =
      (mount.driveAll backend first).driveAll backend second := List.foldl_append

-- The fetches that a read polls in its turns for these pages. It does not poll those again that
-- it has seen the outcome of, which would make no difference to them.
def turnWaits (read : LiveRead) (pages : List Nat) : List Wait :=
  pages.filterMap fun page => read.waits.find? (·.page == page)

theorem takeTurns_drives (hs : mount.pool.Sound plans) {read : LiveRead}
    (hr : read ∈ mount.pool.live) (pages : List Nat) :
    let polled := pages.foldl (takeTurn backend read.id) mount
    polled.storage = (mount.driveAll backend (turnWaits read pages)).storage ∧
      polled.pool.fetches = (mount.driveAll backend (turnWaits read pages)).pool.fetches := by
  induction pages using List.reverseRecOn with
  | nil => exact ⟨rfl, rfl⟩
  | append_singleton pages page ih =>
      have hswept := swept_takeTurns backend pages hs hr
      have hadd : turnWaits read (pages ++ [page]) =
          turnWaits read pages ++ (read.waits.find? (·.page == page)).toList := by
        rw [turnWaits, List.filterMap_append, turnWaits, List.filterMap_cons]
        cases read.waits.find? (·.page == page) <;> rfl
      simp only [List.foldl_append, List.foldl_cons, List.foldl_nil, hadd, driveAll_append]
      generalize pages.foldl (takeTurn backend read.id) mount = swept at ih hswept
      generalize mount.driveAll backend (turnWaits read pages) = driven at ih
      obtain ⟨hstorage, hfetches⟩ := ih
      obtain ⟨left, hleft, hid, _, hwaits, _⟩ := hswept.left
      have hlive := hswept.sound.leased.live?_eq_some_iff.mpr ⟨hleft, hid⟩
      rcases takeTurn_cases backend swept read.id page with
        ⟨hnone, ht⟩ | ⟨found, hfound, wait, hwait, rfl, ht⟩
      · rw [ht]
        cases hf : read.waits.find? (·.page == page) with
        | none => exact ⟨hstorage, hfetches⟩
        | some wait =>
            -- the turn is lost because the read has seen the outcome, which does not change
            have hw : wait ∈ read.waits := List.mem_of_find?_eq_some hf
            obtain rfl : wait.page = page := by simpa using List.find?_some hf
            have htracks := hswept.sound.tracked read.id
              (hid ▸ hswept.sound.leased.known left hleft)
            have hpart := ((hs.tracked read.id (hs.leased.known read hr)).reading read hr
              rfl).planned wait hw
            have hreads := htracks.reading left hleft hid
            have hknown : swept.pool.outcome? wait.fetch ≠ none := by
              intro ho
              have hawaited := hswept.sound.awaited?_of_wait hleft (hreads.unseen _ _ hpart ho).1
              rw [hid, hnone] at hawaited
              cases hawaited
            obtain ⟨outcome, ho⟩ := Option.ne_none_iff_exists'.mp hknown
            have hsame := (outcome?_drive backend (htracks.calls _ _ hpart)).2 outcome ho
            obtain ⟨hone, hother⟩ := drive_congr backend hstorage hfetches wait.fetch
            rw [hsame] at hone hother
            exact ⟨hone, hother⟩
      · obtain rfl : found = left := Option.some.inj (hfound.symm.trans hlive)
        obtain ⟨hone, hother⟩ := drive_congr backend hstorage hfetches wait.fetch
        rw [ht, hs.find?_wait hr (hwaits wait hwait).1]
        exact ⟨(storage_pollWait ..).trans hone, (fetches_pollWait ..).trans hother⟩

-- So a poll gets on the fetches of its read as they have their turns, whatever becomes of the
-- pages.
theorem poll_drives (hs : mount.pool.Sound plans) {id : ReadId} {read : LiveRead}
    (hl : mount.pool.live? id = some read) (turns : Turns) :
    let waits := turnWaits read (turns (read.waits.map (·.page)))
    (mount.poll backend id turns).1.storage = (mount.driveAll backend waits).storage ∧
      (mount.poll backend id turns).1.pool.fetches =
        (mount.driveAll backend waits).pool.fetches := by
  obtain ⟨hr, rfl⟩ := hs.leased.live?_eq_some_iff.mp hl
  have hturns := takeTurns_drives backend hs hr (turns (read.waits.map (·.page)))
  rw [poll_eq backend mount hl]
  simp only
  split
  · exact ⟨hturns.1, (Pool.endRead_frame ..).2.1.trans hturns.2⟩
  · exact hturns

end Drive

section Sightings

variable {backend : Backend σ τ} {sighting : Sighting σ τ}

theorem moves_of_mem_sweep {id : ReadId} {pages : List Nat}
    (hm : sighting ∈ mount.sweepSightings backend id pages) (op : Op) :
    Pool.Moves op mount.pool sighting.mount.pool ∧
      Pool.Moves op (sighting.next backend).pool
        (pages.foldl (takeTurn backend id) mount).pool := by
  induction pages generalizing mount with
  | nil => cases hm
  | cons page rest ih =>
      rw [List.foldl_cons]
      rcases turn_cases backend mount id page with ⟨ht, hnone⟩ | ⟨read, _, wait, _, ht, hseen⟩
      · rw [sweepSightings, hnone, List.nil_append, ht] at hm
        rw [ht]
        exact ih hm
      · rw [sweepSightings, hseen, ht] at hm
        rw [ht]
        rcases List.mem_append.mp hm with hm | hm
        · obtain ⟨outcome, _, rfl⟩ := List.mem_map.mp hm
          exact ⟨.refl, moves_takeTurns backend id rest _ op⟩
        · obtain ⟨hbefore, hafter⟩ := ih hm
          exact ⟨(moves_pollWait backend id read.lease mount wait op).trans hbefore, hafter⟩

theorem moves_of_mem_poll {id : ReadId} {turns : Turns}
    (hm : sighting ∈ mount.pollSightings backend id turns) (op : Op) :
    Pool.Moves op mount.pool sighting.mount.pool ∧
      Pool.Moves op (sighting.next backend).pool (mount.poll backend id turns).1.pool := by
  unfold pollSightings at hm
  unfold poll
  cases hl : mount.pool.live? id with
  | none =>
      rw [hl] at hm
      cases hm
  | some read =>
      rw [hl] at hm
      obtain ⟨hbefore, hafter⟩ := moves_of_mem_sweep hm op
      refine ⟨hbefore, ?_⟩
      simp only
      split
      · exact hafter.trans (Pool.moves_endRead _ id)
      · exact hafter

-- No page is looked up after one has been seen to fail.
theorem moves_of_mem_act {act : Act σ} (hm : sighting ∈ mount.actSightings backend act) :
    (∃ op, Pool.Moves op mount.pool sighting.mount.pool) ∧
      Pool.Moves .prune (sighting.next backend).pool (mount.act backend act).1.pool := by
  unfold actSightings at hm
  split at hm
  · rename_i file offset length turns
    split at hm
    · cases hm
    · split at hm
      · rename_i hl hw
        obtain ⟨hbefore, _⟩ := moves_of_mem_poll hm (.read file offset length turns)
        refine ⟨⟨_, (Pool.moves_startRead mount.pool file offset length turns).trans hbefore⟩, ?_⟩
        simp only [Mount.act, step, read, hl, hw, if_true, if_false]
        exact (moves_of_mem_poll hm .prune).2
      · cases hm
  · obtain ⟨hbefore, hafter⟩ := moves_of_mem_poll hm .prune
    exact ⟨⟨_, hbefore⟩, hafter⟩
  · cases hm

theorem exists_act_of_mem {acts : List (Act σ)} (hm : sighting ∈ mount.sightings backend acts) :
    ∃ first act rest, acts = first ++ act :: rest ∧
      sighting ∈ (mount.run backend first).actSightings backend act := by
  induction acts generalizing mount with
  | nil => cases hm
  | cons act rest ih =>
      rcases List.mem_append.mp hm with hm | hm
      · exact ⟨[], act, rest, rfl, hm⟩
      · obtain ⟨first, other, last, rfl, hlater⟩ := ih hm
        exact ⟨act :: first, other, last, rfl, hlater⟩

theorem accounted_sighting (limits : Limits) (storage : σ) {acts : List (Act σ)}
    (hm : sighting ∈ sightings backend (create limits storage) acts) :
    sighting.mount.pool.Accounted := by
  obtain ⟨first, act, rest, rfl, hseen⟩ := exists_act_of_mem hm
  obtain ⟨plans, hs, _⟩ := exists_steady backend limits storage first
  obtain ⟨⟨op, hmoves⟩, _⟩ := moves_of_mem_act hseen
  exact (hmoves.preserve (fun _ _ hm => hm.accounted) hs.sound.ordered
    (accounted_run backend limits storage first)).2

end Sightings

section Failure

variable {backend : Backend σ τ} {sighting : Sighting σ τ} {pool : Pool τ}
  {earlier later : List (Sighting σ τ)} {error : Error}

theorem fails_of_fits (h : sighting.Fits backend pool plans earlier)
    (hf : sighting.IsFirst earlier) (he : sighting.outcome = .error error)
    (ha : sighting.mount.pool.Accounted) :
    (∃ waiters, sighting.mount.pool.Fails (sighting.next backend).pool sighting.lease.file
      sighting.wait error waiters) ∧
    (sighting.next backend).pool.live =
      (sighting.mount.pool.observe sighting.id sighting.wait).live ∧
    ∃ answer, backend.Gives ⟨sighting.lease.file, sighting.wait.page, pool.limits.pageSize⟩ answer ∧
      (answer = .error error ∨ ∃ fetched, answer = .ok fetched ∧
        pool.limits.pageSize < fetched.length ∧
        error = .malformedRead pool.limits.pageSize fetched.length) := by
  obtain ⟨after, hsteps, read, hr, hid, hlease, hwait⟩ := h.reads
  have hs := hsteps.steady.sound
  have hnone := h.isFirst_iff.mp hf
  have hseen := h.outcome
  rw [he] at hseen
  have ht := hs.tracked read.id (hs.leased.known read hr)
  have hreads := ht.reading read hr rfl
  have hcall := ht.calls _ _ (hreads.planned _ hwait)
  rw [← hreads.file, hlease, hsteps.later.limits] at hcall
  obtain ⟨hfails, hlive⟩ := fails_pollWait backend hs ha hr hwait hnone hseen
  rw [hid, hlease] at hfails hlive
  exact ⟨hfails, hlive, cause_of_drive backend hcall hnone hseen⟩

-- A page that has failed is not there until a read looks it up.
theorem absent_of_failed (limits : Limits) (storage : σ) {first rest : List (Act σ)} {act : Act σ}
    (hm : sighting ∈ (run backend (create limits storage) first).actSightings backend act)
    {file : FileId} {page : Nat} (hp : (sighting.next backend).pool.pageAt? file page = none)
    (hr : ∀ op, .ask op ∈ rest → ¬ op.Spans limits file page) :
    (run backend (create limits storage) (first ++ act :: rest)).pool.pageAt? file page = none := by
  obtain ⟨plans, hs, hlimits⟩ := exists_steady backend limits storage (first ++ [act])
  have hact : run backend (create limits storage) (first ++ [act]) =
      ((run backend (create limits storage) first).act backend act).1 := run_append ..
  have hdone := ((moves_of_mem_act hm).2.renews).absent hp
    fun ⟨offset, length, he, _⟩ => nomatch he
  rw [← hact] at hdone
  have hrest := renews_run backend (run backend (create limits storage) (first ++ [act])) rest
  rw [hlimits, ← run_append, List.append_assoc, List.singleton_append] at hrest
  exact hrest.absent hdone fun ⟨op, hop, hspans⟩ => hr op hop hspans

-- A fetch that fails takes its page with it and nothing else, be it that storage reports an error
-- or that it sends more than a page. A poll that meets failures still gets all fetches of its
-- read on, and asks for nothing anew. A later read of the page has it fetched again.
theorem failed_fetch_atomic (backend : Backend σ τ) (limits : Limits) (storage : σ)
    (acts : List (Act σ)) {earlier later : List (Sighting σ τ)} {sighting : Sighting σ τ}
    {error : Error}
    (h : sightings backend (create limits storage) acts = earlier ++ sighting :: later)
    (hf : sighting.IsFirst earlier) (he : sighting.outcome = .error error) :
    let mount := sighting.mount
    let next := sighting.next backend
    let file := sighting.lease.file
    let page := sighting.wait.page
    (∃ waiters, mount.pool.Fails next.pool file sighting.wait error waiters) ∧
    next.pool.live = (mount.pool.observe sighting.id sighting.wait).live ∧
    (∃ answer, backend.Gives ⟨file, page, limits.pageSize⟩ answer ∧
      (answer = .error error ∨ ∃ fetched, answer = .ok fetched ∧
        limits.pageSize < fetched.length ∧
        error = .malformedRead limits.pageSize fetched.length)) ∧
    (∀ (polled : Mount σ τ) (plans : ReadId → Plan), polled.pool.Sound plans →
      ∀ id read turns, polled.pool.live? id = some read →
        let done := (polled.poll backend id turns).1
        let waits := turnWaits read (turns (read.waits.map (·.page)))
        done.storage = (polled.driveAll backend waits).storage ∧
        done.pool.fetches = (polled.driveAll backend waits).pool.fetches ∧
        done.pool.calls = polled.pool.calls) ∧
    ∀ first act rest, acts = first ++ act :: rest →
      sighting ∈ (run backend (create limits storage) first).actSightings backend act →
      (∀ op, .ask op ∈ rest → ¬ op.Spans limits file page) →
      (run backend (create limits storage) acts).pool.pageAt? file page = none ∧
      ∀ offset length turns, 0 < length → offset + length < wordLimit → turns.Thorough →
        page ∈ limits.span offset (offset + length) → ∃ calls,
          issued backend (create limits storage)
              (acts ++ [.ask (.read file offset length turns)]) =
            issued backend (create limits storage) acts ++ calls ∧
          ⟨file, page, limits.pageSize⟩ ∈ calls := by
  intro mount next file page
  obtain ⟨plans, _, hchronicle, _⟩ := exists_chronicle backend limits storage acts
  have hmem : sighting ∈ sightings backend (create limits storage) acts := by
    rw [h]
    exact List.mem_append_right _ List.mem_cons_self
  rw [h] at hchronicle
  obtain ⟨⟨waiters, hfails⟩, hlive, hcause⟩ :=
    fails_of_fits hchronicle.fits hf he (accounted_sighting limits storage hmem)
  refine ⟨⟨waiters, hfails⟩, hlive, hcause, fun polled _ hs id read turns hl => ?_, ?_⟩
  · obtain ⟨hstorage, hfetches⟩ := poll_drives backend hs hl turns
    exact ⟨hstorage, hfetches, calls_poll backend polled id turns⟩
  · rintro first act rest rfl hm hr
    have habsent := absent_of_failed limits storage hm hfails.gone hr
    refine ⟨habsent, fun offset length turns hl hw ht hpage => ?_⟩
    exact exists_issued_read backend limits storage _ file hl hw hpage habsent ht

end Failure

-- The middle one of three pages fails at first.
def faultyStorage : Gates × Memory :=
  ({}, (({} : Memory).insert 0 [1, 2, 3, 4, 5, 6, 7, 8, 9, 10]).fail 0 4 1)

theorem faulty_failed_fetch :
    ∃ first failed last : Sighting (Gates × Memory) (Option GateId),
      sightings Memory.backend (create fourByteLimits faultyStorage) [.ask (.read 0 1 8 .all)] =
        [first] ++ failed :: [last] ∧
      failed.IsFirst [first] ∧
      failed.outcome = .error (.readFailed ⟨.other, some "injected failure"⟩) ∧
      failed.mount.pool.pageAt? 0 0 = some (.loaded 0 [1, 2, 3, 4]) ∧
      (failed.next Memory.backend).pool.pageAt? 0 0 = some (.loaded 0 [1, 2, 3, 4]) ∧
      (failed.next Memory.backend).pool.pageAt? 0 4 = none ∧
      (run Memory.backend (create fourByteLimits faultyStorage)
        [.ask (.read 0 1 8 .all)]).pool.pageAt? 0 4 = none ∧
      ∃ calls, issued Memory.backend (create fourByteLimits faultyStorage)
          [.ask (.read 0 1 8 .all), .ask (.read 0 4 4 .all)] =
        issued Memory.backend (create fourByteLimits faultyStorage) [.ask (.read 0 1 8 .all)] ++
          calls ∧
        ⟨0, 4, 4⟩ ∈ calls := by
  obtain ⟨first, failed, last, hs, hseen, houtcome, hlease, hwait, hmem, hpage⟩ :
      ∃ first failed last : Sighting (Gates × Memory) (Option GateId),
        sightings Memory.backend (create fourByteLimits faultyStorage) [.ask (.read 0 1 8 .all)] =
          [first] ++ failed :: [last] ∧
        first.wait = ⟨0, 0⟩ ∧
        failed.outcome = .error (.readFailed ⟨.other, some "injected failure"⟩) ∧
        failed.lease.file = 0 ∧ failed.wait = ⟨4, 1⟩ ∧
        failed ∈ (create fourByteLimits faultyStorage).actSightings Memory.backend
          (.ask (.read 0 1 8 .all)) ∧
        failed.mount.pool.pageAt? 0 0 = some (.loaded 0 [1, 2, 3, 4]) :=
    ⟨_, _, _, rfl, rfl, rfl, rfl, rfl, .tail _ (.head _), rfl⟩
  have hfirst : failed.IsFirst [first] := by
    intro other hm
    rw [List.mem_singleton.mp hm, hseen, hwait]
    decide
  obtain ⟨⟨waiters, hfails⟩, _, _, _, hlater⟩ :=
    failed_fetch_atomic Memory.backend fourByteLimits faultyStorage [.ask (.read 0 1 8 .all)]
      hs hfirst houtcome
  obtain ⟨habsent, hcalls⟩ := hlater [] (.ask (.read 0 1 8 .all)) [] rfl hmem
    fun _ hm => (List.not_mem_nil hm).elim
  have hspan : failed.wait.page ∈ fourByteLimits.span 4 8 := by
    rw [hwait]
    decide
  have hagain := hcalls 4 4 .all (by decide) (by decide) Turns.prompt_all.thorough hspan
  rw [hlease, hwait] at hfails hagain habsent
  exact ⟨first, failed, last, hs, hfirst, houtcome, hpage,
    (hfails.pages 0 0 (by decide)).trans hpage, hfails.gone, habsent, hagain⟩

end Mount

end PageCache
