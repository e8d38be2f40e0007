import PageCache.Proofs.Delivery

namespace PageCache

namespace Pool

variable {τ : Type}

theorem Leased.page?_eq {pool : Pool τ} (h : pool.Leased) {read : LiveRead}
    (hr : read ∈ pool.live) (page : Nat) :
    pool.page? read.lease page = pool.pageAt? read.lease.file page :=
  page?_eq_pageAt? page (h.current read hr)

theorem mem_of_live? {pool : Pool τ} {id : ReadId} {read : LiveRead}
    (h : pool.live? id = some read) : read ∈ pool.live ∧ read.id = id :=
  ⟨List.mem_of_find?_eq_some h, by simpa using List.find?_some h⟩

theorem Leased.live?_eq_some_iff {pool : Pool τ} (h : pool.Leased) {id : ReadId}
    {read : LiveRead} : pool.live? id = some read ↔ read ∈ pool.live ∧ read.id = id := by
  constructor
  · exact mem_of_live?
  · rintro ⟨hm, rfl⟩
    cases hf : pool.live? read.id with
    | none =>
        have := List.find?_eq_none.mp hf read hm
        simp at this
    | some found =>
        have hid : found.id = read.id := by simpa using List.find?_some hf
        rw [List.inj_on_of_nodup_map h.distinct (List.mem_of_find?_eq_some hf) hm hid]

-- The page of a fetch that is complete no longer waits for it, if it is still there.
theorem resolve_late {pool : Pool τ} {plans : ReadId → Plan} (hs : pool.Sound plans)
    {read : LiveRead} (hr : read ∈ pool.live) (wait : Wait) {outcome : Outcome}
    (ho : pool.outcome? wait.fetch = some outcome) :
    pool.resolve read.lease wait outcome =
      pool.emit (.fetchOutdated read.lease.file wait.page wait.fetch) := by
  unfold resolve
  split
  · rename_i fetch waiters hp
    rw [hs.leased.page?_eq hr] at hp
    have hne : fetch ≠ wait.fetch := by
      rintro rfl
      rw [(hs.backed.fetching _ _ _ _ hp).2] at ho
      cases ho
    rw [if_neg hne]
  · rfl

theorem trims_resolve_late {pool : Pool τ} {plans : ReadId → Plan} (hs : pool.Sound plans)
    {read : LiveRead} (hr : read ∈ pool.live) (wait : Wait) {outcome : Outcome}
    (ho : pool.outcome? wait.fetch = some outcome) :
    pool.Trims (pool.resolve read.lease wait outcome) := by
  rw [resolve_late hs hr wait ho]
  exact trims_emit _ _ rfl

-- The read that finds a fetch complete first resolves the page.
theorem exists_settles_resolve {pool : Pool τ} {plans : ReadId → Plan} (hs : pool.Sound plans)
    {read : LiveRead} (hr : read ∈ pool.live) {wait : Wait} (hw : wait ∈ read.waits)
    (ho : pool.outcome? wait.fetch = none) (outcome : Outcome) :
    ∃ waiters settled,
      pool.pageAt? read.lease.file wait.page = some (.fetching wait.fetch waiters) ∧
      pool.Settles settled read.lease.file wait.page wait.fetch waiters outcome ∧
      settled.Trims ((pool.withPhase wait.fetch (.complete outcome)).resolve read.lease wait
        outcome) := by
  have ht := hs.tracked read.id (hs.leased.known read hr)
  have hreads := ht.reading read hr rfl
  obtain ⟨_, waiters, hp⟩ := hreads.unseen _ _ (hreads.planned wait hw) ho
  rw [← hreads.file] at hp
  have hn : waiters.Nodup := (hs.waiters _ _ _ _ hp).1.imp Nat.ne_of_lt
  have hpage : (pool.withPhase wait.fetch (.complete outcome)).page? read.lease wait.page =
      some (.fetching wait.fetch waiters) := (hs.leased.page?_eq hr wait.page).trans hp
  unfold resolve
  rw [hpage]
  simp only [if_true]
  cases outcome with
  | ok answer =>
      obtain ⟨settled, hset, htrim⟩ := exists_settles_store answer.1 answer.2 hs.backed hn hp
      exact ⟨waiters, settled, hp, hset, htrim⟩
  | error error => exact ⟨waiters, _, hp, settles_giveUp error hs.backed hn hp, .refl _⟩

theorem mem_live_modifyLive {pool : Pool τ} {id : ReadId} {change : LiveRead → LiveRead}
    {read : LiveRead} (h : read ∈ (pool.modifyLive id change).live) :
    ∃ old ∈ pool.live, read = if old.id = id then change old else old := by
  obtain ⟨old, hm, he⟩ := List.mem_map.mp h
  exact ⟨old, hm, he.symm⟩

-- What a read waits for is no part of its lease.
theorem Leased.modifyLive {pool : Pool τ} (h : pool.Leased) (id : ReadId)
    {change : LiveRead → LiveRead} (hi : ∀ read, (change read).id = read.id)
    (hl : ∀ read, (change read).lease = read.lease) : (pool.modifyLive id change).Leased := by
  have hid : ∀ read : LiveRead, (if read.id = id then change read else read).id = read.id := by
    intro read
    split <;> simp [hi]
  have hlease : ∀ read : LiveRead,
      (if read.id = id then change read else read).lease = read.lease := by
    intro read
    split <;> simp [hl]
  refine ⟨?_, ?_, ?_, ?_⟩
  · simpa [Pool.modifyLive, Function.comp_def, hid] using h.distinct
  · intro read hr
    obtain ⟨old, hm, rfl⟩ := mem_live_modifyLive hr
    rw [hid]
    exact h.known old hm
  · intro read hr
    obtain ⟨old, hm, rfl⟩ := mem_live_modifyLive hr
    rw [hlease]
    exact h.current old hm
  · intro file cached hf
    rw [h.readers file cached hf]
    simp [Pool.modifyLive, List.countP_map, Function.comp_def, hlease]

theorem sound_observe {pool : Pool τ} {plans : ReadId → Plan} (hs : pool.Sound plans)
    (id : ReadId) {wait : Wait} (ho : pool.outcome? wait.fetch ≠ none) :
    (pool.observe id wait).Sound plans := by
  have halike : pool.Alike (pool.observe id wait) := ⟨rfl, rfl, rfl, rfl, rfl⟩
  refine ⟨hs.ordered.of_files rfl, hs.leased.modifyLive id (fun _ => rfl) fun _ => rfl,
    halike.backed hs.backed, hs.waiters, fun other hother => ?_⟩
  have ht := hs.tracked other hother
  refine halike.tracks ht rfl fun read hr hid => ?_
  obtain ⟨old, hm, rfl⟩ := mem_live_modifyLive hr
  split at hid
  · rename_i he
    have hreads := ht.reading old hm hid
    rw [if_pos he]
    refine ⟨hreads.file, hreads.nodup.erase _, fun _ hw =>
      hreads.planned _ (List.mem_of_mem_erase hw), fun page fetch hp hn => ?_⟩
    obtain ⟨hw, hpage⟩ := hreads.unseen page fetch hp hn
    have hne : (⟨page, fetch⟩ : Wait) ≠ wait := by
      rintro rfl
      exact ho hn
    exact ⟨(List.mem_erase_of_ne hne).mpr hw, hpage⟩
  · rename_i he
    rw [if_neg he]
    exact ht.reading old hm hid

-- One read less counts as one reader less, for its own file.
theorem Leased.countP_filter {pool : Pool τ} (h : pool.Leased) {read : LiveRead}
    (hr : read ∈ pool.live) (file : FileId) :
    pool.live.countP (·.lease.file == file) =
      (pool.live.filter (·.id != read.id)).countP (·.lease.file == file) +
        if read.lease.file = file then 1 else 0 := by
  have hone : pool.live.filter (fun other => !(other.id != read.id)) = [read] := by
    have hn : pool.live.Nodup := h.distinct.of_map
    have hf : pool.live.filter (fun other => !(other.id != read.id)) =
        pool.live.filter (· == read) := by
      apply List.filter_congr
      intro other ho
      have hiff : other.id = read.id ↔ other = read :=
        ⟨List.inj_on_of_nodup_map h.distinct ho hr, fun he => he ▸ rfl⟩
      simp [bne, beq_eq_decide, hiff]
    rw [hf, List.filter_beq, List.count_eq_one_of_mem hn hr]
    rfl
  rw [List.countP_eq_countP_filter_add _ _ (·.id != read.id), hone]
  simp [List.countP_singleton]

section Part

variable {pool left : Pool τ} {read : LiveRead}

theorem Leased.part (h : pool.Leased) (hr : read ∈ pool.live)
    (hf : left.files = pool.files.modify read.lease.file fun cached =>
      { cached with readers := cached.readers - 1 })
    (hl : left.live = pool.live.filter (·.id != read.id))
    (hg : left.gatherings.size = pool.gatherings.size) : left.Leased := by
  have hsub : left.live.Sublist pool.live := hl ▸ List.filter_sublist
  have hfind : ∀ file, left.files.find? file =
      if file = read.lease.file then
        (pool.files.find? file).map fun cached => { cached with readers := cached.readers - 1 }
      else pool.files.find? file := by
    intro file
    rw [hf, LruMap.find?_modify]
  refine ⟨h.distinct.sublist (hsub.map _), ?_, ?_, ?_⟩
  · intro other ho
    rw [hg]
    exact h.known other (hsub.subset ho)
  · intro other ho
    obtain ⟨cached, hc, hserial⟩ := h.current other (hsub.subset ho)
    rw [hfind, hc]
    split
    · exact ⟨_, rfl, hserial⟩
    · exact ⟨cached, rfl, hserial⟩
  · intro file found hfound
    have hcount := h.countP_filter hr file
    rw [hfind] at hfound
    rw [hl]
    split at hfound
    · rename_i he
      obtain ⟨cached, hc, rfl⟩ := Option.map_eq_some_iff.mp hfound
      rw [if_pos he.symm] at hcount
      simp only [h.readers file cached hc, hcount, Nat.add_sub_cancel]
    · rename_i he
      rw [if_neg (Ne.symm he)] at hcount
      rw [h.readers file found hfound, hcount, Nat.add_zero]

-- A read goes, and its file has one reader less. The file itself is still there.
theorem sound_part {plans : ReadId → Plan} (hs : pool.Sound plans) (hr : read ∈ pool.live)
    (ha : pool.Alike left)
    (hf : left.files = pool.files.modify read.lease.file fun cached =>
      { cached with readers := cached.readers - 1 })
    (hl : left.live = pool.live.filter (·.id != read.id))
    (hg : left.gatherings = pool.gatherings) : left.Sound plans := by
  refine ⟨?_, hs.leased.part hr hf hl (by rw [hg]), ha.backed hs.backed, ?_, ?_⟩
  · have hm : (pool.modifyFile read.lease.file fun cached =>
        { cached with readers := cached.readers - 1 }).Ordered :=
      hs.ordered.modifyFile _ fun _ _ hc => hc
    exact hm.of_files hf
  · rw [ha.pageAt?, hg]
    exact hs.waiters
  · rw [hg]
    intro id hid
    have ht := hs.tracked id hid
    refine ha.tracks ht (by rw [hg]) fun other ho => ?_
    rw [hl] at ho
    exact ht.reading other (List.mem_filter.mp ho).1

end Part

theorem sound_endRead {pool : Pool τ} {plans : ReadId → Plan} (hs : pool.Sound plans)
    (id : ReadId) : (pool.endRead id).Sound plans := by
  unfold endRead
  split
  · exact hs
  · rename_i read hl
    obtain ⟨hr, rfl⟩ := hs.leased.live?_eq_some_iff.mp hl
    obtain ⟨cached, hf, hserial⟩ := hs.leased.current read hr
    let rest := { pool with live := pool.live.filter (·.id != read.id) }
    let left := (rest.require (decide (0 < cached.readers)) .readersUnderflow).modifyFile
      read.lease.file fun cached => { cached with readers := cached.readers - 1 }
    have hfiles : left.files = pool.files.modify read.lease.file fun cached =>
        { cached with readers := cached.readers - 1 } := by
      simp [left, modifyFile, rest]
    have hpages : left.pageAt? = pool.pageAt? := by
      funext file page
      simp only [pageAt?, hfiles, LruMap.find?_modify]
      split
      · rw [Option.bind_map]
        rfl
      · rfl
    have halike : pool.Alike left := by
      refine ⟨limits_require .., ?_, ?_, failures_require .., hpages⟩
      · funext fetch
        simp [call?, left, modifyFile, rest]
      · funext fetch
        simp [outcome?, left, modifyFile, rest]
    have hleft : left.Sound plans :=
      sound_part hs hr halike hfiles (live_require ..) (gatherings_require ..)
    have hleased : rest.leased? read.lease = some cached := by
      simp [leased?, rest, hf, hserial, Option.filter]
    unfold leave
    rw [hleased]
    simp only
    split
    · rename_i hc
      have hfound : left.files.find? read.lease.file =
          some { cached with readers := cached.readers - 1 } := by
        rw [hfiles, LruMap.find?_modify, if_pos rfl, hf, Option.map_some]
      refine (trims_removeFile left _ ((hleft.leased.isIdle_iff hfound).mp ?_)).sound hleft
      simpa [FileCache.isIdle] using Nat.sub_eq_zero_of_le hc.1
    · exact hleft

theorem removeFile_frame (pool : Pool τ) (file : FileId) :
    (pool.removeFile file).limits = pool.limits ∧
    (pool.removeFile file).fetches = pool.fetches ∧
    (pool.removeFile file).failures = pool.failures ∧
    (pool.removeFile file).gatherings = pool.gatherings ∧
    (pool.removeFile file).live = pool.live := by
  unfold removeFile
  split
  · exact ⟨rfl, rfl, rfl, rfl, rfl⟩
  · rename_i cached _
    have ht := (trims_shrink { pool with files := pool.files.erase file } cached.pages.size).trans
      (trims_emit _ (.fileRemoved file cached.pages.size) rfl)
    exact ⟨ht.limits, ht.fetches, ht.failures, ht.gatherings, ht.live⟩

theorem leave_frame (pool : Pool τ) (lease : Lease) :
    (pool.leave lease).limits = pool.limits ∧
    (pool.leave lease).fetches = pool.fetches ∧
    (pool.leave lease).failures = pool.failures ∧
    (pool.leave lease).gatherings = pool.gatherings ∧
    (pool.leave lease).live = pool.live := by
  unfold leave
  split
  · exact ⟨rfl, rfl, rfl, rfl, rfl⟩
  · rename_i cached _
    have ht := trims_require pool (decide (0 < cached.readers)) .readersUnderflow
    simp only
    split
    · obtain ⟨hl, hf, hj, hg, hv⟩ := removeFile_frame
        ((pool.require (decide (0 < cached.readers)) .readersUnderflow).modifyFile lease.file
          fun cached => { cached with readers := cached.readers - 1 }) lease.file
      exact ⟨hl.trans ht.limits, hf.trans ht.fetches, hj.trans ht.failures,
        hg.trans ht.gatherings, hv.trans ht.live⟩
    · exact ⟨ht.limits, ht.fetches, ht.failures, ht.gatherings, ht.live⟩

-- A read that ends takes nothing with it but its place among those in progress.
theorem endRead_frame (pool : Pool τ) (id : ReadId) :
    (pool.endRead id).limits = pool.limits ∧
    (pool.endRead id).fetches = pool.fetches ∧
    (pool.endRead id).failures = pool.failures ∧
    (pool.endRead id).gatherings = pool.gatherings ∧
    (pool.endRead id).live = pool.live.filter (·.id != id) := by
  unfold endRead
  split
  · rename_i hl
    refine ⟨rfl, rfl, rfl, rfl, (List.filter_eq_self.mpr fun read hr => ?_).symm⟩
    have hn := List.find?_eq_none.mp hl read hr
    simpa [bne] using hn
  · exact leave_frame ..

end Pool

end PageCache
