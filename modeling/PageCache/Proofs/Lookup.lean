import PageCache.Proofs.Joining

namespace PageCache

namespace Pool

variable {τ : Type}

-- The newest read is being started. So far it has looked up the pages of the plan.
structure Starting (pool : Pool τ) (plans : ReadId → Plan) (id : ReadId) (lease : Lease)
    (plan : Plan) : Prop where
  sound : pool.Sound (Function.update plans id plan)
  newest : pool.gatherings.size = id + 1
  hold : plan.hold = 1
  live : ∃ read ∈ pool.live, read.id = id ∧ read.lease = lease

section Starting

variable {pool : Pool τ} {plans : ReadId → Plan} {id : ReadId} {lease : Lease} {plan : Plan}
  {page : Nat} {fetch : FetchId} {waiters : List ReadId}

theorem Starting.tracks (h : pool.Starting plans id lease plan) : pool.Tracks id plan := by
  have ht := h.sound.tracked id (h.newest ▸ Nat.lt_succ_self id)
  rwa [Function.update_self] at ht

theorem Starting.file (h : pool.Starting plans id lease plan) : lease.file = plan.file := by
  obtain ⟨read, hr, hid, rfl⟩ := h.live
  exact (h.tracks.reading read hr hid).file

theorem Starting.cached (h : pool.Starting plans id lease plan) : pool.Holds lease := by
  obtain ⟨read, hr, _, rfl⟩ := h.live
  exact h.sound.leased.current read hr

theorem Starting.page?_eq (h : pool.Starting plans id lease plan) (page : Nat) :
    pool.page? lease page = pool.pageAt? lease.file page :=
  page?_eq_pageAt? page h.cached

theorem Starting.opened (h : pool.Starting plans id lease plan) :
    pool.gatherings[id]? = some (plan.opened pool.outcome? pool.failures) := by
  rw [h.tracks.gathering]
  congr 1
  apply Gathering.close_eq_self
  simp only [Plan.opened, h.hold]
  omega

theorem Starting.trims (h : pool.Starting plans id lease plan) {trimmed : Pool τ}
    (ht : pool.Trims trimmed) : trimmed.Starting plans id lease plan where
  sound := ht.sound h.sound
  newest := by rw [ht.gatherings, h.newest]
  hold := h.hold
  live := by
    rw [ht.live]
    exact h.live

theorem mem_extend {part other : Part} :
    other ∈ (plan.extend part).parts ↔ other ∈ plan.parts ∨ other = part := by
  simp [Plan.extend]

-- The newest read is listed by one more page, and has one more page to come.
theorem Starting.gathering_join (h : pool.Starting plans id lease plan)
    (hp : pool.pageAt? lease.file page = some (.fetching fetch waiters)) :
    (pool.join id lease ⟨page, fetch⟩).gatherings[id]? =
      some ((plan.extend ⟨page, .fetch fetch⟩).gathering pool.outcome? pool.failures) := by
  obtain ⟨_, houtcome⟩ := h.sound.backed.fetching _ _ _ _ hp
  have hf : ∀ failure ∈ pool.failures, failure.1 ≠ fetch := by
    rintro ⟨found, error⟩ hm rfl
    rw [h.sound.backed.failed, houtcome] at hm
    cases hm
  have hopen := Plan.opened_extend_fetch plan page fetch pool.outcome? pool.failures houtcome hf
  rw [Plan.gathering, hopen, Gathering.close_eq_self _ (Nat.succ_ne_zero _)]
  simp only [join_frame, Array.getElem?_modify, if_true, h.opened, Option.map_some]

theorem Starting.reads_join (h : pool.Starting plans id lease plan)
    (hp : pool.pageAt? lease.file page = some (.fetching fetch waiters))
    (hm : page ∉ plan.parts.map (·.page)) {read : LiveRead} (hr : read ∈ pool.live)
    (hid : read.id = id) :
    (pool.join id lease ⟨page, fetch⟩).Reads { read with waits := read.waits ++ [⟨page, fetch⟩] }
      (plan.extend ⟨page, .fetch fetch⟩) := by
  have hreads := h.tracks.reading read hr hid
  refine ⟨hreads.file, ?_, ?_, ?_⟩
  · rw [List.nodup_append]
    refine ⟨hreads.nodup, List.nodup_singleton _, ?_⟩
    rintro wait hw other ho rfl
    rw [List.mem_singleton] at ho
    subst ho
    exact hm (List.mem_map_of_mem (hreads.planned _ hw))
  · intro wait hw
    rw [mem_extend]
    rcases List.mem_append.mp hw with hw | hw
    · exact .inl (hreads.planned wait hw)
    · rw [List.mem_singleton] at hw
      subst hw
      exact .inr rfl
  · intro name found hpart ho
    rcases mem_extend.mp hpart with hpart | hpart
    · obtain ⟨hw, readers⟩ := (hreads.join id lease ⟨page, fetch⟩).unseen name found hpart ho
      exact ⟨List.mem_append_left _ hw, readers⟩
    · cases hpart
      refine ⟨List.mem_append_right _ (List.mem_singleton_self _), ?_⟩
      exact ⟨_, fetching_join.mpr ⟨waiters, h.file ▸ hp, rfl⟩⟩

theorem Starting.tracks_join (h : pool.Starting plans id lease plan)
    (hp : pool.pageAt? lease.file page = some (.fetching fetch waiters))
    (hm : page ∉ plan.parts.map (·.page))
    (hspan : plan.parts.map (·.page) ++ [page] <+: pool.limits.span plan.offset plan.stop) :
    (pool.join id lease ⟨page, fetch⟩).Tracks id (plan.extend ⟨page, .fetch fetch⟩) := by
  obtain ⟨hlimits, _, hfailures, _, _, hlive⟩ := join_frame pool id lease ⟨page, fetch⟩
  refine ⟨?_, ?_, ?_, ?_, ?_⟩
  · rw [outcome?_join, hfailures]
    exact h.gathering_join hp
  · rw [hlimits]
    simpa [Plan.extend] using hspan
  · intro name found hpart
    rw [call?_join, hlimits]
    rcases mem_extend.mp hpart with hpart | hpart
    · exact h.tracks.calls name found hpart
    · cases hpart
      exact h.file ▸ (h.sound.backed.fetching _ _ _ _ hp).1
  · intro file name found readers hf
    obtain ⟨before, hb, rfl⟩ := fetching_join.mp hf
    by_cases hsame : file = lease.file ∧ name = page
    · obtain ⟨rfl, rfl⟩ := hsame
      rw [hp] at hb
      cases hb
      rw [if_pos ⟨rfl, rfl⟩, mem_extend]
      exact iff_of_true (List.mem_append_right _ (List.mem_singleton_self _)) ⟨h.file, .inr rfl⟩
    · have hne : file = plan.file → (⟨name, .fetch found⟩ : Part) ≠ ⟨page, .fetch fetch⟩ := by
        rintro rfl he
        cases he
        exact hsame ⟨h.file.symm, rfl⟩
      rw [if_neg hsame, h.tracks.waiting file name found before hb, mem_extend]
      exact and_congr_right fun hfile => by simp only [hne hfile, or_false]
  · intro read hr hid
    rw [hlive] at hr
    obtain ⟨old, hold, rfl⟩ := mem_live_modifyLive hr
    have he : old.id = id := by
      by_contra hn
      rw [if_neg hn] at hid
      exact hn hid
    rw [if_pos he]
    exact h.reads_join hp hm hold he

-- The newest read comes after all others that wait for the page.
theorem Starting.waiters_join (h : pool.Starting plans id lease plan)
    (hp : pool.pageAt? lease.file page = some (.fetching fetch waiters))
    (hm : page ∉ plan.parts.map (·.page)) :
    (waiters ++ [id]).Pairwise (· < ·) ∧ ∀ other ∈ waiters ++ [id], other < id + 1 := by
  obtain ⟨hsorted, hknown⟩ := h.sound.waiters _ _ _ _ hp
  rw [h.newest] at hknown
  have hown : id ∉ waiters := by
    rw [h.tracks.waiting _ _ _ _ hp]
    rintro ⟨_, hpart⟩
    exact hm (List.mem_map_of_mem hpart)
  have hlt : ∀ other ∈ waiters, other < id := by
    intro other ho
    have hle := Nat.le_of_lt_succ (hknown other ho)
    exact Nat.lt_of_le_of_ne hle fun he => hown (he ▸ ho)
  constructor
  · rw [List.pairwise_append]
    refine ⟨hsorted, List.pairwise_singleton _ _, fun other ho last hl => ?_⟩
    rw [List.mem_singleton] at hl
    exact hl ▸ hlt other ho
  · intro other ho
    rcases List.mem_append.mp ho with ho | ho
    · exact hknown other ho
    · rw [List.mem_singleton] at ho
      exact ho ▸ Nat.lt_succ_self id

theorem Starting.join (h : pool.Starting plans id lease plan)
    (hp : pool.pageAt? lease.file page = some (.fetching fetch waiters))
    (hm : page ∉ plan.parts.map (·.page))
    (hspan : plan.parts.map (·.page) ++ [page] <+: pool.limits.span plan.offset plan.stop) :
    (pool.join id lease ⟨page, fetch⟩).Starting plans id lease
      (plan.extend ⟨page, .fetch fetch⟩) := by
  obtain ⟨_, _, _, _, hgather, hlive⟩ := join_frame pool id lease ⟨page, fetch⟩
  have hsize : (pool.join id lease ⟨page, fetch⟩).gatherings.size = pool.gatherings.size := by
    rw [hgather, Array.size_modify]
  have hs := h.sound
  refine ⟨⟨hs.ordered.join id lease _, hs.leased.join id lease _, hs.backed.join id lease _,
    ?_, ?_⟩, hsize.trans h.newest, h.hold, ?_⟩
  · intro file name found readers hf
    rw [hsize]
    obtain ⟨before, hb, rfl⟩ := fetching_join.mp hf
    split
    · rename_i hsame
      obtain ⟨rfl, rfl⟩ := hsame
      rw [hp] at hb
      cases hb
      rw [h.newest]
      exact h.waiters_join hp hm
    · exact hs.waiters file name found before hb
  · intro other ho
    rw [hsize] at ho
    by_cases hn : other = id
    · subst hn
      rw [Function.update_self]
      exact h.tracks_join hp hm hspan
    · rw [Function.update_of_ne hn]
      have ht := hs.tracked other ho
      rw [Function.update_of_ne hn] at ht
      exact ht.join hn lease _
  · obtain ⟨read, hr, hid, hlease⟩ := h.live
    rw [hlive]
    refine ⟨_, List.mem_map_of_mem hr, ?_, ?_⟩
    · rw [if_pos hid]
      exact hid
    · rw [if_pos hid]
      exact hlease

-- The newest read gets the bytes of a page at once.
theorem Starting.add (h : pool.Starting plans id lease plan) {delivered : Pool τ} {data : Bytes}
    (hd : pool.Delivers delivered [id] (·.add page data))
    (hspan : plan.parts.map (·.page) ++ [page] <+: pool.limits.span plan.offset plan.stop) :
    delivered.Starting plans id lease (plan.extend ⟨page, .held data⟩) := by
  have hpages : (plan.extend ⟨page, .held data⟩).parts.map (·.page) <+:
      pool.limits.span plan.offset plan.stop := by simpa [Plan.extend] using hspan
  have hgather : delivered.gatherings[id]? =
      some ((plan.extend ⟨page, .held data⟩).gathering pool.outcome? pool.failures) := by
    have hopen := Plan.opened_extend_held plan page data pool.outcome? pool.failures
      (spaced_of_pages hpages)
    have hawaited : (plan.opened pool.outcome? pool.failures).awaited ≠ 0 := by
      simp only [Plan.opened, h.hold]
      omega
    rw [hd.gatherings, if_pos (List.mem_singleton_self id), h.opened, Option.map_some,
      Plan.gathering, hopen, Gathering.close_eq_self _ (by simpa [Gathering.add_eq] using hawaited)]
  have htracks : delivered.Tracks id (plan.extend ⟨page, .held data⟩) :=
    hd.alike.replans h.tracks hd.live rfl (by simp [mem_extend]) hpages hgather
  refine ⟨hd.sound h.sound htracks, hd.size.trans h.newest, h.hold, ?_⟩
  rw [hd.live]
  exact h.live

end Starting

end Pool

end PageCache
