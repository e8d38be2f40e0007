import PageCache.Proofs.Creation

namespace PageCache

namespace Pool

variable {τ : Type}

-- What a read that waits for one more page changes.
theorem join_frame (pool : Pool τ) (id : ReadId) (lease : Lease) (wait : Wait) :
    (pool.join id lease wait).limits = pool.limits ∧
    (pool.join id lease wait).fetches = pool.fetches ∧
    (pool.join id lease wait).failures = pool.failures ∧
    (pool.join id lease wait).files = pool.files.modify lease.file (fun cached =>
      { cached with pages := cached.pages.modify wait.page (Page.wait id) }) ∧
    (pool.join id lease wait).gatherings = pool.gatherings.modify id Gathering.await ∧
    (pool.join id lease wait).live =
      (pool.modifyLive id fun read => { read with waits := read.waits ++ [wait] }).live := by
  simp only [join, modifyLive, modifyGathering, modifyFile, limits_require, fetches_require,
    files_require, gatherings_require, live_require, true_and, and_true]
  exact failures_require ..

theorem pageAt?_join (pool : Pool τ) (id : ReadId) (lease : Lease) (wait : Wait) (file : FileId)
    (page : Nat) :
    (pool.join id lease wait).pageAt? file page =
      if file = lease.file ∧ page = wait.page then (pool.pageAt? file page).map (Page.wait id)
      else pool.pageAt? file page := by
  obtain ⟨_, _, _, hfiles, _, _⟩ := join_frame pool id lease wait
  simp only [pageAt?, hfiles, LruMap.find?_modify]
  by_cases hf : file = lease.file
  · simp only [hf, if_true, Option.bind_map, Function.comp_def, LruMap.find?_modify, true_and]
    by_cases hp : page = wait.page
    · simp only [hp, if_true]
      cases pool.files.find? lease.file <;> rfl
    · simp only [hp, if_false]
  · simp only [hf, if_false, false_and]

theorem fetching_join {pool : Pool τ} {id : ReadId} {lease : Lease} {wait : Wait}
    {file : FileId} {page : Nat} {fetch : FetchId} {waiters : List ReadId} :
    (pool.join id lease wait).pageAt? file page = some (.fetching fetch waiters) ↔
      ∃ before, pool.pageAt? file page = some (.fetching fetch before) ∧
        waiters = if file = lease.file ∧ page = wait.page then before ++ [id] else before := by
  rw [pageAt?_join]
  split
  · cases pool.pageAt? file page with
    | none => simp
    | some found => cases found <;> simp [Page.wait, eq_comm]
  · simp [eq_comm]

theorem loaded_join {pool : Pool τ} {id : ReadId} {lease : Lease} {wait : Wait}
    {file : FileId} {page : Nat} {fetch : FetchId} {data : Bytes} :
    (pool.join id lease wait).pageAt? file page = some (.loaded fetch data) ↔
      pool.pageAt? file page = some (.loaded fetch data) := by
  rw [pageAt?_join]
  split
  · cases pool.pageAt? file page with
    | none => simp
    | some found => cases found <;> simp [Page.wait]
  · rfl

theorem call?_join (pool : Pool τ) (id : ReadId) (lease : Lease) (wait : Wait) :
    (pool.join id lease wait).call? = pool.call? := by
  funext fetch
  simp only [call?, join_frame]

theorem outcome?_join (pool : Pool τ) (id : ReadId) (lease : Lease) (wait : Wait) :
    (pool.join id lease wait).outcome? = pool.outcome? := by
  funext fetch
  simp only [outcome?, join_frame]

theorem Ordered.join {pool : Pool τ} (h : pool.Ordered) (id : ReadId) (lease : Lease)
    (wait : Wait) : (pool.join id lease wait).Ordered := by
  have hm : (pool.modifyFile lease.file fun cached =>
      { cached with pages := cached.pages.modify wait.page (Page.wait id) }).Ordered :=
    h.modifyFile lease.file fun _ _ hc => hc.modify wait.page _
  exact hm.of_files (join_frame pool id lease wait).2.2.2.1

theorem Leased.join {pool : Pool τ} (h : pool.Leased) (id : ReadId) (lease : Lease)
    (wait : Wait) : (pool.join id lease wait).Leased := by
  obtain ⟨_, _, _, hfiles, hgather, hlive⟩ := join_frame pool id lease wait
  have hlisted : (pool.modifyLive id fun read =>
      { read with waits := read.waits ++ [wait] }).Leased :=
    h.modifyLive id (fun _ => rfl) fun _ => rfl
  refine hlisted.of_tenancy hlive (by rw [hgather, Array.size_modify]; rfl) fun other => ?_
  rw [tenancy, hfiles]
  exact tenancy_modifyFile pool lease.file other (fun _ => rfl) fun _ => rfl

theorem Backed.join {pool : Pool τ} (h : pool.Backed) (id : ReadId) (lease : Lease)
    (wait : Wait) : (pool.join id lease wait).Backed where
  fetching file page fetch waiters hp := by
    obtain ⟨before, hp, _⟩ := fetching_join.mp hp
    rw [call?_join, outcome?_join, (join_frame pool id lease wait).1]
    exact h.fetching file page fetch before hp
  loaded file page fetch data hp := by
    rw [call?_join, outcome?_join, (join_frame pool id lease wait).1]
    exact h.loaded file page fetch data (loaded_join.mp hp)
  failed := by
    rw [outcome?_join, (join_frame pool id lease wait).2.2.1]
    exact h.failed
  sized := by
    rw [outcome?_join, (join_frame pool id lease wait).1]
    exact h.sized

theorem Reads.join {pool : Pool τ} {read : LiveRead} {plan : Plan} (h : pool.Reads read plan)
    (id : ReadId) (lease : Lease) (wait : Wait) : (pool.join id lease wait).Reads read plan where
  file := h.file
  nodup := h.nodup
  planned := h.planned
  unseen page fetch hm ho := by
    rw [outcome?_join] at ho
    obtain ⟨hw, waiters, hp⟩ := h.unseen page fetch hm ho
    exact ⟨hw, _, fetching_join.mpr ⟨waiters, hp, rfl⟩⟩

-- Another read is listed and goes on as before.
theorem Tracks.join {pool : Pool τ} {id other : ReadId} {plan : Plan} (h : pool.Tracks id plan)
    (hn : id ≠ other) (lease : Lease) (wait : Wait) :
    (pool.join other lease wait).Tracks id plan := by
  obtain ⟨hlimits, _, hfailures, _, hgather, hlive⟩ := join_frame pool other lease wait
  refine ⟨?_, ?_, ?_, ?_, ?_⟩
  · rw [hgather, Array.getElem?_modify, if_neg (Ne.symm hn), outcome?_join, hfailures]
    exact h.gathering
  · rw [hlimits]
    exact h.pages
  · rw [call?_join, hlimits]
    exact h.calls
  · intro file page fetch waiters hp
    obtain ⟨before, hb, rfl⟩ := fetching_join.mp hp
    rw [← h.waiting file page fetch before hb]
    split <;> simp [hn]
  · intro read hr hid
    rw [hlive] at hr
    obtain ⟨old, hm, rfl⟩ := mem_live_modifyLive hr
    have hne : old.id ≠ other := by
      intro he
      rw [if_pos he] at hid
      exact hn (hid ▸ he)
    rw [if_neg hne] at hid ⊢
    exact (h.reading old hm hid).join other lease wait

end Pool

end PageCache
