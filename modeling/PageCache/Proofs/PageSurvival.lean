import PageCache.Proofs.ReadOutcome

namespace PageCache

-- Of two lists in order, one that has the same numbers below a bound and none beyond it
-- comes first in the other.
theorem prefix_of_agree {bound : Nat} {ids later : List Nat} (hi : ids.Pairwise (· < ·))
    (hl : later.Pairwise (· < ·)) (hb : ∀ id ∈ ids, id < bound)
    (h : ∀ id < bound, id ∈ ids ↔ id ∈ later) : ids <+: later := by
  induction ids generalizing later with
  | nil => exact List.nil_prefix
  | cons id rest ih =>
      rw [List.forall_mem_cons] at hb
      rw [List.pairwise_cons] at hi
      have hm : id ∈ later := (h id hb.1).mp List.mem_cons_self
      cases later with
      | nil => cases hm
      | cons first others =>
          rw [List.pairwise_cons] at hl
          have hfirst : first = id := by
            rcases List.mem_cons.mp hm with he | ho
            · exact he.symm
            · have hlt := hl.1 id ho
              have hf : first ∈ id :: rest := (h first (by omega)).mpr List.mem_cons_self
              rcases List.mem_cons.mp hf with he | hr
              · exact he
              · have hgt := hi.1 first hr
                omega
          subst hfirst
          rw [List.prefix_cons_inj]
          refine ih hi.2 hl.2 hb.2 fun other ho => ?_
          have hiff := h other ho
          rw [List.mem_cons, List.mem_cons] at hiff
          by_cases he : other = first
          · subst he
            exact iff_of_false (fun hr => Nat.lt_irrefl _ (hi.1 _ hr))
              fun hr => Nat.lt_irrefl _ (hl.1 _ hr)
          · simpa [he] using hiff

namespace Pool

variable {τ : Type} {pool next : Pool τ} {plans after : ReadId → Plan} {gone : ReadId → Prop}

-- The reads of old that wait for a page which is still being fetched are the same.
theorem Steps.waiters_prefix (h : pool.Steps next plans after gone) (hs : pool.Steady plans)
    {file : FileId} {page : Nat} {fetch : FetchId} {waiters later : List ReadId}
    (hp : pool.pageAt? file page = some (.fetching fetch waiters))
    (hn : next.pageAt? file page = some (.fetching fetch later)) : waiters <+: later := by
  obtain ⟨hsorted, hknown⟩ := hs.sound.waiters file page fetch waiters hp
  refine prefix_of_agree hsorted (h.steady.sound.waiters file page fetch later hn).1 hknown ?_
  intro id hid
  have hnext := h.steady.sound.tracked id (hid.trans_le h.later.size)
  rw [h.same id hid] at hnext
  rw [(hs.sound.tracked id hid).waiting file page fetch waiters hp,
    hnext.waiting file page fetch later hn]

-- A read that is neither gone nor done keeps the pages that it waits for, and its file.
theorem Steps.survives (h : pool.Steps next plans after gone) (hs : pool.Steady plans)
    {file : FileId} {page : Nat} {fetch : FetchId} {waiters : List ReadId} {read : LiveRead}
    (hp : pool.pageAt? file page = some (.fetching fetch waiters)) (hr : read ∈ pool.live)
    (hw : read.id ∈ waiters) (hg : ¬ gone read.id) (ho : next.outcome? fetch = none) :
    ∃ later, next.pageAt? file page = some (.fetching fetch later) ∧ waiters <+: later ∧
      next.call? fetch = pool.call? fetch ∧
      (next.files.find? file).map (·.serial) = (pool.files.find? file).map (·.serial) := by
  have hid := hs.sound.leased.known read hr
  have ht := hs.sound.tracked read.id hid
  obtain ⟨rfl, hpart⟩ := (ht.waiting file page fetch waiters hp).mp hw
  have hheld : (read.id, read.lease) ∈ pool.leases := List.mem_map.mpr ⟨read, hr, rfl⟩
  have hlive : (read.id, read.lease) ∈ next.leases := by
    rcases h.stays _ hheld with hm | hgone | hdone
    · exact hm
    · exact absurd hgone hg
    · exact absurd ho (hdone fetch (Plan.mem_fetches.mpr ⟨page, hpart⟩))
  obtain ⟨left, hleft, he⟩ := List.mem_map.mp hlive
  obtain ⟨hleftId, hlease⟩ := Prod.mk.inj he
  have hnext := h.steady.sound.tracked read.id (hid.trans_le h.later.size)
  rw [h.same read.id hid] at hnext
  obtain ⟨_, later, hlater⟩ := (hnext.reading left hleft hleftId).unseen page fetch hpart ho
  refine ⟨later, hlater, h.waiters_prefix hs hp hlater, ?_, ?_⟩
  · have hcall := (hs.sound.backed.fetching _ page fetch waiters hp).1
    rw [hcall, h.later.calls fetch _ hcall]
  · obtain ⟨cached, hfile, hserial⟩ := hs.sound.leased.current read hr
    obtain ⟨kept, hkept, hsame⟩ := h.steady.sound.leased.current left hleft
    rw [hlease] at hkept hsame
    rw [← (ht.reading read hr rfl).file, hfile, hkept]
    simp only [Option.map_some, hsame, hserial]

end Pool

namespace Mount

variable {σ τ : Type}

-- Unless it drops the read or completes the fetch, no act destroys a page that a read in progress
-- waits for, nor the file that the page belongs to.
theorem page_survives (backend : Backend σ τ) (limits : Limits) (storage : σ)
    (acts : List (Act σ)) {file : FileId} {page : Nat} {fetch : FetchId}
    {waiters : List ReadId} {read : LiveRead}
    (hp : (run backend (create limits storage) acts).pool.pageAt? file page =
      some (.fetching fetch waiters))
    (hr : read ∈ (run backend (create limits storage) acts).pool.live) (hw : read.id ∈ waiters)
    {act : Act σ} (ha : act ≠ .ask (.drop read.id))
    (ho : ((run backend (create limits storage) acts).act backend act).1.pool.outcome? fetch =
      none) :
    let pool := (run backend (create limits storage) acts).pool
    let next := ((run backend (create limits storage) acts).act backend act).1.pool
    pool.call? fetch = some ⟨file, page, limits.pageSize⟩ ∧
    ∃ later, next.pageAt? file page = some (.fetching fetch later) ∧ waiters <+: later ∧
      next.call? fetch = pool.call? fetch ∧
      (next.files.find? file).map (·.serial) = (pool.files.find? file).map (·.serial) := by
  intro pool next
  obtain ⟨plans, hs, hlimits⟩ := exists_steady backend limits storage acts
  obtain ⟨after, hstep⟩ := exists_steps_act backend hs act
  refine ⟨?_, hstep.survives hs hp hr hw ha ho⟩
  rw [← hlimits]
  exact (hs.sound.backed.fetching file page fetch waiters hp).1

theorem gated_page_survives :
    (gatedRun []).pool.pageAt? 0 4 = some (.fetching 1 [0]) ∧
    gatedRead ∈ (gatedRun []).pool.live ∧
    ((gatedRun []).act Memory.backend (.ask .prune)).1.pool.outcome? 1 = none ∧
    ∃ later, ((gatedRun []).act Memory.backend (.ask .prune)).1.pool.pageAt? 0 4 =
      some (.fetching 1 later) ∧ [0] <+: later := by
  have hp : (gatedRun []).pool.pageAt? 0 4 = some (.fetching 1 [0]) := rfl
  have hr : gatedRead ∈ (gatedRun []).pool.live := by decide
  have ho : ((gatedRun []).act Memory.backend (.ask .prune)).1.pool.outcome? 1 = none := rfl
  have hw : gatedRead.id ∈ [0] := List.mem_singleton_self 0
  have ha : (.ask .prune : Act (Gates × Memory)) ≠ .ask (.drop gatedRead.id) := fun he => nomatch he
  have hsurvives := page_survives Memory.backend fourByteLimits gatedStorage
    [.ask (.read 0 1 8 .all)] hp hr hw ha ho
  exact ⟨hp, hr, ho, hsurvives.2.imp fun later h => ⟨h.1, h.2.1⟩⟩

end Mount

end PageCache
