import Mathlib.Data.List.Induction
import PageCache.Proofs.Driving

namespace PageCache

namespace Pool

variable {τ : Type}

theorem Alike.sound {pool other : Pool τ} (h : pool.Alike other) {plans : ReadId → Plan}
    (hs : pool.Sound plans) (hf : other.files = pool.files) (hl : other.live = pool.live)
    (hg : other.gatherings = pool.gatherings) : other.Sound plans where
  ordered := hs.ordered.of_files hf
  leased := hs.leased.of_tenancy hl (hg ▸ rfl) fun file => by rw [tenancy, tenancy, hf]
  backed := h.backed hs.backed
  waiters := by
    rw [h.pageAt?, hg]
    exact hs.waiters
  tracked id hid := by
    rw [hg] at hid
    exact h.tracks (hs.tracked id hid) (by rw [hg]) fun read hr => (hs.tracked id hid).reading read
      (hl ▸ hr)

-- A fetch that has no outcome is as good as it was in any phase without one.
theorem alike_withPhase {pool : Pool τ} {fetch : FetchId} {phase : Phase τ}
    (ho : pool.outcome? fetch = none) (hp : phase.outcome? = none) :
    pool.Alike (pool.withPhase fetch phase) where
  limits := rfl
  call? := call?_withPhase pool fetch phase
  outcome? := by
    funext other
    rw [outcome?_withPhase]
    split
    · rename_i he
      rw [hp, ← he, ho]
      cases pool.call? fetch <;> rfl
    · rfl
  failures := rfl
  pageAt? := rfl

-- A read has polled one of the fetches that it waits for.
structure Polled (pool polled : Pool τ) (plans : ReadId → Plan) (read : LiveRead)
    (wait : Wait) : Prop where
  sound : polled.Sound plans
  later : pool.Later polled
  size : polled.gatherings.size = pool.gatherings.size
  leases : polled.leases = pool.leases
  others : ∀ fetch ≠ wait.fetch, polled.outcome? fetch = pool.outcome? fetch
  left : ∃ left ∈ polled.live, left.id = read.id ∧ left.lease = read.lease ∧
    left.waits =
      if (polled.outcome? wait.fetch).isSome then read.waits.erase wait else read.waits

section Polled

variable {pool : Pool τ} {plans : ReadId → Plan} {read : LiveRead} {wait : Wait}

-- The outcome is there, and the read has seen it.
theorem Polled.of_observe {middle : Pool τ} {outcome : Outcome} (hs : middle.Sound plans)
    (hl : pool.Later middle) (hg : middle.gatherings.size = pool.gatherings.size)
    (hlive : middle.live = pool.live) (hr : read ∈ pool.live)
    (ho : middle.outcome? wait.fetch = some outcome)
    (hothers : ∀ fetch ≠ wait.fetch, middle.outcome? fetch = pool.outcome? fetch) :
    pool.Polled (middle.observe read.id wait) plans read wait := by
  have hseen : middle.outcome? wait.fetch ≠ none := by
    rw [ho]
    exact Option.some_ne_none outcome
  have hleases : (middle.observe read.id wait).leases = middle.leases :=
    leases_modifyLive middle read.id (fun _ => rfl) fun _ => rfl
  refine ⟨sound_observe hs read.id hseen, ?_, hg, ?_, hothers, ?_⟩
  · exact ⟨hl.limits, hl.calls, hl.outcomes, hl.failures, hl.size⟩
  · exact hleases.trans (congrArg (List.map _) hlive)
  · have hm : read ∈ middle.live := hlive ▸ hr
    refine ⟨{ read with waits := read.waits.erase wait }, ?_, rfl, rfl, ?_⟩
    · exact List.mem_map.mpr ⟨read, hm, if_pos rfl⟩
    · exact (if_pos (ho ▸ rfl)).symm

end Polled

-- A read has polled the fetches of some of the pages that it waits for, and still waits
-- for the others.
structure Swept (pool swept : Pool τ) (plans : ReadId → Plan) (read : LiveRead)
    (pages : List Nat) : Prop where
  sound : swept.Sound plans
  later : pool.Later swept
  size : swept.gatherings.size = pool.gatherings.size
  leases : swept.leases = pool.leases
  left : ∃ left ∈ swept.live, left.id = read.id ∧ left.lease = read.lease ∧
    (∀ wait ∈ left.waits, wait ∈ read.waits ∧
      (wait.page ∈ pages → swept.outcome? wait.fetch = none)) ∧
    ∀ wait ∈ read.waits, wait.page ∉ pages → wait ∈ left.waits

-- What a read waits for comes from different fetches.
theorem Sound.fetch_ne {pool : Pool τ} {plans : ReadId → Plan} (hs : pool.Sound plans)
    {read : LiveRead} (hr : read ∈ pool.live) {wait other : Wait} (hw : wait ∈ read.waits)
    (ho : other ∈ read.waits) (hn : other ≠ wait) : other.fetch ≠ wait.fetch := by
  have ht := hs.tracked read.id (hs.leased.known read hr)
  have hreads := ht.reading read hr rfl
  intro he
  have hpart := hreads.planned other ho
  rw [he] at hpart
  have hpage := ht.page_unique (hreads.planned wait hw) other.page hpart
  rcases wait with ⟨page, fetch⟩
  rcases other with ⟨name, found⟩
  exact hn (by rw [Wait.mk.injEq]; exact ⟨hpage, he⟩)

-- A read waits for a page once.
theorem Sound.wait_unique {pool : Pool τ} {plans : ReadId → Plan} (hs : pool.Sound plans)
    {read : LiveRead} (hr : read ∈ pool.live) {wait other : Wait} (hw : wait ∈ read.waits)
    (ho : other ∈ read.waits) (hp : other.page = wait.page) : other = wait := by
  have ht := hs.tracked read.id (hs.leased.known read hr)
  have hreads := ht.reading read hr rfl
  have hpart := ht.spaced.part_unique (hreads.planned wait hw) (hreads.planned other ho) hp
  rcases wait with ⟨page, fetch⟩
  rcases other with ⟨name, found⟩
  cases hpart
  rfl

end Pool

namespace Mount

variable {σ τ : Type}

theorem polled_pollWait (backend : Backend σ τ) {mount : Mount σ τ} {plans : ReadId → Plan}
    (hs : mount.pool.Sound plans) {read : LiveRead} (hr : read ∈ mount.pool.live) {wait : Wait}
    (hw : wait ∈ read.waits) :
    mount.pool.Polled (pollWait backend read.id read.lease mount wait).pool plans read wait := by
  have ht := hs.tracked read.id (hs.leased.known read hr)
  obtain ⟨call, hcall, hlength⟩ : ∃ call, mount.pool.call? wait.fetch = some call ∧
      call.length = mount.pool.limits.pageSize :=
    ⟨_, ht.calls wait.page wait.fetch ((ht.reading read hr rfl).planned wait hw), rfl⟩
  unfold pollWait
  rcases drive_cases backend mount hcall with ⟨outcome, ho, hd⟩ | ⟨ho, base, storage, hb, h⟩
  · -- the outcome was there before
    simp only [hd]
    have htrims := Pool.trims_resolve_late hs hr wait ho
    refine .of_observe (htrims.sound hs) htrims.later (htrims.gatherings ▸ rfl) htrims.live hr
      (htrims.outcome?_eq ▸ ho) fun fetch _ => by rw [htrims.outcome?_eq]
  · have hbase := hb.sound hs
    have hobase : base.outcome? wait.fetch = none := by rw [hb.outcome?_eq, ho]
    rcases h with ⟨rest, hd⟩ | ⟨answer, hd⟩
    · -- the read of storage goes on
      simp only [hd]
      have halike := Pool.alike_withPhase hobase (rfl : (Phase.running rest).outcome? = none)
      refine ⟨halike.sound hbase rfl rfl rfl, hb.later.trans (halike.later (Nat.le_refl _)),
        congrArg Array.size hb.gatherings, hb.keeps.leases, fun fetch _ => ?_, ?_⟩
      · rw [halike.outcome?, hb.outcome?_eq]
      · rw [halike.outcome?, hobase]
        exact ⟨read, hb.live ▸ hr, rfl, rfl, rfl⟩
    · -- the read of storage ends, and the page is resolved
      simp only [hd]
      have hrbase : read ∈ base.live := hb.live ▸ hr
      obtain ⟨waiters, settled, hp, hset, htrim⟩ :=
        Pool.exists_settles_resolve hbase hrbase hw hobase (call.outcome answer)
      have hsettled := hset.sound hbase hp fun data attributes he => by
        rw [hb.limits, ← hlength]
        exact Call.length_of_outcome he
      have hcomplete := hset.completes.complete
      rw [← htrim.outcome?_eq] at hcomplete
      refine .of_observe (htrim.sound hsettled) ((hb.later.trans hset.later).trans htrim.later)
        ?_ ?_ hr hcomplete fun fetch hn => ?_
      · rw [htrim.gatherings, hset.size, hb.gatherings]
      · rw [htrim.live, hset.live, hb.live]
      · rw [htrim.outcome?_eq, hset.completes.others fetch hn, hb.outcome?_eq]

-- The same, when all is sound to begin with.
theorem takeTurns_sound_induction (backend : Backend σ τ) {id : ReadId} {P : Mount σ τ → Prop}
    {plans : ReadId → Plan} (pages : List Nat) {mount : Mount σ τ} (hs : mount.pool.Sound plans)
    (h : P mount)
    (step : ∀ middle : Mount σ τ, middle.pool.Sound plans →
      middle.pool.gatherings.size = mount.pool.gatherings.size → ∀ read ∈ middle.pool.live,
      ∀ wait ∈ read.waits, read.id = id → P middle →
      P (pollWait backend read.id read.lease middle wait)) :
    P (pages.foldl (takeTurn backend id) mount) := by
  refine (takeTurns_induction backend pages (P := fun middle => middle.pool.Sound plans ∧
    middle.pool.gatherings.size = mount.pool.gatherings.size ∧ P middle) ⟨hs, rfl, h⟩ ?_).2.2
  intro middle read hr wait hw hid ⟨hmiddle, hsize, hp⟩
  have hpolled := polled_pollWait backend hmiddle hr hw
  exact ⟨hpolled.sound, hpolled.size.trans hsize, step middle hmiddle hsize read hr wait hw hid hp⟩

-- The fetches that were polled in vain have no outcome yet, since each poll moves its own
-- fetch only.
theorem swept_takeTurns (backend : Backend σ τ) (pages : List Nat) {mount : Mount σ τ}
    {plans : ReadId → Plan} (hs : mount.pool.Sound plans) {read : LiveRead}
    (hr : read ∈ mount.pool.live) :
    mount.pool.Swept (pages.foldl (takeTurn backend read.id) mount).pool plans read pages := by
  induction pages using List.reverseRecOn with
  | nil =>
      exact ⟨hs, .refl _, rfl, rfl, read, hr, rfl, rfl, fun wait hw => ⟨hw, nofun⟩,
        fun _ hw _ => hw⟩
  | append_singleton pages page ih =>
      rw [List.foldl_append, List.foldl_cons, List.foldl_nil]
      generalize pages.foldl (takeTurn backend read.id) mount = swept at ih
      obtain ⟨left, hleft, hid, hlease, hwaits, hstays⟩ := ih.left
      have hlive := ih.sound.leased.live?_eq_some_iff.mpr ⟨hleft, hid⟩
      rcases takeTurn_cases backend swept read.id page with
        ⟨hnone, ht⟩ | ⟨found, hfound, wait, hwait, rfl, ht⟩
      · rw [Pool.awaited?, hlive, Option.bind_some, Option.map_eq_none_iff,
          List.find?_eq_none] at hnone
        rw [ht]
        refine ⟨ih.sound, ih.later, ih.size, ih.leases, left, hleft, hid, hlease,
          fun wait hw => ⟨(hwaits wait hw).1, fun hm => ?_⟩,
          fun wait hw hn => hstays wait hw fun hm => hn (List.mem_append_left _ hm)⟩
        rcases List.mem_append.mp hm with hm | hm
        · exact (hwaits wait hw).2 hm
        · exact absurd (beq_iff_eq.mpr (List.mem_singleton.mp hm)) (hnone wait hw)
      · obtain rfl : found = left := Option.some.inj (hfound.symm.trans hlive)
        have hpolled := polled_pollWait backend ih.sound hleft hwait
        rw [hid] at hpolled
        rw [ht]
        obtain ⟨last, hlast, hlastId, hlastLease, hlastWaits⟩ := hpolled.left
        have hn := ((ih.sound.tracked found.id (ih.sound.leased.known found hleft)).reading found
          hleft rfl).nodup
        refine ⟨hpolled.sound, ih.later.trans hpolled.later, hpolled.size.trans ih.size,
          hpolled.leases.trans ih.leases, last, hlast, hlastId.trans hid,
          hlastLease.trans hlease, fun other ho => ?_, fun other ho hfar => ?_⟩
        · have hmem : other ∈ found.waits := by
            rw [hlastWaits] at ho
            split at ho
            · exact List.mem_of_mem_erase ho
            · exact ho
          refine ⟨(hwaits other hmem).1, fun hm => ?_⟩
          by_cases hsame : other = wait
          · subst hsame
            rw [hlastWaits] at ho
            split at ho
            · exact absurd ho hn.not_mem_erase
            · rename_i hnone
              exact Option.not_isSome_iff_eq_none.mp hnone
          · rw [hpolled.others _ (ih.sound.fetch_ne hleft hwait hmem hsame)]
            refine (hwaits other hmem).2 ((List.mem_append.mp hm).resolve_right fun hm => hsame ?_)
            exact ih.sound.wait_unique hleft hwait hmem (List.mem_singleton.mp hm)
        · rw [List.mem_append, List.mem_singleton, not_or] at hfar
          have hmem := hstays other ho hfar.1
          have hother : other ≠ wait := fun he => hfar.2 (congrArg Wait.page he)
          rw [hlastWaits]
          split
          · exact (List.mem_erase_of_ne hother).mpr hmem
          · exact hmem

end Mount

end PageCache
