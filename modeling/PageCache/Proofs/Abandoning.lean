import PageCache.Proofs.Issuing
import PageCache.Proofs.Lockstep
import PageCache.Proofs.ReadOutcome

namespace PageCache

namespace Pool

variable {τ : Type} {kept : Pool τ} {read : LiveRead}

-- A read that is given up leaves all else as it was. Its file stays, for no mark tells it to go.
theorem spares_endRead (ho : kept.Ordered) (hl : kept.Leased) (hr : read ∈ kept.live)
    (hu : kept.Unmarked read.lease.file) :
    Spares read.id read.lease.file (kept.endRead read.id) kept := by
  obtain ⟨cached, hf, hserial⟩ := hl.current read hr
  have hpos := hl.readers_pos ⟨read, hr, rfl⟩
  have hleased : leased? { kept with live := kept.live.filter (·.id != read.id) } read.lease =
      some cached := Option.filter_eq_some_iff.mpr ⟨hf, beq_iff_eq.mpr hserial⟩
  have hended : kept.endRead read.id =
      modifyFile { kept with live := kept.live.filter (·.id != read.id) } read.lease.file
        fun cached => { cached with readers := cached.readers - 1 } := by
    simp only [endRead, hl.live?_eq_some_iff.mpr ⟨hr, rfl⟩, leave, hleased, hpos cached hf,
      hu cached hf, decide_true, require, if_true, Bool.false_eq_true, and_false, if_false]
  refine ⟨?_, by rw [hended]; rfl, read, hr, rfl, rfl⟩
  have hsame : (kept.files.modify read.lease.file fun cached =>
      { cached with readers := cached.readers - 1 }).modify read.lease.file (·.crowd 1) =
        kept.files := by
    rw [LruMap.modify_modify]
    have hid : kept.files.modify read.lease.file id = kept.files :=
      LruMap.modify_id _ _ fun _ => rfl
    refine (ho.files.modify_congr fun value hv => ?_).trans hid
    simp only [Function.comp_apply, FileCache.crowd, Nat.sub_add_cancel (hpos value hv), id_eq]
  rw [hended]
  simp only [crowd, modifyFile, hsame]

end Pool

namespace Mount

variable {σ τ : Type} {backend : Backend σ τ} {mount kept : Mount σ τ} {file : FileId}
  {id reader : ReadId} {plans keptPlans : ReadId → Plan}

-- Two mounts that differ in one read, which is in progress in the second one only.
structure Spares (id : ReadId) (file : FileId) (mount kept : Mount σ τ) : Prop where
  storage : kept.storage = mount.storage
  pool : Pool.Spares id file mount.pool kept.pool

def crowd (mount : Mount σ τ) (file : FileId) (extra : Nat) (live : List LiveRead) : Mount σ τ :=
  { mount with pool := mount.pool.crowd file extra live }

theorem advance_crowd (backend : Backend σ τ) (mount : Mount σ τ) (file : FileId) (extra : Nat)
    (live : List LiveRead) (fetch : FetchId) (call : Call) (token : τ) :
    (mount.crowd file extra live).advance backend fetch call token =
      ((mount.advance backend fetch call token).1.crowd file extra live,
        (mount.advance backend fetch call token).2) := by
  have hstorage : (mount.crowd file extra live).storage = mount.storage := rfl
  simp only [advance, hstorage]
  cases (backend.poll mount.storage call token).2 <;> rfl

-- A fetch is driven without regard to the reads.
theorem drive_crowd (backend : Backend σ τ) (mount : Mount σ τ) (file : FileId) (extra : Nat)
    (live : List LiveRead) (fetch : FetchId) :
    (mount.crowd file extra live).drive backend fetch =
      ((mount.drive backend fetch).1.crowd file extra live,
        (mount.drive backend fetch).2) := by
  have hfetches : (mount.crowd file extra live).pool.fetches = mount.pool.fetches := rfl
  unfold drive
  rw [hfetches]
  cases mount.pool.fetches[fetch]? with
  | none => rfl
  | some found =>
      obtain ⟨call, phase⟩ := found
      cases phase with
      | idle => exact advance_crowd backend (mount.launch backend fetch call).1 ..
      | running token => exact advance_crowd backend mount ..
      | complete outcome => rfl

theorem live_drive (backend : Backend σ τ) (mount : Mount σ τ) (fetch : FetchId) :
    (mount.drive backend fetch).1.pool.live = mount.pool.live := by
  have hsame := drive_crowd backend mount 0 0 mount.pool.live fetch
  rw [crowd, Pool.crowd_zero] at hsame
  rw [congrArg (·.1.pool.live) hsame]
  rfl

theorem Spares.drive (backend : Backend σ τ) (h : mount.Spares id file kept) (fetch : FetchId) :
    (mount.drive backend fetch).1.Spares id file (kept.drive backend fetch).1 ∧
      (kept.drive backend fetch).2 = (mount.drive backend fetch).2 := by
  have hkept : kept = mount.crowd file 1 kept.pool.live := by
    rw [crowd, ← h.pool.same, ← h.storage]
  have hdriven := drive_crowd backend mount file 1 kept.pool.live fetch
  rw [← hkept] at hdriven
  rw [hdriven]
  refine ⟨⟨rfl, rfl, ?_, h.pool.spared⟩, rfl⟩
  rw [live_drive]
  exact h.pool.others

theorem Spares.pollWait (backend : Backend σ τ) (h : mount.Spares id file kept) (reader : ReadId)
    (lease : Lease) (wait : Wait) :
    (pollWait backend reader lease mount wait).Spares id file
      (pollWait backend reader lease kept wait) := by
  obtain ⟨hdriven, houtcome⟩ := h.drive backend wait.fetch
  unfold Mount.pollWait
  simp only [houtcome]
  cases (mount.drive backend wait.fetch).2 with
  | none => exact hdriven
  | some outcome =>
      have hresolved := hdriven.pool.applySame (·.resolve lease wait outcome)
        fun _ _ => Pool.resolve_crowd ..
      exact ⟨hdriven.storage, hresolved.observe wait⟩

theorem Spares.takeTurn (backend : Backend σ τ) (h : mount.Spares id file kept)
    (hne : reader ≠ id) (page : Nat) :
    (takeTurn backend reader mount page).Spares id file (takeTurn backend reader kept page) := by
  have hawaited : kept.pool.awaited? reader page = mount.pool.awaited? reader page := by
    rw [Pool.awaited?, Pool.awaited?, h.pool.live? hne]
  unfold Mount.takeTurn
  rw [hawaited]
  cases mount.pool.awaited? reader page with
  | none => exact h
  | some found => exact h.pollWait backend reader found.1 found.2

theorem Spares.takeTurns (backend : Backend σ τ) (h : mount.Spares id file kept)
    (hne : reader ≠ id) (pages : List Nat) :
    (pages.foldl (Mount.takeTurn backend reader) mount).Spares id file
      (pages.foldl (Mount.takeTurn backend reader) kept) := by
  induction pages generalizing mount kept with
  | nil => exact h
  | cons page rest ih => exact ih (h.takeTurn backend hne page)

-- A poll of another read finds the same fetches to wait for, and takes them equally far.
theorem Spares.poll (h : mount.Spares id file kept) (hs : mount.pool.Steady plans)
    (hu : mount.pool.Unmarked file) (hne : reader ≠ id) (turns : Turns) :
    (mount.poll backend reader turns).1.Spares id file (kept.poll backend reader turns).1 ∧
      (kept.poll backend reader turns).2 = (mount.poll backend reader turns).2 := by
  have hlive := h.pool.live? hne
  cases hfound : mount.pool.live? reader with
  | none =>
      rw [hfound] at hlive
      unfold Mount.poll
      rw [hfound, ← hlive]
      exact ⟨h, rfl⟩
  | some read =>
      rw [hfound] at hlive
      obtain ⟨hr, rfl⟩ := hs.sound.leased.live?_eq_some_iff.mp hfound
      let pages := turns (read.waits.map (·.page))
      have hswept := swept_takeTurns backend pages hs.sound hr
      have hunmarked := (moves_takeTurns backend read.id pages mount .prune).marks.unmarked
        nofun hu
      have hpolled := h.takeTurns backend hne pages
      rw [poll_eq backend mount hfound, poll_eq backend kept hlive.symm]
      generalize (turns (read.waits.map (·.page))).foldl (Mount.takeTurn backend read.id) mount =
        polled at hswept hunmarked hpolled
      generalize (turns (read.waits.map (·.page))).foldl (Mount.takeTurn backend read.id) kept =
        other at hpolled
      have hresult : other.pool.result read.id = polled.pool.result read.id := by
        rw [hpolled.pool.same]
        rfl
      simp only [← hpolled.pool.live? hne, hresult]
      split
      · exact ⟨⟨hpolled.storage, hpolled.pool.endRead hne hswept.sound.ordered
          hswept.sound.leased hunmarked⟩, rfl⟩
      · exact ⟨hpolled, rfl⟩

-- The file of the read in question is read by somebody else too whenever pages are evicted.
theorem Spares.read (h : mount.Spares id file kept) (hs : mount.pool.Steady plans)
    (hk : kept.pool.Steady keptPlans) (hu : mount.pool.Unmarked file) {other : FileId}
    {offset length : Nat} {turns : Turns}
    (hb : ∀ swept, mount.pool.swept? (.read other offset length turns) = some swept →
      swept.Busy file) :
    (mount.read backend other offset length turns).1.Spares id file
        (kept.read backend other offset length turns).1 ∧
      (kept.read backend other offset length turns).2 =
        (mount.read backend other offset length turns).2 := by
  unfold Mount.read
  by_cases hl : length = 0
  · rw [if_pos hl, if_pos hl]
    exact ⟨h, rfl⟩
  rw [if_neg hl, if_neg hl]
  by_cases hw : offset + length < wordLimit
  · rw [if_pos hw, if_pos hw]
    have hsize : kept.pool.gatherings.size = mount.pool.gatherings.size := by
      rw [h.pool.same, Pool.gatherings_crowd]
    have hlooked := Pool.starting_lookupSpan hs.sound other offset (offset + length)
    have hstarted := h.pool.startRead hk.sound.leased (Nat.pos_of_ne_zero hl) hw
      hlooked.sound.leased hb
    have hsteady := Pool.steady_startRead hs other offset (offset + length)
    have hunmarked := (Pool.moves_startRead mount.pool other offset length turns).marks.unmarked
      nofun hu
    let opened : Mount σ τ :=
      { mount with pool := mount.pool.startRead other offset (offset + length) }
    let keptOpened : Mount σ τ :=
      { kept with pool := kept.pool.startRead other offset (offset + length) }
    have hopened : opened.Spares id file keptOpened := ⟨h.storage, hstarted⟩
    rw [hsize]
    exact hopened.poll hsteady hunmarked (h.pool.id_lt hk.sound.leased).ne' turns
  · rw [if_neg hw, if_neg hw]
    exact ⟨h, rfl⟩

-- The acts that have nothing to do with the read, and do not release its file.
def Sidesteps (read : LiveRead) (act : Act σ) : Prop :=
  (∀ turns, act ≠ .ask (.poll read.id turns)) ∧ act ≠ .ask (.drop read.id) ∧
    act ≠ .ask (.release read.lease.file)

theorem Spares.act {read : LiveRead} (h : mount.Spares read.id read.lease.file kept)
    (hs : mount.pool.Steady plans) (hk : kept.pool.Steady keptPlans)
    (hu : mount.pool.Unmarked read.lease.file) {act : Act σ} (ha : Sidesteps read act)
    (hb : ∀ swept ∈ mount.sweeps backend [act], swept.Busy read.lease.file) :
    (mount.act backend act).1.Spares read.id read.lease.file (kept.act backend act).1 ∧
      (kept.act backend act).2 = (mount.act backend act).2 := by
  cases act with
  | change become => exact ⟨⟨congrArg become h.storage, h.pool⟩, rfl⟩
  | ask op =>
      have hswept : ∀ swept, mount.pool.swept? op = some swept → swept.Busy read.lease.file := by
        intro swept hop
        refine hb swept ?_
        simp only [sweeps, hop, List.append_nil, Option.toList_some, List.mem_singleton]
      obtain ⟨hpoll, hdrop, hrelease⟩ := ha
      suffices hstep : (mount.step backend op).1.Spares read.id read.lease.file
          (kept.step backend op).1 ∧
          (kept.step backend op).2 = (mount.step backend op).2 from
        ⟨hstep.1, congrArg some hstep.2⟩
      have hsame := h.pool.same
      cases op with
      | read other offset length turns => exact h.read hs hk hu hswept
      | poll reader turns => exact h.poll hs hu (fun he => hpoll turns (by rw [he])) turns
      | drop reader =>
          have hne : reader ≠ read.id := fun he => hdrop (by rw [he])
          refine ⟨⟨h.storage, h.pool.endRead hne hs.sound.ordered hs.sound.leased hu⟩, ?_⟩
          simp only [step, h.pool.live? hne]
      | invalidate other =>
          refine ⟨⟨h.storage, h.pool.applySame (fun pool => (pool.invalidate other).1)
            fun _ _ => by rw [Pool.invalidate_crowd]⟩, ?_⟩
          simp only [step]
          rw [hsame, Pool.invalidate_crowd]
      | revalidate other attributes =>
          refine ⟨⟨h.storage, h.pool.applySame (fun pool => (pool.revalidate other attributes).1)
            fun _ _ => by rw [Pool.revalidate_crowd]⟩, ?_⟩
          simp only [step]
          rw [hsame, Pool.revalidate_crowd]
      | release other =>
          have hne : other ≠ read.lease.file := fun he => hrelease (by rw [he])
          refine ⟨⟨h.storage, h.pool.applySame (fun pool => (pool.release other).1)
            fun _ _ => by rw [Pool.release_crowd _ _ _ _ hne]⟩, ?_⟩
          simp only [step]
          rw [hsame, Pool.release_crowd _ _ _ _ hne]
      | prune =>
          have hbusy := hswept mount.pool rfl
          refine ⟨⟨h.storage, h.pool.applySame (fun pool => pool.evict.1)
            fun _ _ => by rw [Pool.evict_crowd hs.sound.leased hbusy]⟩, ?_⟩
          simp only [step]
          rw [hsame, Pool.evict_crowd hs.sound.leased hbusy]

theorem Spares.run {read : LiveRead} (acts : List (Act σ))
    (h : mount.Spares read.id read.lease.file kept) (hs : mount.pool.Steady plans)
    (hk : kept.pool.Steady keptPlans) (hu : mount.pool.Unmarked read.lease.file)
    (ha : ∀ act ∈ acts, Sidesteps read act)
    (hb : ∀ swept ∈ mount.sweeps backend acts, swept.Busy read.lease.file) :
    (mount.run backend acts).Spares read.id read.lease.file (kept.run backend acts) ∧
      kept.answers backend acts = mount.answers backend acts := by
  induction acts generalizing mount kept plans keptPlans with
  | nil => exact ⟨h, rfl⟩
  | cons act rest ih =>
      have hsweeps := mount.sweeps_append backend [act] rest
      rw [List.singleton_append] at hsweeps
      simp only [hsweeps, List.mem_append] at hb
      have hact := ha act List.mem_cons_self
      obtain ⟨hnext, hanswer⟩ := h.act hs hk hu hact fun swept hm => hb swept (.inl hm)
      obtain ⟨after, hafter⟩ := exists_steps_act backend hs act
      obtain ⟨keptAfter, hkeptAfter⟩ := exists_steps_act backend hk act
      have hunmarked : (mount.act backend act).1.pool.Unmarked read.lease.file := by
        cases act with
        | change become => exact hu
        | ask op =>
            exact (moves_step backend mount op).marks.unmarked
              (fun he => hact.2.2 (by rw [he])) hu
      obtain ⟨hrun, hanswers⟩ := ih hnext hafter.steady hkeptAfter.steady hunmarked
        (fun other hm => ha other (List.mem_cons_of_mem act hm))
        fun swept hm => hb swept (.inr hm)
      refine ⟨hrun, ?_⟩
      simp only [answers, hanswer, hanswers]

-- What can be told of a mount from outside, apart from what it answers.
structure Looks (mount other : Mount σ τ) : Prop where
  storage : other.storage = mount.storage
  used : other.pool.pagesUsed = mount.pool.pagesUsed
  counters : other.pool.counters = mount.pool.counters
  journal : other.pool.journal = mount.pool.journal
  contains : ∀ file offset, other.pool.contains file offset = mount.pool.contains file offset
  attributes : ∀ file, other.pool.attributes? file = mount.pool.attributes? file

theorem Spares.looks (h : mount.Spares id file kept) : mount.Looks kept := by
  have hsame := h.pool.same
  refine ⟨h.storage, ?_, ?_, ?_, fun other offset => ?_, fun other => ?_⟩
  · rw [hsame, Pool.pagesUsed_crowd]
  · rw [hsame]
    rfl
  · rw [hsame]
    rfl
  · rw [hsame, Pool.contains_crowd]
  · rw [hsame, Pool.attributes?_crowd]

-- A read that is given up makes no difference to anybody else. All goes on as if it were still
-- there and never polled again, as long as its file is not released, and somebody else reads the
-- file whenever pages are evicted.
theorem dropped_read_unseen (backend : Backend σ τ) (limits : Limits) (storage : σ)
    (before acts : List (Act σ)) {read : LiveRead}
    (hr : read ∈ (run backend (create limits storage) before).pool.live)
    (hu : (run backend (create limits storage) before).pool.Unmarked read.lease.file)
    (ha : ∀ act ∈ acts, Sidesteps read act)
    (hb : ∀ swept ∈ ((run backend (create limits storage) before).act backend
        (.ask (.drop read.id))).1.sweeps backend acts, swept.Busy read.lease.file) :
    let kept := run backend (create limits storage) before
    let dropped := (kept.act backend (.ask (.drop read.id))).1
    dropped.answers backend acts = kept.answers backend acts ∧
    ∀ first rest, acts = first ++ rest →
      (dropped.run backend first).Looks (kept.run backend first) ∧
      issued backend (create limits storage) (before ++ .ask (.drop read.id) :: first) =
        issued backend (create limits storage) (before ++ first) := by
  intro kept dropped
  obtain ⟨plans, hk, _⟩ := exists_steady backend limits storage before
  obtain ⟨after, hsteps⟩ := exists_steps_act backend hk (.ask (.drop read.id))
  have hordered := hk.sound.ordered
  have hspares : dropped.Spares read.id read.lease.file kept :=
    ⟨rfl, Pool.spares_endRead hordered hk.sound.leased hr hu⟩
  have hunmarked : dropped.pool.Unmarked read.lease.file :=
    (moves_step backend kept (.drop read.id)).marks.unmarked nofun hu
  obtain ⟨_, hanswers⟩ := hspares.run acts hsteps.steady hk hunmarked ha hb
  refine ⟨hanswers.symm, ?_⟩
  rintro first rest rfl
  obtain ⟨hfirst, _⟩ := hspares.run first hsteps.steady hk hunmarked
    (fun act hm => ha act (List.mem_append_left rest hm))
    fun swept hm => hb swept (by rw [sweeps_append]; exact List.mem_append_left _ hm)
  refine ⟨hfirst.looks, ?_⟩
  -- what has been asked of storage can be told from the journal
  have hlaunches : (kept.run backend first).pool.launches =
      (dropped.run backend first).pool.launches := by
    rw [Pool.launches, hfirst.looks.journal, ← Pool.launches]
  rw [issued_eq, issued_eq, run_append, run_append, hlaunches]
  rfl

-- Two reads wait for the page at the gate.
abbrev sharedRun : Mount (Gates × Memory) (Option GateId) :=
  gatedRun [.ask (.read 0 4 2 .all)]

-- The gate opens, and the second one is polled.
abbrev openGate : List (Act (Gates × Memory)) := untilReleased ++ [.ask (.poll 1 .all)]

-- The first of them is given up.
abbrev loneRun : Mount (Gates × Memory) (Option GateId) :=
  (sharedRun.act Memory.backend (.ask (.drop gatedRead.id))).1

-- The second one gets the page when the gate opens, be the first one still there or not.
theorem gated_dropped_read_unseen :
    gatedRead ∈ sharedRun.pool.live ∧ sharedRun.pool.Unmarked gatedRead.lease.file ∧
    (∀ act ∈ openGate, Sidesteps gatedRead act) ∧
    (∀ swept ∈ loneRun.sweeps Memory.backend openGate,
      swept.Busy gatedRead.lease.file) ∧
    loneRun.answers Memory.backend openGate =
      sharedRun.answers Memory.backend openGate ∧
    loneRun.answers Memory.backend openGate =
      [some (.number 2), some (.number 0), none,
        some (.returned (.ok ⟨[⟨4, [5, 6]⟩]⟩))] ∧
    (loneRun.run Memory.backend openGate).Looks
      (sharedRun.run Memory.backend openGate) := by
  have hr : gatedRead ∈ sharedRun.pool.live := List.mem_cons_self
  have hu : sharedRun.pool.Unmarked gatedRead.lease.file := by
    intro cached hf
    cases hf
    rfl
  have ha : ∀ act ∈ openGate, Sidesteps gatedRead act := by
    simp [openGate, untilReleased, Sidesteps, gatedRead]
  have hb : ∀ swept ∈ loneRun.sweeps Memory.backend openGate,
      swept.Busy gatedRead.lease.file := by
    intro swept hm
    cases hm with
    | head => exact ⟨⟨1, ⟨0, 0⟩, [⟨4, 1⟩]⟩, List.mem_cons_self, rfl⟩
    | tail _ hm => cases hm
  obtain ⟨hanswers, hlooks⟩ := dropped_read_unseen Memory.backend fourByteLimits gatedStorage
    [.ask (.read 0 1 8 .all), .ask (.read 0 4 2 .all)] openGate hr hu ha hb
  exact ⟨hr, hu, ha, hb, hanswers, rfl, (hlooks _ [] (List.append_nil _).symm).1⟩

end Mount

end PageCache
