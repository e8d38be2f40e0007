import PageCache.Proofs.FaultStamps

namespace PageCache

-- A read in progress polls a fetch that it waits for and sees its outcome. The mount is the
-- one that the read finds.
structure Sighting (σ τ : Type) where
  mount : Mount σ τ
  id : ReadId
  lease : Lease
  wait : Wait
  outcome : Outcome

namespace Mount

variable {σ τ : Type}

-- What a read sees when it polls one of its fetches, if it sees anything.
def waitSightings (backend : Backend σ τ) (id : ReadId) (lease : Lease) (mount : Mount σ τ)
    (wait : Wait) : List (Sighting σ τ) :=
  (mount.drive backend wait.fetch).2.toList.map fun outcome => ⟨mount, id, lease, wait, outcome⟩

-- What it sees when it takes a turn for a page.
def turnSightings (backend : Backend σ τ) (id : ReadId) (mount : Mount σ τ) (page : Nat) :
    List (Sighting σ τ) :=
  match mount.pool.awaited? id page with
  | none => []
  | some (lease, wait) => mount.waitSightings backend id lease wait

-- What it sees when it takes some turns one after another.
def sweepSightings (backend : Backend σ τ) (id : ReadId) (mount : Mount σ τ) :
    List Nat → List (Sighting σ τ)
  | [] => []
  | page :: rest =>
      mount.turnSightings backend id page ++
        sweepSightings backend id (takeTurn backend id mount page) rest

def pollSightings (backend : Backend σ τ) (mount : Mount σ τ) (id : ReadId) (turns : Turns) :
    List (Sighting σ τ) :=
  match mount.pool.live? id with
  | none => []
  | some read => mount.sweepSightings backend id (turns (read.waits.map (·.page)))

-- A read polls its fetches when it starts and whenever it is polled later on.
def actSightings (backend : Backend σ τ) (mount : Mount σ τ) : Act σ → List (Sighting σ τ)
  | .ask (.read file offset length turns) =>
      if length = 0 then []
      else if offset + length < wordLimit then
        let started := mount.pool.startRead file offset (offset + length)
        pollSightings backend { mount with pool := started } mount.pool.gatherings.size turns
      else []
  | .ask (.poll id turns) => mount.pollSightings backend id turns
  | _ => []

-- All that reads see in the course of a run, the earliest first.
def sightings (backend : Backend σ τ) (mount : Mount σ τ) : List (Act σ) → List (Sighting σ τ)
  | [] => []
  | act :: rest =>
      mount.actSightings backend act ++ sightings backend (mount.act backend act).1 rest

theorem sightings_append (backend : Backend σ τ) (mount : Mount σ τ) (first rest : List (Act σ)) :
    mount.sightings backend (first ++ rest) =
      mount.sightings backend first ++ (mount.run backend first).sightings backend rest := by
  induction first generalizing mount with
  | nil => rfl
  | cons act first ih => simp only [List.cons_append, sightings, run, ih, List.append_assoc]

end Mount

namespace Pool

variable {σ τ : Type} {pool next : Pool τ} {plans after : ReadId → Plan}

-- The outcomes that are known are those that have been seen.
def Records (pool : Pool τ) (seen : List (Sighting σ τ)) : Prop :=
  ∀ fetch outcome, pool.outcome? fetch = some outcome ↔
    ∃ sighting ∈ seen, sighting.wait.fetch = fetch ∧ sighting.outcome = outcome

theorem Records.of_outcome? {seen : List (Sighting σ τ)} (h : pool.Records seen)
    (ho : next.outcome? = pool.outcome?) : next.Records seen := by
  intro fetch outcome
  rw [ho]
  exact h fetch outcome

theorem Records.unseen_iff {seen : List (Sighting σ τ)} (h : pool.Records seen)
    (fetch : FetchId) :
    pool.outcome? fetch = none ↔ ∀ sighting ∈ seen, sighting.wait.fetch ≠ fetch := by
  rw [Option.eq_none_iff_forall_ne_some]
  constructor
  · intro hn sighting hm hf
    exact hn sighting.outcome ((h fetch _).mpr ⟨sighting, hm, hf, rfl⟩)
  · intro hn outcome ho
    obtain ⟨sighting, hm, hf, _⟩ := (h fetch outcome).mp ho
    exact hn sighting hm hf

-- A read has polled one fetch, which changes nothing of what the reads are made of.
theorem Polled.steps {read : LiveRead} {wait : Wait} {gone : ReadId → Prop}
    (h : pool.Polled next plans read wait) (hs : pool.Steady plans) :
    pool.Steps next plans plans gone where
  steady := ⟨h.sound, h.size ▸ hs.released⟩
  later := h.later
  same _ _ := rfl
  stays _ hm := .inl (h.leases ▸ hm)
  origin _ hm := .inl (h.leases ▸ hm)

end Pool

namespace Mount

variable {σ τ : Type} {mount : Mount σ τ}

theorem outcome?_drive (backend : Backend σ τ) {fetch : FetchId} {call : Call}
    (hc : mount.pool.call? fetch = some call) :
    (∀ other, (mount.drive backend fetch).1.pool.outcome? other =
      if other = fetch then (mount.drive backend fetch).2 else mount.pool.outcome? other) ∧
    ∀ outcome, mount.pool.outcome? fetch = some outcome →
      mount.drive backend fetch = (mount, some outcome) := by
  rcases drive_cases backend mount hc with ⟨outcome, ho, hd⟩ | ⟨ho, base, storage, hb, h⟩
  · refine ⟨fun other => ?_, fun found hf => ?_⟩
    · rw [hd]
      split
      · rename_i he
        rw [he, ho]
      · rfl
    · rw [hd, ← ho, hf]
  · refine ⟨fun other => ?_, fun found hf => nomatch ho.symm.trans hf⟩
    rcases h with ⟨rest, hd⟩ | ⟨answer, hd⟩ <;>
    · simp only [hd, Pool.outcome?_withPhase, hb.call?_eq, hb.outcome?_eq, eq_comm (a := fetch)]
      by_cases he : other = fetch
      · subst he
        simp [hc, Phase.outcome?]
      · simp [he]

theorem outcome?_pollWait (backend : Backend σ τ) (id : ReadId) (lease : Lease) {wait : Wait}
    {call : Call} (hc : mount.pool.call? wait.fetch = some call) (fetch : FetchId) :
    (pollWait backend id lease mount wait).pool.outcome? fetch =
      if fetch = wait.fetch then (mount.drive backend wait.fetch).2
      else mount.pool.outcome? fetch := by
  rw [← (outcome?_drive backend hc).1 fetch, Pool.outcome?, fetches_pollWait, Pool.outcome?]

-- What the read sees is all that becomes known.
theorem records_pollWait (backend : Backend σ τ) (id : ReadId) (lease : Lease) {wait : Wait}
    {call : Call} (hc : mount.pool.call? wait.fetch = some call)
    {seen : List (Sighting σ τ)} (h : mount.pool.Records seen) :
    (pollWait backend id lease mount wait).pool.Records
      (seen ++ mount.waitSightings backend id lease wait) := by
  obtain ⟨_, hknown⟩ := outcome?_drive backend hc
  intro fetch outcome
  rw [outcome?_pollWait backend id lease hc]
  simp only [waitSightings, List.mem_append, List.mem_map, Option.mem_toList]
  by_cases he : fetch = wait.fetch
  · subst he
    rw [if_pos rfl]
    constructor
    · intro ho
      exact ⟨_, .inr ⟨outcome, ho, rfl⟩, rfl, rfl⟩
    · rintro ⟨sighting, hm | ⟨found, hf, rfl⟩, hw, rfl⟩
      · have ho := (h wait.fetch _).mpr ⟨sighting, hm, hw, rfl⟩
        rw [hknown _ ho]
      · exact hf
  · rw [if_neg he, h fetch outcome]
    constructor
    · rintro ⟨sighting, hm, hw⟩
      exact ⟨sighting, .inl hm, hw⟩
    · rintro ⟨sighting, hm | ⟨found, _, rfl⟩, hw, ho⟩
      · exact ⟨sighting, hm, hw, ho⟩
      · exact absurd hw.symm he

end Mount

variable {σ τ : Type} {backend : Backend σ τ}

-- A read in progress that waits for the fetch sees its outcome, some time after the pool
-- was as it was. Until then those of the earlier sightings are known, and no others.
structure Sighting.Fits (backend : Backend σ τ) (pool : Pool τ) (plans : ReadId → Plan)
    (earlier : List (Sighting σ τ)) (sighting : Sighting σ τ) : Prop where
  ages : pool.Ages sighting.mount.pool
  reads : ∃ after, pool.Steps sighting.mount.pool plans after (fun _ => True) ∧
    ∃ read ∈ sighting.mount.pool.live, read.id = sighting.id ∧ read.lease = sighting.lease ∧
      sighting.wait ∈ read.waits
  outcome : (sighting.mount.drive backend sighting.wait.fetch).2 = some sighting.outcome
  records : sighting.mount.pool.Records earlier

-- Sightings that follow one another, after some earlier ones.
def Chronicle (backend : Backend σ τ) (pool : Pool τ) (plans : ReadId → Plan) :
    List (Sighting σ τ) → List (Sighting σ τ) → Prop
  | _, [] => True
  | earlier, sighting :: rest =>
      sighting.Fits backend pool plans earlier ∧
        Chronicle backend pool plans (earlier ++ [sighting]) rest

section Chronicle

variable {pool middle : Pool τ} {plans between : ReadId → Plan}
  {earlier first rest : List (Sighting σ τ)}

theorem chronicle_append : Chronicle backend pool plans earlier (first ++ rest) ↔
    Chronicle backend pool plans earlier first ∧
      Chronicle backend pool plans (earlier ++ first) rest := by
  induction first generalizing earlier with
  | nil => simp [Chronicle]
  | cons sighting first ih =>
      simp only [List.cons_append, Chronicle, ih, List.append_assoc, List.nil_append, and_assoc]

theorem Chronicle.fits {sighting : Sighting σ τ}
    (h : Chronicle backend pool plans earlier (first ++ sighting :: rest)) :
    sighting.Fits backend pool plans (earlier ++ first) :=
  (chronicle_append.mp h).2.1

theorem Chronicle.exists_fits (h : Chronicle backend pool plans earlier rest)
    {sighting : Sighting σ τ} (hm : sighting ∈ rest) :
    ∃ before, sighting.Fits backend pool plans before := by
  obtain ⟨first, last, rfl⟩ := List.append_of_mem hm
  exact ⟨_, h.fits⟩

theorem Chronicle.mono (h : Chronicle backend middle between earlier rest)
    (hs : pool.Steady plans) (hsteps : pool.Steps middle plans between fun _ => True)
    (hages : pool.Ages middle) : Chronicle backend pool plans earlier rest := by
  induction rest generalizing earlier with
  | nil => trivial
  | cons sighting rest ih =>
      obtain ⟨⟨hlater, ⟨after, hafter, hread⟩, houtcome, hrecords⟩, hrest⟩ := h
      exact ⟨⟨hages.trans hlater, ⟨after, hsteps.trans hs hafter, hread⟩, houtcome, hrecords⟩,
        ih hrest⟩

end Chronicle

namespace Mount

variable {mount : Mount σ τ} {plans : ReadId → Plan} {seen : List (Sighting σ τ)}

-- In a turn that is not lost the read sees what it sees when it polls the fetch.
theorem turn_cases (backend : Backend σ τ) (mount : Mount σ τ) (id : ReadId) (page : Nat) :
    (takeTurn backend id mount page = mount ∧ mount.turnSightings backend id page = []) ∨
    ∃ read, mount.pool.live? id = some read ∧ ∃ wait ∈ read.waits,
      takeTurn backend id mount page = pollWait backend id read.lease mount wait ∧
      mount.turnSightings backend id page = mount.waitSightings backend id read.lease wait := by
  unfold takeTurn turnSightings
  cases ha : mount.pool.awaited? id page with
  | none => exact .inl ⟨rfl, rfl⟩
  | some found =>
      obtain ⟨read, hl, hlease, hwait, _⟩ := exists_of_awaited? ha
      exact .inr ⟨read, hl, found.2, hwait, by rw [hlease], by rw [hlease]⟩

theorem chronicle_sweep (backend : Backend σ τ) (pages : List Nat) (hs : mount.pool.Steady plans)
    (id : ReadId) (h : mount.pool.Records seen) :
    Chronicle backend mount.pool plans seen (mount.sweepSightings backend id pages) ∧
    (pages.foldl (takeTurn backend id) mount).pool.Records
      (seen ++ mount.sweepSightings backend id pages) := by
  induction pages generalizing mount seen with
  | nil => exact ⟨trivial, by rwa [sweepSightings, List.append_nil]⟩
  | cons page rest ih =>
      rw [List.foldl_cons, sweepSightings]
      rcases turn_cases backend mount id page with ⟨ht, hnone⟩ | ⟨read, hl, wait, hmem, ht, hseen⟩
      · rw [ht, hnone]
        exact ih hs h
      obtain ⟨hr, rfl⟩ := hs.sound.leased.live?_eq_some_iff.mp hl
      have htracks := hs.sound.tracked read.id (hs.sound.leased.known read hr)
      have hreads := htracks.reading read hr rfl
      have hcall := htracks.calls wait.page wait.fetch (hreads.planned wait hmem)
      have hpolled := polled_pollWait backend hs.sound hr hmem
      have hsteps : mount.pool.Steps (pollWait backend read.id read.lease mount wait).pool plans
          plans fun _ => True := hpolled.steps hs
      have hages := (moves_pollWait backend read.id read.lease mount wait .prune).ages
      have hnow : Chronicle backend mount.pool plans seen
          (mount.waitSightings backend read.id read.lease wait) := by
        unfold waitSightings
        cases ho : (mount.drive backend wait.fetch).2 with
        | none => trivial
        | some outcome =>
            exact ⟨⟨.refl _, ⟨plans, .refl hs, read, hr, rfl, rfl, hmem⟩, ho, h⟩, trivial⟩
      obtain ⟨hlater, hrecords⟩ := ih hsteps.steady
        (records_pollWait backend read.id read.lease hcall h)
      rw [ht, hseen, ← List.append_assoc]
      exact ⟨chronicle_append.mpr ⟨hnow, hlater.mono hs hsteps hages⟩, hrecords⟩

theorem chronicle_poll (backend : Backend σ τ) (hs : mount.pool.Steady plans)
    (h : mount.pool.Records seen) (id : ReadId) (turns : Turns) :
    Chronicle backend mount.pool plans seen (mount.pollSightings backend id turns) ∧
    (mount.poll backend id turns).1.pool.Records
      (seen ++ mount.pollSightings backend id turns) := by
  unfold pollSightings poll
  cases hl : mount.pool.live? id with
  | none => exact ⟨trivial, by rwa [List.append_nil]⟩
  | some read =>
      obtain ⟨hsweep, hrecords⟩ :=
        chronicle_sweep backend (turns (read.waits.map (·.page))) hs id h
      refine ⟨hsweep, ?_⟩
      simp only
      split
      · exact hrecords.of_outcome? (Pool.outcome?_endRead ..)
      · exact hrecords

-- A read that starts sees what its first poll does.
theorem chronicle_read (backend : Backend σ τ) (hs : mount.pool.Steady plans)
    (h : mount.pool.Records seen) (file : FileId) (offset stop : Nat) (turns : Turns) :
    let started : Mount σ τ := { mount with pool := mount.pool.startRead file offset stop }
    let after := Function.update plans mount.pool.gatherings.size
      (mount.pool.plan file offset stop)
    started.pool.Steady after ∧
    Chronicle backend started.pool after seen
      (started.pollSightings backend mount.pool.gatherings.size turns) ∧
    (started.poll backend mount.pool.gatherings.size turns).1.pool.Records
      (seen ++ started.pollSightings backend mount.pool.gatherings.size turns) := by
  intro started after
  obtain ⟨_, _, houtcome, _⟩ := Pool.startRead_frame hs.sound file offset stop
  have hsteady : started.pool.Steady after := Pool.steady_startRead hs file offset stop
  have hrecords : started.pool.Records seen := h.of_outcome? houtcome
  exact ⟨hsteady, chronicle_poll backend hsteady hrecords _ turns⟩

theorem chronicle_act (backend : Backend σ τ) (hs : mount.pool.Steady plans)
    (h : mount.pool.Records seen) (act : Act σ) :
    Chronicle backend mount.pool plans seen (mount.actSightings backend act) ∧
    (mount.act backend act).1.pool.Records (seen ++ mount.actSightings backend act) := by
  -- what polls no fetch leaves the outcomes as they are
  have hquiet : ∀ next : Pool τ, next.outcome? = mount.pool.outcome? →
      next.Records (seen ++ []) := by
    intro next ho
    rw [List.append_nil]
    exact h.of_outcome? ho
  cases act with
  | change become => exact ⟨trivial, hquiet _ rfl⟩
  | ask op =>
      cases op with
      | read file offset length turns =>
          simp only [actSightings, Mount.act, step, Mount.read]
          split
          · exact ⟨trivial, hquiet _ rfl⟩
          · split
            · obtain ⟨_, hpoll, hrecords⟩ :=
                chronicle_read backend hs h file offset (offset + length) turns
              refine ⟨hpoll.mono hs (Pool.steps_startRead hs file offset _) ?_, hrecords⟩
              exact (Pool.moves_startRead mount.pool file offset length turns).ages
            · exact ⟨trivial, hquiet _ rfl⟩
      | poll id turns => exact chronicle_poll backend hs h id turns
      | _ =>
          refine ⟨trivial, hquiet _ (Pool.outcome?_of_fetches ?_)⟩
          exact fetches_step backend hs.sound.leased (by simp) (by simp)

theorem chronicle_run (backend : Backend σ τ) (acts : List (Act σ)) (hs : mount.pool.Steady plans)
    (h : mount.pool.Records seen) :
    Chronicle backend mount.pool plans seen (mount.sightings backend acts) ∧
    (mount.run backend acts).pool.Records (seen ++ mount.sightings backend acts) := by
  induction acts generalizing mount plans seen with
  | nil => exact ⟨trivial, by rwa [sightings, List.append_nil]⟩
  | cons act rest ih =>
      obtain ⟨hnow, hrecords⟩ := chronicle_act backend hs h act
      obtain ⟨after, hstep⟩ := exists_steps_act backend hs act
      obtain ⟨hlater, hrun⟩ := ih hstep.steady hrecords
      refine ⟨chronicle_append.mpr ⟨hnow, hlater.mono hs ?_ (ages_act backend mount act)⟩, ?_⟩
      · exact hstep.mono fun _ _ => trivial
      · rw [sightings, ← List.append_assoc]
        exact hrun

-- At first nothing is known, so that all there is to know has been seen.
theorem exists_chronicle (backend : Backend σ τ) (limits : Limits) (storage : σ)
    (acts : List (Act σ)) : ∃ plans, (create limits storage : Mount σ τ).pool.Steady plans ∧
      Chronicle backend (create limits storage).pool plans []
        (sightings backend (create limits storage) acts) ∧
      (run backend (create limits storage) acts).pool.Records
        (sightings backend (create limits storage) acts) := by
  have hcreate : (create limits storage : Mount σ τ).pool.Steady _ :=
    steady_create limits storage fun _ => ⟨0, 0, 0, [], 0⟩
  have hnothing : (create limits storage : Mount σ τ).pool.Records ([] : List (Sighting σ τ)) := by
    intro fetch outcome
    exact iff_of_false (fun ho => nomatch ho) fun ⟨_, hm, _⟩ => List.not_mem_nil hm
  exact ⟨_, hcreate, chronicle_run backend acts hcreate hnothing⟩

theorem id_of_sweepSightings {id : ReadId} {pages : List Nat} {sighting : Sighting σ τ}
    (h : sighting ∈ mount.sweepSightings backend id pages) : sighting.id = id := by
  induction pages generalizing mount with
  | nil => cases h
  | cons page rest ih =>
      rcases List.mem_append.mp h with h | h
      · rcases turn_cases backend mount id page with ⟨_, hnone⟩ | ⟨_, _, _, _, _, hseen⟩
        · rw [hnone] at h
          cases h
        · rw [hseen] at h
          obtain ⟨outcome, _, rfl⟩ := List.mem_map.mp h
          rfl
      · exact ih h

theorem id_of_pollSightings {id : ReadId} {turns : Turns} {sighting : Sighting σ τ}
    (h : sighting ∈ mount.pollSightings backend id turns) :
    sighting.id = id ∧ ∃ read, mount.pool.live? id = some read := by
  unfold pollSightings at h
  split at h
  · cases h
  · rename_i read hl
    exact ⟨id_of_sweepSightings h, read, hl⟩

theorem id_lt_of_actSightings (hs : mount.pool.Steady plans) {act : Act σ}
    {sighting : Sighting σ τ} (h : sighting ∈ mount.actSightings backend act) :
    sighting.id < (mount.act backend act).1.pool.gatherings.size := by
  obtain ⟨after, hstep⟩ := exists_steps_act backend hs act
  unfold actSightings at h
  split at h
  · rename_i file offset length turns
    split at h
    · cases h
    · rename_i hl
      split at h
      · rename_i hw
        -- the read is the one that starts, and it has the next number
        have hsize := (polls_read backend hs file (Nat.pos_of_ne_zero hl) hw turns).size
        obtain ⟨_, _, _, _, hstarted, _⟩ :=
          Pool.startRead_frame hs.sound file offset (offset + length)
        rw [(id_of_pollSightings h).1]
        exact (Nat.lt_succ_self _).trans_eq (hsize.trans hstarted).symm
      · cases h
  · obtain ⟨rfl, read, hl⟩ := id_of_pollSightings h
    obtain ⟨hr, hid⟩ := hs.sound.leased.live?_eq_some_iff.mp hl
    have hknown := hs.sound.leased.known read hr
    rw [hid] at hknown
    exact hknown.trans_le hstep.later.size
  · cases h

-- Nothing is seen by a read that has yet to start.
theorem id_lt_of_sightings {acts : List (Act σ)} (hs : mount.pool.Steady plans)
    {sighting : Sighting σ τ} (h : sighting ∈ mount.sightings backend acts) :
    sighting.id < (mount.run backend acts).pool.gatherings.size := by
  induction acts generalizing mount plans with
  | nil => cases h
  | cons act rest ih =>
      obtain ⟨after, hstep⟩ := exists_steps_act backend hs act
      rcases List.mem_append.mp h with h | h
      · obtain ⟨_, hrest⟩ := exists_steps_run backend rest hstep.steady
        exact (id_lt_of_actSightings hs h).trans_le hrest.later.size
      · exact ih hstep.steady h

-- What is seen from the start of a read on fits the pool in which it has looked up its pages.
theorem exists_fits_of_read (hs : mount.pool.Steady plans) (h : mount.pool.Records seen)
    {file : FileId} {offset length : Nat} {turns : Turns} (hl : 0 < length)
    (hw : offset + length < wordLimit) {rest : List (Act σ)} {sighting : Sighting σ τ}
    (hm : sighting ∈ mount.sightings backend (.ask (.read file offset length turns) :: rest)) :
    ∃ before, sighting.Fits backend (mount.pool.startRead file offset (offset + length))
      (Function.update plans mount.pool.gatherings.size
        (mount.pool.plan file offset (offset + length))) before := by
  obtain ⟨hsteady, hpoll, hrecords⟩ :=
    chronicle_read backend hs h file offset (offset + length) turns
  let started : Mount σ τ :=
    { mount with pool := mount.pool.startRead file offset (offset + length) }
  have hread : (mount.act backend (.ask (.read file offset length turns))).1 =
      (started.poll backend mount.pool.gatherings.size turns).1 := by
    simp only [Mount.act, step, Mount.read, Nat.ne_of_gt hl, hw, if_true, if_false, started]
  simp only [sightings, actSightings, Nat.ne_of_gt hl, hw, if_true, if_false, hread] at hm
  rcases List.mem_append.mp hm with hm | hm
  · exact hpoll.exists_fits hm
  · have hpolls := polls_read backend hs file hl hw turns
    have hdone : started.pool.Steps
        (started.poll backend mount.pool.gatherings.size turns).1.pool _ _ fun _ => True :=
      (hread ▸ hpolls.steps hsteady :)
    obtain ⟨hlater, _⟩ := chronicle_run backend rest hdone.steady hrecords
    exact (hlater.mono hsteady hdone (moves_poll backend _ _ turns .prune).ages).exists_fits hm

end Mount

end PageCache
