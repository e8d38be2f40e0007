import PageCache.Mount.Run
import PageCache.Proofs.Returning

namespace PageCache

namespace Pool

variable {τ : Type}

-- A step from one steady pool to another. What a read is made of stays the same, and so
-- does its place among the reads in progress until it has returned or is gone. Reads in
-- progress have kept the lease that they started with.
structure Steps (pool next : Pool τ) (plans after : ReadId → Plan) (gone : ReadId → Prop) :
    Prop where
  steady : next.Steady after
  later : pool.Later next
  same : ∀ id < pool.gatherings.size, after id = plans id
  stays : ∀ held ∈ pool.leases, held ∈ next.leases ∨ gone held.1 ∨
    ∀ fetch ∈ (plans held.1).fetches, next.outcome? fetch ≠ none
  origin : ∀ held ∈ next.leases, held ∈ pool.leases ∨ pool.gatherings.size ≤ held.1

theorem Leased.known_of_leases {pool : Pool τ} (h : pool.Leased) {held : ReadId × Lease}
    (hm : held ∈ pool.leases) : held.1 < pool.gatherings.size := by
  obtain ⟨read, hr, rfl⟩ := List.mem_map.mp hm
  exact h.known read hr

section Steps

variable {pool middle next : Pool τ} {plans between after : ReadId → Plan}
  {gone : ReadId → Prop}

theorem Steps.refl (h : pool.Steady plans) : pool.Steps pool plans plans gone :=
  ⟨h, .refl pool, fun _ _ => rfl, fun _ hm => .inl hm, fun _ hm => .inl hm⟩

theorem Steps.trans (h : pool.Steps middle plans between gone) (hs : pool.Steady plans)
    (hn : middle.Steps next between after gone) : pool.Steps next plans after gone where
  steady := hn.steady
  later := h.later.trans hn.later
  same id hid := (hn.same id (hid.trans_le h.later.size)).trans (h.same id hid)
  stays held hm := by
    have hknown := hs.sound.leased.known_of_leases hm
    rcases h.stays held hm with hm | hg | hd
    · rcases hn.stays held hm with hm | hg | hd
      · exact .inl hm
      · exact .inr (.inl hg)
      · rw [h.same held.1 hknown] at hd
        exact .inr (.inr hd)
    · exact .inr (.inl hg)
    · refine .inr (.inr fun fetch hf ho => ?_)
      obtain ⟨outcome, hsome⟩ := Option.ne_none_iff_exists'.mp (hd fetch hf)
      rw [hn.later.outcomes fetch outcome hsome] at ho
      cases ho
  origin held hm := by
    rcases hn.origin held hm with hm | hle
    · exact h.origin held hm
    · exact .inr (h.later.size.trans hle)

theorem Steps.mono (h : pool.Steps next plans after gone) {lost : ReadId → Prop}
    (hg : ∀ id, gone id → lost id) : pool.Steps next plans after lost where
  steady := h.steady
  later := h.later
  same := h.same
  stays held hm := (h.stays held hm).imp_right fun hs => hs.imp_left (hg held.1)
  origin := h.origin

theorem Steady.of_trims (hs : pool.Steady plans) (h : pool.Trims next) : next.Steady plans :=
  ⟨h.sound hs.sound, h.gatherings ▸ hs.released⟩

theorem Steps.of_trims (h : pool.Trims next) (hs : pool.Steady plans) :
    pool.Steps next plans plans gone where
  steady := hs.of_trims h
  later := h.later
  same _ _ := rfl
  stays _ hm := .inl (h.keeps.leases ▸ hm)
  origin _ hm := .inl (h.keeps.leases ▸ hm)

theorem steady_endRead (hs : pool.Steady plans) (id : ReadId) :
    (pool.endRead id).Steady plans := by
  refine ⟨sound_endRead hs.sound id, ?_⟩
  rw [(endRead_frame pool id).2.2.2.1]
  exact hs.released

theorem steps_endRead (hs : pool.Steady plans) (id : ReadId) (hg : gone id) :
    pool.Steps (pool.endRead id) plans plans gone where
  steady := steady_endRead hs id
  later := later_endRead pool id
  same _ _ := rfl
  stays held hm := by
    by_cases he : held.1 = id
    · exact .inr (.inl (he ▸ hg))
    · rw [leases_endRead]
      exact .inl (List.mem_filter.mpr ⟨hm, by simpa using he⟩)
  origin held hm := by
    rw [leases_endRead] at hm
    exact .inl (List.mem_of_mem_filter hm)

theorem steady_startRead (hs : pool.Steady plans) (file : FileId) (offset stop : Nat) :
    (pool.startRead file offset stop).Steady
      (Function.update plans pool.gatherings.size (pool.plan file offset stop)) := by
  refine ⟨sound_startRead hs.sound file offset stop, ?_⟩
  obtain ⟨_, _, _, _, hsize, _⟩ := startRead_frame hs.sound file offset stop
  rw [hsize]
  intro id hid
  rcases Nat.lt_succ_iff_lt_or_eq.mp hid with hlt | rfl
  · rw [Function.update_of_ne (Nat.ne_of_lt hlt)]
    exact hs.released id hlt
  · rw [Function.update_self]
    rfl

theorem steps_startRead (hs : pool.Steady plans) (file : FileId) (offset stop : Nat) :
    pool.Steps (pool.startRead file offset stop) plans
      (Function.update plans pool.gatherings.size (pool.plan file offset stop)) gone := by
  obtain ⟨hlimits, hcalls, houtcome, hfailures, hsize, hleases⟩ :=
    startRead_frame hs.sound file offset stop
  refine ⟨steady_startRead hs file offset stop, ⟨hlimits, hcalls, ?_, ?_, ?_⟩, ?_, ?_, ?_⟩
  · rw [houtcome]
    exact fun _ _ ho => ho
  · exact hfailures ▸ List.prefix_refl _
  · rw [hsize]
    exact Nat.le_succ _
  · intro id hid
    exact Function.update_of_ne (Nat.ne_of_lt hid) _ _
  · intro held hm
    rw [hleases]
    exact .inl (List.mem_append_left _ hm)
  · intro held hm
    rw [hleases] at hm
    refine (List.mem_append.mp hm).imp_right fun hm => ?_
    rw [List.mem_singleton.mp hm]

end Steps

end Pool

namespace Mount

variable {σ τ : Type} {mount polled : Mount σ τ} {plans : ReadId → Plan}

theorem Polls.steady {id : ReadId} {turns : Turns} {answer : Answer}
    (h : mount.Polls polled plans id turns answer) (hs : mount.pool.Steady plans) :
    polled.pool.Steady plans := by
  refine ⟨h.sound, ?_⟩
  rw [h.size]
  exact hs.released

theorem Polls.steps {id : ReadId} {turns : Turns} {answer : Answer} {gone : ReadId → Prop}
    (h : mount.Polls polled plans id turns answer) (hs : mount.pool.Steady plans) :
    mount.pool.Steps polled.pool plans plans gone where
  steady := h.steady hs
  later := h.later
  same _ _ := rfl
  stays held hm := by
    rcases h.answer with ⟨_, hl, _⟩ | ⟨_, hl, hd⟩
    · exact .inl (hl ▸ hm)
    · by_cases he : held.1 = id
      · exact .inr (.inr (he ▸ hd))
      · rw [hl]
        exact .inl (List.mem_filter.mpr ⟨hm, by simpa using he⟩)
  origin held hm := by
    rcases h.answer with ⟨_, hl, _⟩ | ⟨_, hl, _⟩
    · exact .inl (hl ▸ hm)
    · rw [hl] at hm
      exact .inl (List.mem_of_mem_filter hm)

-- A read that is started gets the plan that the pages of the moment tell.
theorem polls_read (backend : Backend σ τ) (hs : mount.pool.Steady plans) (file : FileId)
    {offset length : Nat} (hl : 0 < length) (hw : offset + length < wordLimit) (turns : Turns) :
    Polls { mount with pool := mount.pool.startRead file offset (offset + length) }
      (mount.read backend file offset length turns).1
      (Function.update plans mount.pool.gatherings.size
        (mount.pool.plan file offset (offset + length)))
      mount.pool.gatherings.size turns (mount.read backend file offset length turns).2 := by
  let started : Mount σ τ :=
    { mount with pool := mount.pool.startRead file offset (offset + length) }
  have hstarted : started.pool.Steady _ :=
    Pool.steady_startRead hs file offset (offset + length)
  obtain ⟨_, _, _, _, _, hleases⟩ := Pool.startRead_frame hs.sound file offset (offset + length)
  have hnew : (mount.pool.gatherings.size, ⟨file, (mount.pool.resident file).serial⟩) ∈
      started.pool.leases := by
    rw [hleases]
    exact List.mem_append_right _ (List.mem_singleton_self _)
  obtain ⟨read, hr, he⟩ := List.mem_map.mp hnew
  have hid : read.id = mount.pool.gatherings.size := congrArg Prod.fst he
  have hpolls := polls_poll backend hstarted hr turns
  rw [hid] at hpolls
  unfold Mount.read
  rw [if_neg (Nat.ne_of_gt hl), if_pos hw]
  exact hpolls

-- An operation that polls no fetch leaves them all as they are.
theorem fetches_step (backend : Backend σ τ) (hl : mount.pool.Leased) {op : Op}
    (hr : ∀ file offset length turns, op ≠ .read file offset length turns)
    (hp : ∀ id turns, op ≠ .poll id turns) :
    (mount.step backend op).1.pool.fetches = mount.pool.fetches := by
  cases op with
  | read file offset length turns => exact absurd rfl (hr file offset length turns)
  | poll id turns => exact absurd rfl (hp id turns)
  | drop id => exact (Pool.endRead_frame mount.pool id).2.1
  | invalidate file => exact (Pool.trims_invalidate mount.pool file).fetches
  | revalidate file attributes => exact (Pool.trims_revalidate mount.pool file attributes).fetches
  | release file => exact (Pool.trims_release hl file).fetches
  | prune => exact (Pool.trims_evict hl).fetches

theorem exists_steps_step (backend : Backend σ τ) (hs : mount.pool.Steady plans) (op : Op) :
    ∃ after, mount.pool.Steps (mount.step backend op).1.pool plans after
      fun id => op = .drop id := by
  cases op with
  | read file offset length turns =>
      by_cases hl : length = 0
      · refine ⟨plans, ?_⟩
        simp only [step, read, hl, if_true]
        exact .refl hs
      · by_cases hw : offset + length < wordLimit
        · have hpolls := polls_read backend hs file (Nat.pos_of_ne_zero hl) hw turns
          have hstarted := Pool.steady_startRead hs file offset (offset + length)
          exact ⟨_, (Pool.steps_startRead hs file offset _).trans hs (hpolls.steps hstarted)⟩
        · refine ⟨plans, ?_⟩
          simp only [step, read, hl, hw, if_false]
          exact .refl hs
  | poll id turns =>
      refine ⟨plans, ?_⟩
      cases hl : mount.pool.live? id with
      | none =>
          simp only [step, poll, hl]
          exact .refl hs
      | some read =>
          obtain ⟨hr, rfl⟩ := hs.sound.leased.live?_eq_some_iff.mp hl
          exact (polls_poll backend hs hr turns).steps hs
  | drop id => exact ⟨plans, Pool.steps_endRead hs id rfl⟩
  | invalidate file => exact ⟨plans, .of_trims (Pool.trims_invalidate _ file) hs⟩
  | revalidate file attributes =>
      exact ⟨plans, .of_trims (Pool.trims_revalidate _ file attributes) hs⟩
  | release file => exact ⟨plans, .of_trims (Pool.trims_release hs.sound.leased file) hs⟩
  | prune => exact ⟨plans, .of_trims (Pool.trims_evict hs.sound.leased) hs⟩

theorem exists_steps_act (backend : Backend σ τ) (hs : mount.pool.Steady plans) (act : Act σ) :
    ∃ after, mount.pool.Steps (mount.act backend act).1.pool plans after
      fun id => act = .ask (.drop id) := by
  cases act with
  | change become => exact ⟨plans, .refl hs⟩
  | ask op =>
      obtain ⟨after, hstep⟩ := exists_steps_step backend hs op
      exact ⟨after, hstep.mono fun _ hd => congrArg Act.ask hd⟩

-- What holds of the reads once holds of them for good, but for those that are dropped.
theorem exists_steps_run (backend : Backend σ τ) (acts : List (Act σ))
    (hs : mount.pool.Steady plans) :
    ∃ after, mount.pool.Steps (mount.run backend acts).pool plans after
      fun id => .ask (.drop id) ∈ acts := by
  induction acts generalizing mount plans with
  | nil => exact ⟨plans, .refl hs⟩
  | cons act rest ih =>
      obtain ⟨middle, hstep⟩ := exists_steps_act backend hs act
      obtain ⟨after, hrest⟩ := ih hstep.steady
      have hfirst : mount.pool.Steps (mount.act backend act).1.pool plans middle
          fun id => .ask (.drop id) ∈ act :: rest :=
        hstep.mono fun id ha => ha ▸ List.mem_cons_self
      exact ⟨after, hfirst.trans hs (hrest.mono fun id hm => List.mem_cons_of_mem act hm)⟩

theorem steady_create (limits : Limits) (storage : σ) (plans : ReadId → Plan) :
    (create limits storage : Mount σ τ).pool.Steady plans := by
  let pool : Pool τ := { limits := limits }
  have hfile : ∀ file, pool.files.find? file = none := fun _ => rfl
  have hpage : ∀ file page, pool.pageAt? file page = none := fun _ _ => rfl
  have houtcome : ∀ fetch, pool.outcome? fetch = none := fun _ => rfl
  refine ⟨⟨⟨LruMap.Ordered.empty, ?_⟩, ⟨List.nodup_nil, ?_, ?_, ?_⟩, ⟨?_, ?_, ?_, ?_⟩, ?_, ?_⟩, ?_⟩
  · intro file cached hf
    cases hfile file ▸ hf
  · exact fun _ hr => (List.not_mem_nil hr).elim
  · exact fun _ hr => (List.not_mem_nil hr).elim
  · intro file cached hf
    cases hfile file ▸ hf
  · intro file page fetch waiters hp
    cases hpage file page ▸ hp
  · intro file page fetch data hp
    cases hpage file page ▸ hp
  · intro fetch error
    exact iff_of_false List.not_mem_nil fun he => nomatch (houtcome fetch).symm.trans he
  · intro fetch data attributes ho
    cases houtcome fetch ▸ ho
  · intro file page fetch waiters hp
    cases hpage file page ▸ hp
  · exact fun _ hid => (Nat.not_lt_zero _ hid).elim
  · exact fun _ hid => (Nat.not_lt_zero _ hid).elim

-- Whatever has been asked of it, a mount is sound and its reads stick to some plans.
theorem exists_steady (backend : Backend σ τ) (limits : Limits) (storage : σ)
    (acts : List (Act σ)) :
    ∃ plans, (run backend (create limits storage) acts).pool.Steady plans ∧
      (run backend (create limits storage) acts).pool.limits = limits := by
  obtain ⟨plans, hsteady, hlater, _⟩ := exists_steps_run backend acts
    (steady_create limits storage fun _ => ⟨0, 0, 0, [], 0⟩)
  exact ⟨plans, hsteady, hlater.limits⟩

end Mount

end PageCache
