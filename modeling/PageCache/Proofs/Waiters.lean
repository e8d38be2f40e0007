import PageCache.Proofs.Deliveries
import PageCache.Proofs.ReadOutcome

namespace PageCache

namespace Pool

variable {τ : Type}

def pagesOf (pool : Pool τ) (file : FileId) : List Nat :=
  match pool.files.find? file with
  | none => []
  | some cached => cached.pages.keys

-- The pages that list a read among those that wait for them, as file and page.
def waitedPages (pool : Pool τ) (id : ReadId) : List (FileId × Nat) :=
  pool.files.keys.flatMap fun file =>
    ((pool.pagesOf file).filter fun page =>
      (pool.pageAt? file page).any fun found => decide (id ∈ found.waiters)).map (file, ·)

theorem Ordered.nodup_pagesOf {pool : Pool τ} (h : pool.Ordered) (file : FileId) :
    (pool.pagesOf file).Nodup := by
  unfold pagesOf
  split
  · exact List.nodup_nil
  · rename_i cached hf
    exact (h.pages file cached hf).nodup_keys

theorem Ordered.mem_pagesOf {pool : Pool τ} (h : pool.Ordered) {file : FileId} {page : Nat} :
    page ∈ pool.pagesOf file ↔ (pool.pageAt? file page).isSome := by
  unfold pagesOf pageAt?
  cases hf : pool.files.find? file with
  | none => simp
  | some cached =>
      rw [Option.bind_some, Option.isSome_iff_exists]
      exact (h.pages file cached hf).mem_keys

theorem Ordered.mem_waitedPages {pool : Pool τ} (h : pool.Ordered) {id : ReadId} {file : FileId}
    {page : Nat} :
    (file, page) ∈ pool.waitedPages id ↔
      ∃ fetch waiters, pool.pageAt? file page = some (.fetching fetch waiters) ∧ id ∈ waiters := by
  rw [waitedPages, List.mem_flatMap]
  constructor
  · rintro ⟨key, _, hm⟩
    obtain ⟨name, hm, he⟩ := List.mem_map.mp hm
    cases he
    obtain ⟨found, hp, hid⟩ := (Option.any_eq_true _ _).mp (List.mem_filter.mp hm).2
    cases found with
    | fetching fetch waiters => exact ⟨fetch, waiters, hp, of_decide_eq_true hid⟩
    | loaded fetch data => cases of_decide_eq_true hid
  · rintro ⟨fetch, waiters, hp, hid⟩
    obtain ⟨cached, hf, _⟩ := Option.bind_eq_some_iff.mp hp
    refine ⟨file, h.files.mem_keys.mpr ⟨cached, hf⟩, List.mem_map.mpr ⟨page, ?_, rfl⟩⟩
    refine List.mem_filter.mpr ⟨h.mem_pagesOf.mpr (hp ▸ rfl), ?_⟩
    rw [hp]
    exact decide_eq_true hid

theorem Ordered.nodup_waitedPages {pool : Pool τ} (h : pool.Ordered) (id : ReadId) :
    (pool.waitedPages id).Nodup := by
  rw [waitedPages, List.nodup_flatMap]
  refine ⟨fun file _ => ?_, h.files.nodup_keys.imp fun hne => ?_⟩
  · exact ((h.nodup_pagesOf file).filter _).map fun _ _ he => congrArg Prod.snd he
  · intro place hm ho
    obtain ⟨_, _, rfl⟩ := List.mem_map.mp hm
    obtain ⟨_, _, he⟩ := List.mem_map.mp ho
    exact hne (congrArg Prod.fst he).symm

-- What a read still waits for is what lists it.
theorem Steady.awaited {pool : Pool τ} {plans : ReadId → Plan} (h : pool.Steady plans)
    {read : LiveRead} (hr : read ∈ pool.live) :
    ∃ gathering, pool.gatherings[read.id]? = some gathering ∧
      gathering.awaited = (pool.waitedPages read.id).length := by
  have hid := h.sound.leased.known read hr
  have ht := h.sound.tracked read.id hid
  have hreads := ht.reading read hr rfl
  refine ⟨_, ht.gathering, ?_⟩
  have hawaited : ((plans read.id).gathering pool.outcome? pool.failures).awaited =
      (plans read.id).parts.countP (·.isPending pool.outcome?) := by
    rw [Plan.gathering, Gathering.close]
    split <;> simp [Plan.opened, h.released read.id hid]
  rw [hawaited, List.countP_eq_length_filter]
  let places := ((plans read.id).parts.filter (·.isPending pool.outcome?)).map
    fun part => ((plans read.id).file, part.page)
  have hplaces : places.Nodup := by
    refine List.pairwise_map.mpr ((ht.spaced.filter _).imp fun hlt he => ?_)
    exact Nat.ne_of_lt hlt.1 (congrArg Prod.snd he)
  have hperm : places.Perm (pool.waitedPages read.id) := by
    rw [List.perm_ext_iff_of_nodup hplaces (h.sound.ordered.nodup_waitedPages read.id)]
    rintro ⟨file, page⟩
    rw [h.sound.ordered.mem_waitedPages]
    constructor
    · intro hm
      obtain ⟨⟨name, source⟩, hfiltered, he⟩ := List.mem_map.mp hm
      cases he
      obtain ⟨hpart, hpending⟩ := List.mem_filter.mp hfiltered
      cases source with
      | held data => cases hpending
      | fetch fetch =>
          have ho : pool.outcome? fetch = none := Option.isNone_iff_eq_none.mp hpending
          obtain ⟨waiters, hp, hw⟩ := hreads.waiting ht hpart ho
          exact ⟨fetch, waiters, hp, hw⟩
    · rintro ⟨fetch, waiters, hp, hw⟩
      obtain ⟨rfl, hpart⟩ := (ht.waiting file page fetch waiters hp).mp hw
      refine List.mem_map.mpr ⟨_, List.mem_filter.mpr ⟨hpart, ?_⟩, rfl⟩
      simp [(h.sound.backed.fetching _ _ _ _ hp).2]
  simpa [places] using hperm.length_eq

-- The fetches that a read in progress has yet to see are those of its plan, as far as
-- they are incomplete.
theorem Reads.incomplete_iff {pool next : Pool τ} {read : LiveRead} {plan : Plan}
    (h : pool.Reads read plan) (hl : pool.Later next) :
    (∃ wait ∈ read.waits, next.outcome? wait.fetch = none) ↔
      ∃ fetch ∈ plan.fetches, next.outcome? fetch = none := by
  constructor
  · rintro ⟨wait, hw, ho⟩
    exact ⟨wait.fetch, Plan.mem_fetches.mpr ⟨wait.page, h.planned wait hw⟩, ho⟩
  · rintro ⟨fetch, hf, ho⟩
    obtain ⟨page, hpart⟩ := Plan.mem_fetches.mp hf
    refine ⟨⟨page, fetch⟩, (h.unseen page fetch hpart ?_).1, ho⟩
    cases hb : pool.outcome? fetch with
    | none => rfl
    | some outcome =>
        rw [hl.outcomes fetch outcome hb] at ho
        cases ho

end Pool

-- A fetch can fail by itself, when it is answered with more than a page. All other errors are
-- those of the answer.
theorem Call.answer_of_failed {call : Call} {answer : Except Error Fetched} {error : Error}
    (h : call.outcome answer = .error error)
    (hm : ∀ requested received, error ≠ .malformedRead requested received) :
    answer = .error error := by
  cases answer with
  | error cause =>
      cases h
      rfl
  | ok fetched =>
      simp only [outcome, Except.bind, Fetched.toPage] at h
      split at h
      · cases h
      · cases h
        exact absurd rfl (hm _ _)

theorem Call.outcome_eq_canceled {call : Call} {answer : Except Error Fetched}
    (h : call.outcome answer = .error .canceled) : answer = .error .canceled :=
  answer_of_failed h fun _ _ he => nomatch he

namespace Mount

variable {σ τ : Type}

-- A read is canceled only if one of its fetches was.
theorem Polls.exists_canceled {mount polled : Mount σ τ} {plans : ReadId → Plan} {id : ReadId}
    {turns : Turns} (h : mount.Polls polled plans id turns (.returned (.error .canceled))) :
    ∃ fetch ∈ (plans id).fetches, polled.pool.outcome? fetch = some (.error .canceled) := by
  have hresult := h.returned.1
  rw [Plan.outcome_eq] at hresult
  split at hresult
  · rename_i error he
    cases hresult
    exact h.sound.backed.exists_failed he
  · cases hresult

-- A read waits on while a fetch of it is incomplete, and no longer if all have had a turn.
theorem Polls.pending_of_incomplete {mount polled : Mount σ τ} {plans : ReadId → Plan}
    {id : ReadId} {turns : Turns} {answer : Answer} (h : mount.Polls polled plans id turns answer)
    (hi : ∃ fetch ∈ (plans id).fetches, polled.pool.outcome? fetch = none) :
    answer = .pending id := by
  rcases h.answer with ⟨he, _, _⟩ | ⟨_, _, hdone⟩
  · exact he
  · obtain ⟨fetch, hf, ho⟩ := hi
    exact absurd ho (hdone fetch hf)

theorem Polls.incomplete_of_pending {mount polled : Mount σ τ} {plans : ReadId → Plan}
    {id : ReadId} {turns : Turns} {answer : Answer} (h : mount.Polls polled plans id turns answer)
    (ht : turns.Thorough) (hp : answer = .pending id) :
    ∃ fetch ∈ (plans id).fetches, polled.pool.outcome? fetch = none := by
  rcases h.answer with ⟨_, _, hincomplete⟩ | ⟨he, _, _⟩
  · exact hincomplete ht
  · cases he.symm.trans hp

-- A result comes from a read of nothing, from one past the last offset, or from a poll.
theorem act_returned_cases (backend : Backend σ τ) {mount : Mount σ τ} {plans : ReadId → Plan}
    (hs : mount.pool.Steady plans) {act : Act σ} {result : Except Error Reply}
    (h : (mount.act backend act).2 = some (.returned result)) :
    result = .ok {} ∨ result = .error .offsetOverflow ∨
      ∃ (start : Mount σ τ) (after : ReadId → Plan) (id : ReadId) (turns : Turns),
        start.Polls (mount.act backend act).1 after id turns (.returned result) := by
  cases act with
  | change become => cases h
  | ask op =>
      replace h := Option.some.inj h
      cases op with
      | read file offset length turns =>
          by_cases hl : length = 0
          · simp only [step, read, hl, if_true] at h
            cases h
            exact .inl rfl
          · by_cases hw : offset + length < wordLimit
            · have hpolls := polls_read backend hs file (Nat.pos_of_ne_zero hl) hw turns
              exact .inr (.inr ⟨_, _, _, turns, h ▸ hpolls⟩)
            · simp only [step, read, hl, hw, if_false] at h
              cases h
              exact .inr (.inl rfl)
      | poll id turns =>
          cases hl : mount.pool.live? id with
          | none =>
              simp only [step, poll, hl] at h
              cases h
          | some read =>
              obtain ⟨hr, rfl⟩ := hs.sound.leased.live?_eq_some_iff.mp hl
              exact .inr (.inr ⟨_, _, _, turns, h ▸ polls_poll backend hs hr turns⟩)
      | drop | invalidate | revalidate | release | prune => cases h

-- A read in progress is listed once by each page that it waits for, and waits for
-- nothing else. A poll leaves it pending while a fetch of it is left to wait for. If none
-- is, then the read returns as soon as each of them has had a turn, with the one result that
-- it was ever given. No read is canceled but by storage.
theorem waits_of_read (backend : Backend σ τ) (limits : Limits) (storage : σ)
    (acts : List (Act σ)) {read : LiveRead}
    (hr : read ∈ (run backend (create limits storage) acts).pool.live) (turns : Turns) :
    let mount := run backend (create limits storage) acts
    let polled := mount.poll backend read.id turns
    (∃ gathering, mount.pool.gatherings[read.id]? = some gathering ∧
      gathering.awaited = (mount.pool.waitedPages read.id).length) ∧
    (∀ file page fetch waiters,
      mount.pool.pageAt? file page = some (.fetching fetch waiters) → read.id ∈ waiters →
      waiters.count read.id = 1) ∧
    (∀ wait ∈ read.waits, mount.pool.outcome? wait.fetch = none → ∃ waiters,
      mount.pool.page? read.lease wait.page = some (.fetching wait.fetch waiters) ∧
      read.id ∈ waiters) ∧
    ((∃ wait ∈ read.waits, polled.1.pool.outcome? wait.fetch = none) →
      polled.2 = .pending read.id) ∧
    (turns.Thorough → (polled.2 = .pending read.id ↔
      ∃ wait ∈ read.waits, polled.1.pool.outcome? wait.fetch = none)) ∧
    (polled.2 ≠ .pending read.id → ∃ result, polled.2 = .returned result ∧
      deliveries backend (create limits storage) read.id (acts ++ [.ask (.poll read.id turns)]) =
        [result]) ∧
    ∀ act, (mount.act backend act).2 = some (.returned (.error .canceled)) → ∃ fetch call,
      (mount.act backend act).1.pool.call? fetch = some call ∧
      (mount.act backend act).1.pool.outcome? fetch = some (.error .canceled) ∧
      backend.Gives call (.error .canceled) := by
  intro mount polled
  obtain ⟨plans, hs, hlimits⟩ := exists_steady backend limits storage acts
  have hid := hs.sound.leased.known read hr
  have ht := hs.sound.tracked read.id hid
  have hreads := ht.reading read hr rfl
  have hpolls := polls_poll backend hs hr turns
  have hsteady := (hpolls.steps hs : Pool.Steps _ _ _ _ fun _ => False).steady
  refine ⟨hs.awaited hr, ?_, ?_, ?_, fun ht => ?_, ?_, ?_⟩
  · intro file page fetch waiters hp hw
    have hn : waiters.Nodup := (hs.sound.waiters file page fetch waiters hp).1.imp Nat.ne_of_lt
    exact List.count_eq_one_of_mem hn hw
  · intro wait hw ho
    obtain ⟨waiters, hp, hm⟩ := hreads.waiting ht (hreads.planned wait hw) ho
    rw [← hreads.file] at hp
    exact ⟨waiters, (hs.sound.leased.page?_eq hr wait.page).trans hp, hm⟩
  · rw [hreads.incomplete_iff hpolls.later]
    exact hpolls.pending_of_incomplete
  · rw [hreads.incomplete_iff hpolls.later]
    exact ⟨hpolls.incomplete_of_pending ht, hpolls.pending_of_incomplete⟩
  · intro hn
    rcases hpolls.answer with ⟨he, _⟩ | ⟨he, _, hdone⟩
    · exact absurd he hn
    · refine ⟨_, he, ?_⟩
      have hdelivered := (hsteady.delivered?_eq_some_iff (hpolls.size ▸ hid)).mpr ⟨hdone, rfl⟩
      have hnone : (create limits storage : Mount σ τ).pool.delivered? read.id = none := rfl
      rw [deliveries_eq backend _ (steady_create limits storage plans), run_append, hnone]
      exact congrArg Option.toList hdelivered
  · intro act hc
    rcases act_returned_cases backend hs hc with he | he | ⟨_, _, _, _, hreturned⟩
    · cases he
    · cases he
    obtain ⟨fetch, _, ho⟩ := hreturned.exists_canceled
    have hknown : (mount.act backend act).1.pool.call? fetch ≠ none := by
      intro hn
      rw [Pool.outcome?_eq_none_of_call? hn] at ho
      cases ho
    obtain ⟨call, hcall⟩ := Option.ne_none_iff_exists'.mp hknown
    have hany := backend.allows_givesAnything limits.Asks
    have hserved : mount.Served (backend.givesAnything limits.Asks) :=
      served_run _ trivial fun act _ => hany act
    obtain ⟨_, answer, hgives, hanswer⟩ := (hserved.act hlimits hs (hany act)).outcome hcall ho
    rw [Call.outcome_eq_canceled hanswer.symm] at hgives
    exact ⟨fetch, call, hcall, ho, hgives⟩

theorem waits_of_gated_read :
    gatedRead ∈ (gatedRun untilReleased).pool.live ∧
    (∃ gathering, (gatedRun untilReleased).pool.gatherings[0]? = some gathering ∧
      gathering.awaited = ((gatedRun untilReleased).pool.waitedPages 0).length) ∧
    (∃ waiters, (gatedRun untilReleased).pool.page? ⟨0, 0⟩ 4 = some (.fetching 1 waiters) ∧
      0 ∈ waiters) ∧
    (((gatedRun untilReleased).poll Memory.backend 0 .all).2 = .pending 0 ↔
      ∃ wait ∈ gatedRead.waits, ((gatedRun untilReleased).poll Memory.backend 0
        .all).1.pool.outcome? wait.fetch = none) ∧
    deliveries Memory.backend (create fourByteLimits gatedStorage) 0
      (.ask (.read 0 1 8 .all) :: untilReleased ++ [.ask (.poll 0 .all)]) =
        [.ok ⟨[⟨1, [2, 3, 4]⟩, ⟨4, [5, 6, 7, 8]⟩, ⟨8, [9]⟩]⟩] := by
  have hr : gatedRead ∈ (gatedRun untilReleased).pool.live := by decide
  have hwaits := waits_of_read Memory.backend fourByteLimits gatedStorage
    (.ask (.read 0 1 8 .all) :: untilReleased) hr .all
  have hpage := hwaits.2.2.1 ⟨4, 1⟩ List.mem_cons_self rfl
  have hpolled : ((gatedRun untilReleased).poll Memory.backend 0 .all).2 =
      .returned (.ok ⟨[⟨1, [2, 3, 4]⟩, ⟨4, [5, 6, 7, 8]⟩, ⟨8, [9]⟩]⟩) := rfl
  have hpending := hwaits.2.2.2.2.1 Turns.prompt_all.thorough
  obtain ⟨result, he, hd⟩ := hwaits.2.2.2.2.2.1 fun hp => nomatch hpolled.symm.trans hp
  rw [← Answer.returned.inj (hpolled.symm.trans he)] at hd
  exact ⟨hr, hwaits.1, hpage, hpending, hd⟩

end Mount

end PageCache
