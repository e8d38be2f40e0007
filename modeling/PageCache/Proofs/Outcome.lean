import PageCache.Proofs.Assembly
import PageCache.Proofs.Contract

namespace PageCache

namespace Plan

-- The pages of the read that have come, each with its bytes.
def pages (plan : Plan) (outcomes : FetchId → Option Outcome) : List (Nat × Bytes) :=
  plan.parts.filterMap fun part => (part.data? outcomes).map fun data => (part.page, data)

theorem segments_eq_overlaps (plan : Plan) (outcomes : FetchId → Option Outcome) :
    plan.segments outcomes = Gathering.overlaps plan.offset plan.stop (plan.pages outcomes) := by
  simp only [segments, Gathering.overlaps, pages, List.filterMap_filterMap]
  congr 1
  funext part
  cases part.data? outcomes <;> rfl

theorem map_fst_pages {plan : Plan} {outcomes : FetchId → Option Outcome}
    (h : ∀ part ∈ plan.parts, (part.data? outcomes).isSome) :
    (plan.pages outcomes).map (·.1) = plan.parts.map (·.page) := by
  obtain ⟨file, offset, stop, parts, hold⟩ := plan
  simp only [pages] at h ⊢
  induction parts with
  | nil => rfl
  | cons part rest ih =>
      rw [List.forall_mem_cons] at h
      obtain ⟨data, hdata⟩ := Option.isSome_iff_exists.mp h.1
      rw [List.filterMap_cons_some (by rw [hdata]; rfl), List.map_cons, List.map_cons, ih h.2]

theorem outcome_eq (plan : Plan) (outcomes : FetchId → Option Outcome)
    (failures : List (FetchId × Error)) :
    plan.outcome outcomes failures =
      match plan.failure? failures with
      | some error => .error error
      | none => .ok ⟨Gathering.contiguous plan.offset (plan.segments outcomes)⟩ := by
  simp only [outcome, opened, Gathering.outcome, Gathering.reply]
  cases plan.failure? failures <;> rfl

theorem failure?_eq_none_iff {plan : Plan} {failures : List (FetchId × Error)} :
    plan.failure? failures = none ↔ ∀ failure ∈ failures, failure.1 ∉ plan.fetches := by
  simp [failure?, List.find?_eq_none]

end Plan

-- The error of a read is that of one of its fetches.
theorem Pool.Backed.exists_failed {τ : Type} {pool : Pool τ} (h : pool.Backed) {plan : Plan}
    {error : Error} (he : plan.failure? pool.failures = some error) :
    ∃ fetch ∈ plan.fetches, pool.outcome? fetch = some (.error error) := by
  obtain ⟨⟨fetch, cause⟩, hfind, rfl⟩ := Option.map_eq_some_iff.mp he
  exact ⟨fetch, by simpa using List.find?_some hfind,
    (h.failed fetch cause).mp (List.mem_of_find?_eq_some hfind)⟩

namespace Mount

variable {σ τ : Type} {backend : Backend σ τ} {mount final : Mount σ τ} {plans : ReadId → Plan}

-- A read is started and returns, be it at once or when it is polled after some acts. It is
-- polled in any turns.
def Returns (backend : Backend σ τ) (mount : Mount σ τ) (file : FileId) (offset length : Nat)
    (acts : List (Act σ)) (result : Except Error Reply) (final : Mount σ τ) : Prop :=
  ∃ turns, acts = [] ∧ mount.read backend file offset length turns = (final, .returned result) ∨
    ∃ id last, (mount.read backend file offset length turns).2 = .pending id ∧
      ((mount.read backend file offset length turns).1.run backend acts).poll backend id last =
        (final, .returned result)

-- What a poll returns is what the plan of the read comes to.
theorem polls_of_returned (hs : mount.pool.Steady plans) {id : ReadId} {turns : Turns}
    {result : Except Error Reply} (h : mount.poll backend id turns = (final, .returned result)) :
    mount.Polls final plans id turns (.returned result) ∧ id < mount.pool.gatherings.size := by
  cases hl : mount.pool.live? id with
  | none =>
      simp only [poll, hl] at h
      cases h
  | some read =>
      obtain ⟨hr, rfl⟩ := hs.sound.leased.live?_eq_some_iff.mp hl
      have hpolls := polls_poll backend hs hr turns
      rw [h] at hpolls
      exact ⟨hpolls, hs.sound.leased.known read hr⟩

theorem Polls.returned {polled : Mount σ τ} {id : ReadId} {turns : Turns}
    {result : Except Error Reply} (h : mount.Polls polled plans id turns (.returned result)) :
    result = (plans id).outcome polled.pool.outcome? polled.pool.failures ∧
      ∀ fetch ∈ (plans id).fetches, polled.pool.outcome? fetch ≠ none := by
  rcases h.answer with ⟨he, _⟩ | ⟨he, _, hd⟩
  · cases he
  · cases he
    exact ⟨rfl, hd⟩

section Returns

variable {file : FileId} {offset length : Nat} {acts : List (Act σ)}
  {result : Except Error Reply}

-- A read that has returned has stuck to the plan of its start.
theorem Returns.kept (h : Returns backend mount file offset length acts result final)
    (hs : mount.pool.Steady plans) (hl : 0 < length) (hw : offset + length < wordLimit) :
    let plan := mount.pool.plan file offset (offset + length)
    mount.pool.Later final.pool ∧
    (∃ after, final.pool.Steady after) ∧
    final.pool.Tracks mount.pool.gatherings.size plan ∧
    (∀ fetch ∈ plan.fetches, final.pool.outcome? fetch ≠ none) ∧
    result = plan.outcome final.pool.outcome? final.pool.failures := by
  intro plan
  obtain ⟨turns, h⟩ := h
  have hpolls := polls_read backend hs file hl hw turns
  have hstarted := Pool.steady_startRead hs file offset (offset + length)
  have hstep : mount.pool.Steps (mount.read backend file offset length turns).1.pool plans _
      fun _ => False := (Pool.steps_startRead hs file offset _).trans hs (hpolls.steps hstarted)
  have hnew : mount.pool.gatherings.size <
      (mount.read backend file offset length turns).1.pool.gatherings.size := by
    obtain ⟨_, _, _, _, hsize, _⟩ := Pool.startRead_frame hs.sound file offset (offset + length)
    rw [hpolls.size, hsize]
    exact Nat.lt_succ_self _
  rcases h with ⟨_, hread⟩ | ⟨id, last, hpending, hpoll⟩
  · rw [hread] at hpolls hstep hnew
    obtain ⟨hresult, hdone⟩ := hpolls.returned
    have htracks := hpolls.sound.tracked _ hnew
    rw [Function.update_self] at hresult hdone htracks
    exact ⟨hstep.later, ⟨_, hstep.steady⟩, htracks, hdone, hresult⟩
  · have hid : id = mount.pool.gatherings.size := by
      rcases hpolls.answer with ⟨he, _⟩ | ⟨he, _⟩
      · rw [hpending, Answer.pending.injEq] at he
        exact he
      · rw [hpending] at he
        cases he
    subst hid
    obtain ⟨after, hsteady, hlater, hsame, _⟩ := exists_steps_run backend acts hstep.steady
    obtain ⟨hreturned, hknown⟩ := polls_of_returned hsteady hpoll
    have hplan := hsame _ hnew
    rw [Function.update_self] at hplan
    obtain ⟨hresult, hdone⟩ := hreturned.returned
    have htracks := hreturned.sound.tracked _ (hreturned.size ▸ hknown)
    rw [hplan] at hresult hdone htracks
    exact ⟨hstep.later.trans (hlater.trans hreturned.later),
      ⟨_, (hreturned.steps hsteady : Pool.Steps _ _ _ _ fun _ => False).steady⟩, htracks, hdone,
      hresult⟩

-- What holds of storage and fetches for good holds when the read has returned.
theorem Returns.stable {limits : Limits} {holds : σ → Array (Fetch τ) → Prop}
    (h : Returns backend mount file offset length acts result final)
    (hstable : Stable backend limits holds) (hlimits : mount.pool.limits = limits)
    (hs : mount.pool.Steady plans) (ha : ∀ act ∈ acts, Leaves holds act)
    (hm : holds mount.storage mount.pool.fetches) : holds final.storage final.pool.fetches := by
  obtain ⟨turns, h⟩ := h
  have hread := hstable.read hlimits hs.sound file offset length turns hm
  rcases h with ⟨_, he⟩ | ⟨id, last, _, he⟩
  · rw [he] at hread
    exact hread
  · obtain ⟨after, hstep⟩ := exists_steps_step backend hs (.read file offset length turns)
    let started := (mount.read backend file offset length turns).1
    have hrun : holds (started.run backend acts).storage (started.run backend acts).pool.fetches :=
      hstable.run acts (hstep.later.limits.trans hlimits) hstep.steady ha hread
    have hpolled := hstable.poll id last hrun
    rw [he] at hpolled
    exact hpolled

theorem Returns.served {limits : Limits} {gives : Call → Except Error Fetched → Prop}
    {serving : backend.Serving limits.Asks gives}
    (h : Returns backend mount file offset length acts result final)
    (hserved : mount.Served serving) (hlimits : mount.pool.limits = limits)
    (hs : mount.pool.Steady plans) (ha : ∀ act ∈ acts, serving.Allows act) :
    final.Served serving := by
  obtain ⟨hgood, hpool⟩ := h.stable (stable_served serving mount.pool) hlimits hs
    (fun act hact => leaves_served (ha act hact)) ⟨hserved.good, hserved.pool⟩
  exact ⟨hgood, hpool⟩

-- Whether it was held or fetched, each page of a read has come from a fetch of that page.
theorem Returns.fetched (h : Returns backend mount file offset length acts result final)
    (hs : mount.pool.Steady plans) (hl : 0 < length) (hw : offset + length < wordLimit)
    {part : Part} (hp : part ∈ (mount.pool.plan file offset (offset + length)).parts) :
    ∃ fetch outcome, mount.pool.Sources file part.page fetch ∧
      final.pool.call? fetch = some ⟨file, part.page, mount.pool.limits.pageSize⟩ ∧
      final.pool.outcome? fetch = some outcome ∧
      part.data? final.pool.outcome? = outcome.toOption.map (·.1) := by
  obtain ⟨hlater, _, htracks, hdone, _⟩ := h.kept hs hl hw
  obtain ⟨page, source⟩ := part
  cases source with
  | held data =>
      obtain ⟨fetch, hpage⟩ := Pool.pageAt?_of_held hp
      obtain ⟨hc, attributes, ho⟩ := hs.sound.backed.loaded file page fetch data hpage
      exact ⟨fetch, _, .inl ⟨_, hpage, rfl⟩, hlater.calls _ _ hc, hlater.outcomes _ _ ho, rfl⟩
  | fetch fetch =>
      have hc := htracks.calls page fetch hp
      rw [hlater.limits] at hc
      obtain ⟨outcome, ho⟩ :=
        Option.ne_none_iff_exists'.mp (hdone fetch (Plan.mem_fetches.mpr ⟨page, hp⟩))
      refine ⟨fetch, outcome, Pool.sources_of_fetch (Nat.le_refl _) hp, hc, ho, ?_⟩
      rw [Part.data?_fetch, ho, Option.bind_some]

-- A read fails if one of its fetches does.
theorem Returns.failed_iff (h : Returns backend mount file offset length acts result final)
    (hs : mount.pool.Steady plans) (hl : 0 < length) (hw : offset + length < wordLimit) :
    (∃ error, result = .error error) ↔
      ∃ fetch ∈ (mount.pool.plan file offset (offset + length)).fetches, ∃ error,
        final.pool.outcome? fetch = some (.error error) := by
  obtain ⟨_, ⟨after, hafter⟩, _, _, hresult⟩ := h.kept hs hl hw
  have hiff := hafter.sound.backed.failed
  rw [hresult, Plan.outcome_eq]
  cases hf : (mount.pool.plan file offset (offset + length)).failure? final.pool.failures with
  | none =>
      rw [Plan.failure?_eq_none_iff] at hf
      refine iff_of_false (fun ⟨_, he⟩ => nomatch he) ?_
      rintro ⟨fetch, hm, error, ho⟩
      exact hf (fetch, error) ((hiff fetch error).mpr ho) hm
  | some error =>
      refine iff_of_true ⟨error, rfl⟩ ?_
      obtain ⟨fetch, hm, ho⟩ := hafter.sound.backed.exists_failed hf
      exact ⟨fetch, hm, error, ho⟩

-- All pages of a read that does not fail have come.
theorem Returns.answered {reply : Reply}
    (h : Returns backend mount file offset length acts (.ok reply) final)
    (hs : mount.pool.Steady plans) (hl : 0 < length) (hw : offset + length < wordLimit)
    {part : Part} (hp : part ∈ (mount.pool.plan file offset (offset + length)).parts) :
    ∃ fetch data attributes, mount.pool.Sources file part.page fetch ∧
      final.pool.call? fetch = some ⟨file, part.page, mount.pool.limits.pageSize⟩ ∧
      final.pool.outcome? fetch = some (.ok (data, attributes)) ∧
      part.data? final.pool.outcome? = some data := by
  obtain ⟨fetch, outcome, hsource, hc, ho, hdata⟩ := h.fetched hs hl hw hp
  cases outcome with
  | ok answer => exact ⟨fetch, answer.1, answer.2, hsource, hc, ho, hdata⟩
  | error error =>
      have hok := (not_congr (h.failed_iff hs hl hw)).mp fun ⟨_, he⟩ => nomatch he
      obtain ⟨page, source⟩ := part
      cases source with
      | held data => cases hdata
      | fetch other =>
          have hm := Plan.mem_fetches.mpr ⟨page, hp⟩
          obtain ⟨_, _, _, hdone, _⟩ := h.kept hs hl hw
          obtain ⟨answer, hother⟩ := Option.ne_none_iff_exists'.mp (hdone other hm)
          rw [Part.data?_fetch, hother, Option.bind_some] at hdata
          cases answer with
          | ok answer => cases hdata
          | error cause => exact absurd ⟨other, hm, cause, hother⟩ hok

-- A read that does not fail has all pages of its span, and gives what they have of the
-- range up to the first gap.
theorem Returns.reply {reply : Reply}
    (h : Returns backend mount file offset length acts (.ok reply) final)
    (hs : mount.pool.Steady plans) (hl : 0 < length) (hw : offset + length < wordLimit) :
    let pages := (mount.pool.plan file offset (offset + length)).pages final.pool.outcome?
    pages.map (·.1) = mount.pool.limits.span offset (offset + length) ∧
    (∀ found ∈ pages, ∃ fetch attributes,
      final.pool.call? fetch = some ⟨file, found.1, mount.pool.limits.pageSize⟩ ∧
      final.pool.outcome? fetch = some (.ok (found.2, attributes))) ∧
    reply.segments =
      Gathering.contiguous offset (Gathering.overlaps offset (offset + length) pages) := by
  intro pages
  refine ⟨?_, ?_, ?_⟩
  · refine (Plan.map_fst_pages fun part hp => ?_).trans (Pool.map_page_partsFrom ..)
    obtain ⟨_, _, _, _, _, _, hdata⟩ := h.answered hs hl hw hp
    rw [hdata]
    rfl
  · intro found hm
    obtain ⟨part, hp, he⟩ := List.mem_filterMap.mp hm
    obtain ⟨fetch, data, attributes, _, hc, ho, hdata⟩ := h.answered hs hl hw hp
    rw [hdata, Option.map_some, Option.some.injEq] at he
    subst he
    exact ⟨fetch, attributes, hc, ho⟩
  · obtain ⟨_, _, _, _, hresult⟩ := h.kept hs hl hw
    rw [Plan.outcome_eq] at hresult
    split at hresult
    · cases hresult
    · rw [Except.ok.injEq] at hresult
      rw [hresult, Plan.segments_eq_overlaps]
      rfl

end Returns

end Mount

end PageCache
