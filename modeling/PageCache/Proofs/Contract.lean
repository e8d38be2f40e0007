import PageCache.Proofs.Stability

namespace PageCache

-- Storage keeps to its word if it stays in good states, whatever it is asked. While a
-- read of it is under way its token is held, and the answer is one that it may give.
structure Backend.Serving {σ τ : Type} (backend : Backend σ τ) (asks : Call → Prop)
    (gives : Call → Except Error Fetched → Prop) where
  good : σ → Prop
  held : Call → τ → Prop
  start : ∀ state call, good state → asks call →
    good (backend.start state call).1 ∧ held call (backend.start state call).2
  poll : ∀ state call token, good state → asks call → held call token →
    good (backend.poll state call token).1 ∧
    (∀ rest, (backend.poll state call token).2 = .waiting rest → held call rest) ∧
    ∀ answer, (backend.poll state call token).2 = .finished answer → gives call answer

variable {σ τ : Type} {backend : Backend σ τ} {asks : Call → Prop}
  {gives : Call → Except Error Fetched → Prop}

-- What storage does by itself leaves it in a good state.
def Backend.Serving.Allows (serving : backend.Serving asks gives) : Act σ → Prop
  | .ask _ => True
  | .change become => ∀ state, serving.good state → serving.good (become state)

-- A fetch that was driven by such storage and by nothing else.
def Backend.Serving.Drove (serving : backend.Serving asks gives) (fetch : Fetch τ) : Prop :=
  asks fetch.call ∧
  (∀ token, fetch.phase = .running token → serving.held fetch.call token) ∧
  ∀ outcome, fetch.phase = .complete outcome →
    ∃ answer, gives fetch.call answer ∧ outcome = fetch.call.outcome answer

-- The answers that storage can give to a call, in whatever state.
def Backend.Gives (backend : Backend σ τ) (call : Call) (answer : Except Error Fetched) : Prop :=
  ∃ state token, (backend.poll state call token).2 = .finished answer

-- All storage keeps to this, so that it is nothing to ask for.
def Backend.givesAnything (backend : Backend σ τ) (asks : Call → Prop) :
    backend.Serving asks backend.Gives where
  good _ := True
  held _ _ := True
  start _ _ _ _ := ⟨trivial, trivial⟩
  poll state _ token _ _ _ :=
    ⟨trivial, fun _ _ => trivial, fun _ h => ⟨state, token, h⟩⟩

theorem Backend.allows_givesAnything (backend : Backend σ τ) (asks : Call → Prop) (act : Act σ) :
    (backend.givesAnything asks).Allows act := by
  cases act with
  | ask op => trivial
  | change become => exact fun _ _ => trivial

def Pool.Served (pool : Pool τ) (serving : backend.Serving asks gives) : Prop :=
  ∀ (id : FetchId) (fetch : Fetch τ), pool.fetches[id]? = some fetch → serving.Drove fetch

structure Mount.Served (mount : Mount σ τ) (serving : backend.Serving asks gives) : Prop where
  good : serving.good mount.storage
  pool : mount.pool.Served serving

namespace Mount

variable {mount : Mount σ τ} {serving : backend.Serving asks gives}

-- One fetch is driven on. The others are left alone.
theorem Served.withPhase (h : mount.Served serving) {id : FetchId} {fetch : Fetch τ}
    (hf : mount.pool.fetches[id]? = some fetch) {storage : σ} (hg : serving.good storage)
    {phase : Phase τ} (hd : serving.Drove ⟨fetch.call, phase⟩) :
    Served ⟨storage, mount.pool.withPhase id phase⟩ serving := by
  refine ⟨hg, fun other found ho => ?_⟩
  simp only [Pool.withPhase, Array.getElem?_modify] at ho
  split at ho
  · rename_i he
    subst he
    rw [hf] at ho
    cases ho
    exact hd
  · exact h.pool other found ho

theorem Served.advance (h : mount.Served serving) {id : FetchId} {fetch : Fetch τ}
    (hf : mount.pool.fetches[id]? = some fetch) {token : τ}
    (ht : serving.held fetch.call token) :
    (mount.advance backend id fetch.call token).1.Served serving := by
  have hasks := (h.pool id fetch hf).1
  obtain ⟨hgood, hwaiting, hfinished⟩ :=
    serving.poll mount.storage fetch.call token h.good hasks ht
  rcases mount.advance_cases backend id fetch.call token with
    ⟨rest, hp, he⟩ | ⟨answer, hp, he⟩
  · rw [he]
    refine h.withPhase hf hgood ⟨hasks, fun token htoken => ?_, fun _ ho => nomatch ho⟩
    cases htoken
    exact hwaiting rest hp
  · rw [he]
    refine h.withPhase hf hgood ⟨hasks, (fun _ ht => nomatch ht), fun outcome ho => ?_⟩
    cases ho
    exact ⟨answer, hfinished answer hp, rfl⟩

theorem Served.drive (h : mount.Served serving) (id : FetchId) :
    (mount.drive backend id).1.Served serving := by
  unfold Mount.drive
  cases hf : mount.pool.fetches[id]? with
  | none => exact h
  | some fetch =>
      obtain ⟨call, phase⟩ := fetch
      have hdrove := h.pool id _ hf
      cases phase with
      | complete outcome => exact h
      | running token => exact h.advance hf (hdrove.2.1 token rfl)
      | idle =>
          obtain ⟨hgood, hheld⟩ := serving.start mount.storage call h.good hdrove.1
          have hlaunched : (mount.launch backend id call).1.Served serving := ⟨hgood, h.pool⟩
          have hidle : (mount.launch backend id call).1.pool.fetches[id]? =
              some ⟨call, .idle⟩ := hf
          exact hlaunched.advance hidle hheld

section Run

variable {limits : Limits} {serving : backend.Serving limits.Asks gives} {plans : ReadId → Plan}

-- A page that is created has a fetch that nothing is known of as yet.
theorem stable_served (serving : backend.Serving limits.Asks gives) (pool : Pool τ) :
    Stable backend limits fun storage fetches =>
      Served ⟨storage, { pool with fetches := fetches }⟩ serving where
  create storage fetches call hc h := by
    refine ⟨h.good, fun id fetch hf => ?_⟩
    simp only [Array.getElem?_push] at hf
    split at hf
    · cases hf
      exact ⟨hc, (fun _ ht => nomatch ht), (fun _ ho => nomatch ho)⟩
    · exact h.pool id fetch hf
  drive mount id h := by
    have hmount : mount.Served serving := ⟨h.good, h.pool⟩
    exact ⟨(hmount.drive id).good, (hmount.drive id).pool⟩

theorem leaves_served {pool : Pool τ} {act : Act σ} (h : serving.Allows act) :
    Leaves (fun storage fetches => Served ⟨storage, { pool with fetches := fetches }⟩ serving)
      act := by
  cases act with
  | ask op => trivial
  | change become => exact fun storage _ hm => ⟨h storage hm.good, hm.pool⟩

theorem Served.run (acts : List (Act σ)) (h : mount.Served serving)
    (hl : mount.pool.limits = limits) (hs : mount.pool.Steady plans)
    (ha : ∀ act ∈ acts, serving.Allows act) : (mount.run backend acts).Served serving := by
  obtain ⟨hgood, hpool⟩ := (stable_served serving mount.pool).run acts hl hs
    (fun act hact => leaves_served (ha act hact)) ⟨h.good, h.pool⟩
  exact ⟨hgood, hpool⟩

theorem Served.act (h : mount.Served serving) (hl : mount.pool.limits = limits)
    (hs : mount.pool.Steady plans) {act : Act σ} (ha : serving.Allows act) :
    (mount.act backend act).1.Served serving :=
  h.run [act] hl hs (List.forall_mem_singleton.mpr ha)

end Run

theorem served_run {backend : Backend σ τ} {limits : Limits}
    {gives : Call → Except Error Fetched → Prop} (serving : backend.Serving limits.Asks gives)
    {storage : σ} (hg : serving.good storage) {acts : List (Act σ)}
    (ha : ∀ act ∈ acts, serving.Allows act) :
    (run backend (create limits storage) acts).Served serving := by
  have hfresh : (create limits storage : Mount σ τ).Served serving :=
    ⟨hg, fun _ _ hf => nomatch hf⟩
  exact hfresh.run acts rfl (steady_create limits storage fun _ => ⟨0, 0, 0, [], 0⟩) ha

-- Of any storage it is known that its answers are its own and that its calls are of pages.
theorem served_anything (backend : Backend σ τ) (limits : Limits) (storage : σ)
    (acts : List (Act σ)) :
    (run backend (create limits storage) acts).Served (backend.givesAnything limits.Asks) :=
  served_run _ trivial fun act _ => backend.allows_givesAnything limits.Asks act

-- The outcome of a fetch is made of an answer of storage to its call.
theorem Served.outcome {backend : Backend σ τ} {asks : Call → Prop}
    {gives : Call → Except Error Fetched → Prop} {serving : backend.Serving asks gives}
    {mount : Mount σ τ} (h : mount.Served serving) {fetch : FetchId} {call : Call}
    {outcome : Outcome} (hc : mount.pool.call? fetch = some call)
    (ho : mount.pool.outcome? fetch = some outcome) :
    asks call ∧ ∃ answer, gives call answer ∧ outcome = call.outcome answer := by
  obtain ⟨hasks, _, hcomplete⟩ := h.pool fetch _ (Pool.getElem?_of_outcome? hc ho)
  exact ⟨hasks, hcomplete outcome rfl⟩

end Mount

end PageCache
