import PageCache.Proofs.Notices
import PageCache.Proofs.ReadOutcome

namespace PageCache

-- The fetch was made with this call, and storage answered with these bytes and attributes.
structure Pool.Answered {σ τ : Type} (backend : Backend σ τ) (pool : Pool τ) (fetch : FetchId)
    (call : Call) (data : Bytes) (attributes : Attributes) : Prop where
  asked : pool.call? fetch = some call
  outcome : pool.outcome? fetch = some (.ok (data, attributes))
  answer : ∃ fetched, backend.Gives call (.ok fetched) ∧ fetched.bytes = data ∧
    fetched.attributes = attributes

namespace Mount

variable {σ τ : Type}

theorem coherent_run (backend : Backend σ τ) (limits : Limits) (storage : σ)
    (acts : List (Act σ)) : (run backend (create limits storage) acts).pool.Coherent := by
  have hfresh : ({ limits := limits } : Pool τ).Coherent := fun _ _ hf => nomatch hf
  exact run_create_preserves backend (fun _ _ _ hm => hm.coherent) limits storage acts hfresh

-- Whatever the storage, an outcome is made of what it has answered.
theorem Served.answered {backend : Backend σ τ} {asks : Call → Prop} {mount : Mount σ τ}
    (h : mount.Served (backend.givesAnything asks)) {fetch : FetchId} {call : Call}
    {data : Bytes} {attributes : Attributes} (hc : mount.pool.call? fetch = some call)
    (ho : mount.pool.outcome? fetch = some (.ok (data, attributes))) :
    mount.pool.Answered backend fetch call data attributes := by
  obtain ⟨_, answer, hgives, hanswer⟩ := h.outcome hc ho
  obtain ⟨fetched, rfl, _, hbytes, hattributes⟩ := Call.outcome_eq_ok_iff.mp hanswer.symm
  exact ⟨hc, ho, fetched, hgives, hbytes.symm, hattributes.symm⟩

theorem answered_run (backend : Backend σ τ) (limits : Limits) (storage : σ)
    (acts : List (Act σ)) {fetch : FetchId} {call : Call} {data : Bytes} {attributes : Attributes}
    (hc : (run backend (create limits storage) acts).pool.call? fetch = some call)
    (ho : (run backend (create limits storage) acts).pool.outcome? fetch =
      some (.ok (data, attributes))) :
    (run backend (create limits storage) acts).pool.Answered backend fetch call data
      attributes :=
  (served_anything backend limits storage acts).answered hc ho

-- A page that is loaded was fetched with the attributes on record for its file.
theorem loaded_run (backend : Backend σ τ) (limits : Limits) (storage : σ)
    (acts : List (Act σ)) {file : FileId} {page : Nat} {fetch : FetchId} {data : Bytes}
    (hp : (run backend (create limits storage) acts).pool.pageAt? file page =
      some (.loaded fetch data)) :
    ∃ attributes,
      (run backend (create limits storage) acts).pool.attributes? file = some attributes ∧
      (run backend (create limits storage) acts).pool.Answered backend fetch
        ⟨file, page, limits.pageSize⟩ data attributes := by
  obtain ⟨plans, hs, hlimits⟩ := exists_steady backend limits storage acts
  obtain ⟨attributes, ha, ho⟩ := (coherent_run backend limits storage acts).of_page hp
  have hcall := (hs.sound.backed.loaded file page fetch data hp).1
  rw [hlimits] at hcall
  exact ⟨attributes, ha, answered_run backend limits storage acts hcall ho⟩

-- The pages of a cached file are all of one version, the one that its attributes tell. Those
-- are what the latest of its loads and revalidations said, since it was cached or invalidated.
-- Once a revalidation returns, only pages of the version that it was given are there.
theorem versions_agree (backend : Backend σ τ) (limits : Limits) (storage : σ)
    (acts : List (Act σ)) {file : FileId} {cached : FileCache}
    (hf : (run backend (create limits storage) acts).pool.files.find? file = some cached) :
    let mount := run backend (create limits storage) acts
    let notices := history backend (create limits storage : Mount σ τ) [] acts
    (∀ attributes, mount.pool.attributes? file = some attributes →
      ∀ page fetch data, mount.pool.pageAt? file page = some (.loaded fetch data) →
        mount.pool.Answered backend fetch ⟨file, page, limits.pageSize⟩ data attributes) ∧
    (mount.pool.attributes? file = none →
      ∀ page fetch data, mount.pool.pageAt? file page ≠ some (.loaded fetch data)) ∧
    Notice.latest? mount.pool.outcome? file notices = some (mount.pool.attributes? file) ∧
    ∀ attributes offset,
      let next := (mount.step backend (.revalidate file attributes)).1.pool
      next.contains file offset = true → ∃ fetch data,
        next.pageAt? file (limits.pageOf offset) = some (.loaded fetch data) ∧
        next.Answered backend fetch ⟨file, limits.pageOf offset, limits.pageSize⟩ data
          attributes := by
  intro mount notices
  refine ⟨?_, ?_, ?_, ?_⟩
  · intro attributes ha page fetch data hp
    obtain ⟨recorded, hr, hanswered⟩ := loaded_run backend limits storage acts hp
    cases ha.symm.trans hr
    exact hanswered
  · intro ha page fetch data hp
    obtain ⟨recorded, hr, _⟩ := loaded_run backend limits storage acts hp
    cases ha.symm.trans hr
  · have hfresh : (create limits storage : Mount σ τ).pool.Told [] := fun _ _ _ _ ha => nomatch ha
    have htold := told_run backend acts hfresh
    refine htold mount.pool.outcome? (fun _ _ ho => ho) file _ ?_
    rw [Pool.recorded?, Pool.attributes?, hf, Option.map_some, Option.bind_some]
  · intro attributes offset next hcontains
    have hnext : next = (run backend (create limits storage)
        (acts ++ [.ask (.revalidate file attributes)])).pool := by
      rw [run_append]
      rfl
    obtain ⟨fetch, data, hp⟩ := Pool.exists_loaded_of_contains hcontains
    have hlimits : next.limits = limits := by
      obtain ⟨_, _, hlimits⟩ := exists_steady backend limits storage
        (acts ++ [.ask (.revalidate file attributes)])
      rw [hnext, hlimits]
    have hattributes : next.attributes? file = some attributes :=
      mount.pool.attributes?_revalidate hf attributes
    rw [hlimits] at hp
    refine ⟨fetch, data, hp, ?_⟩
    rw [hnext] at hp hattributes ⊢
    obtain ⟨recorded, hr, hanswered⟩ := loaded_run backend limits storage _ hp
    cases hattributes.symm.trans hr
    exact hanswered

theorem gated_versions_agree :
    (gatedRun []).pool.files.find? 0 = some ((gatedRun []).pool.resident 0) ∧
    (gatedRun []).pool.Answered Memory.backend 0 ⟨0, 0, 4⟩ [1, 2, 3, 4] ⟨10, 1000000000⟩ ∧
    Notice.latest? (gatedRun []).pool.outcome? 0
      (history Memory.backend (create fourByteLimits gatedStorage) [] [.ask (.read 0 1 8 .all)]) =
      some (some ⟨10, 1000000000⟩) ∧
    let next := ((gatedRun []).step Memory.backend (.revalidate 0 ⟨10, 1000000000⟩)).1.pool
    next.contains 0 9 = true ∧ ∃ fetch data, next.pageAt? 0 8 = some (.loaded fetch data) ∧
      next.Answered Memory.backend fetch ⟨0, 8, 4⟩ data ⟨10, 1000000000⟩ := by
  have hf : (gatedRun []).pool.files.find? 0 = some ((gatedRun []).pool.resident 0) := rfl
  have hcontains : ((gatedRun []).step Memory.backend
      (.revalidate 0 ⟨10, 1000000000⟩)).1.pool.contains 0 9 = true := rfl
  obtain ⟨hloaded, _, hlatest, hrevalidated⟩ :=
    versions_agree Memory.backend fourByteLimits gatedStorage [.ask (.read 0 1 8 .all)] hf
  exact ⟨hf, hloaded ⟨10, 1000000000⟩ rfl 0 0 [1, 2, 3, 4] rfl, hlatest, hcontains,
    hrevalidated ⟨10, 1000000000⟩ 9 hcontains⟩

end Mount

end PageCache
