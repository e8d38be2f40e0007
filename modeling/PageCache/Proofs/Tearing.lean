import PageCache.Proofs.Versions

namespace PageCache

-- The bytes of a segment are some of those that a fetch has brought, and storage reported
-- these attributes of the file along with them.
structure Pool.Brought {σ τ : Type} (backend : Backend σ τ) (pool : Pool τ) (file : FileId)
    (page : Nat) (fetch : FetchId) (segment : Segment) (attributes : Attributes) : Prop where
  answered : ∃ data, pool.Answered backend fetch ⟨file, page, pool.limits.pageSize⟩ data
    attributes ∧ segment.data =
      data.slice (segment.offset - page) (segment.offset - page + segment.data.length)
  first : page ≤ segment.offset
  last : segment.offset + segment.data.length ≤ page + pool.limits.pageSize

theorem Pool.contains_of_loaded {τ : Type} (pool : Pool τ) {file : FileId} {page : Nat}
    {fetch : FetchId} {data : Bytes} (ha : pool.limits.pageSize ∣ page)
    (hp : pool.pageAt? file page = some (.loaded fetch data)) :
    pool.contains file page = true := by
  obtain ⟨cached, hf, hpage⟩ := Option.bind_eq_some_iff.mp hp
  simp [contains, hf, Limits.pageOf, Nat.mul_div_cancel' ha, hpage, Page.isLoaded, Page.data?]

namespace Gathering

-- What a page has of a range is part of its bytes.
theorem overlap_data {offset stop page : Nat} {data : Bytes} (hw : stop < wordLimit)
    {segment : Segment}
    (h : overlap { offset := offset, stop := stop } page data = some segment) :
    page ≤ segment.offset ∧ segment.offset + segment.data.length ≤ page + data.length ∧
      segment.data =
        data.slice (segment.offset - page) (segment.offset - page + segment.data.length) := by
  obtain ⟨hoffset, hlt, hlength⟩ := length_overlap hw h
  rw [overlap_eq hw, Option.ite_none_right_eq_some, Option.some.injEq] at h
  obtain ⟨-, rfl⟩ := h
  simp only at hlength ⊢
  refine ⟨Nat.le_max_right _ _, by omega, ?_⟩
  rw [hlength]
  congr 1
  omega

end Gathering

namespace Mount

variable {σ τ : Type}

-- The segments of a reply are all of one version of the file.
def OfVersion (backend : Backend σ τ) (mount : Mount σ τ) (file : FileId) (reply : Reply)
    (attributes : Attributes) : Prop :=
  ∀ segment ∈ reply.segments, ∃ page fetch,
    mount.pool.Brought backend file page fetch segment attributes

-- A page of a read that has returned was loaded when the read started, and then it was of
-- the version on record at that time, or its fetch has completed since.
theorem Returns.version {backend : Backend σ τ} {mount final : Mount σ τ}
    {plans : ReadId → Plan} {file : FileId} {offset length : Nat} {acts : List (Act σ)}
    {reply : Reply} (h : Returns backend mount file offset length acts (.ok reply) final)
    (hs : mount.pool.Steady plans) (hc : mount.pool.Coherent) (hl : 0 < length)
    (hw : offset + length < wordLimit) {part : Part}
    (hp : part ∈ (mount.pool.plan file offset (offset + length)).parts) :
    ∃ fetch data attributes,
      final.pool.call? fetch = some ⟨file, part.page, mount.pool.limits.pageSize⟩ ∧
      final.pool.outcome? fetch = some (.ok (data, attributes)) ∧
      part.data? final.pool.outcome? = some data ∧
      (mount.pool.outcome? fetch = none ∨
        mount.pool.pageAt? file part.page = some (.loaded fetch data) ∧
        mount.pool.attributes? file = some attributes) := by
  obtain ⟨fetch, data, attributes, hsource, hcall, ho, hdata⟩ := h.answered hs hl hw hp
  have hlater := (h.kept hs hl hw).1
  refine ⟨fetch, data, attributes, hcall, ho, hdata, ?_⟩
  by_cases hnone : mount.pool.outcome? fetch = none
  · exact .inl hnone
  · right
    rcases hsource with ⟨found, hpage, rfl⟩ | hnew
    · cases found with
      | fetching fetch waiters =>
          exact absurd (hs.sound.backed.fetching _ _ _ _ hpage).2 hnone
      | loaded fetch held =>
          obtain ⟨recorded, hrecorded, hbefore⟩ := hc.of_page hpage
          cases (hlater.outcomes _ _ hbefore).symm.trans ho
          exact ⟨hpage, hrecorded⟩
    · exact absurd (Pool.outcome?_eq_none_of_call? (Pool.call?_eq_none_iff.mpr hnew)) hnone

-- The bytes of a reply come from pages that were loaded when the read started, all of them of
-- the version on record then, and from pages whose fetches have completed since. So they are
-- of one version unless one of these fetches tells of a change.
theorem versions_of_reply (backend : Backend σ τ) (limits : Limits) (storage : σ)
    (before after : List (Act σ)) {file : FileId} {offset length : Nat} (hl : 0 < length)
    (hw : offset + length < wordLimit) {reply : Reply} {final : Mount σ τ}
    (h : Returns backend (run backend (create limits storage) before) file offset length after
      (.ok reply) final) :
    let start := (run backend (create limits storage) before).pool
    let pages := limits.span offset (offset + length)
    (∀ segment ∈ reply.segments, ∃ page ∈ pages, ∃ fetch data attributes,
      final.pool.Brought backend file page fetch segment attributes ∧
      (start.outcome? fetch = none ∨
        start.pageAt? file page = some (.loaded fetch data) ∧
        start.contains file page = true ∧ start.attributes? file = some attributes)) ∧
    ∀ attributes,
      (∀ page ∈ pages, start.contains file page = true →
        start.attributes? file = some attributes) →
      (∀ page ∈ pages, ∀ fetch data reported,
        final.pool.call? fetch = some ⟨file, page, limits.pageSize⟩ →
        start.outcome? fetch = none →
        final.pool.outcome? fetch = some (.ok (data, reported)) → reported = attributes) →
      final.OfVersion backend file reply attributes := by
  intro start pages
  obtain ⟨plans, hs, hlimits⟩ := exists_steady backend limits storage before
  have hany := backend.allows_givesAnything limits.Asks
  have hserved := h.served (served_run (backend.givesAnything limits.Asks) trivial
    fun act _ => hany act) hlimits hs fun act _ => hany act
  have hcoherent := coherent_run backend limits storage before
  obtain ⟨hlater, ⟨_, hafter⟩, _⟩ := h.kept hs hl hw
  have hfinal : final.pool.limits = limits := hlater.limits.trans hlimits
  have hsegments : ∀ segment ∈ reply.segments, ∃ page ∈ pages, ∃ fetch data attributes,
      final.pool.Brought backend file page fetch segment attributes ∧
      (start.outcome? fetch = none ∨
        start.pageAt? file page = some (.loaded fetch data) ∧
        start.contains file page = true ∧ start.attributes? file = some attributes) := by
    intro segment hm
    obtain ⟨hspan, _, hreply⟩ := h.reply hs hl hw
    rw [hreply] at hm
    obtain ⟨found, hfound, hoverlap⟩ :=
      List.mem_filterMap.mp (Gathering.contiguous_subset _ _ hm)
    have hpage : found.1 ∈ pages := by
      have hmem := List.mem_map_of_mem (f := (·.1)) hfound
      rwa [hspan, hlimits] at hmem
    obtain ⟨part, hpart, he⟩ := List.mem_filterMap.mp hfound
    obtain ⟨fetch, data, attributes, hcall, ho, hdata, hwhen⟩ :=
      h.version hs hcoherent hl hw hpart
    rw [hdata, Option.map_some, Option.some.injEq] at he
    subst he
    rw [hlimits, ← hfinal] at hcall
    obtain ⟨hfirst, hlast, hslice⟩ := Gathering.overlap_data hw hoverlap
    have hsized := hafter.sound.backed.sized fetch data attributes ho
    have hbrought : final.pool.Brought backend file part.page fetch segment attributes :=
      ⟨⟨data, hserved.answered hcall ho, hslice⟩, hfirst, by simp only at hlast; omega⟩
    have haligned : start.limits.pageSize ∣ part.page := by
      rw [hlimits]
      exact limits.pageSize_dvd_of_mem_span hpage
    refine ⟨part.page, hpage, fetch, data, attributes, hbrought, hwhen.imp_right ?_⟩
    exact fun ⟨hloaded, hrecorded⟩ =>
      ⟨hloaded, start.contains_of_loaded haligned hloaded, hrecorded⟩
  refine ⟨hsegments, fun attributes hheld hfetched segment hm => ?_⟩
  obtain ⟨page, hpage, fetch, _, reported, hbrought, hwhen⟩ := hsegments segment hm
  obtain ⟨data, hanswered, _⟩ := hbrought.answered
  have he : reported = attributes := by
    rcases hwhen with hnone | ⟨_, hcontains, hrecorded⟩
    · exact hfetched page hpage fetch data reported (hfinal ▸ hanswered.asked) hnone
        hanswered.outcome
    · exact Option.some.inj (hrecorded.symm.trans (hheld page hpage hcontains))
  exact ⟨page, fetch, he ▸ hbrought⟩

-- A file of eight bytes that is replaced after its first page of four has been read.
def replacedStorage : Gates × Memory := ({}, ({} : Memory).insert 0 [1, 2, 3, 4, 5, 6, 7, 8])

def untilReplaced : List (Act (Gates × Memory)) :=
  [.ask (.read 0 0 4 .all),
    .change fun storage => (storage.1, storage.2.insert 0 [11, 12, 13, 14, 15, 16, 17, 18])]

def replacedMount : Mount (Gates × Memory) (Option GateId) :=
  run Memory.backend (create fourByteLimits replacedStorage) untilReplaced

def keptMount : Mount (Gates × Memory) (Option GateId) :=
  run Memory.backend (create fourByteLimits replacedStorage) [.ask (.read 0 0 4 .all)]

def tornReply : Reply := ⟨[⟨0, [1, 2, 3, 4]⟩, ⟨4, [15, 16, 17, 18]⟩]⟩

-- The first page has been read, and is found when both pages are read.
theorem versions_of_unchanged_reply :
    0 < 6 ∧ 2 + 6 < wordLimit ∧
    Returns Memory.backend keptMount 0 2 6 [] (.ok ⟨[⟨2, [3, 4]⟩, ⟨4, [5, 6, 7, 8]⟩]⟩)
      (keptMount.read Memory.backend 0 2 6 .all).1 ∧
    OfVersion Memory.backend (keptMount.read Memory.backend 0 2 6 .all).1 0
      ⟨[⟨2, [3, 4]⟩, ⟨4, [5, 6, 7, 8]⟩]⟩ ⟨8, 1000000000⟩ := by
  have hr : Returns Memory.backend keptMount 0 2 6 []
      (.ok ⟨[⟨2, [3, 4]⟩, ⟨4, [5, 6, 7, 8]⟩]⟩) (keptMount.read Memory.backend 0 2 6 .all).1 :=
    ⟨.all, .inl ⟨rfl, rfl⟩⟩
  have hw : 2 + 6 < wordLimit := by decide
  obtain ⟨_, hone⟩ := versions_of_reply Memory.backend fourByteLimits replacedStorage
    [.ask (.read 0 0 4 .all)] [] (Nat.succ_pos 5) hw hr
  refine ⟨Nat.succ_pos 5, hw, hr, hone ⟨8, 1000000000⟩ (fun _ _ _ => rfl) ?_⟩
  intro page _ fetch data reported _ hnone ho
  match fetch with
  | 0 => cases hnone
  | 1 =>
      cases ho
      rfl
  | fetch + 2 => cases ho

-- The page that was read before the file was replaced and the page that is fetched since make
-- one reply.
theorem torn_reply :
    Returns Memory.backend replacedMount 0 0 8 [] (.ok tornReply)
      (replacedMount.read Memory.backend 0 0 8 .all).1 ∧
    ¬ ∃ attributes, OfVersion Memory.backend (replacedMount.read Memory.backend 0 0 8 .all).1 0
      tornReply attributes := by
  refine ⟨⟨.all, .inl ⟨rfl, rfl⟩⟩, fun ⟨attributes, h⟩ => ?_⟩
  have hold : attributes = ⟨8, 1000000000⟩ := by
    obtain ⟨page, fetch, hbrought⟩ := h ⟨0, [1, 2, 3, 4]⟩ (.head _)
    obtain ⟨data, hanswered, _⟩ := hbrought.answered
    have hfirst : page ≤ 0 := hbrought.first
    match fetch, hanswered.asked, hanswered.outcome with
    | 0, _, ho =>
        cases ho
        rfl
    | 1, hc, _ =>
        have hpage : some page = some 4 := (congrArg (Option.map Call.offset) hc).symm
        cases hpage
        exact absurd hfirst (by decide)
    | fetch + 2, hc, _ => cases hc
  have hnew : attributes = ⟨8, 2000000000⟩ := by
    obtain ⟨page, fetch, hbrought⟩ := h ⟨4, [15, 16, 17, 18]⟩ (.tail _ (.head _))
    obtain ⟨data, hanswered, _⟩ := hbrought.answered
    have hlast : 8 ≤ page + 4 := hbrought.last
    match fetch, hanswered.asked, hanswered.outcome with
    | 0, hc, _ =>
        have hpage : some page = some 0 := (congrArg (Option.map Call.offset) hc).symm
        cases hpage
        exact absurd hlast (by decide)
    | 1, _, ho =>
        cases ho
        rfl
    | fetch + 2, hc, _ => cases hc
  rw [hold] at hnew
  cases hnew

end Mount

end PageCache
