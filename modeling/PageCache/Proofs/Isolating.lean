import PageCache.Proofs.BystandingPolls
import PageCache.Proofs.Extents

namespace PageCache

namespace Pool

variable {τ : Type} {pool mirror : Pool τ} {file : FileId} {mine : ReadId → Prop}
  {numbers changed : Numbering} {plans : ReadId → Plan} {started : List FileId}

-- The reads that have started so far, in order, are reads of these files.
structure Named (pool : Pool τ) (started : List FileId) (plans : ReadId → Plan) : Prop where
  steady : pool.Steady plans
  size : pool.gatherings.size = started.length
  named : ∀ id < started.length, started[id]? = some (plans id).file

theorem Named.file_iff (h : pool.Named started plans) (file : FileId) :
    ∀ id < pool.gatherings.size, started[id]? = some file ↔ (plans id).file = file := by
  intro id hid
  rw [h.named id (h.size ▸ hid), Option.some.injEq]

theorem Named.known (h : pool.Named started plans) {id : ReadId}
    (hid : started[id]? = some file) : id < pool.gatherings.size := by
  rw [h.size]
  exact (List.getElem?_eq_some_iff.mp hid).1

theorem Named.of_steady {next : Pool τ} (h : pool.Named started plans) (hs : next.Steady plans)
    (hg : next.gatherings.size = pool.gatherings.size) : next.Named started plans :=
  ⟨hs, hg.trans h.size, h.named⟩

theorem Named.of_trims {next : Pool τ} (h : pool.Named started plans) (ht : pool.Trims next) :
    next.Named started plans :=
  h.of_steady (h.steady.of_trims ht) (by rw [ht.gatherings])

theorem Named.startRead (h : pool.Named started plans) (file : FileId) (offset stop : Nat) :
    (pool.startRead file offset stop).Named (started ++ [file])
      (Function.update plans pool.gatherings.size (pool.plan file offset stop)) := by
  obtain ⟨_, _, _, _, hsize, _⟩ := startRead_frame h.steady.sound file offset stop
  refine ⟨steady_startRead h.steady file offset stop, ?_, fun id hid => ?_⟩
  · rw [hsize, h.size, List.length_append, List.length_singleton]
  · rw [List.length_append, List.length_singleton] at hid
    rcases Nat.lt_succ_iff_lt_or_eq.mp hid with hlt | rfl
    · rw [List.getElem?_append_left hlt, Function.update_of_ne (h.size ▸ hlt.ne)]
      exact h.named id hlt
    · rw [List.getElem?_concat_length, h.size, Function.update_self]
      rfl

theorem Backed.fetch_of_page (h : pool.Backed) {page : Nat} {found : Page}
    (hp : pool.pageAt? file page = some found) : found.fetch < pool.fetches.size := by
  refine Nat.lt_of_not_le fun hle => ?_
  have hnone := call?_eq_none_iff.mpr hle
  cases found with
  | fetching fetch waiters =>
      cases hnone.symm.trans (h.fetching file page fetch waiters hp).1
  | loaded fetch data =>
      cases hnone.symm.trans (h.loaded file page fetch data hp).1

-- A page tells of no reads and fetches but those that there are.
theorem Sound.renumber_congr (hs : pool.Sound plans)
    (hr : ∀ id < pool.gatherings.size, changed.read id = numbers.read id)
    (hf : ∀ id < pool.fetches.size, changed.fetch id = numbers.fetch id) {cached : FileCache}
    (hcached : pool.files.find? file = some cached) :
    cached.renumber changed = cached.renumber numbers := by
  have hpages : cached.pages.map (Page.renumber changed) =
      cached.pages.map (Page.renumber numbers) := by
    refine (hs.ordered.pages file cached hcached).map_congr fun page found hp => ?_
    have hfound : pool.pageAt? file page = some found :=
      Option.bind_eq_some_iff.mpr ⟨cached, hcached, hp⟩
    have hfetch := hf _ (hs.backed.fetch_of_page hfound)
    cases found with
    | fetching fetch waiters =>
        have hwaiters := (hs.waiters file page fetch waiters hfound).2
        simp only [Page.renumber, Page.fetching.injEq]
        exact ⟨hfetch, List.map_congr_left fun id hid => hr id (hwaiters id hid)⟩
    | loaded fetch data => exact congrArg (Page.loaded · data) hfetch
  simp only [FileCache.renumber, hpages]

-- Reads and fetches to come can have any numbers.
theorem Mirrors.renumber (h : Mirrors file mine numbers pool mirror) (hs : pool.Sound plans)
    (hknown : ∀ id, mine id → id < pool.gatherings.size)
    (hwaits : ∀ id, mine id → ∀ read, pool.live? id = some read →
      ∀ wait ∈ read.waits, pool.Owns file wait.fetch)
    (hr : ∀ id < pool.gatherings.size, changed.read id = numbers.read id)
    (hf : ∀ id < pool.fetches.size, changed.fetch id = numbers.fetch id) :
    Mirrors file mine changed pool mirror := by
  have hlt : ∀ id, pool.Owns file id → id < pool.fetches.size := by
    intro id hid
    obtain ⟨fetch, hfetch, _⟩ := owns_iff.mp hid
    exact (Array.getElem?_eq_some_iff.mp hfetch).1
  have hcached : (pool.files.find? file).map (·.renumber changed) =
      (pool.files.find? file).map (·.renumber numbers) :=
    Option.map_congr fun cached hcached => hs.renumber_congr hr hf hcached
  refine ⟨h.limits, h.cached.trans hcached.symm, h.alone,
    fun id fetch hfetch hown => ?_, fun id other hid ho he => ?_, fun id hid => ?_,
    fun id other hid ho he => ?_, fun id hid => ?_⟩
  · rw [hf id (hlt id (owns_iff.mpr ⟨fetch, hfetch, hown⟩))]
    exact h.fetch id fetch hfetch hown
  · rw [hf id (hlt id hid), hf other (hlt other ho)] at he
    exact h.fetches id other hid ho he
  · rw [hr id (hknown id hid)]
    exact h.gathering id hid
  · rw [hr id (hknown id hid), hr other (hknown other ho)] at he
    exact h.reads id other hid ho he
  · rw [hr id (hknown id hid), h.waits id hid]
    cases hread : pool.live? id with
    | none => rfl
    | some read =>
        refine congrArg some (List.map_congr_left fun wait hw => ?_)
        rw [Wait.renumber, Wait.renumber, hf _ (hlt _ (hwaits id hid read hread wait hw))]

end Pool

namespace Act

variable {σ : Type}

-- The file of which an act starts a read.
def starts (act : Act σ) : List FileId := (act.extent?.map (·.file)).toList

theorem starts_of_extent {act : Act σ} {extent : Extent} (h : act.extent? = some extent) :
    act.starts = [extent.file] := by
  rw [starts, h]
  rfl

theorem starts_of_none {act : Act σ} (h : act.extent? = none) : act.starts = [] := by
  rw [starts, h]
  rfl

end Act

namespace Mount

variable {σ τ : Type} {mount : Mount σ τ} {plans : ReadId → Plan} {started : List FileId}

theorem named_poll (backend : Backend σ τ) (h : mount.pool.Named started plans) (id : ReadId)
    (turns : Turns) : (mount.poll backend id turns).1.pool.Named started plans := by
  cases hl : mount.pool.live? id with
  | none =>
      unfold poll
      rwa [hl]
  | some read =>
      obtain ⟨hr, rfl⟩ := h.steady.sound.leased.live?_eq_some_iff.mp hl
      have hpolls := polls_poll backend h.steady hr turns
      exact h.of_steady (hpolls.steady h.steady) hpolls.size

-- A read that starts is the next one, and no other act adds to the reads.
theorem exists_named_act (backend : Backend σ τ) (h : mount.pool.Named started plans)
    (act : Act σ) :
    ∃ after, (mount.act backend act).1.pool.Named (started ++ act.starts) after := by
  cases hextent : act.extent? with
  | some extent =>
      obtain ⟨turns, hact, _⟩ := act_of_extent backend mount hextent
      obtain ⟨file, offset, length, _, rfl, hl, hw, rfl⟩ := Act.exists_read_of_extent hextent
      rw [hact, Act.starts_of_extent hextent]
      have hopened : (mount.opened ⟨file, offset, offset + length⟩).pool.Named _ _ :=
        h.startRead file offset (offset + length)
      exact ⟨_, named_poll backend hopened _ turns⟩
  | none =>
      rw [Act.starts_of_none hextent, List.append_nil]
      refine ⟨plans, ?_⟩
      cases act with
      | change become => exact h
      | ask op =>
          cases op with
          | read file offset length turns =>
              rw [(act_read_of_none backend mount hextent).1]
              exact h
          | poll id turns => exact named_poll backend h id turns
          | drop id =>
              exact h.of_steady (Pool.steady_endRead h.steady id)
                (congrArg Array.size (Pool.endRead_frame mount.pool id).2.2.2.1)
          | invalidate file => exact h.of_trims (Pool.trims_invalidate _ file)
          | revalidate file attributes => exact h.of_trims (Pool.trims_revalidate _ file attributes)
          | release file => exact h.of_trims (Pool.trims_release h.steady.sound.leased file)
          | prune => exact h.of_trims (Pool.trims_evict h.steady.sound.leased)

end Mount

end PageCache
