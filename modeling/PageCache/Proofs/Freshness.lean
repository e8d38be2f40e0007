import PageCache.Proofs.Clearing
import PageCache.Proofs.Faithful

namespace PageCache

namespace Pool

variable {τ : Type} {pool next : Pool τ} {file : FileId} {count : Nat}
  {spanned : FileId → Nat → Prop}

-- Whatever the file holds has come with a fetch of later on.
def Since (pool : Pool τ) (file : FileId) (count : Nat) : Prop :=
  ∀ page found, pool.pageAt? file page = some found → count ≤ found.fetch

theorem Since.renews (h : pool.Since file count) (hc : count ≤ pool.fetches.size)
    (hn : pool.Renews next spanned) : next.Since file count := by
  intro page found hp
  rcases hn.page file page found hp with ⟨old, hold, he⟩ | ⟨_, hle⟩
  · exact he ▸ h page old hold
  · exact hc.trans hle

theorem Since.le_of_sources (h : pool.Since file count) (hc : count ≤ pool.fetches.size)
    {page : Nat} {fetch : FetchId} (hs : pool.Sources file page fetch) : count ≤ fetch := by
  rcases hs with ⟨found, hfound, rfl⟩ | hle
  · exact h page found hfound
  · exact hc.trans hle

theorem revalidate_eq_false {recorded attributes : Attributes}
    (hr : pool.attributes? file = some recorded) (hn : recorded ≠ attributes) :
    (pool.revalidate file attributes).2 = false := by
  obtain ⟨cached, hf, ha⟩ := Option.bind_eq_some_iff.mp hr
  have hs : cached.isStale attributes = true := by simpa [FileCache.isStale, ha] using hn
  simp only [revalidate, hf, hs, if_true]

-- A page of before, when no page was still being fetched, is one that was loaded before. The
-- attributes on record are those that it came with, then as well as now.
theorem exists_loaded_of_lt (hc : pool.Coherent)
    (hidle : ∀ page fetch waiters, pool.pageAt? file page ≠ some (.fetching fetch waiters))
    (hlater : pool.Later next) (hrenews : pool.Renews next spanned) (hb : next.Backed)
    (hn : next.Coherent) {page : Nat} {found : Page} (hp : next.pageAt? file page = some found)
    (hlt : found.fetch < pool.fetches.size) :
    ∃ data attributes, found = .loaded found.fetch data ∧
      pool.attributes? file = some attributes ∧ next.attributes? file = some attributes := by
  rcases hrenews.page file page found hp with ⟨old, hold, he⟩ | ⟨_, hle⟩
  · cases old with
    | fetching fetch waiters => exact absurd hold (hidle page fetch waiters)
    | loaded fetch data =>
        obtain ⟨attributes, ha, ho⟩ := hc.of_page hold
        have hsame := hlater.outcomes fetch _ ho
        cases found with
        | fetching other waiters =>
            cases he
            cases hsame.symm.trans (hb.fetching file page fetch waiters hp).2
        | loaded other bytes =>
            cases he
            obtain ⟨recorded, hr, hother⟩ := hn.of_page hp
            cases hsame.symm.trans hother
            exact ⟨data, attributes, rfl, ha, hr⟩
  · exact absurd hlt (Nat.not_lt_of_le hle)

end Pool

namespace Mount

variable {σ τ : Type} {backend : Backend σ τ} {mount : Mount σ τ} {file : FileId} {op : Op}

-- A file is invalidated, or revalidated with attributes that are not on record for it.
def Refreshes (pool : Pool τ) (op : Op) (file : FileId) : Prop :=
  op = .invalidate file ∨ ∃ attributes, op = .revalidate file attributes ∧
    pool.attributes? file ≠ some attributes

-- No page of before is left then.
theorem since_refresh {pool : Pool τ} {spanned : FileId → Nat → Prop}
    (hop : Refreshes pool op file) (hc : pool.Coherent)
    (hidle : ∀ page fetch waiters, pool.pageAt? file page ≠ some (.fetching fetch waiters))
    (hlater : pool.Later mount.pool) (hrenews : pool.Renews mount.pool spanned)
    (ho : mount.pool.Ordered) (ha : mount.pool.Accounted) (hb : mount.pool.Backed)
    (hn : mount.pool.Coherent) :
    (mount.step backend op).1.pool.Since file pool.fetches.size := by
  intro page found hp
  by_contra hlt
  rcases (moves_step backend mount op).renews.page file page found hp with
    ⟨old, hold, he⟩ | ⟨⟨_, _, _, hread, _⟩, _⟩
  · have hfetch : old.fetch < pool.fetches.size := he ▸ Nat.lt_of_not_le hlt
    obtain ⟨data, attributes, hloaded, hrecorded, hstill⟩ :=
      Pool.exists_loaded_of_lt hc hidle hlater hrenews hb hn hold hfetch
    have hinvalidates : mount.Invalidates backend op file := by
      refine hop.imp id fun ⟨given, hgiven, hne⟩ => ⟨given, hgiven, ?_⟩
      subst hgiven
      have hdiffer : attributes ≠ given := fun he => hne (he ▸ hrecorded)
      exact congrArg Answer.flag (Pool.revalidate_eq_false hstill hdiffer)
    -- a page that is loaded has no waiters, so that it is among those that go
    obtain ⟨dropped, hclears, _⟩ := hinvalidates.clears ho ha
    rw [hclears.page, hold, hloaded] at hp
    cases hp
  · rcases hop with rfl | ⟨attributes, rfl, _⟩
    · cases hread
    · cases hread

-- So it is in a run, whatever happens in between and afterwards.
theorem since_run (backend : Backend σ τ) (limits : Limits) (storage : σ)
    (before between rest : List (Act σ))
    (hidle : ∀ page fetch waiters, (run backend (create limits storage) before).pool.pageAt? file
      page ≠ some (.fetching fetch waiters))
    (hop : Refreshes (run backend (create limits storage) before).pool op file) :
    let count := (run backend (create limits storage) before).pool.fetches.size
    let later := run backend (create limits storage) (before ++ between ++ .ask op :: rest)
    later.pool.Since file count ∧ count ≤ later.pool.fetches.size := by
  intro count later
  let first := run backend (create limits storage) before
  let middle := run backend (create limits storage) (before ++ between)
  obtain ⟨plans, hfirst, _⟩ := exists_steady backend limits storage before
  obtain ⟨_, hmiddle, _⟩ := exists_steady backend limits storage (before ++ between)
  have hbetween : middle = first.run backend between := run_append ..
  have hlater : first.pool.Later middle.pool := by
    obtain ⟨_, hsteps⟩ := exists_steps_run backend between hfirst
    rw [hbetween]
    exact hsteps.later
  have hrenews := renews_run backend first between
  rw [← hbetween] at hrenews
  have hsince : (middle.step backend op).1.pool.Since file count :=
    since_refresh hop (coherent_run backend limits storage before) hidle hlater hrenews
      hmiddle.sound.ordered (accounted_run backend limits storage _) hmiddle.sound.backed
      (coherent_run backend limits storage _)
  have hcount : count ≤ (middle.step backend op).1.pool.fetches.size :=
    hrenews.size.trans (moves_step backend middle op).renews.size
  have hrest := renews_run backend (middle.step backend op).1 rest
  have he : later = (middle.step backend op).1.run backend rest := run_append ..
  rw [he]
  exact ⟨hsince.renews hcount hrest, hcount.trans hrest.size⟩

-- When a file is replaced all that is fetched of it from then on is what it holds since.
theorem current_of_change {backend : Backend σ τ} {limits : Limits}
    {contents : σ → FileId → Bytes} (faithful : backend.Faithful limits.Asks contents)
    {storage : σ} (hg : faithful.good storage) {before : List (Act σ)} {become : σ → σ}
    (hb : ∀ act ∈ before, faithful.Allows act) (hc : faithful.Allows (.change become))
    (file : FileId) :
    let changed := run backend (create limits storage) (before ++ [.change become])
    faithful.Current file (contents changed.storage file)
      (run backend (create limits storage) before).pool.fetches.size changed.storage
      changed.pool.fetches := by
  intro changed
  have hserved : changed.Served faithful.serving := by
    refine served_run faithful.serving hg fun act hact => ?_
    rcases List.mem_append.mp hact with hact | hact
    · exact Backend.Faithful.allows_serving (hb act hact)
    · exact Backend.Faithful.allows_serving (List.mem_singleton.mp hact ▸ hc)
  refine ⟨hserved.good, rfl, fun id fetch hf => (hserved.pool id fetch hf).1,
    fun id fetch hf hle => ?_⟩
  simp only [changed, run_append] at hf
  exact absurd (Array.getElem?_eq_some_iff.mp hf).1 (Nat.not_lt_of_le hle)

-- A file is replaced while none of its pages is being fetched, and then it is invalidated, or
-- revalidated with attributes that tell of the change. A read that starts afterwards and
-- succeeds returns what the file holds since, whatever else goes on.
theorem fresh_after_change {backend : Backend σ τ} {limits : Limits}
    {contents : σ → FileId → Bytes} (faithful : backend.Faithful limits.Asks contents)
    {storage : σ} (hg : faithful.good storage) {before middle rest after : List (Act σ)}
    {become : σ → σ} {file : FileId} {op : Op} (hb : ∀ act ∈ before, faithful.Allows act)
    (hidle : ∀ page fetch waiters, (run backend (create limits storage) before).pool.pageAt? file
      page ≠ some (.fetching fetch waiters))
    (hc : faithful.Allows (.change become))
    (hop : Refreshes (run backend (create limits storage) before).pool op file)
    (hk : ∀ act ∈ middle ++ rest ++ after, faithful.Keeps file act)
    {offset length : Nat} {reply : Reply} {final : Mount σ τ}
    (h : Returns backend (run backend (create limits storage)
      (before ++ .change become :: middle ++ .ask op :: rest)) file offset length after
      (.ok reply) final) :
    let changed := run backend (create limits storage) (before ++ [.change become])
    reply.bytes = (contents changed.storage file).slice offset (offset + length) := by
  intro changed
  have hrun : run backend (create limits storage)
      (before ++ .change become :: middle ++ .ask op :: rest) =
      changed.run backend (middle ++ .ask op :: rest) := by
    simp only [changed, ← run_append]
    simp
  obtain ⟨_, hchanged, hlimits⟩ := exists_steady backend limits storage (before ++ [.change become])
  obtain ⟨_, hs, hsame⟩ := exists_steady backend limits storage
    (before ++ .change become :: middle ++ .ask op :: rest)
  have hkeeps : ∀ act ∈ middle ++ .ask op :: rest, faithful.Keeps file act := by
    intro act hact
    rcases List.mem_append.mp hact with hact | hact
    · exact hk act (List.mem_append_left _ (List.mem_append_left _ hact))
    · rcases List.mem_cons.mp hact with rfl | hact
      · trivial
      · exact hk act (List.mem_append_left _ (List.mem_append_right _ hact))
  have hstable := faithful.stable_current file (contents changed.storage file)
    (run backend (create limits storage) before).pool.fetches.size
  have hcurrent := hstable.run (middle ++ .ask op :: rest) hlimits hchanged
    (fun act hact => (hkeeps act hact).leaves _ _) (current_of_change faithful hg hb hc file)
  obtain ⟨hsince, hcount⟩ := since_run backend limits storage before (.change become :: middle)
    rest hidle hop
  rw [hrun] at h hs hsame hsince hcount
  have hfinal := h.stable hstable hsame hs
    (fun act hact => (hk act (List.mem_append_right _ hact)).leaves _ _) hcurrent
  exact (h.bytes_of_pages hs _ fun page fetch data attributes hsource hcall ho =>
    hfinal.data_eq (hsince.le_of_sources hcount hsource) hcall ho).1

-- The file is replaced by a shorter one, and the gate is released.
def replaceGated (storage : Gates × Memory) : Gates × Memory :=
  (storage.1.release 0, storage.2.insert 0 [20, 21, 22, 23, 24, 25])

def untilRevalidated : List (Act (Gates × Memory)) :=
  [.ask (.read 0 0 4 .all)] ++ .change replaceGated :: [] ++
    .ask (.revalidate 0 ⟨6, 2000000000⟩) :: [.ask (.read 0 4 4 .all)]

def revalidatedFinal : Mount (Gates × Memory) (Option GateId) :=
  ((run Memory.backend gatedMount untilRevalidated).read Memory.backend 0 2 8 .all).1

theorem fresh_after_gated_change :
    let before := run Memory.backend gatedMount [.ask (.read 0 0 4 .all)]
    let changed := run Memory.backend gatedMount
      ([.ask (.read 0 0 4 .all)] ++ [.change replaceGated])
    before.pool.attributes? 0 = some ⟨10, 1000000000⟩ ∧
    (∀ page fetch waiters, before.pool.pageAt? 0 page ≠ some (.fetching fetch waiters)) ∧
    Refreshes before.pool (.revalidate 0 ⟨6, 2000000000⟩) 0 ∧
    Returns Memory.backend (run Memory.backend gatedMount untilRevalidated) 0 2 8 []
      (.ok ⟨[⟨2, [22, 23]⟩, ⟨4, [24, 25]⟩]⟩) revalidatedFinal ∧
    Reply.bytes ⟨[⟨2, [22, 23]⟩, ⟨4, [24, 25]⟩]⟩ =
      (Memory.bytesOf changed.storage.2.files 0).slice 2 10 := by
  intro before changed
  have hidle : ∀ page fetch waiters,
      before.pool.pageAt? 0 page ≠ some (.fetching fetch waiters) := by
    intro page fetch waiters hp
    obtain ⟨cached, hf, hfound⟩ := Option.bind_eq_some_iff.mp hp
    cases hf
    obtain ⟨slot, hs, _, hv⟩ := LruMap.exists_slot hfound
    cases List.mem_singleton.mp hs
    cases hv
  have hop : Refreshes before.pool (.revalidate 0 ⟨6, 2000000000⟩) 0 :=
    .inr ⟨_, rfl, by decide⟩
  have hr : Returns Memory.backend (run Memory.backend gatedMount untilRevalidated) 0 2 8 []
      (.ok ⟨[⟨2, [22, 23]⟩, ⟨4, [24, 25]⟩]⟩) revalidatedFinal :=
    ⟨.all, .inl ⟨rfl, rfl⟩⟩
  have hg : (Memory.faithful fourByteLimits.Asks).good gatedStorage := rfl
  have hb : ∀ act ∈ [Act.ask (.read 0 0 4 .all)],
      (Memory.faithful fourByteLimits.Asks).Allows act :=
    List.forall_mem_singleton.mpr trivial
  have hc : (Memory.faithful fourByteLimits.Asks).Allows (.change replaceGated) := fun _ h => h
  have hk : ∀ act ∈ [] ++ [Act.ask (.read 0 4 4 .all)] ++ [],
      (Memory.faithful fourByteLimits.Asks).Keeps 0 act := List.forall_mem_singleton.mpr trivial
  have hbytes :=
    fresh_after_change (Memory.faithful fourByteLimits.Asks) hg hb hidle hc hop hk hr
  exact ⟨rfl, hidle, hop, hr, hbytes⟩

end Mount

end PageCache
