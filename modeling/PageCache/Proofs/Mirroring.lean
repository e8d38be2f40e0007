import PageCache.Proofs.Renumbering
import PageCache.Proofs.Traffic

namespace PageCache

variable {τ : Type}

-- Fetches of the same bytes that have come equally far. Their tokens may differ.
inductive Fetch.Like : Fetch τ → Fetch τ → Prop
  | idle (call : Call) : Like ⟨call, .idle⟩ ⟨call, .idle⟩
  | running (call : Call) (token other : τ) : Like ⟨call, .running token⟩ ⟨call, .running other⟩
  | complete (call : Call) (outcome : Outcome) :
      Like ⟨call, .complete outcome⟩ ⟨call, .complete outcome⟩

theorem Fetch.Like.call {fetch image : Fetch τ} (h : fetch.Like image) :
    image.call = fetch.call := by
  cases h <;> rfl

namespace Pool

variable {pool next mirror image : Pool τ} {file : FileId} {mine : ReadId → Prop}
  {numbers : Numbering} {id : ReadId}

-- Nothing changes but files, the count of pages and the journal.
structure Rests (pool next : Pool τ) : Prop where
  limits : next.limits = pool.limits
  fetches : next.fetches = pool.fetches
  gatherings : next.gatherings = pool.gatherings
  live : next.live = pool.live

theorem Rests.trans {middle : Pool τ} (h : pool.Rests middle) (hn : middle.Rests next) :
    pool.Rests next :=
  ⟨hn.limits.trans h.limits, hn.fetches.trans h.fetches, hn.gatherings.trans h.gatherings,
    hn.live.trans h.live⟩

theorem Trims.rests (h : pool.Trims next) : pool.Rests next :=
  ⟨h.limits, h.fetches, h.gatherings, h.live⟩

theorem rests_modifyFile (pool : Pool τ) (file : FileId) (change : FileCache → FileCache) :
    pool.Rests (pool.modifyFile file change) := ⟨rfl, rfl, rfl, rfl⟩

theorem rests_emit (pool : Pool τ) (event : Event) : pool.Rests (pool.emit event) :=
  ⟨rfl, rfl, rfl, rfl⟩

theorem rests_require (pool : Pool τ) (holds : Bool) (breach : Breach) :
    pool.Rests (pool.require holds breach) := (trims_require ..).rests

theorem rests_dropPages (pool : Pool τ) (file : FileId) (pages : List Nat) (event : Event) :
    pool.Rests (pool.dropPages file pages event) :=
  ((rests_modifyFile pool file (·.drop pages)).trans (rests_emit _ event)).trans
    (trims_shrink _ pages.length).rests

theorem rests_removeFile (pool : Pool τ) (file : FileId) : pool.Rests (pool.removeFile file) := by
  obtain ⟨hlimits, hfetches, _, hgatherings, hlive⟩ := removeFile_frame pool file
  exact ⟨hlimits, hfetches, hgatherings, hlive⟩

theorem rests_enter (pool : Pool τ) (file : FileId) : pool.Rests (pool.enter file) := by
  obtain ⟨hlimits, hfetches, hgatherings, hlive, _⟩ := enter_frame pool file
  exact ⟨hlimits, hfetches, hgatherings, hlive⟩

theorem rests_load (pool : Pool τ) (file : FileId) (wait : Wait) (waiters : List ReadId)
    (data : Bytes) (attributes : Attributes) :
    pool.Rests (pool.load file wait waiters data attributes) := by
  let stored := pool.modifyFile file fun cached =>
    { cached with
      pages := cached.pages.insert wait.page (.loaded wait.fetch data)
      attributes := some attributes }
  have hstored : pool.Rests stored := rests_modifyFile ..
  unfold load
  simp only
  split
  · exact (hstored.trans (trims_dropStale stored file wait.page).rests).trans (rests_emit ..)
  · exact hstored.trans (rests_emit ..)

-- The fetch of a page of the file.
def Owns (pool : Pool τ) (file : FileId) (id : FetchId) : Prop :=
  ∃ call, pool.call? id = some call ∧ call.file = file

theorem owns_iff {id : FetchId} :
    pool.Owns file id ↔ ∃ fetch, pool.fetches[id]? = some fetch ∧ fetch.call.file = file := by
  unfold Owns call?
  cases pool.fetches[id]? <;> simp

theorem Owns.congr {id : FetchId} (h : pool.Owns file id) (hc : next.call? = pool.call?) :
    next.Owns file id := by
  rwa [Owns, hc]

-- The second pool holds one file of the first and nothing else. It knows the reads and fetches
-- of the file by numbers of their own.
structure Mirrors (file : FileId) (mine : ReadId → Prop) (numbers : Numbering)
    (pool mirror : Pool τ) : Prop where
  limits : mirror.limits = pool.limits
  cached : (mirror.files.find? file).map FileCache.anonymous =
    (pool.files.find? file).map (·.renumber numbers)
  alone : ∀ other ≠ file, mirror.files.find? other = none
  fetch : ∀ (id : FetchId) (fetch : Fetch τ), pool.fetches[id]? = some fetch →
    fetch.call.file = file →
    ∃ image, mirror.fetches[numbers.fetch id]? = some image ∧ fetch.Like image
  fetches : ∀ id other, pool.Owns file id → pool.Owns file other →
    numbers.fetch id = numbers.fetch other → id = other
  gathering : ∀ id, mine id → mirror.gatherings[numbers.read id]? = pool.gatherings[id]?
  reads : ∀ id other, mine id → mine other → numbers.read id = numbers.read other → id = other
  waits : ∀ id, mine id → (mirror.live? (numbers.read id)).map (·.waits) =
    (pool.live? id).map (·.waits.map (·.renumber numbers))

section Mirrors

variable (h : Mirrors file mine numbers pool mirror)
include h

-- Beyond the files, whatever stays in the one stays in the other.
theorem Mirrors.rests (hp : pool.Rests next) (hm : mirror.Rests image)
    (hf : (image.files.find? file).map FileCache.anonymous =
      (next.files.find? file).map (·.renumber numbers))
    (ha : ∀ other ≠ file, image.files.find? other = none) :
    Mirrors file mine numbers next image where
  limits := by rw [hm.limits, h.limits, hp.limits]
  cached := hf
  alone := ha
  fetch := by rw [hm.fetches, hp.fetches]; exact h.fetch
  fetches := by simpa only [Owns, call?, hp.fetches] using h.fetches
  gathering := by rw [hm.gatherings, hp.gatherings]; exact h.gathering
  reads := h.reads
  waits id hid := by rw [live?_of_live hm.live, live?_of_live hp.live]; exact h.waits id hid

theorem Mirrors.of_files (hp : pool.Rests next) (hm : mirror.Rests image)
    (hn : next.files = pool.files) (hi : image.files = mirror.files) :
    Mirrors file mine numbers next image :=
  h.rests hp hm (by rw [hn, hi]; exact h.cached) (by rw [hi]; exact h.alone)

-- The file changes in the same way here and there.
theorem Mirrors.updates {change same : FileCache → FileCache} (hp : pool.Rests next)
    (hm : mirror.Rests image) (hup : pool.Updates next file change)
    (hum : mirror.Updates image file same)
    (hc : ∀ cached, (change cached).renumber numbers = same (cached.renumber numbers))
    (ha : ∀ cached, (same cached).anonymous = same cached.anonymous) :
    Mirrors file mine numbers next image := by
  refine h.rests hp hm ?_ fun other hne => ?_
  · rw [hum.find? file, hup.find? file, if_pos rfl, if_pos rfl, Option.map_map, Option.map_map]
    have hsame : FileCache.anonymous ∘ same = same ∘ FileCache.anonymous :=
      funext fun cached => ha cached
    have hchange : FileCache.renumber numbers ∘ change = same ∘ FileCache.renumber numbers :=
      funext fun cached => hc cached
    rw [hsame, hchange, ← Option.map_map, ← Option.map_map, h.cached]
  · rw [hum.find? other, if_neg hne, h.alone other hne]

theorem Mirrors.modifyFile (change same : FileCache → FileCache)
    (hc : ∀ cached, (change cached).renumber numbers = same (cached.renumber numbers))
    (ha : ∀ cached, (same cached).anonymous = same cached.anonymous) :
    Mirrors file mine numbers (pool.modifyFile file change) (mirror.modifyFile file same) :=
  h.updates (rests_modifyFile ..) (rests_modifyFile ..) (updates_modifyFile ..)
    (updates_modifyFile ..) hc ha

theorem Mirrors.dropPages (pages : List Nat) (event other : Event) :
    Mirrors file mine numbers (pool.dropPages file pages event)
      (mirror.dropPages file pages other) :=
  h.updates (rests_dropPages ..) (rests_dropPages ..) (updates_dropPages ..)
    (updates_dropPages ..) (fun cached => cached.drop_renumber pages) fun _ => rfl

theorem Mirrors.emit (event other : Event) :
    Mirrors file mine numbers (pool.emit event) (mirror.emit other) :=
  h.of_files (rests_emit ..) (rests_emit ..) rfl rfl

theorem Mirrors.require (holds same : Bool) (breach other : Breach) :
    Mirrors file mine numbers (pool.require holds breach) (mirror.require same other) :=
  h.of_files (rests_require ..) (rests_require ..) (files_require ..) (files_require ..)

theorem Mirrors.mem_map_read {ids : List ReadId} (hids : ∀ id ∈ ids, mine id) (hid : mine id) :
    numbers.read id ∈ ids.map numbers.read ↔ id ∈ ids := by
  refine ⟨fun hm => ?_, List.mem_map_of_mem⟩
  obtain ⟨other, ho, he⟩ := List.mem_map.mp hm
  exact h.reads other id (hids other ho) hid he ▸ ho

theorem Mirrors.delivers (ids : List ReadId) {change : Gathering → Gathering}
    (hids : ∀ id ∈ ids, mine id) (hp : pool.Delivers next ids change)
    (hm : mirror.Delivers image (ids.map numbers.read) change) :
    Mirrors file mine numbers next image where
  limits := by rw [hm.limits, h.limits, hp.limits]
  cached := by rw [hm.files, hp.files]; exact h.cached
  alone := by rw [hm.files]; exact h.alone
  fetch := by rw [hm.fetches, hp.fetches]; exact h.fetch
  fetches := by simpa only [Owns, call?, hp.fetches] using h.fetches
  gathering id hid := by
    rw [hm.gatherings, hp.gatherings, h.gathering id hid]
    simp only [h.mem_map_read hids hid]
  reads := h.reads
  waits id hid := by rw [live?_of_live hm.live, live?_of_live hp.live]; exact h.waits id hid

theorem Mirrors.nodup_map_read {ids : List ReadId} (hids : ∀ id ∈ ids, mine id)
    (hn : ids.Nodup) : (ids.map numbers.read).Nodup :=
  hn.map_on fun id hid other ho he => h.reads id other (hids id hid) (hids other ho) he

end Mirrors

end Pool

end PageCache
