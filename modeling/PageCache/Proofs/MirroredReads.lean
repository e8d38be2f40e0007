import PageCache.Proofs.Mirroring

namespace PageCache

namespace Pool

variable {τ : Type} {pool mirror : Pool τ} {file : FileId} {mine : ReadId → Prop}
  {numbers : Numbering} {id : ReadId} {lease image : Lease} {cached : FileCache}

-- The number that a new read takes is free.
theorem live?_size (hp : ∀ read ∈ pool.live, read.id < pool.gatherings.size) :
    pool.live? pool.gatherings.size = none :=
  List.find?_eq_none.mpr fun read hr => by simpa using (hp read hr).ne

theorem live?_register (pool : Pool τ) (lease : Lease) (offset stop : Nat) (id : ReadId) :
    (pool.register lease offset stop).live? id = (pool.live? id).or
      (if pool.gatherings.size = id then some { id := pool.gatherings.size, lease := lease }
        else none) := by
  simp only [Pool.register, live?, List.find?_append, List.find?_cons, List.find?_nil]
  by_cases he : pool.gatherings.size = id
  · simp [he]
  · simp [he, beq_eq_false_iff_ne.mpr he]

theorem live?_modifyLive_of_ne (pool : Pool τ) {id other : ReadId} (hne : other ≠ id)
    {change : LiveRead → LiveRead} (hi : ∀ read, (change read).id = read.id) :
    (pool.modifyLive id change).live? other = pool.live? other := by
  have hid : ∀ read : LiveRead, (if read.id = id then change read else read).id = read.id := by
    intro read
    split
    · exact hi read
    · rfl
  simp only [live?, modifyLive, List.find?_map, Function.comp_def, hid]
  cases hr : pool.live.find? (·.id == other) with
  | none => rfl
  | some read =>
      have hread : read.id = other := by simpa using List.find?_some hr
      rw [Option.map_some, if_neg (hread ▸ hne)]

theorem fetches_join (pool : Pool τ) (id : ReadId) (lease : Lease) (wait : Wait) :
    (pool.join id lease wait).fetches = pool.fetches := (join_frame pool id lease wait).2.1

theorem Keeps.size_le {kept : Pool τ} (h : pool.Keeps kept) :
    pool.fetches.size ≤ kept.fetches.size := by
  refine Nat.le_of_not_lt fun hlt => ?_
  obtain ⟨call, hc⟩ := Option.ne_none_iff_exists'.mp
    (fun hn => absurd (call?_eq_none_iff.mp hn) (Nat.not_le.mpr hlt))
  exact absurd (h.calls _ call hc) (by rw [call?_eq_none_iff.mpr (Nat.le_refl _)]; nofun)

theorem size_lookupSpan_le (pool : Pool τ) (file : FileId) (offset stop : Nat) :
    pool.fetches.size ≤ (pool.lookupSpan file offset stop).fetches.size := by
  have hregistered : (pool.registered file offset stop).fetches = pool.fetches :=
    (rests_enter pool file).fetches
  rw [lookupSpan_eq, fetches_require, ← hregistered]
  exact (keeps_lookups ..).size_le

section Mirrors

variable (h : Mirrors file mine numbers pool mirror)
include h

theorem Mirrors.absent (hf : pool.files.find? file = none) : mirror.files.find? file = none := by
  have hcached := h.cached
  rwa [hf, Option.map_none, Option.map_eq_none_iff] at hcached

theorem Mirrors.found (hf : pool.files.find? file = some cached) :
    ∃ other, mirror.files.find? file = some other ∧ cached.Twins numbers other := by
  have hcached := h.cached
  rw [hf, Option.map_some, Option.map_eq_some_iff] at hcached
  obtain ⟨other, ho, hsame⟩ := hcached
  exact ⟨other, ho, FileCache.twins_of_anonymous hsame⟩

theorem Mirrors.pageAt? (page : Nat) :
    mirror.pageAt? file page = (pool.pageAt? file page).map (·.renumber numbers) := by
  unfold Pool.pageAt?
  cases hf : pool.files.find? file with
  | none =>
      rw [h.absent hf]
      rfl
  | some cached =>
      obtain ⟨other, ho, htwins⟩ := h.found hf
      rw [ho, Option.bind_some, Option.bind_some, htwins.pages, LruMap.find?_map]

theorem Mirrors.page? (hp : pool.Holds lease) (hm : mirror.Holds image) (hl : lease.file = file)
    (hi : image.file = file) (page : Nat) :
    mirror.page? image page = (pool.page? lease page).map (·.renumber numbers) := by
  rw [page?_eq_pageAt? page hp, page?_eq_pageAt? page hm, hl, hi, h.pageAt?]

theorem Mirrors.resident :
    (mirror.resident file).anonymous = (pool.resident file).renumber numbers := by
  have hcached := h.cached
  unfold Pool.resident
  cases hf : pool.files.find? file with
  | none =>
      rw [h.absent hf]
      rfl
  | some cached =>
      rw [hf, Option.map_some, Option.map_eq_some_iff] at hcached
      obtain ⟨other, ho, hsame⟩ := hcached
      rw [ho]
      exact hsame

theorem Mirrors.enter : Mirrors file mine numbers (pool.enter file) (mirror.enter file) := by
  refine h.rests (rests_enter ..) (rests_enter ..) ?_ fun other hne => ?_
  · have hresident := h.resident
    have hreaders := (FileCache.twins_of_anonymous hresident).readers
    rw [find?_enter, find?_enter, if_pos rfl, if_pos rfl, Option.map_some, Option.map_some,
      Option.some.injEq, hreaders]
    exact congrArg (fun cached : FileCache =>
      { cached with readers := (pool.resident file).readers + 1 }) hresident
  · rw [find?_enter, if_neg hne, h.alone other hne]

theorem Mirrors.read_lt (hid : mine id) (hknown : id < pool.gatherings.size) :
    numbers.read id < mirror.gatherings.size := by
  have hg := h.gathering id hid
  rw [Array.getElem?_eq_getElem hknown] at hg
  exact (Array.getElem?_eq_some_iff.mp hg).1

-- The new read has the next number here and there.
theorem Mirrors.register {grown : ReadId → Prop}
    (hn : numbers.read pool.gatherings.size = mirror.gatherings.size)
    (hg : ∀ id, grown id ↔ mine id ∨ id = pool.gatherings.size)
    (hknown : ∀ id, mine id → id < pool.gatherings.size)
    (hp : ∀ read ∈ pool.live, read.id < pool.gatherings.size)
    (hm : ∀ read ∈ mirror.live, read.id < mirror.gatherings.size) (lease image : Lease)
    (offset stop : Nat) :
    Mirrors file grown numbers (pool.register lease offset stop)
      (mirror.register image offset stop) where
  limits := h.limits
  cached := h.cached
  alone := h.alone
  fetch := h.fetch
  fetches := h.fetches
  gathering id hid := by
    simp only [Pool.register, Array.getElem?_push]
    rcases (hg id).mp hid with hold | rfl
    · rw [if_neg (h.read_lt hold (hknown id hold)).ne, if_neg (hknown id hold).ne]
      exact h.gathering id hold
    · rw [if_pos hn, if_pos rfl]
  reads id other hid ho he := by
    rcases (hg id).mp hid with hold | rfl <;> rcases (hg other).mp ho with hother | rfl
    · exact h.reads id other hold hother he
    · exact absurd (he.trans hn) (h.read_lt hold (hknown id hold)).ne
    · exact absurd (he.symm.trans hn) (h.read_lt hother (hknown other hother)).ne
    · rfl
  waits id hid := by
    rw [live?_register, live?_register]
    rcases (hg id).mp hid with hold | rfl
    · rw [if_neg (h.read_lt hold (hknown id hold)).ne', if_neg (hknown id hold).ne',
        Option.or_none, Option.or_none]
      exact h.waits id hold
    · rw [hn, live?_size hp, live?_size hm, if_pos rfl, if_pos rfl]
      rfl

-- A fetch of a page of the file comes last here and there.
theorem Mirrors.push (hn : numbers.fetch pool.fetches.size = mirror.fetches.size) (call : Call) :
    Mirrors file mine numbers { pool with fetches := pool.fetches.push ⟨call, .idle⟩ }
      { mirror with fetches := mirror.fetches.push ⟨call, .idle⟩ } where
  limits := h.limits
  cached := h.cached
  alone := h.alone
  fetch id fetch hf hfile := by
    simp only [Array.getElem?_push] at hf ⊢
    split at hf
    · rename_i he
      cases hf
      rw [he, if_pos hn]
      exact ⟨_, rfl, .idle call⟩
    · obtain ⟨image, hi, hlike⟩ := h.fetch id fetch hf hfile
      rw [if_neg (Array.getElem?_eq_some_iff.mp hi).1.ne]
      exact ⟨image, hi, hlike⟩
  fetches id other hid ho he := by
    have hcases : ∀ name, Owns { pool with fetches := pool.fetches.push ⟨call, .idle⟩ } file name →
        pool.Owns file name ∧ numbers.fetch name < mirror.fetches.size ∨
          name = pool.fetches.size := by
      intro name hname
      obtain ⟨fetch, hf, hfile⟩ := owns_iff.mp hname
      simp only [Array.getElem?_push] at hf
      split at hf
      · rename_i hlast
        exact .inr hlast
      · obtain ⟨image, hi, _⟩ := h.fetch name fetch hf hfile
        exact .inl ⟨owns_iff.mpr ⟨fetch, hf, hfile⟩, (Array.getElem?_eq_some_iff.mp hi).1⟩
    rcases hcases id hid with ⟨hid, hlt⟩ | rfl <;> rcases hcases other ho with ⟨ho, hother⟩ | rfl
    · exact h.fetches id other hid ho he
    · exact absurd (he.trans hn) hlt.ne
    · exact absurd (he.symm.trans hn) hother.ne
    · rfl
  gathering := h.gathering
  reads := h.reads
  waits := h.waits

-- All fetches to come have the next numbers here and there.
def Aligned (numbers : Numbering) (pool mirror : Pool τ) : Prop :=
  ∀ more, numbers.fetch (pool.fetches.size + more) = mirror.fetches.size + more

omit h in
theorem Aligned.of_fetches {next image : Pool τ} (ha : Aligned numbers pool mirror)
    (hp : next.fetches = pool.fetches) (hm : image.fetches = mirror.fetches) :
    Aligned numbers next image := by
  rwa [Aligned, hp, hm]

theorem Mirrors.createPage (ha : Aligned numbers pool mirror) (page : Nat) :
    Mirrors file mine numbers (pool.createPage file page) (mirror.createPage file page) ∧
      Aligned numbers (pool.createPage file page) (mirror.createPage file page) := by
  have hn : numbers.fetch pool.fetches.size = mirror.fetches.size := ha 0
  have hpushed := h.push hn ⟨file, page, pool.limits.pageSize⟩
  have hinserted := hpushed.modifyFile
    (fun cached => { cached with
      pages := cached.pages.insert page (.fetching pool.fetches.size []) })
    (fun cached => { cached with
      pages := cached.pages.insert page (.fetching mirror.fetches.size []) })
    (fun cached => by
      simp only [FileCache.renumber, ← LruMap.insert_map, Page.renumber, hn, List.map_nil])
    fun _ => rfl
  have hcall : (⟨file, page, mirror.limits.pageSize⟩ : Call) =
      ⟨file, page, pool.limits.pageSize⟩ := by
    rw [h.limits]
  have hsize : ∀ known : Pool τ,
      (known.createPage file page).fetches.size = known.fetches.size + 1 := fun known =>
    Array.size_push ..
  refine ⟨?_, fun more => ?_⟩
  · unfold Pool.createPage
    rw [hcall]
    exact hinserted.of_files ⟨rfl, rfl, rfl, rfl⟩ ⟨rfl, rfl, rfl, rfl⟩ rfl rfl
  · rw [hsize, hsize, Nat.add_assoc, Nat.add_assoc]
    exact ha (1 + more)

theorem Mirrors.modifyLive (hid : mine id) {change same : LiveRead → LiveRead}
    (hi : ∀ read, (change read).id = read.id) (hs : ∀ read, (same read).id = read.id)
    (hw : ∀ read other, pool.live? id = some read →
      other.waits = read.waits.map (·.renumber numbers) →
      (same other).waits = (change read).waits.map (·.renumber numbers)) :
    Mirrors file mine numbers (pool.modifyLive id change)
      (mirror.modifyLive (numbers.read id) same) where
  limits := h.limits
  cached := h.cached
  alone := h.alone
  fetch := h.fetch
  fetches := h.fetches
  gathering := h.gathering
  reads := h.reads
  waits other ho := by
    have hold := h.waits other ho
    by_cases he : other = id
    · subst he
      rw [live?_modifyLive _ _ hs, live?_modifyLive _ _ hi]
      cases hr : pool.live? other with
      | none =>
          rw [hr, Option.map_none, Option.map_eq_none_iff] at hold
          rw [hold]
          rfl
      | some read =>
          rw [hr, Option.map_some, Option.map_eq_some_iff] at hold
          obtain ⟨own, hown, hwaits⟩ := hold
          rw [hown, Option.map_some, Option.map_some, Option.map_some, Option.map_some,
            hw read own hr hwaits]
    · have hne : numbers.read other ≠ numbers.read id := fun hread =>
        he (h.reads other id ho hid hread)
      rwa [live?_modifyLive_of_ne _ hne hs, live?_modifyLive_of_ne _ he hi]

theorem Mirrors.join (hid : mine id) (hl : lease.file = file) (hi : image.file = file)
    (wait : Wait) :
    Mirrors file mine numbers (pool.join id lease wait)
      (mirror.join (numbers.read id) image (wait.renumber numbers)) := by
  have hchecked := h.require ((pool.page? lease wait.page).any (!·.isLoaded))
    ((mirror.page? image wait.page).any (!·.isLoaded)) .waitForLoaded .waitForLoaded
  have hwaiting := hchecked.modifyFile
    (fun cached => { cached with pages := cached.pages.modify wait.page (Page.wait id) })
    (fun cached => { cached with
      pages := cached.pages.modify wait.page (Page.wait (numbers.read id)) })
    (fun cached => by
      simp only [FileCache.renumber]
      rw [LruMap.modify_map _ _ _ fun page : Page => page.wait_renumber id])
    fun _ => rfl
  have hawaiting := hwaiting.delivers [id]
    (fun _ hm => List.mem_singleton.mp hm ▸ hid) (delivers_modifyGathering _ _ Gathering.await)
    (delivers_modifyGathering _ _ Gathering.await)
  unfold Pool.join
  rw [hl, hi]
  refine hawaiting.modifyLive hid (fun _ => rfl) (fun _ => rfl) fun read other _ hw => ?_
  simp only [hw, List.map_append, List.map_cons, List.map_nil]

theorem Mirrors.addPage (hid : mine id) (page : Nat) (data : Bytes) :
    Mirrors file mine numbers (pool.addPage id page data)
      (mirror.addPage (numbers.read id) page data) :=
  h.delivers [id] (fun _ hm => List.mem_singleton.mp hm ▸ hid) (delivers_addPage ..)
    (delivers_addPage ..)

theorem Mirrors.arrive (hid : mine id) :
    Mirrors file mine numbers (pool.arrive id) (mirror.arrive (numbers.read id)) :=
  h.delivers [id] (fun _ hm => List.mem_singleton.mp hm ▸ hid) (delivers_arrive ..)
    (delivers_arrive ..)

theorem Mirrors.lookup (ha : Aligned numbers pool mirror) (hid : mine id) (hp : pool.Holds lease)
    (hm : mirror.Holds image) (hl : lease.file = file) (hi : image.file = file) (page : Nat) :
    Mirrors file mine numbers (Pool.lookup id lease pool page)
        (Pool.lookup (numbers.read id) image mirror page) ∧
      Aligned numbers (Pool.lookup id lease pool page)
        (Pool.lookup (numbers.read id) image mirror page) := by
  unfold Pool.lookup
  rw [h.page? hp hm hl hi]
  cases pool.page? lease page with
  | none =>
      obtain ⟨hcreated, haligned⟩ := h.createPage ha page
      have hjoined := hcreated.join hid hl hi ⟨page, pool.fetches.size⟩
      have hn : numbers.fetch pool.fetches.size = mirror.fetches.size := ha 0
      simp only [Option.map_none, hl, hi]
      rw [Wait.renumber, hn] at hjoined
      exact ⟨hjoined, haligned.of_fetches (fetches_join ..) (fetches_join ..)⟩
  | some found =>
      cases found with
      | fetching fetch waiters =>
          exact ⟨(h.join hid hl hi ⟨page, fetch⟩).emit _ _,
            ha.of_fetches (fetches_join pool id lease _)
              (fetches_join mirror (numbers.read id) image _)⟩
      | loaded fetch data =>
          have hused := h.modifyFile
            (fun cached => { cached with pages := cached.pages.touch page })
            (fun cached => { cached with pages := cached.pages.touch page })
            (fun cached => by simp only [FileCache.renumber, LruMap.touch_map]) fun _ => rfl
          simp only [Option.map_some, Page.renumber, hl, hi]
          exact ⟨(hused.emit _ _).addPage hid page data,
            ha.of_fetches (delivers_addPage _ id page data).fetches
              (delivers_addPage _ (numbers.read id) page data).fetches⟩

theorem Mirrors.lookups (ha : Aligned numbers pool mirror) (hid : mine id)
    (hp : pool.Holds lease) (hm : mirror.Holds image) (hl : lease.file = file)
    (hi : image.file = file) (pages : List Nat) :
    Mirrors file mine numbers (pages.foldl (Pool.lookup id lease) pool)
        (pages.foldl (Pool.lookup (numbers.read id) image) mirror) ∧
      Aligned numbers (pages.foldl (Pool.lookup id lease) pool)
        (pages.foldl (Pool.lookup (numbers.read id) image) mirror) := by
  induction pages generalizing pool mirror with
  | nil => exact ⟨h, ha⟩
  | cons page rest ih =>
      obtain ⟨hlooked, haligned⟩ := h.lookup ha hid hp hm hl hi page
      exact ih hlooked haligned (hp.lookup id page) (hm.lookup (numbers.read id) page)

theorem Mirrors.lookupSpan {grown : ReadId → Prop} (ha : Aligned numbers pool mirror)
    (hn : numbers.read pool.gatherings.size = mirror.gatherings.size)
    (hg : ∀ id, grown id ↔ mine id ∨ id = pool.gatherings.size)
    (hknown : ∀ id, mine id → id < pool.gatherings.size) (hp : pool.Leased)
    (hm : mirror.Leased) (offset stop : Nat) :
    Mirrors file grown numbers (pool.lookupSpan file offset stop)
        (mirror.lookupSpan file offset stop) ∧
      Aligned numbers (pool.lookupSpan file offset stop) (mirror.lookupSpan file offset stop) := by
  have hentered := rests_enter pool file
  have himage := rests_enter mirror file
  have hheld : ∀ known : Pool τ, (known.registered file offset stop).Holds
      ⟨file, (known.resident file).serial⟩ := by
    intro known
    have hfind := find?_enter known file file
    rw [if_pos rfl] at hfind
    exact ⟨_, hfind, rfl⟩
  have hregistered : Mirrors file grown numbers (pool.registered file offset stop)
      (mirror.registered file offset stop) := by
    refine h.enter.register ?_ ?_ ?_ ?_ ?_ _ _ offset stop
    · rw [hentered.gatherings, himage.gatherings, hn]
    · rw [hentered.gatherings]
      exact hg
    · rw [hentered.gatherings]
      exact hknown
    · rw [hentered.gatherings, hentered.live]
      exact hp.known
    · rw [himage.gatherings, himage.live]
      exact hm.known
  have haligned : Aligned numbers (pool.registered file offset stop)
      (mirror.registered file offset stop) := ha.of_fetches hentered.fetches himage.fetches
  obtain ⟨hlooked, hnext⟩ := hregistered.lookups haligned ((hg _).mpr (.inr rfl)) (hheld pool)
    (hheld mirror) rfl rfl (pool.limits.span offset stop)
  rw [lookupSpan_eq, lookupSpan_eq, lookedUp, lookedUp, h.limits, ← hn]
  exact ⟨hlooked.require .., hnext.of_fetches (fetches_require ..) (fetches_require ..)⟩

-- A read that keeps to the budget has nothing evicted.
omit h in
theorem startRead_of_le {offset stop : Nat}
    (hb : pool.fetches.size < (pool.lookupSpan file offset stop).fetches.size →
      (pool.lookupSpan file offset stop).pagesUsed ≤
        (pool.lookupSpan file offset stop).limits.pageBudget) :
    pool.startRead file offset stop =
      (pool.lookupSpan file offset stop).arrive pool.gatherings.size := by
  unfold startRead
  simp only
  split
  · rename_i hgrown
    rw [enforceBudget, if_neg (Nat.not_lt.mpr (hb hgrown))]
  · rfl

theorem Mirrors.startRead {grown : ReadId → Prop} (ha : Aligned numbers pool mirror)
    (hn : numbers.read pool.gatherings.size = mirror.gatherings.size)
    (hg : ∀ id, grown id ↔ mine id ∨ id = pool.gatherings.size)
    (hknown : ∀ id, mine id → id < pool.gatherings.size) (hp : pool.Leased)
    (hm : mirror.Leased) {offset stop : Nat}
    (hb : pool.fetches.size < (pool.lookupSpan file offset stop).fetches.size →
      (pool.lookupSpan file offset stop).pagesUsed ≤
        (pool.lookupSpan file offset stop).limits.pageBudget)
    (hu : (mirror.lookupSpan file offset stop).pagesUsed ≤
      (pool.lookupSpan file offset stop).pagesUsed) :
    Mirrors file grown numbers (pool.startRead file offset stop)
      (mirror.startRead file offset stop) := by
  obtain ⟨hlooked, haligned⟩ := h.lookupSpan ha hn hg hknown hp hm offset stop
  -- There are as many new fetches here as there.
  have hgrown : mirror.fetches.size < (mirror.lookupSpan file offset stop).fetches.size →
      pool.fetches.size < (pool.lookupSpan file offset stop).fetches.size := by
    intro hlt
    rcases (size_lookupSpan_le pool file offset stop).lt_or_eq with hmore | hsame
    · exact hmore
    · have hlast := haligned 0
      rw [← hsame, ha 0, Nat.add_zero, Nat.add_zero] at hlast
      exact absurd hlast hlt.ne
  rw [startRead_of_le hb, startRead_of_le fun hlt => ?_, ← hn]
  · exact hlooked.arrive ((hg _).mpr (.inr rfl))
  · rw [hlooked.limits]
    exact hu.trans (hb (hgrown hlt))

end Mirrors

end Pool

end PageCache
