import PageCache.Proofs.Sparing
import PageCache.Proofs.Registration
import PageCache.Proofs.Traffic

namespace PageCache

namespace Pool

variable {τ : Type} {pool kept : Pool τ} {file : FileId} {id reader : ReadId}

-- A new read finds its file cached, or has it added.
def welcome (pool : Pool τ) (file : FileId) : Pool τ :=
  if pool.files.contains file then pool
  else
    { pool with
      files := pool.files.insert file { serial := pool.serials }
      serials := pool.serials + 1 }.emit (.fileAdded file)

-- And then the file counts it.
def seat (pool : Pool τ) (file : FileId) : Pool τ :=
  { pool with
    files := (pool.files.touch file).modify file fun cached =>
      { cached with readers := cached.readers + 1 } }

theorem enter_eq (pool : Pool τ) (file : FileId) :
    pool.enter file = (pool.welcome file).seat file := rfl

section Crowd

variable {extra : Nat} {live : List LiveRead}

theorem welcome_crowd (hf : pool.files.contains file = true) (other : FileId) :
    (pool.crowd file extra live).welcome other = (pool.welcome other).crowd file extra live := by
  have hcontains : (pool.crowd file extra live).files.contains other =
      pool.files.contains other := by
    rw [LruMap.contains_eq_isSome, find?_crowd, Option.isSome_map, LruMap.contains_eq_isSome]
  unfold welcome
  rw [hcontains]
  by_cases hc : pool.files.contains other = true
  · rw [if_pos hc, if_pos hc]
  · have hne : other ≠ file := fun he => hc (he ▸ hf)
    rw [if_neg hc, if_neg hc]
    simp only [crowd, emit]
    rw [LruMap.modify_insert_of_ne _ hne]

theorem seat_crowd (pool : Pool τ) (other : FileId) :
    (pool.crowd file extra live).seat other = (pool.seat other).crowd file extra live := by
  simp only [seat, crowd]
  rw [LruMap.modify_touch, LruMap.modify_comm]
  intro cached
  simp only [FileCache.crowd, Nat.add_right_comm]

theorem enter_crowd (hf : pool.files.contains file = true) (other : FileId) :
    (pool.crowd file extra live).enter other = (pool.enter other).crowd file extra live := by
  rw [enter_eq, welcome_crowd hf, seat_crowd, enter_eq]

theorem lease_crowd (other : FileId) :
    (pool.crowd file extra live).lease other = pool.lease other := by
  unfold lease
  rw [find?_crowd]
  cases pool.files.find? other <;> rfl

theorem createPage_crowd (other : FileId) (page : Nat) :
    (pool.crowd file extra live).createPage other page =
      (pool.createPage other page).crowd file extra live := by
  have hpushed : ∀ pushed : Pool τ, (((pushed.crowd file extra live).modifyFile other fun cached =>
      { cached with pages := cached.pages.insert page (.fetching pool.fetches.size []) }).grow
        1).emit (.pageCreated other page pool.fetches.size) =
      (((pushed.modifyFile other fun cached =>
        { cached with pages := cached.pages.insert page (.fetching pool.fetches.size []) }).grow
          1).emit (.pageCreated other page pool.fetches.size)).crowd file extra live := by
    intro pushed
    rw [modifyFile_crowd]
    · rfl
    · exact fun _ => rfl
  exact hpushed { pool with
    fetches := pool.fetches.push ⟨⟨other, page, pool.limits.pageSize⟩, .idle⟩ }

theorem leave_crowd (ho : pool.Ordered) {lease : Lease}
    (hr : lease.file = file → ∀ cached, pool.files.find? file = some cached →
      0 < cached.readers ∧ cached.released = false) :
    (pool.crowd file extra live).leave lease = (pool.leave lease).crowd file extra live := by
  unfold leave
  rw [leased?_crowd]
  cases hl : pool.leased? lease with
  | none => rfl
  | some cached =>
      have hf : pool.files.find? lease.file = some cached := (Option.filter_eq_some_iff.mp hl).1
      simp only [Option.map_some, FileCache.crowd]
      by_cases he : lease.file = file
      · obtain ⟨hpos, hmark⟩ := hr he cached (he ▸ hf)
        have hmore : 0 < cached.readers + extra := Nat.add_pos_left hpos extra
        simp only [he, if_true, hmark, hpos, hmore, decide_true, Bool.false_eq_true, and_false,
          if_false, require, modifyFile, crowd]
        rw [LruMap.modify_modify, LruMap.modify_modify,
          ho.files.modify_congr fun value hv => ?_]
        obtain ⟨hreaders, _⟩ := hr he value hv
        simp only [Function.comp_apply, FileCache.crowd]
        congr 1
        omega
      · have hleft : ∀ checked : Pool τ, (checked.crowd file extra live).modifyFile lease.file
            (fun cached => { cached with readers := cached.readers - 1 }) =
              (checked.modifyFile lease.file
                fun cached => { cached with readers := cached.readers - 1 }).crowd
                  file extra live := by
          intro checked
          simp only [modifyFile, crowd]
          rw [LruMap.modify_comm_of_ne _ (Ne.symm he)]
        simp only [he, if_false, Nat.add_zero, require_crowd, hleft, removeFile_crowd]
        split <;> rfl

end Crowd

section Reading

theorem Spares.register (h : Spares id file pool kept) (hid : id ≠ pool.gatherings.size)
    (lease : Lease) (offset stop : Nat) :
    Spares id file (pool.register lease offset stop) (kept.register lease offset stop) := by
  let added : LiveRead := { id := pool.gatherings.size, lease := lease }
  refine h.apply (·.register lease offset stop) (· ++ [added]) (fun _ _ => rfl) (fun live => ?_)
    fun read hr hread => ⟨read, List.mem_append_left _ hr, hread, rfl⟩
  have hadded : (added.id != id) = true := by simpa [added] using Ne.symm hid
  rw [List.filter_append]
  simp only [List.filter_cons, hadded, if_true, List.filter_nil]

theorem Spares.modifyLive (h : Spares id file pool kept) {change : LiveRead → LiveRead}
    (hi : ∀ read, (change read).id = read.id) (hl : ∀ read, (change read).lease = read.lease) :
    Spares id file (pool.modifyLive reader change) (kept.modifyLive reader change) := by
  have hid : ∀ read : LiveRead, (if read.id = reader then change read else read).id = read.id := by
    intro read
    split
    · exact hi read
    · rfl
  refine h.apply (·.modifyLive reader change)
    (List.map fun read => if read.id = reader then change read else read)
    (fun _ _ => rfl) (fun live => ?_) fun read hr hread =>
      ⟨_, List.mem_map_of_mem hr, (hid read).trans hread, ?_⟩
  · rw [List.filter_map]
    congr 1
    exact List.filter_congr fun read _ => by simp only [Function.comp_apply, hid]
  · split
    · exact hl read
    · rfl

theorem Spares.observe (h : Spares id file pool kept) (wait : Wait) :
    Spares id file (pool.observe reader wait) (kept.observe reader wait) :=
  h.modifyLive (fun _ => rfl) fun _ => rfl

theorem Spares.page? (h : Spares id file pool kept) (lease : Lease) (page : Nat) :
    kept.page? lease page = pool.page? lease page := by
  rw [h.same, page?_crowd]

theorem Spares.emit (h : Spares id file pool kept) (event : Event) :
    Spares id file (pool.emit event) (kept.emit event) :=
  h.applySame (·.emit event) fun _ _ => rfl

theorem Spares.modifyFile (h : Spares id file pool kept) (other : FileId)
    (change : FileCache → FileCache)
    (hc : ∀ extra cached, change (cached.crowd extra) = (change cached).crowd extra) :
    Spares id file (pool.modifyFile other change) (kept.modifyFile other change) :=
  h.applySame (·.modifyFile other change) fun extra _ => modifyFile_crowd _ _ _ _ _ (hc extra)

theorem Spares.join (h : Spares id file pool kept) (lease : Lease) (wait : Wait) :
    Spares id file (pool.join reader lease wait) (kept.join reader lease wait) := by
  let holds := (pool.page? lease wait.page).any (!·.isLoaded)
  have hchecked : Spares id file (pool.require holds .waitForLoaded)
      (kept.require holds .waitForLoaded) :=
    h.applySame (·.require holds .waitForLoaded) fun _ _ => require_crowd ..
  have hwaiting := hchecked.modifyFile lease.file (fun cached =>
    { cached with pages := cached.pages.modify wait.page (Page.wait reader) }) fun _ _ => rfl
  have hawaiting := hwaiting.applySame (·.modifyGathering reader Gathering.await) fun _ _ => rfl
  unfold Pool.join
  rw [h.page? lease wait.page]
  exact hawaiting.modifyLive (fun _ => rfl) fun _ => rfl

theorem Spares.createPage (h : Spares id file pool kept) (other : FileId) (page : Nat) :
    Spares id file (pool.createPage other page) (kept.createPage other page) :=
  h.applySame (·.createPage other page) fun _ _ => createPage_crowd ..

theorem Spares.addPage (h : Spares id file pool kept) (page : Nat) (data : Bytes) :
    Spares id file (pool.addPage reader page data) (kept.addPage reader page data) :=
  h.applySame (·.addPage reader page data) fun _ _ => addPage_crowd ..

theorem Spares.lookup (h : Spares id file pool kept) (lease : Lease) (page : Nat) :
    Spares id file (lookup reader lease pool page) (lookup reader lease kept page) := by
  have hfetches : kept.fetches = pool.fetches := by rw [h.same, fetches_crowd]
  unfold Pool.lookup
  rw [h.page? lease page, hfetches]
  cases pool.page? lease page with
  | none => exact (h.createPage lease.file page).join lease _
  | some found =>
      cases found with
      | fetching fetch waiters => exact (h.join lease _).emit _
      | loaded fetch data =>
          have hused := h.modifyFile lease.file (fun cached =>
            { cached with pages := cached.pages.touch page }) fun _ _ => rfl
          exact (hused.emit _).addPage page data

theorem Spares.lookups (h : Spares id file pool kept) (lease : Lease) (pages : List Nat) :
    Spares id file (pages.foldl (Pool.lookup reader lease) pool)
      (pages.foldl (Pool.lookup reader lease) kept) := by
  induction pages generalizing pool kept with
  | nil => exact h
  | cons page rest ih => exact ih (h.lookup lease page)

theorem Spares.contains (h : Spares id file pool kept) (hl : kept.Leased) :
    pool.files.contains file = true := by
  obtain ⟨read, hr, _, hfile⟩ := h.spared
  obtain ⟨cached, hf, _⟩ := hl.current read hr
  rw [hfile, h.same, find?_crowd] at hf
  obtain ⟨found, hfound, _⟩ := Option.map_eq_some_iff.mp hf
  rw [LruMap.contains_eq_isSome, hfound, Option.isSome_some]

theorem Spares.id_lt (h : Spares id file pool kept) (hl : kept.Leased) :
    id < pool.gatherings.size := by
  obtain ⟨read, hr, hid, _⟩ := h.spared
  have hknown := hl.known read hr
  rwa [hid, h.same, gatherings_crowd] at hknown

theorem Spares.lookupSpan (h : Spares id file pool kept) (hl : kept.Leased) (other : FileId)
    (offset stop : Nat) :
    Spares id file (pool.lookupSpan other offset stop) (kept.lookupSpan other offset stop) := by
  have hentered : Spares id file (pool.enter other) (kept.enter other) :=
    h.applySame (·.enter other) fun _ _ => enter_crowd (h.contains hl) other
  have hlease : (kept.enter other).lease other = (pool.enter other).lease other := by
    rw [hentered.same, lease_crowd]
  have hlimits : kept.limits = pool.limits := by rw [h.same, limits_crowd]
  have hsize : kept.gatherings = pool.gatherings := by rw [h.same, gatherings_crowd]
  have hne : id ≠ (pool.enter other).gatherings.size := by
    rw [(enter_frame pool other).2.2.1]
    exact Nat.ne_of_lt (h.id_lt hl)
  have hfetches : kept.fetches = pool.fetches := by rw [h.same, fetches_crowd]
  let lease := (pool.enter other).lease other
  let pages := pool.limits.span offset stop
  have hlooked : Spares id file
      (pages.foldl (Pool.lookup pool.gatherings.size lease)
        ((pool.enter other).register lease offset stop))
      (pages.foldl (Pool.lookup pool.gatherings.size lease)
        ((kept.enter other).register lease offset stop)) :=
    (hentered.register hne lease offset stop).lookups lease pages
  simp only [Pool.lookupSpan, hlease, hlimits, hsize, hfetches]
  rw [hlooked.same, fetches_crowd, ← hlooked.same]
  exact hlooked.applySame (·.require _ .createdOverflow) fun _ _ => require_crowd ..

theorem Spares.startRead (h : Spares id file pool kept) (hl : kept.Leased) {other : FileId}
    {offset length : Nat} {turns : Turns} (hp : 0 < length)
    (hw : offset + length < wordLimit)
    (hlooked : (pool.lookupSpan other offset (offset + length)).Leased)
    (hb : ∀ swept, pool.swept? (.read other offset length turns) = some swept → swept.Busy file) :
    Spares id file (pool.startRead other offset (offset + length))
      (kept.startRead other offset (offset + length)) := by
  have hspan := h.lookupSpan hl other offset (offset + length)
  have hfetches : kept.fetches = pool.fetches := by rw [h.same, fetches_crowd]
  have hgatherings : kept.gatherings = pool.gatherings := by rw [h.same, gatherings_crowd]
  have hgrown : (kept.lookupSpan other offset (offset + length)).fetches =
      (pool.lookupSpan other offset (offset + length)).fetches := by
    rw [hspan.same, fetches_crowd]
  unfold Pool.startRead
  rw [hfetches, hgatherings]
  simp only
  rw [hgrown]
  refine Spares.applySame ?_ (·.arrive pool.gatherings.size) fun _ _ => arrive_crowd ..
  split
  · rename_i hmore
    refine hspan.applySame Pool.enforceBudget fun _ _ => enforceBudget_crowd hlooked fun hover => ?_
    exact hb _ (if_pos ⟨hp, hw, hmore, hover⟩)
  · exact hspan

theorem Spares.live? (h : Spares id file pool kept) (hne : reader ≠ id) :
    pool.live? reader = kept.live? reader := by
  rw [← live?_filter_of_ne kept hne]
  exact live?_of_live h.others reader

-- No mark tells the file to go with the last of its reads.
def Unmarked (pool : Pool τ) (file : FileId) : Prop :=
  ∀ cached, pool.files.find? file = some cached → cached.released = false

theorem Marks.unmarked {next : Pool τ} {op : Op} (h : Marks op pool next)
    (ho : op ≠ .release file) (hu : pool.Unmarked file) : next.Unmarked file := by
  intro left hf
  rcases h.file file left ho hf with ⟨cached, hcached, hmark⟩ | ⟨_, hr⟩
  · exact (congrArg Prod.snd hmark).trans (hu cached hcached)
  · exact hr

theorem Spares.endRead (h : Spares id file pool kept) (hne : reader ≠ id) (ho : pool.Ordered)
    (hl : pool.Leased) (hu : pool.Unmarked file) :
    Spares id file (pool.endRead reader) (kept.endRead reader) := by
  unfold Pool.endRead
  rw [← h.live? hne]
  cases hlive : pool.live? reader with
  | none => exact h
  | some read =>
      have hr : read ∈ pool.live := (hl.live?_eq_some_iff.mp hlive).1
      have hgone : Spares id file { pool with live := pool.live.filter (·.id != reader) }
          { kept with live := kept.live.filter (·.id != reader) } := by
        refine h.apply (fun pool => { pool with live := pool.live.filter (·.id != reader) })
          (List.filter (·.id != reader)) (fun _ _ => rfl) (fun live => ?_)
          fun other hother hid => ⟨other, List.mem_filter.mpr ⟨hother, ?_⟩, hid, rfl⟩
        · rw [List.filter_filter, List.filter_filter]
          exact List.filter_congr fun _ _ => Bool.and_comm ..
        · rw [hid]
          simpa using Ne.symm hne
      have hordered : Ordered { pool with live := pool.live.filter (·.id != reader) } :=
        ⟨ho.files, ho.pages⟩
      exact hgone.applySame (·.leave read.lease) fun _ _ => leave_crowd hordered
        fun he cached hf => ⟨hl.readers_pos ⟨read, hr, he⟩ cached hf, hu cached hf⟩

end Reading

end Pool

end PageCache
