import PageCache.Proofs.MirroredReads

namespace PageCache

-- Where no other element is taken for this one, it can be erased before the others are renamed.
theorem erase_map_of_injOn {α β : Type} [DecidableEq α] [DecidableEq β] (rename : α → β)
    {items : List α} {item : α} (h : ∀ other ∈ items, rename other = rename item → other = item) :
    (items.map rename).erase (rename item) = (items.erase item).map rename := by
  induction items with
  | nil => rfl
  | cons first rest ih =>
      rw [List.map_cons, List.erase_cons, List.erase_cons]
      have hsame : (rename first == rename item) = (first == item) := by
        rw [Bool.eq_iff_iff, beq_iff_eq, beq_iff_eq]
        exact ⟨h first List.mem_cons_self, congrArg rename⟩
      rw [hsame]
      split
      · rfl
      · rw [ih fun other ho => h other (List.mem_cons_of_mem first ho), List.map_cons]

namespace Pool

variable {τ : Type} {pool mirror : Pool τ} {file : FileId} {mine : ReadId → Prop}
  {numbers : Numbering} {id : ReadId} {lease image : Lease} {cached : FileCache}

-- What pages of the file wait for are fetches of the file, and these reads wait for them.
def Belongs (pool : Pool τ) (file : FileId) (mine : ReadId → Prop) : Prop :=
  ∀ page fetch waiters, pool.pageAt? file page = some (.fetching fetch waiters) →
    pool.Owns file fetch ∧ waiters.Nodup ∧ ∀ id ∈ waiters, mine id

theorem Belongs.of_files {next : Pool τ} (h : pool.Belongs file mine)
    (hf : next.files = pool.files) (hc : next.call? = pool.call?) : next.Belongs file mine := by
  intro page fetch waiters hp
  rw [Pool.pageAt?, hf] at hp
  obtain ⟨howns, hn, hids⟩ := h page fetch waiters hp
  exact ⟨howns.congr hc, hn, hids⟩

theorem Sound.belongs {plans : ReadId → Plan} (h : pool.Sound plans)
    (hmine : ∀ id < pool.gatherings.size, (plans id).file = file → mine id) :
    pool.Belongs file mine := by
  intro page fetch waiters hp
  obtain ⟨hsorted, hknown⟩ := h.waiters file page fetch waiters hp
  refine ⟨⟨_, (h.backed.fetching file page fetch waiters hp).1, rfl⟩,
    hsorted.imp Nat.ne_of_lt, fun id hid => ?_⟩
  have htracked := (h.tracked id (hknown id hid)).waiting file page fetch waiters hp
  exact hmine id (hknown id hid) (htracked.mp hid).1.symm

theorem live?_filter_self (pool : Pool τ) (id : ReadId) :
    live? { pool with live := pool.live.filter (·.id != id) } id = none := by
  simp [live?, List.find?_eq_none]

section Mirrors

variable (h : Mirrors file mine numbers pool mirror)
include h

theorem Mirrors.store (hf : pool.files.find? file = some cached) (wait : Wait)
    {waiters : List ReadId} (hn : waiters.Nodup) (hids : ∀ id ∈ waiters, mine id) (data : Bytes)
    (attributes : Attributes) :
    Mirrors file mine numbers (pool.store file wait waiters data attributes)
      (mirror.store file (wait.renumber numbers) (waiters.map numbers.read) data attributes) := by
  obtain ⟨other, ho, _⟩ := h.found hf
  have hloaded := h.updates (rests_load pool file wait waiters data attributes)
    (rests_load mirror file (wait.renumber numbers) (waiters.map numbers.read) data attributes)
    (updates_load hf ..) (updates_load ho ..)
    (fun cached => cached.load_renumber wait.page wait.fetch data attributes)
    fun cached => cached.load_anonymous ..
  have hdelivers : ∀ (pool : Pool τ) (id : ReadId), Delivers pool
      ((pool.addPage id wait.page data).arrive id) [id]
      (Gathering.arrive ∘ (·.add wait.page data)) := fun pool id =>
    (delivers_addPage pool id wait.page data).comp (delivers_arrive _ id)
  rw [store_eq, store_eq]
  exact hloaded.delivers waiters hids (delivers_foldl hdelivers hn _)
    (delivers_foldl hdelivers (h.nodup_map_read hids hn) _)

theorem Mirrors.giveUp (wait : Wait) {waiters : List ReadId} (hn : waiters.Nodup)
    (hids : ∀ id ∈ waiters, mine id) (error : Error) :
    Mirrors file mine numbers (pool.giveUp file wait waiters error)
      (mirror.giveUp file (wait.renumber numbers) (waiters.map numbers.read) error) := by
  have hdropped := h.dropPages [wait.page]
    (.fetchFailed file wait.page wait.fetch error waiters.length)
    (.fetchFailed file wait.page (numbers.fetch wait.fetch) error
      (waiters.map numbers.read).length)
  have hdelivers : ∀ (pool : Pool τ) (id : ReadId), Delivers pool
      ((pool.spoil id error).arrive id) [id] (Gathering.arrive ∘ (·.spoil error)) := fun pool id =>
    (delivers_modifyGathering pool id (·.spoil error)).comp (delivers_arrive _ id)
  exact hdropped.delivers waiters hids (delivers_foldl hdelivers hn _)
    (delivers_foldl hdelivers (h.nodup_map_read hids hn) _)

theorem Mirrors.resolve (hb : pool.Belongs file mine) (hp : pool.Holds lease)
    (hm : mirror.Holds image) (hl : lease.file = file) (hi : image.file = file) {wait : Wait}
    (hw : pool.Owns file wait.fetch) (outcome : Outcome) :
    Mirrors file mine numbers (pool.resolve lease wait outcome)
      (mirror.resolve image (wait.renumber numbers) outcome) := by
  have hpage := h.page? hp hm hl hi wait.page
  unfold Pool.resolve
  have hname : (wait.renumber numbers).page = wait.page := rfl
  rw [hname, hpage]
  cases hfound : pool.page? lease wait.page with
  | none => exact h.emit _ _
  | some found =>
      cases found with
      | loaded fetch data => exact h.emit _ _
      | fetching fetch waiters =>
          rw [page?_eq_pageAt? wait.page hp, hl] at hfound
          obtain ⟨howns, hn, hids⟩ := hb wait.page fetch waiters hfound
          obtain ⟨cached, hf, _⟩ := Option.bind_eq_some_iff.mp hfound
          simp only [Option.map_some, Page.renumber]
          by_cases he : fetch = wait.fetch
          · have hsame : numbers.fetch fetch = (wait.renumber numbers).fetch :=
              congrArg numbers.fetch he
            rw [if_pos he, if_pos hsame, hl, hi]
            cases outcome with
            | ok answer => exact h.store hf wait hn hids answer.1 answer.2
            | error error => exact h.giveUp wait hn hids error
          · have hother : numbers.fetch fetch ≠ (wait.renumber numbers).fetch := fun hsame =>
              he (h.fetches fetch wait.fetch howns hw hsame)
            rw [if_neg he, if_neg hother]
            exact h.emit _ _

theorem Mirrors.observe (hid : mine id)
    (hwaits : ∀ read, pool.live? id = some read → ∀ wait ∈ read.waits, pool.Owns file wait.fetch)
    {wait : Wait} (hw : pool.Owns file wait.fetch) :
    Mirrors file mine numbers (pool.observe id wait)
      (mirror.observe (numbers.read id) (wait.renumber numbers)) := by
  refine h.modifyLive hid (fun _ => rfl) (fun _ => rfl) fun read other hr ho => ?_
  simp only [ho]
  refine erase_map_of_injOn (Wait.renumber numbers) fun known hk he => ?_
  have hfetch := h.fetches known.fetch wait.fetch (hwaits read hr known hk) hw
    (congrArg Wait.fetch he)
  obtain ⟨page, fetch⟩ := known
  obtain ⟨name, other⟩ := wait
  cases hfetch
  cases congrArg Wait.page he
  rfl

-- A fetch takes the same turn here and there.
theorem Mirrors.withPhase {fetch : FetchId} {call : Call} (hc : pool.call? fetch = some call)
    (hfile : call.file = file) {phase other : Phase τ}
    (hlike : Fetch.Like ⟨call, phase⟩ ⟨call, other⟩) :
    Mirrors file mine numbers (pool.withPhase fetch phase)
      (mirror.withPhase (numbers.fetch fetch) other) where
  limits := h.limits
  cached := h.cached
  alone := h.alone
  fetch name found hf hown := by
    obtain ⟨before, hbefore, rfl⟩ := Option.map_eq_some_iff.mp hc
    simp only [Pool.withPhase, Array.getElem?_modify] at hf ⊢
    by_cases he : fetch = name
    · subst he
      obtain ⟨image, hi, himage⟩ := h.fetch fetch before hbefore hfile
      rw [if_pos rfl, hbefore, Option.map_some, Option.some.injEq] at hf
      rw [if_pos rfl, hi, ← hf]
      refine ⟨⟨image.call, other⟩, rfl, ?_⟩
      rw [himage.call]
      exact hlike
    · rw [if_neg he] at hf
      have howns : pool.Owns file name := owns_iff.mpr ⟨found, hf, hown⟩
      have hne : numbers.fetch fetch ≠ numbers.fetch name := fun hsame =>
        he (h.fetches fetch name ⟨_, hc, hfile⟩ howns hsame)
      rw [if_neg hne]
      exact h.fetch name found hf hown
  fetches := by
    simp only [Owns, call?_withPhase]
    exact h.fetches
  gathering := h.gathering
  reads := h.reads
  waits := h.waits

theorem Mirrors.removeFile (hf : pool.files.find? file = some cached) :
    Mirrors file mine numbers (pool.removeFile file) (mirror.removeFile file) := by
  obtain ⟨other, ho, _⟩ := h.found hf
  refine h.rests (rests_removeFile ..) (rests_removeFile ..) ?_ fun name hne => ?_
  · rw [files_removeFile hf, files_removeFile ho, LruMap.find?_erase_self, LruMap.find?_erase_self]
    rfl
  · rw [files_removeFile ho, LruMap.find?_erase_of_ne _ hne, h.alone name hne]

omit h in
theorem Holds.exists_leased? (hp : pool.Holds lease) : ∃ cached,
    pool.files.find? lease.file = some cached ∧ pool.leased? lease = some cached := by
  obtain ⟨cached, hf, hserial⟩ := hp
  exact ⟨cached, hf, Option.filter_eq_some_iff.mpr ⟨hf, beq_iff_eq.mpr hserial⟩⟩

theorem Mirrors.leave (hp : pool.Holds lease) (hm : mirror.Holds image) (hl : lease.file = file)
    (hi : image.file = file) :
    Mirrors file mine numbers (pool.leave lease) (mirror.leave image) := by
  obtain ⟨cached, hf, hleased⟩ := hp.exists_leased?
  obtain ⟨other, ho, hother⟩ := hm.exists_leased?
  rw [hl] at hf
  rw [hi] at ho
  obtain ⟨found, hfound, htwins⟩ := h.found hf
  cases ho.symm.trans hfound
  have hparted := (h.require (decide (0 < cached.readers)) (decide (0 < cached.readers))
    .readersUnderflow .readersUnderflow).modifyFile
      (fun cached => { cached with readers := cached.readers - 1 })
      (fun cached => { cached with readers := cached.readers - 1 }) (fun _ => rfl) fun _ => rfl
  unfold Pool.leave
  rw [hleased, hother]
  simp only [hl, hi, htwins.readers, htwins.released]
  split
  · have hleft := find?_part hf (decide (0 < cached.readers)) .readersUnderflow
    exact hparted.removeFile hleft
  · exact hparted

theorem Mirrors.lease_file (hm : mirror.Leased) {read : LiveRead} (hr : read ∈ mirror.live) :
    read.lease.file = file := by
  obtain ⟨cached, hf, _⟩ := hm.current read hr
  by_contra hne
  rw [h.alone _ hne] at hf
  cases hf

theorem Mirrors.endRead (hid : mine id) (hp : pool.Leased) (hm : mirror.Leased)
    (hfile : ∀ read ∈ pool.live, read.id = id → read.lease.file = file) :
    Mirrors file mine numbers (pool.endRead id) (mirror.endRead (numbers.read id)) := by
  have hwaits := h.waits id hid
  unfold Pool.endRead
  cases hr : pool.live? id with
  | none =>
      rw [hr, Option.map_none, Option.map_eq_none_iff] at hwaits
      rw [hwaits]
      exact h
  | some read =>
      rw [hr, Option.map_some, Option.map_eq_some_iff] at hwaits
      obtain ⟨own, hown, _⟩ := hwaits
      rw [hown]
      obtain ⟨hread, hreadId⟩ := hp.live?_eq_some_iff.mp hr
      obtain ⟨hownRead, _⟩ := hm.live?_eq_some_iff.mp hown
      have hgone : Mirrors file mine numbers { pool with live := pool.live.filter (·.id != id) }
          { mirror with live := mirror.live.filter (·.id != numbers.read id) } := by
        refine { h with waits := fun other ho => ?_ }
        have hold := h.waits other ho
        by_cases he : other = id
        · rw [he, live?_filter_self, live?_filter_self]
          rfl
        · have hne : numbers.read other ≠ numbers.read id := fun hsame =>
            he (h.reads other id ho hid hsame)
          rwa [live?_filter_of_ne _ hne, live?_filter_of_ne _ he]
      exact hgone.leave (hp.current read hread) (hm.current own hownRead)
        (hfile read hread hreadId) (h.lease_file hm hownRead)

end Mirrors

end Pool

end PageCache
