import PageCache.Proofs.Contract
import PageCache.Proofs.Shedding
import PageCache.Proofs.Traffic

namespace PageCache

def Phase.isIdle {τ : Type} : Phase τ → Bool
  | .idle => true
  | _ => false

def Call.place (call : Call) : FileId × Nat := (call.file, call.offset)

theorem eraseDups_of_nodup {α : Type} [DecidableEq α] {items : List α} (h : items.Nodup) :
    items.eraseDups = items := by
  induction items with
  | nil => rfl
  | cons item rest ih =>
      obtain ⟨hn, hrest⟩ := List.nodup_cons.mp h
      have hkept : rest.filter (fun other => !other == item) = rest :=
        List.filter_eq_self.mpr fun other hm => by
          have hne : other ≠ item := fun he => hn (he ▸ hm)
          simpa using hne
      rw [List.eraseDups_cons, hkept, ih hrest]

namespace Pool

variable {τ : Type} {pool next : Pool τ} {plans : ReadId → Plan} {read : LiveRead}

-- The call that polling a fetch starts, if it is the first time.
def idle? (pool : Pool τ) (id : FetchId) : Option Call :=
  (pool.fetches[id]?.filter (·.phase.isIdle)).map (·.call)

-- All fetches have been polled.
def Launched (pool : Pool τ) : Prop := ∀ fetch, pool.idle? fetch = none

-- The call that a read starts when it takes a turn for the page, if it starts one.
def due? (pool : Pool τ) (id : ReadId) (page : Nat) : Option Call :=
  (pool.awaited? id page).bind fun found => pool.idle? found.2.fetch

-- The calls that the turns of a read start, in order. A page is fetched in its first turn.
def dues (pool : Pool τ) (id : ReadId) (pages : List Nat) : List Call :=
  pages.eraseDups.filterMap (pool.due? id)

-- The calls that a poll of a read starts.
def started (pool : Pool τ) (id : ReadId) (turns : Turns) : List Call :=
  match pool.live? id with
  | none => []
  | some read => pool.dues id (turns (read.waits.map (·.page)))

theorem dues_append_singleton (pool : Pool τ) (id : ReadId) (pages : List Nat) (page : Nat) :
    pool.dues id (pages ++ [page]) =
      pool.dues id pages ++ (if page ∈ pages then none else pool.due? id page).toList := by
  unfold dues
  rw [List.eraseDups_append]
  split
  · rename_i hm
    have hnone : [page].removeAll pages = [] := by simp [List.removeAll, hm]
    rw [hnone, List.eraseDups_nil, List.append_nil, Option.toList_none, List.append_nil]
  · rename_i hm
    have hself : [page].removeAll pages = [page] := by simp [List.removeAll, hm]
    rw [hself, eraseDups_of_nodup (List.nodup_singleton page), List.filterMap_append,
      List.filterMap_cons, List.filterMap_nil]
    cases pool.due? id page <;> rfl

theorem idle?_of_fetches (h : next.fetches = pool.fetches) : next.idle? = pool.idle? := by
  funext id
  rw [idle?, idle?, h]

theorem call?_of_idle {fetch : FetchId} {call : Call} (h : pool.idle? fetch = some call) :
    pool.call? fetch = some call := by
  obtain ⟨found, hf, rfl⟩ := Option.map_eq_some_iff.mp h
  rw [call?, (Option.filter_eq_some_iff.mp hf).1, Option.map_some]

theorem Launched.of_fetches (h : pool.Launched) (hf : next.fetches = pool.fetches) :
    next.Launched := by
  rw [Launched, idle?_of_fetches hf]
  exact h

theorem Sound.find?_wait (hs : pool.Sound plans) (hr : read ∈ pool.live) {wait : Wait}
    (hw : wait ∈ read.waits) : read.waits.find? (·.page == wait.page) = some wait := by
  obtain ⟨found, hf⟩ : ∃ found, read.waits.find? (·.page == wait.page) = some found :=
    Option.isSome_iff_exists.mp (List.find?_isSome.mpr ⟨wait, hw, beq_self_eq_true _⟩)
  have hpage : found.page = wait.page := by simpa using List.find?_some hf
  rw [hf, hs.wait_unique hr hw (List.mem_of_find?_eq_some hf) hpage]

theorem Sound.awaited?_of_wait (hs : pool.Sound plans) (hr : read ∈ pool.live) {wait : Wait}
    (hw : wait ∈ read.waits) :
    pool.awaited? read.id wait.page = some (read.lease, wait) := by
  rw [awaited?, hs.leased.live?_eq_some_iff.mpr ⟨hr, rfl⟩, Option.bind_some, hs.find?_wait hr hw,
    Option.map_some]

theorem Sound.awaited?_eq_none (hs : pool.Sound plans) (hr : read ∈ pool.live) {page : Nat}
    (hn : ∀ wait ∈ read.waits, wait.page ≠ page) : pool.awaited? read.id page = none := by
  rw [awaited?, hs.leased.live?_eq_some_iff.mpr ⟨hr, rfl⟩, Option.bind_some,
    Option.map_eq_none_iff, List.find?_eq_none]
  simpa using hn

theorem Sound.due?_of_wait (hs : pool.Sound plans) (hr : read ∈ pool.live) {wait : Wait}
    (hw : wait ∈ read.waits) : pool.due? read.id wait.page = pool.idle? wait.fetch := by
  rw [due?, hs.awaited?_of_wait hr hw, Option.bind_some]

theorem Sound.due?_eq_none (hs : pool.Sound plans) (hr : read ∈ pool.live) {page : Nat}
    (hn : ∀ wait ∈ read.waits, wait.page ≠ page) : pool.due? read.id page = none := by
  rw [due?, hs.awaited?_eq_none hr hn, Option.bind_none]

-- What a poll starts is behind a fetch that was idle.
theorem exists_idle_of_started {id : ReadId} {turns : Turns} {call : Call}
    (h : call ∈ pool.started id turns) : ∃ fetch, pool.idle? fetch = some call := by
  unfold started at h
  split at h
  · cases h
  · obtain ⟨page, _, hdue⟩ := List.mem_filterMap.mp h
    obtain ⟨found, _, hcall⟩ := Option.bind_eq_some_iff.mp hdue
    exact ⟨found.2.fetch, hcall⟩

theorem Launched.started_eq (h : pool.Launched) (id : ReadId) (turns : Turns) :
    pool.started id turns = [] :=
  List.eq_nil_iff_forall_not_mem.mpr fun _ hm => by
    obtain ⟨fetch, hcall⟩ := exists_idle_of_started hm
    cases (h fetch).symm.trans hcall

theorem Sound.nodup_pages (hs : pool.Sound plans) (hr : read ∈ pool.live) :
    (read.waits.map (·.page)).Nodup := by
  have hreads := (hs.tracked read.id (hs.leased.known read hr)).reading read hr rfl
  exact hreads.nodup.map_on fun _ hw _ ho he => hs.wait_unique hr ho hw he

-- In prompt turns a read starts what there is to start for it, in file order.
theorem Sound.started_of_prompt (hs : pool.Sound plans) (hr : read ∈ pool.live) {turns : Turns}
    (ht : turns.Prompt) :
    pool.started read.id turns = read.waits.filterMap (pool.idle? ·.fetch) := by
  obtain ⟨more, hmore⟩ := ht (read.waits.map (·.page))
  have hfirst : (read.waits.map (·.page)).filterMap (pool.due? read.id) =
      read.waits.filterMap (pool.idle? ·.fetch) := by
    rw [List.filterMap_map]
    exact List.filterMap_congr fun wait hw => hs.due?_of_wait hr hw
  have hlater : (more.removeAll (read.waits.map (·.page))).eraseDups.filterMap
      (pool.due? read.id) = [] := by
    refine List.filterMap_eq_nil_iff.mpr fun page hm => hs.due?_eq_none hr fun wait hw he => ?_
    have hother := List.mem_eraseDups.mp hm
    simp only [List.removeAll, List.mem_filter] at hother
    exact absurd (List.mem_map.mpr ⟨wait, hw, he⟩) (by simpa using hother.2)
  simp only [started, hs.leased.live?_eq_some_iff.mpr ⟨hr, rfl⟩]
  rw [← hmore, dues, List.eraseDups_append, List.filterMap_append, hlater, List.append_nil,
    eraseDups_of_nodup (hs.nodup_pages hr), hfirst]

end Pool

namespace Mount

variable {σ τ : Type}

section Launching

variable (backend : Backend σ τ) (mount : Mount σ τ)

-- A fetch that is driven is idle no longer, and the others are left alone.
theorem fetches_drive (id : FetchId) :
    (∀ other ≠ id, (mount.drive backend id).1.pool.fetches[other]? =
      mount.pool.fetches[other]?) ∧
    ∀ fetch, (mount.drive backend id).1.pool.fetches[id]? = some fetch →
      fetch.phase.isIdle = false := by
  have hadvance : ∀ (start : Mount σ τ) (call : Call) (token : τ),
      (∀ other ≠ id, (start.advance backend id call token).1.pool.fetches[other]? =
        start.pool.fetches[other]?) ∧
      ∀ fetch, (start.advance backend id call token).1.pool.fetches[id]? = some fetch →
        fetch.phase.isIdle = false := by
    have hphase : ∀ (pool : Pool τ) (phase : Phase τ), phase.isIdle = false →
        (∀ other ≠ id, (pool.withPhase id phase).fetches[other]? = pool.fetches[other]?) ∧
        ∀ fetch, (pool.withPhase id phase).fetches[id]? = some fetch →
          fetch.phase.isIdle = false := by
      intro pool phase hp
      simp only [Pool.withPhase, Array.getElem?_modify]
      refine ⟨fun other hn => if_neg (Ne.symm hn), fun fetch hf => ?_⟩
      rw [if_pos trivial] at hf
      obtain ⟨_, _, rfl⟩ := Option.map_eq_some_iff.mp hf
      exact hp
    intro start call token
    rcases start.advance_cases backend id call token with ⟨rest, _, h⟩ | ⟨answer, _, h⟩
    · rw [h]
      exact hphase start.pool (.running rest) rfl
    · rw [h]
      exact hphase start.pool (.complete (call.outcome answer)) rfl
  unfold drive
  split
  · rename_i hf
    exact ⟨fun _ _ => rfl, fun fetch hsome => by rw [hf] at hsome; cases hsome⟩
  · rename_i hf
    refine ⟨fun _ _ => rfl, fun fetch hsome => ?_⟩
    rw [hf] at hsome
    cases hsome
    rfl
  · exact hadvance mount _ _
  · exact hadvance (mount.launch backend id _).1 _ _

theorem fetches_pollWait (id : ReadId) (lease : Lease) (wait : Wait) :
    (pollWait backend id lease mount wait).pool.fetches =
      (mount.drive backend wait.fetch).1.pool.fetches := by
  unfold pollWait
  simp only
  split
  · rfl
  · exact Pool.fetches_resolve ..

theorem calls_pollWait (id : ReadId) (lease : Lease) (wait : Wait) :
    (pollWait backend id lease mount wait).pool.calls = mount.pool.calls := by
  have hdriven := (aside_drive backend mount wait.fetch).1.calls
  rw [Pool.calls, fetches_pollWait]
  exact Pool.calls_eq_of_call? hdriven

theorem calls_takeTurns (id : ReadId) (pages : List Nat) :
    (pages.foldl (takeTurn backend id) mount).pool.calls = mount.pool.calls :=
  takeTurns_induction backend pages (P := fun next => next.pool.calls = mount.pool.calls) rfl
    fun middle read _ wait _ _ h => (calls_pollWait backend middle read.id read.lease wait).trans h

theorem idle?_drive (id fetch : FetchId) : (mount.drive backend id).1.pool.idle? fetch =
    if fetch = id then none else mount.pool.idle? fetch := by
  obtain ⟨hothers, hdriven⟩ := fetches_drive backend mount id
  unfold Pool.idle?
  split
  · rename_i he
    subst he
    cases hf : (mount.drive backend fetch).1.pool.fetches[fetch]? with
    | none => rfl
    | some found => simp [Option.filter, hdriven found hf]
  · rename_i hn
    rw [hothers fetch hn]

theorem idle?_pollWait (id : ReadId) (lease : Lease) (wait : Wait) (fetch : FetchId) :
    (pollWait backend id lease mount wait).pool.idle? fetch =
      if fetch = wait.fetch then none else mount.pool.idle? fetch := by
  rw [Pool.idle?_of_fetches (fetches_pollWait backend mount id lease wait)]
  exact idle?_drive backend mount wait.fetch fetch

theorem idle?_takeTurns_of_none {fetch : FetchId} (h : mount.pool.idle? fetch = none)
    (id : ReadId) (pages : List Nat) :
    (pages.foldl (takeTurn backend id) mount).pool.idle? fetch = none :=
  takeTurns_induction backend pages (P := fun next => next.pool.idle? fetch = none) h
    fun middle read _ wait _ _ h => by rw [idle?_pollWait, h, ite_self]

-- The event of a fetch that starts is all that is told when a fetch is driven.
theorem logs_drive (fetch : FetchId) : mount.pool.Logs (mount.drive backend fetch).1.pool []
    ((mount.pool.idle? fetch).map Call.place).toList := by
  have hadvance : ∀ (start : Mount σ τ) (call : Call) (token : τ),
      (start.advance backend fetch call token).1.pool.journal = start.pool.journal ∧
        (start.advance backend fetch call token).1.pool.counters = start.pool.counters := by
    intro start call token
    unfold advance
    simp only
    split <;> exact ⟨rfl, rfl⟩
  unfold drive Pool.idle?
  cases hf : mount.pool.fetches[fetch]? with
  | none => exact .refl _
  | some found =>
      obtain ⟨call, phase⟩ := found
      cases phase with
      | complete outcome => exact .refl _
      | running token =>
          obtain ⟨hjournal, hcounters⟩ := hadvance mount call token
          have hsame : mount.pool.Logs mount.pool [] [] := .refl _
          exact hsame.to_eq hjournal hcounters
      | idle =>
          let launched := mount.launch backend fetch call
          obtain ⟨hjournal, hcounters⟩ := hadvance launched.1 call launched.2
          have hlaunched : mount.pool.Logs launched.1.pool [] [call.place] :=
            ⟨(Pool.looked_emit ..), (Pool.launches_emit ..), rfl, rfl⟩
          exact hlaunched.to_eq hjournal hcounters

theorem logs_pollWait (id : ReadId) (lease : Lease) (wait : Wait) :
    mount.pool.Logs (pollWait backend id lease mount wait).pool []
      ((mount.pool.idle? wait.fetch).map Call.place).toList := by
  have hdriven := logs_drive backend mount wait.fetch
  unfold pollWait
  simp only
  split
  · exact hdriven
  · rename_i outcome _
    have hresolved := Pool.logs_resolve (mount.drive backend wait.fetch).1.pool lease wait outcome
    exact (hdriven.trans hresolved).to_eq rfl rfl

theorem logs_takeTurn (id : ReadId) (page : Nat) :
    mount.pool.Logs (takeTurn backend id mount page).pool []
      ((mount.pool.due? id page).map Call.place).toList := by
  unfold takeTurn Pool.due?
  cases mount.pool.awaited? id page with
  | none => exact .refl _
  | some found => exact logs_pollWait backend mount id found.1 found.2

end Launching

section Turns

variable (backend : Backend σ τ) {mount : Mount σ τ} {plans : ReadId → Plan} {read : LiveRead}

-- A fetch that the read waits for is idle until its page has a turn.
theorem idle?_takeTurns (hs : mount.pool.Sound plans) (hr : read ∈ mount.pool.live)
    (pages : List Nat) {wait : Wait} (hw : wait ∈ read.waits) :
    (pages.foldl (takeTurn backend read.id) mount).pool.idle? wait.fetch =
      if wait.page ∈ pages then none else mount.pool.idle? wait.fetch := by
  induction pages using List.reverseRecOn with
  | nil => rfl
  | append_singleton pages page ih =>
      have hswept := swept_takeTurns backend pages hs hr
      rw [List.foldl_append, List.foldl_cons, List.foldl_nil]
      generalize pages.foldl (takeTurn backend read.id) mount = swept at ih hswept
      obtain ⟨left, hleft, hid, _, hwaits, hstays⟩ := hswept.left
      have hlive := hswept.sound.leased.live?_eq_some_iff.mpr ⟨hleft, hid⟩
      simp only [List.mem_append, List.mem_singleton]
      rcases takeTurn_cases backend swept read.id page with
        ⟨hnone, ht⟩ | ⟨found, hfound, other, hother, rfl, ht⟩
      · -- the turn is lost, so the page has had one before
        rw [ht, ih]
        by_cases hpage : wait.page = page
        · have hm : wait.page ∈ pages := by
            by_contra hn
            have hawaited := hswept.sound.awaited?_of_wait hleft (hstays wait hw hn)
            rw [hid, hpage, hnone] at hawaited
            cases hawaited
          rw [if_pos hm, if_pos (.inl hm)]
        · simp only [hpage, or_false]
      · obtain rfl : found = left := Option.some.inj (hfound.symm.trans hlive)
        have hmem := (hwaits other hother).1
        rw [ht, idle?_pollWait, ih]
        by_cases he : wait = other
        · subst he
          simp
        · have hfetch : wait.fetch ≠ other.fetch := hs.fetch_ne hr hmem hw he
          have hpage : wait.page ≠ other.page := fun hp => he (hs.wait_unique hr hmem hw hp)
          simp only [hfetch, hpage, if_false, or_false]

theorem due?_takeTurns (hs : mount.pool.Sound plans) (hr : read ∈ mount.pool.live)
    (pages : List Nat) (page : Nat) :
    (pages.foldl (takeTurn backend read.id) mount).pool.due? read.id page =
      if page ∈ pages then none else mount.pool.due? read.id page := by
  have hswept := swept_takeTurns backend pages hs hr
  have hidle : ∀ {wait : Wait}, wait ∈ read.waits → _ := idle?_takeTurns backend hs hr pages
  generalize pages.foldl (takeTurn backend read.id) mount = swept at hswept hidle
  obtain ⟨left, hleft, hid, _, hwaits, hstays⟩ := hswept.left
  rw [← hid]
  by_cases hfound : ∃ wait ∈ left.waits, wait.page = page
  · obtain ⟨wait, hw, rfl⟩ := hfound
    have hmem := (hwaits wait hw).1
    rw [hswept.sound.due?_of_wait hleft hw, hid, hs.due?_of_wait hr hmem, hidle hmem]
  · have hnone : ∀ wait ∈ left.waits, wait.page ≠ page := fun wait hw he => hfound ⟨wait, hw, he⟩
    rw [hswept.sound.due?_eq_none hleft hnone, hid]
    split
    · rfl
    · rename_i hn
      refine (hs.due?_eq_none hr fun wait hw he => ?_).symm
      exact hnone wait (hstays wait hw (he ▸ hn)) he

-- The turns of a read start a call each, but for those of a page that has had one.
theorem logs_takeTurns (hs : mount.pool.Sound plans) (hr : read ∈ mount.pool.live)
    (pages : List Nat) :
    mount.pool.Logs (pages.foldl (takeTurn backend read.id) mount).pool []
      ((mount.pool.dues read.id pages).map Call.place).reverse := by
  induction pages using List.reverseRecOn with
  | nil => exact .refl _
  | append_singleton pages page ih =>
      have hdue := due?_takeTurns backend hs hr pages page
      rw [List.foldl_append, List.foldl_cons, List.foldl_nil]
      have hturn := ih.trans (logs_takeTurn backend _ read.id page)
      rw [hdue] at hturn
      rw [Pool.dues_append_singleton, List.map_append, List.reverse_append]
      cases hcall : if page ∈ pages then none else mount.pool.due? read.id page with
      | none =>
          rw [hcall] at hturn
          exact hturn
      | some call =>
          rw [hcall] at hturn
          exact hturn

theorem logs_poll (hs : mount.pool.Sound plans) (id : ReadId) (turns : Turns) :
    mount.pool.Logs (mount.poll backend id turns).1.pool []
      ((mount.pool.started id turns).map Call.place).reverse := by
  cases hl : mount.pool.live? id with
  | none =>
      simp only [poll, Pool.started, hl]
      exact .refl _
  | some read =>
      obtain ⟨hr, rfl⟩ := hs.leased.live?_eq_some_iff.mp hl
      have hturns := logs_takeTurns backend hs hr (turns (read.waits.map (·.page)))
      rw [poll_eq backend mount hl]
      simp only [Pool.started, hl]
      split
      · exact hturns.sheds (Pool.sheds_endRead _ read.id)
      · exact hturns

end Turns

end Mount

end PageCache
