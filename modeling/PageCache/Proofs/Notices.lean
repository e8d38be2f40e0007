import PageCache.Proofs.Coherence

namespace PageCache

-- What a mount is asked, and what happens there.
inductive Notice where
  | asked (op : Op)
  | happened (event : Event)

-- What there is on record for a file from then on: nothing, when it is cached or invalidated,
-- or the attributes that it is said to have. A fetch says so by its outcome.
def Notice.report? (outcomes : FetchId → Option Outcome) (file : FileId) :
    Notice → Option (Option Attributes)
  | .asked (.invalidate other) => if other = file then some none else none
  | .asked (.revalidate other attributes) => if other = file then some (some attributes) else none
  | .happened (.fileAdded other) => if other = file then some none else none
  | .happened (.pageLoaded other _ fetch _ _) =>
      if other = file then some ((outcomes fetch).bind fun outcome => outcome.toOption.map (·.2))
      else none
  | _ => none

-- The latest report on a file. The notices have the latest first.
def Notice.latest? (outcomes : FetchId → Option Outcome) (file : FileId)
    (notices : List Notice) : Option (Option Attributes) :=
  notices.findSome? (Notice.report? outcomes file)

-- Events that report on no file.
def Event.isQuiet : Event → Bool
  | .fileAdded _ | .pageLoaded _ _ _ _ _ => false
  | _ => true

theorem Event.isQuiet_of_isAside {event : Event} (h : event.isAside = true) :
    event.isQuiet = true := by
  cases event <;> first | rfl | cases h

theorem Event.report?_eq_none {event : Event} (h : event.isQuiet = true)
    (outcomes : FetchId → Option Outcome) (file : FileId) :
    (Notice.happened event).report? outcomes file = none := by
  cases event <;> first | rfl | cases h

namespace Notice

variable {outcomes : FetchId → Option Outcome} {file : FileId}

theorem latest?_quiet {events : List Event} (h : ∀ event ∈ events, event.isQuiet = true)
    (rest : List Notice) :
    latest? outcomes file (events.map .happened ++ rest) = latest? outcomes file rest := by
  induction events with
  | nil => rfl
  | cons event others ih =>
      rw [List.forall_mem_cons] at h
      rw [List.map_cons, List.cons_append, latest?, List.findSome?_cons,
        event.report?_eq_none h.1]
      exact ih h.2

end Notice

namespace Pool

variable {τ : Type} {pool middle next : Pool τ} {file : FileId}

-- The attributes on record for a file, if it is cached.
def recorded? (pool : Pool τ) (file : FileId) : Option (Option Attributes) :=
  (pool.files.find? file).map (·.attributes)

-- The events since an earlier pool, the latest first.
def eventsSince (next pool : Pool τ) : List Event :=
  next.journal.take (next.journal.length - pool.journal.length)

theorem eventsSince_eq {events : List Event} (h : next.journal = events ++ pool.journal) :
    next.eventsSince pool = events := by
  simp [eventsSince, h]

-- Outcomes that are known at last include those that are known now.
def Extends (pool : Pool τ) (outcomes : FetchId → Option Outcome) : Prop :=
  ∀ fetch outcome, pool.outcome? fetch = some outcome → outcomes fetch = some outcome

-- What there is on record for each cached file is what the latest report on it says.
def Told (pool : Pool τ) (notices : List Notice) : Prop :=
  ∀ outcomes, pool.Extends outcomes → ∀ file attributes, pool.recorded? file = some attributes →
    Notice.latest? outcomes file notices = some attributes

-- Events that report on no file come to pass, and no outcome is lost.
structure Quiet (pool next : Pool τ) : Prop where
  outcomes : pool.Extends next.outcome?
  journal : ∃ events, next.journal = events ++ pool.journal ∧
    ∀ event ∈ events, event.isQuiet = true

theorem Quiet.trans (h : pool.Quiet middle) (hn : middle.Quiet next) : pool.Quiet next where
  outcomes fetch outcome ho := hn.outcomes fetch outcome (h.outcomes fetch outcome ho)
  journal := by
    obtain ⟨events, he, hq⟩ := h.journal
    obtain ⟨more, hm, hmore⟩ := hn.journal
    refine ⟨more ++ events, by rw [hm, he, List.append_assoc], fun event hevent => ?_⟩
    rcases List.mem_append.mp hevent with hevent | hevent
    · exact hmore event hevent
    · exact hq event hevent

theorem quiet_of_eq (hf : next.fetches = pool.fetches) (hj : next.journal = pool.journal) :
    pool.Quiet next where
  outcomes fetch outcome ho := by rwa [outcome?_of_fetches hf]
  journal := ⟨[], hj, fun _ hm => (List.not_mem_nil hm).elim⟩

theorem quiet_emit (pool : Pool τ) {event : Event} (h : event.isQuiet = true) :
    pool.Quiet (pool.emit event) where
  outcomes _ _ ho := ho
  journal := ⟨[event], rfl, fun _ hm => List.mem_singleton.mp hm ▸ h⟩

theorem quiet_shrink (pool : Pool τ) (pages : Nat) : pool.Quiet (pool.shrink pages) := by
  have hchecked : pool.Quiet
      (pool.require (decide (pages ≤ pool.pagesUsed)) .pagesUnderflow) := by
    cases decide (pages ≤ pool.pagesUsed) with
    | true => exact quiet_of_eq rfl rfl
    | false => exact quiet_emit pool rfl
  exact hchecked.trans (quiet_of_eq rfl rfl)

theorem quiet_dropPages (pool : Pool τ) (file : FileId) (pages : List Nat) {event : Event}
    (h : event.isQuiet = true) : pool.Quiet (pool.dropPages file pages event) := by
  have hdropped : pool.Quiet (pool.modifyFile file (·.drop pages)) := quiet_of_eq rfl rfl
  exact (hdropped.trans (quiet_emit _ h)).trans (quiet_shrink _ _)

theorem quiet_dropStale (pool : Pool τ) (file : FileId) (keep : Nat) :
    pool.Quiet (pool.dropStale file keep) := by
  unfold dropStale
  split
  · exact quiet_of_eq rfl rfl
  · simp only
    split
    · exact quiet_of_eq rfl rfl
    · exact quiet_dropPages pool file _ rfl

theorem quiet_removeFile (pool : Pool τ) (file : FileId) : pool.Quiet (pool.removeFile file) := by
  unfold removeFile
  split
  · exact quiet_of_eq rfl rfl
  · rename_i cached _
    have herased : pool.Quiet { pool with files := pool.files.erase file } := quiet_of_eq rfl rfl
    exact (herased.trans (quiet_shrink _ _)).trans (quiet_emit _ rfl)

theorem quiet_invalidate (pool : Pool τ) (file : FileId) :
    pool.Quiet (pool.invalidate file).1 := by
  unfold invalidate
  split
  · exact quiet_of_eq rfl rfl
  · have hforgotten : pool.Quiet (pool.modifyFile file fun cached =>
        { cached with attributes := none }) := quiet_of_eq rfl rfl
    exact hforgotten.trans (quiet_dropPages _ _ _ rfl)

theorem quiet_revalidate (pool : Pool τ) (file : FileId) (attributes : Attributes) :
    pool.Quiet (pool.revalidate file attributes).1 := by
  unfold revalidate
  split
  · exact quiet_of_eq rfl rfl
  · have hrecorded : pool.Quiet (pool.modifyFile file fun cached =>
        { cached with attributes := some attributes }) := quiet_of_eq rfl rfl
    simp only
    split
    · exact hrecorded.trans (quiet_dropPages _ _ _ rfl)
    · exact hrecorded

theorem Updates.recorded? {change : FileCache → FileCache} (h : pool.Updates next file change)
    (other : FileId) :
    next.recorded? other =
      if other = file then (pool.files.find? other).map fun cached => (change cached).attributes
      else pool.recorded? other := by
  rw [Pool.recorded?, h.find? other]
  split
  · rw [Option.map_map]
    rfl
  · rfl

-- Whatever comes to pass between the two pools, the events report it.
def Tells (pool next : Pool τ) : Prop :=
  ∃ events, next.journal = events ++ pool.journal ∧
    ∀ notices, pool.Told notices → next.Told (events.map .happened ++ notices)

theorem Tells.refl (pool : Pool τ) : pool.Tells pool := ⟨[], rfl, fun _ h => h⟩

theorem Tells.trans (h : pool.Tells middle) (hn : middle.Tells next) : pool.Tells next := by
  obtain ⟨events, he, ht⟩ := h
  obtain ⟨more, hm, hmore⟩ := hn
  refine ⟨more ++ events, by rw [hm, he, List.append_assoc], fun notices hnotices => ?_⟩
  rw [List.map_append, List.append_assoc]
  exact hmore _ (ht notices hnotices)

-- Nothing is put on record, and files that are no longer cached need nothing to be.
theorem Quiet.tells (h : pool.Quiet next)
    (hr : ∀ file attributes, next.recorded? file = some attributes →
      pool.recorded? file = some attributes) : pool.Tells next := by
  obtain ⟨events, he, hevents⟩ := h.journal
  refine ⟨events, he, fun notices ht outcomes ho file attributes ha => ?_⟩
  have hextends : pool.Extends outcomes :=
    fun fetch outcome hf => ho fetch outcome (h.outcomes fetch outcome hf)
  rw [Notice.latest?_quiet hevents]
  exact ht outcomes hextends file attributes (hr file attributes ha)

theorem Quiet.tells_of_updates (h : pool.Quiet next) {change : FileCache → FileCache}
    (hu : pool.Updates next file change)
    (hc : ∀ cached, (change cached).attributes = cached.attributes) : pool.Tells next := by
  refine h.tells fun other attributes ha => ?_
  rw [hu.recorded?] at ha
  split at ha
  · simp only [hc] at ha
    exact ha
  · exact ha

theorem tells_modifyFile (pool : Pool τ) (file : FileId) {change : FileCache → FileCache}
    (hc : ∀ cached, (change cached).attributes = cached.attributes) :
    pool.Tells (pool.modifyFile file change) := by
  have hquiet : pool.Quiet (pool.modifyFile file change) := quiet_of_eq rfl rfl
  exact hquiet.tells_of_updates (updates_modifyFile ..) hc

theorem Aside.tells (h : pool.Aside next) : pool.Tells next := by
  obtain ⟨events, he, ha⟩ := h.journal
  have hq : pool.Quiet next :=
    ⟨h.outcomes, events, he, fun event hm => Event.isQuiet_of_isAside (ha event hm)⟩
  refine hq.tells fun file attributes hr => ?_
  rwa [recorded?, h.files] at hr

-- A report comes in on one file.
theorem tells_of_report (file : FileId) (attributes : Option Attributes) {event : Event}
    (ho : pool.Extends next.outcome?) {events : List Event}
    (hj : next.journal = event :: events ++ pool.journal)
    (hq : ∀ event ∈ events, event.isQuiet = true)
    (hevent : ∀ outcomes, next.Extends outcomes → ∀ other,
      (Notice.happened event).report? outcomes other =
        if file = other then some attributes else none)
    (hr : ∀ other found, next.recorded? other = some found →
      if file = other then found = attributes else pool.recorded? other = some found) :
    pool.Tells next := by
  refine ⟨event :: events, hj, fun notices ht outcomes hextends other found hf => ?_⟩
  have hfound := hr other found hf
  rw [List.map_cons, List.cons_append, Notice.latest?, List.findSome?_cons,
    hevent outcomes hextends other]
  by_cases he : file = other
  · rw [if_pos he] at hfound ⊢
    rw [hfound]
  · rw [if_neg he] at hfound ⊢
    change Notice.latest? outcomes other (events.map .happened ++ notices) = some found
    rw [Notice.latest?_quiet hq]
    exact ht outcomes (fun fetch outcome hk => hextends fetch outcome (ho fetch outcome hk)) other
      found hfound

theorem tells_enter (pool : Pool τ) (file : FileId) : pool.Tells (pool.enter file) := by
  have hfetches := (enter_frame pool file).2.1
  have hrecorded : ∀ other, (pool.enter file).recorded? other =
      if file = other then some (pool.resident file).attributes else pool.recorded? other := by
    intro other
    rw [recorded?, find?_enter]
    by_cases he : other = file
    · rw [if_pos he, if_pos he.symm]
      rfl
    · rw [if_neg he, if_neg (Ne.symm he)]
      rfl
  cases hf : pool.files.find? file with
  | some cached =>
      have hquiet : pool.Quiet (pool.enter file) :=
        quiet_of_eq hfetches (by simp [enter, LruMap.contains_eq_isSome, hf])
      refine hquiet.tells fun other attributes ha => ?_
      rw [hrecorded] at ha
      split at ha
      · rename_i he
        rw [← he, recorded?, hf, Option.map_some, ← ha, resident, hf, Option.getD_some]
      · exact ha
  | none =>
      have hjournal : (pool.enter file).journal = [.fileAdded file] ++ pool.journal := by
        simp [enter, LruMap.contains_eq_isSome, hf, emit]
      refine tells_of_report file none ?_ hjournal (fun _ hm => (List.not_mem_nil hm).elim)
        (fun _ _ _ => rfl) fun other found ha => ?_
      · intro fetch outcome ho
        rwa [outcome?_of_fetches hfetches]
      · rw [hrecorded] at ha
        split
        · rename_i he
          rw [if_pos he, resident, hf, Option.some.injEq] at ha
          exact ha.symm
        · rename_i he
          rwa [if_neg he] at ha

theorem tells_load {wait : Wait} {waiters : List ReadId} {data : Bytes} {attributes : Attributes}
    (hp : pool.pageAt? file wait.page = some (.fetching wait.fetch waiters))
    (ho : pool.outcome? wait.fetch = some (.ok (data, attributes))) :
    pool.Tells (pool.load file wait waiters data attributes) := by
  obtain ⟨cached, hf, _⟩ := Option.bind_eq_some_iff.mp hp
  let stored := pool.modifyFile file fun cached =>
    { cached with
      pages := cached.pages.insert wait.page (.loaded wait.fetch data)
      attributes := some attributes }
  let fresh := if (pool.files.find? file).any (·.isStale attributes)
    then stored.dropStale file wait.page else stored
  have hfresh : pool.Quiet fresh := by
    have hstored : pool.Quiet stored := quiet_of_eq rfl rfl
    simp only [fresh]
    split
    · exact hstored.trans (quiet_dropStale ..)
    · exact hstored
  obtain ⟨events, hj, hq⟩ := hfresh.journal
  have hjournal : (pool.load file wait waiters data attributes).journal =
      .pageLoaded file wait.page wait.fetch data.length waiters.length :: events ++
        pool.journal := congrArg (List.cons _) hj
  refine tells_of_report file (some attributes) hfresh.outcomes hjournal hq ?_ ?_
  · intro outcomes hextends other
    have hfound := hextends _ _ (hfresh.outcomes _ _ ho)
    simp [Notice.report?, hfound, Except.toOption]
  · intro other found hr
    rw [(updates_load hf wait waiters data attributes).recorded?] at hr
    by_cases he : other = file
    · subst he
      rw [if_pos rfl]
      simpa [hf, FileCache.attributes_load, eq_comm] using hr
    · rw [if_neg (Ne.symm he)]
      rwa [if_neg he] at hr

theorem Move.tells {op : Op} (h : Move op pool next) (hi : ∀ file, op ≠ .invalidate file)
    (hr : ∀ file attributes, op ≠ .revalidate file attributes) : pool.Tells next := by
  cases h with
  | aside h => exact h.tells
  | enter => exact tells_enter _ _
  | @create file page cached _ _ hp =>
      have hquiet : pool.Quiet (pool.createPage file page) := by
        refine ⟨fun fetch outcome ho => ?_, [.pageCreated file page pool.fetches.size], rfl, ?_⟩
        · rwa [outcome?_createPage]
        · simp [Event.isQuiet]
      exact hquiet.tells_of_updates ⟨(updates_modifyFile _ file _).find?⟩ fun _ => rfl
  | wait file page id => exact tells_modifyFile pool file fun _ => rfl
  | use file page => exact tells_modifyFile pool file fun _ => rfl
  | load hp ho => exact tells_load hp ho
  | fail => exact (quiet_dropPages _ _ _ rfl).tells_of_updates (updates_dropPages ..) fun _ => rfl
  | evict => exact (quiet_dropPages _ _ _ rfl).tells_of_updates (updates_dropPages ..) fun _ => rfl
  | remove hf =>
      refine (quiet_removeFile ..).tells fun other attributes ha => ?_
      rw [recorded?, files_removeFile hf] at ha
      obtain ⟨found, hfound, rfl⟩ := Option.map_eq_some_iff.mp ha
      rw [recorded?, (LruMap.find?_of_erase hfound).2, Option.map_some]
  | part file => exact tells_modifyFile pool file fun _ => rfl
  | mark file => exact tells_modifyFile pool file fun _ => rfl
  | invalidate h => exact absurd h (hi _)
  | revalidate h => exact absurd h (hr _ _)

theorem Moves.tells {op : Op} (h : Moves op pool next) (hi : ∀ file, op ≠ .invalidate file)
    (hr : ∀ file attributes, op ≠ .revalidate file attributes) : pool.Tells next := by
  induction h with
  | refl => exact .refl pool
  | tail _ hlast ih => exact ih.trans (hlast.tells hi hr)

-- The two operations that say what is to be on record for a file.
theorem Told.asked {past : List Notice} (h : pool.Told past) (hq : pool.Quiet next)
    {change : FileCache → FileCache} (hu : pool.Updates next file change)
    {attributes : Option Attributes} (hc : ∀ cached, (change cached).attributes = attributes)
    {op : Op} (hop : ∀ outcomes other, (Notice.asked op).report? outcomes other =
      if file = other then some attributes else none) :
    next.Told ((next.eventsSince pool).map .happened ++ .asked op :: past) := by
  obtain ⟨events, he, hevents⟩ := hq.journal
  rw [eventsSince_eq he]
  intro outcomes hextends other found hf
  rw [Notice.latest?_quiet hevents, Notice.latest?, List.findSome?_cons, hop]
  rw [hu.recorded?] at hf
  by_cases hother : other = file
  · simp only [hother, if_true, hc, Option.map_eq_some_iff] at hf ⊢
    obtain ⟨_, _, rfl⟩ := hf
    rfl
  · rw [if_neg hother] at hf
    rw [if_neg (Ne.symm hother)]
    exact h outcomes (fun fetch outcome ho => hextends fetch outcome (hq.outcomes fetch outcome ho))
      other found hf

end Pool

namespace Mount

variable {σ τ : Type} {mount : Mount σ τ} {past : List Notice}

-- What a run is asked and what happens in it, the latest first.
def history (backend : Backend σ τ) (mount : Mount σ τ) (past : List Notice) :
    List (Act σ) → List Notice
  | [] => past
  | .change become :: rest =>
      history backend { mount with storage := become mount.storage } past rest
  | .ask op :: rest =>
      let next := (mount.step backend op).1
      history backend next
        ((next.pool.eventsSince mount.pool).map .happened ++ .asked op :: past) rest

theorem told_step (backend : Backend σ τ) (h : mount.pool.Told past) (op : Op) :
    let next := (mount.step backend op).1.pool
    next.Told ((next.eventsSince mount.pool).map .happened ++ .asked op :: past) := by
  intro next
  have htells : (∀ file, op ≠ .invalidate file) →
      (∀ file attributes, op ≠ .revalidate file attributes) →
      next.Told ((next.eventsSince mount.pool).map .happened ++ .asked op :: past) := by
    intro hi hr
    obtain ⟨events, he, ht⟩ := (moves_step backend mount op).tells hi hr
    rw [Pool.eventsSince_eq he]
    refine ht _ fun outcomes ho file attributes ha => ?_
    have hreport : (Notice.asked op).report? outcomes file = none := by
      cases op with
      | invalidate other => exact absurd rfl (hi other)
      | revalidate other attributes => exact absurd rfl (hr other attributes)
      | _ => rfl
    rw [Notice.latest?, List.findSome?_cons, hreport]
    exact h outcomes ho file attributes ha
  cases op with
  | invalidate file =>
      exact h.asked (Pool.quiet_invalidate ..) (Pool.updates_invalidate _ file)
        (fun _ => rfl) fun _ _ => rfl
  | revalidate file attributes =>
      exact h.asked (Pool.quiet_revalidate ..) (Pool.updates_revalidate _ file attributes)
        (fun cached => cached.attributes_refresh attributes) fun _ _ => rfl
  | _ => exact htells (fun _ he => nomatch he) fun _ _ he => nomatch he

theorem told_run (backend : Backend σ τ) (acts : List (Act σ)) (h : mount.pool.Told past) :
    (mount.run backend acts).pool.Told (mount.history backend past acts) := by
  induction acts generalizing mount past with
  | nil => exact h
  | cons act rest ih =>
      cases act with
      | change become => exact ih h
      | ask op => exact ih (told_step backend h op)

end Mount

end PageCache
