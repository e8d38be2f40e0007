import Mathlib.Data.List.Perm.Subperm
import PageCache.Proofs.Launching

namespace PageCache

-- The same act next to a list of the reads of storage, which it leaves alone.
def Act.beside {σ : Type} : Act σ → Act (σ × List Call)
  | .ask op => .ask op
  | .change become => .change fun state => (become state.1, state.2)

-- What has been appended is read off by its places.
theorem filterMap_range'_append {α : Type} (first second : List α) :
    (List.range' first.length second.length).filterMap (fun n => (first ++ second)[n]?) =
      second := by
  induction second generalizing first with
  | nil => rfl
  | cons item rest ih =>
      have hitem : (first ++ item :: rest)[first.length]? = some item := by simp
      have hrest := ih (first ++ [item])
      rw [List.length_append, List.length_singleton, List.append_assoc] at hrest
      rw [List.length_cons, List.range'_succ, List.filterMap_cons, hitem]
      exact congrArg (item :: ·) hrest

namespace Pool

variable {τ : Type} {pool : Pool τ} {plans : ReadId → Plan}

-- The calls that an act starts, in order.
def begins {σ : Type} (pool : Pool τ) : Act σ → List Call
  | .ask (.read file offset length turns) =>
      if 0 < length ∧ offset + length < wordLimit then
        (pool.startRead file offset (offset + length)).started pool.gatherings.size turns
      else []
  | .ask (.poll id turns) => pool.started id turns
  | _ => []

section StartRead

variable {file : FileId} {offset stop : Nat}

-- The fetches that a read creates are idle.
theorem idle?_startRead (hs : pool.Sound plans) (file : FileId) (offset stop : Nat)
    {fetch : FetchId} (hle : pool.fetches.size ≤ fetch) :
    (pool.startRead file offset stop).idle? fetch =
      (pool.startRead file offset stop).call? fetch := by
  have hfetches := fetches_startRead hs file offset stop
  unfold idle? call?
  simp only [← Array.getElem?_toList, hfetches, List.getElem?_append, Array.length_toList]
  rw [if_neg (Nat.not_lt_of_le hle), List.getElem?_map]
  cases (pool.absent file (pool.limits.span offset stop))[fetch - pool.fetches.size]? <;> rfl

theorem Launched.idle?_startRead_eq_none (h : pool.Launched) (hs : pool.Sound plans)
    (file : FileId) (offset stop : Nat) {fetch : FetchId} (hlt : fetch < pool.fetches.size) :
    (pool.startRead file offset stop).idle? fetch = none := by
  have hfetches := fetches_startRead hs file offset stop
  have hold := h fetch
  unfold idle? at hold ⊢
  simp only [← Array.getElem?_toList, hfetches] at hold ⊢
  rwa [List.getElem?_append_left (by simpa using hlt)]

-- A page that is not there is due in the first turn of the read for it.
theorem due?_startRead (hs : pool.Sound plans) (file : FileId) {offset stop page : Nat}
    (hm : page ∈ pool.limits.span offset stop) (hp : pool.pageAt? file page = none) :
    (pool.startRead file offset stop).due? pool.gatherings.size page =
      some ⟨file, page, pool.limits.pageSize⟩ := by
  let started := pool.startRead file offset stop
  obtain ⟨hlimits, _, _, _, hsize, _⟩ := startRead_frame hs file offset stop
  have hsound : started.Sound _ := sound_startRead hs file offset stop
  have hr := (hsound.leased.live?_eq_some_iff.mp (live?_startRead hs file offset stop)).1
  have ht := hsound.tracked pool.gatherings.size (hsize ▸ Nat.lt_succ_self _)
  obtain ⟨fetch, hle, hw⟩ := exists_wait_partsFrom hm hp pool.fetches.size
  have hpart := (ht.reading _ hr rfl).planned _ hw
  have hcall := ht.calls _ _ hpart
  rw [Function.update_self, hlimits] at hcall
  exact (hsound.due?_of_wait hr hw).trans ((idle?_startRead hs file offset stop hle).trans hcall)

theorem mem_started_startRead (hs : pool.Sound plans) (file : FileId) {offset stop page : Nat}
    (hm : page ∈ pool.limits.span offset stop) (hp : pool.pageAt? file page = none)
    {turns : Turns} (ht : turns.Thorough) :
    ⟨file, page, pool.limits.pageSize⟩ ∈
      (pool.startRead file offset stop).started pool.gatherings.size turns := by
  obtain ⟨_, _, hw⟩ := exists_wait_partsFrom hm hp pool.fetches.size
  simp only [started, live?_startRead hs file offset stop]
  refine List.mem_filterMap.mpr ⟨page, ?_, due?_startRead hs file hm hp⟩
  exact List.mem_eraseDups.mpr (ht _ (List.mem_map.mpr ⟨_, hw, rfl⟩))

-- So these are what the read starts in prompt turns.
theorem Launched.started_startRead (h : pool.Launched) (hs : pool.Sound plans)
    {turns : Turns} (ht : turns.Prompt) :
    (pool.startRead file offset stop).started pool.gatherings.size turns =
      (pool.absent file (pool.limits.span offset stop)).map
        (⟨file, ·, pool.limits.pageSize⟩) := by
  let started := pool.startRead file offset stop
  have hfetches := fetches_startRead hs file offset stop
  have hsound : started.Sound _ := sound_startRead hs file offset stop
  have hr := (hsound.leased.live?_eq_some_iff.mp (live?_startRead hs file offset stop)).1
  have hidle : ∀ fetch, started.idle? fetch =
      (Option.guard (fun fetch => decide (pool.fetches.size ≤ fetch)) fetch).bind
        started.call? := by
    intro fetch
    rw [Option.guard]
    by_cases hle : pool.fetches.size ≤ fetch
    · simpa [hle] using idle?_startRead hs file offset stop hle
    · simpa [hle] using h.idle?_startRead_eq_none hs file offset stop (Nat.lt_of_not_le hle)
  have hwaits : ((pool.plan file offset stop).parts.filterMap Part.wait?).filterMap
      (started.idle? ·.fetch) = (pool.plan file offset stop).fetches.filterMap started.idle? := by
    rw [List.filterMap_filterMap, Plan.fetches, List.filterMap_filterMap]
    refine List.filterMap_congr fun part _ => ?_
    rw [Part.wait?, Option.bind_map]
    rfl
  have hcalls : started.calls = pool.calls ++
      (pool.absent file (pool.limits.span offset stop)).map (⟨file, ·, pool.limits.pageSize⟩) := by
    rw [calls, hfetches, List.map_append, List.map_map]
    rfl
  have hnew := filterMap_range'_append pool.calls
    ((pool.absent file (pool.limits.span offset stop)).map
      (⟨file, ·, pool.limits.pageSize⟩ : Nat → Call))
  rw [← hcalls, length_calls, List.length_map, funext (getElem?_calls started)] at hnew
  refine (hsound.started_of_prompt hr ht).trans ?_
  rw [hwaits, funext hidle, ← List.filterMap_filterMap, List.filterMap_eq_filter, fetches_plan hs]
  exact hnew

end StartRead

end Pool

namespace Mount

variable {σ τ : Type}

-- The mount with a list of the reads of storage, the latest first.
def traced (mount : Mount σ τ) (calls : List Call) : Mount (σ × List Call) τ :=
  ⟨(mount.storage, calls), mount.pool⟩

-- What the cache has asked of its storage in a run, in order.
def issued (backend : Backend σ τ) (mount : Mount σ τ) (acts : List (Act σ)) : List Call :=
  (run backend.recording (mount.traced []) (acts.map Act.beside)).storage.2.reverse

section Recording

variable (backend : Backend σ τ) (mount : Mount σ τ) (calls : List Call)

theorem advance_traced (id : FetchId) (call : Call) (token : τ) :
    (mount.traced calls).advance backend.recording id call token =
      ((mount.advance backend id call token).1.traced calls,
        (mount.advance backend id call token).2) := by
  simp only [advance, traced, Backend.recording]
  cases (backend.poll mount.storage call token).2 <;> rfl

theorem drive_traced (id : FetchId) :
    (mount.traced calls).drive backend.recording id =
      ((mount.drive backend id).1.traced ((mount.pool.idle? id).toList ++ calls),
        (mount.drive backend id).2) := by
  have hpool : (mount.traced calls).pool = mount.pool := rfl
  unfold drive Pool.idle?
  rw [hpool]
  cases hf : mount.pool.fetches[id]? with
  | none => rfl
  | some fetch =>
      obtain ⟨call, phase⟩ := fetch
      cases phase with
      | complete outcome => rfl
      | running token => exact advance_traced backend mount calls id call token
      | idle =>
          exact advance_traced backend (mount.launch backend id call).1 (call :: calls) id call _

theorem takeTurn_traced (id : ReadId) (page : Nat) :
    takeTurn backend.recording id (mount.traced calls) page =
      (takeTurn backend id mount page).traced
        ((mount.pool.due? id page).toList ++ calls) := by
  have hpool : (mount.traced calls).pool = mount.pool := rfl
  unfold takeTurn Pool.due?
  rw [hpool]
  cases mount.pool.awaited? id page with
  | none => rfl
  | some found =>
      simp only [pollWait, drive_traced, Option.bind_some]
      cases (mount.drive backend found.2.fetch).2 <;> rfl

end Recording

section Traced

variable {mount : Mount σ τ} {plans : ReadId → Plan}

theorem takeTurns_traced (backend : Backend σ τ) (hs : mount.pool.Sound plans)
    {read : LiveRead} (hr : read ∈ mount.pool.live) (calls : List Call) (pages : List Nat) :
    pages.foldl (takeTurn backend.recording read.id) (mount.traced calls) =
      (pages.foldl (takeTurn backend read.id) mount).traced
        ((mount.pool.dues read.id pages).reverse ++ calls) := by
  induction pages using List.reverseRecOn with
  | nil => rfl
  | append_singleton pages page ih =>
      simp only [List.foldl_append, List.foldl_cons, List.foldl_nil]
      rw [ih, takeTurn_traced, due?_takeTurns backend hs hr, Pool.dues_append_singleton,
        List.reverse_append, List.append_assoc]
      cases if page ∈ pages then none else mount.pool.due? read.id page <;> rfl

theorem poll_traced (backend : Backend σ τ) (hs : mount.pool.Sound plans) (calls : List Call)
    (id : ReadId) (turns : Turns) :
    let polled := mount.poll backend id turns
    (mount.traced calls).poll backend.recording id turns =
      (polled.1.traced ((mount.pool.started id turns).reverse ++ calls), polled.2) := by
  have hpool : (mount.traced calls).pool = mount.pool := rfl
  unfold poll Pool.started
  rw [hpool]
  cases hl : mount.pool.live? id with
  | none => rfl
  | some read =>
      obtain ⟨hr, rfl⟩ := hs.leased.live?_eq_some_iff.mp hl
      simp only [takeTurns_traced backend hs hr]
      generalize (turns (read.waits.map (·.page))).foldl (takeTurn backend read.id) mount = polled
      by_cases hdone : (polled.pool.live? read.id).all (·.waits.isEmpty) = true
      · simp only [traced, hdone, if_true]
      · simp only [traced, hdone, Bool.false_eq_true, if_false]

theorem act_traced (backend : Backend σ τ) (hs : mount.pool.Steady plans) (calls : List Call)
    (act : Act σ) :
    let acted := mount.act backend act
    (mount.traced calls).act backend.recording act.beside =
      (acted.1.traced ((mount.pool.begins act).reverse ++ calls), acted.2) := by
  cases act with
  | change become => rfl
  | ask op =>
      cases op with
      | read file offset length turns =>
          have hpool : (mount.traced calls).pool = mount.pool := rfl
          simp only [Act.beside, act, step, read, Pool.begins, hpool]
          by_cases hl : length = 0
          · simp [hl]
          · by_cases hw : offset + length < wordLimit
            · let started : Mount σ τ :=
                { mount with pool := mount.pool.startRead file offset (offset + length) }
              have hsound : started.pool.Sound _ := Pool.sound_startRead hs.sound file offset _
              have hpolled := poll_traced backend hsound calls mount.pool.gatherings.size turns
              simp only [hl, hw, Nat.pos_of_ne_zero hl, and_self, if_true, if_false]
              exact congrArg (fun polled => (polled.1, some polled.2)) hpolled
            · simp [hl, hw]
      | poll id turns =>
          exact congrArg (fun polled => (polled.1, some polled.2))
            (poll_traced backend hs.sound calls id turns)
      | drop id => rfl
      | invalidate file => rfl
      | revalidate file attributes => rfl
      | release file => rfl
      | prune => rfl

-- An act leaves its calls in the journal and in the counts.
theorem exists_logs_act (backend : Backend σ τ) (hs : mount.pool.Steady plans) (act : Act σ) :
    ∃ found, mount.pool.Logs (mount.act backend act).1.pool found
      ((mount.pool.begins act).map Call.place).reverse := by
  cases act with
  | change become => exact ⟨[], .refl _⟩
  | ask op =>
      cases op with
      | read file offset length turns =>
          simp only [act, step, read, Pool.begins]
          by_cases hl : length = 0
          · simp only [hl, if_true, Nat.lt_irrefl, false_and, if_false]
            exact ⟨[], .refl _⟩
          · by_cases hw : offset + length < wordLimit
            · simp only [hl, hw, Nat.pos_of_ne_zero hl, and_self, if_true, if_false]
              let started : Mount σ τ :=
                { mount with pool := mount.pool.startRead file offset (offset + length) }
              have hsound : started.pool.Sound _ := Pool.sound_startRead hs.sound file offset _
              have hlogs := (Pool.logs_startRead mount.pool file offset (offset + length)).trans
                (logs_poll backend hsound mount.pool.gatherings.size turns)
              rw [List.append_nil, List.append_nil] at hlogs
              exact ⟨_, hlogs⟩
            · simp only [hl, hw, and_false, if_false]
              exact ⟨[], .refl _⟩
      | poll id turns => exact ⟨[], logs_poll backend hs.sound id turns⟩
      | drop id => exact ⟨[], (Pool.sheds_endRead _ id).logs⟩
      | invalidate file => exact ⟨[], (Pool.sheds_invalidate _ file).logs⟩
      | revalidate file attributes => exact ⟨[], (Pool.sheds_revalidate _ file attributes).logs⟩
      | release file => exact ⟨[], (Pool.sheds_release _ file).logs⟩
      | prune => exact ⟨[], (Pool.sheds_evict _).logs⟩

-- Behind each of them there is a fetch.
theorem exists_fetch_of_begins (backend : Backend σ τ) (hs : mount.pool.Steady plans)
    {act : Act σ} {call : Call} (hm : call ∈ mount.pool.begins act) :
    ∃ fetch, (mount.act backend act).1.pool.call? fetch = some call := by
  unfold Pool.begins at hm
  split at hm
  · rename_i file offset length turns
    split at hm
    · rename_i hread
      obtain ⟨fetch, hidle⟩ := Pool.exists_idle_of_started hm
      have hpolls := polls_read backend hs file hread.1 hread.2 turns
      exact ⟨fetch, hpolls.later.calls fetch call (Pool.call?_of_idle hidle)⟩
    · cases hm
  · rename_i id turns
    obtain ⟨fetch, hidle⟩ := Pool.exists_idle_of_started hm
    obtain ⟨_, hsteps⟩ := exists_steps_act backend hs (.ask (.poll id turns))
    exact ⟨fetch, hsteps.later.calls fetch call (Pool.call?_of_idle hidle)⟩
  · cases hm

end Traced

-- The calls on the list are those of different fetches, none of which is idle any more.
def ListsFetches (state : σ × List Call) (fetches : Array (Fetch τ)) : Prop :=
  ∃ ids : List FetchId, ids.Nodup ∧ ids.length = state.2.length ∧
    ∀ id ∈ ids, id < fetches.size ∧
      ∀ fetch, fetches[id]? = some fetch → fetch.phase.isIdle = false

theorem stable_listsFetches (backend : Backend σ τ) (limits : Limits) :
    Stable backend.recording limits (ListsFetches (σ := σ) (τ := τ)) where
  create state fetches call _ h := by
    obtain ⟨ids, hn, hlength, hbusy⟩ := h
    refine ⟨ids, hn, hlength, fun id hm => ?_⟩
    obtain ⟨hlt, hphase⟩ := hbusy id hm
    rw [Array.size_push, Array.getElem?_push_lt hlt, ← Array.getElem?_eq_getElem hlt]
    exact ⟨Nat.lt_succ_of_lt hlt, hphase⟩
  drive mount fetch h := by
    let plain : Mount σ τ := ⟨mount.storage.1, mount.pool⟩
    obtain ⟨hothers, hdriven⟩ := fetches_drive backend plain fetch
    have hsize : (plain.drive backend fetch).1.pool.fetches.size = mount.pool.fetches.size := by
      rw [← Pool.length_calls, Pool.calls_eq_of_call? (aside_drive backend plain fetch).1.calls,
        Pool.length_calls]
    have htraced := drive_traced backend plain mount.storage.2 fetch
    have hmount : plain.traced mount.storage.2 = mount := rfl
    rw [hmount] at htraced
    rw [htraced]
    obtain ⟨ids, hn, hlength, hbusy⟩ := h
    have hstill : ∀ id ∈ ids, id < (plain.drive backend fetch).1.pool.fetches.size ∧
        ∀ found, (plain.drive backend fetch).1.pool.fetches[id]? = some found →
          found.phase.isIdle = false := by
      intro id hm
      obtain ⟨hlt, hphase⟩ := hbusy id hm
      refine ⟨hsize ▸ hlt, fun found hf => ?_⟩
      by_cases he : id = fetch
      · subst he
        exact hdriven found hf
      · exact hphase found (hothers id he ▸ hf)
    cases hidle : plain.pool.idle? fetch with
    | none => exact ⟨ids, hn, hlength, hstill⟩
    | some call =>
        have hnew : fetch ∉ ids := by
          intro hm
          obtain ⟨found, hf, _⟩ := Option.map_eq_some_iff.mp hidle
          obtain ⟨hf, hphase⟩ := Option.filter_eq_some_iff.mp hf
          rw [(hbusy fetch hm).2 found hf] at hphase
          cases hphase
        have hlt : fetch < mount.pool.fetches.size := by
          by_contra hge
          have hnone := Pool.call?_eq_none_iff.mpr (Nat.le_of_not_lt hge)
          cases hnone.symm.trans (Pool.call?_of_idle hidle)
        refine ⟨fetch :: ids, List.nodup_cons.mpr ⟨hnew, hn⟩, congrArg Nat.succ hlength, ?_⟩
        exact List.forall_mem_cons.mpr ⟨⟨hsize ▸ hlt, hdriven⟩, hstill⟩

section Prompt

variable {mount : Mount σ τ} {plans : ReadId → Plan}

theorem fetches_poll (backend : Backend σ τ) (mount : Mount σ τ) (id : ReadId) (turns : Turns) :
    ∃ pages : List Nat, (mount.poll backend id turns).1.pool.fetches =
      (pages.foldl (takeTurn backend id) mount).pool.fetches := by
  unfold poll
  split
  · exact ⟨[], rfl⟩
  · rename_i read _
    refine ⟨turns (read.waits.map (·.page)), ?_⟩
    simp only
    split
    · exact (Pool.endRead_frame ..).2.1
    · rfl

theorem calls_poll (backend : Backend σ τ) (mount : Mount σ τ) (id : ReadId) (turns : Turns) :
    (mount.poll backend id turns).1.pool.calls = mount.pool.calls := by
  obtain ⟨pages, hfetches⟩ := fetches_poll backend mount id turns
  rw [Pool.calls, hfetches, ← Pool.calls, calls_takeTurns]

theorem idle?_poll_of_none (backend : Backend σ τ) {fetch : FetchId}
    (h : mount.pool.idle? fetch = none) (id : ReadId) (turns : Turns) :
    (mount.poll backend id turns).1.pool.idle? fetch = none := by
  obtain ⟨pages, hfetches⟩ := fetches_poll backend mount id turns
  rw [Pool.idle?_of_fetches hfetches]
  exact idle?_takeTurns_of_none backend mount h id pages

-- What a read waits for is idle no longer once each of its pages has had a turn.
theorem idle?_poll (backend : Backend σ τ) (hs : mount.pool.Sound plans) {read : LiveRead}
    (hr : read ∈ mount.pool.live) {turns : Turns} (ht : turns.Thorough) {wait : Wait}
    (hw : wait ∈ read.waits) :
    (mount.poll backend read.id turns).1.pool.idle? wait.fetch = none := by
  have hidle := idle?_takeTurns backend hs hr (turns (read.waits.map (·.page))) hw
  rw [if_pos (ht _ (List.mem_map_of_mem hw))] at hidle
  rw [poll_eq backend mount (hs.leased.live?_eq_some_iff.mpr ⟨hr, rfl⟩)]
  simp only
  split
  · rwa [Pool.idle?_of_fetches (Pool.endRead_frame ..).2.1]
  · exact hidle

-- A read that starts leaves no fetch of its own idle.
theorem launched_read (backend : Backend σ τ) (hs : mount.pool.Sound plans)
    (h : mount.pool.Launched) (file : FileId) (offset stop : Nat) {turns : Turns}
    (ht : turns.Thorough) :
    let started : Mount σ τ := { mount with pool := mount.pool.startRead file offset stop }
    (started.poll backend mount.pool.gatherings.size turns).1.pool.Launched := by
  intro started fetch
  have hfetches := Pool.fetches_startRead hs file offset stop
  have hsound : started.pool.Sound _ := Pool.sound_startRead hs file offset stop
  have hr := (hsound.leased.live?_eq_some_iff.mp (Pool.live?_startRead hs file offset stop)).1
  cases hidle : started.pool.idle? fetch with
  | none => exact idle?_poll_of_none backend hidle _ turns
  | some call =>
      have hle : mount.pool.fetches.size ≤ fetch := by
        by_contra hlt
        have hnone := h.idle?_startRead_eq_none hs file offset stop (Nat.lt_of_not_le hlt)
        cases hnone.symm.trans hidle
      have hlt : fetch < started.pool.fetches.size := by
        by_contra hge
        have hnone := Pool.call?_eq_none_iff.mpr (Nat.le_of_not_lt hge)
        cases hnone.symm.trans (Pool.call?_of_idle hidle)
      rw [← Array.length_toList, hfetches, List.length_append, List.length_map,
        Array.length_toList] at hlt
      have hplanned : fetch ∈ (mount.pool.plan file offset stop).fetches.filter
          (decide <| mount.pool.fetches.size ≤ ·) := by
        rw [Pool.fetches_plan hs]
        exact List.mem_range'_1.mpr ⟨hle, hlt⟩
      obtain ⟨part, hpart, hfetch⟩ := List.mem_filterMap.mp (List.mem_of_mem_filter hplanned)
      have hw : ⟨part.page, fetch⟩ ∈ (mount.pool.plan file offset stop).parts.filterMap
          Part.wait? := List.mem_filterMap.mpr ⟨part, hpart, by rw [Part.wait?, hfetch]; rfl⟩
      have hpolled := idle?_poll backend hsound hr ht hw
      exact hpolled

-- In prompt turns each act starts the fetches that it creates.
theorem launched_act (backend : Backend σ τ) (hs : mount.pool.Steady plans)
    (h : mount.pool.Launched) {act : Act σ} (hp : act.Prompt) :
    (mount.act backend act).1.pool.Launched ∧
      (mount.act backend act).1.pool.calls = mount.pool.calls ++ mount.pool.begins act := by
  have hkept : ∀ next : Pool τ, next.fetches = mount.pool.fetches →
      next.Launched ∧ next.calls = mount.pool.calls ++ [] := fun next hf =>
    ⟨h.of_fetches hf, by rw [Pool.calls, hf, List.append_nil, Pool.calls]⟩
  cases act with
  | change become => exact hkept _ rfl
  | ask op =>
      cases op with
      | read file offset length turns =>
          simp only [act, step, read, Pool.begins]
          by_cases hl : length = 0
          · simp only [hl, if_true, Nat.lt_irrefl, false_and, if_false]
            exact hkept _ rfl
          · by_cases hw : offset + length < wordLimit
            · simp only [hl, hw, Nat.pos_of_ne_zero hl, and_self, if_true, if_false]
              refine ⟨launched_read backend hs.sound h file offset _ hp.thorough, ?_⟩
              rw [calls_poll, h.started_startRead hs.sound hp, Pool.calls,
                Pool.fetches_startRead hs.sound, List.map_append, List.map_map]
              rfl
            · simp only [hl, hw, and_false, if_false]
              exact hkept _ rfl
      | poll id turns =>
          refine ⟨fun fetch => idle?_poll_of_none backend (h fetch) id turns, ?_⟩
          rw [Pool.begins, h.started_eq, List.append_nil]
          exact calls_poll backend mount id turns
      | drop id => exact hkept _ (Pool.endRead_frame mount.pool id).2.1
      | invalidate file => exact hkept _ (Pool.trims_invalidate mount.pool file).fetches
      | revalidate file attributes =>
          exact hkept _ (Pool.trims_revalidate mount.pool file attributes).fetches
      | release file => exact hkept _ (Pool.trims_release hs.sound.leased file).fetches
      | prune => exact hkept _ (Pool.trims_evict hs.sound.leased).fetches

end Prompt

section Run

variable (backend : Backend σ τ) (limits : Limits) (storage : σ) (acts : List (Act σ))

-- A run with a list of the calls beside it goes as the plain run does.
theorem run_recording :
    let recorded := run backend.recording ((create limits storage : Mount σ τ).traced [])
      (acts.map Act.beside)
    recorded = (run backend (create limits storage) acts).traced recorded.storage.2 := by
  induction acts using List.reverseRecOn with
  | nil => rfl
  | append_singleton acts act ih =>
      obtain ⟨plans, hs, _⟩ := exists_steady backend limits storage acts
      simp only [List.map_append, run_append]
      generalize run backend.recording ((create limits storage : Mount σ τ).traced [])
        (acts.map Act.beside) = recorded at ih
      have hacted := act_traced backend hs recorded.storage.2 act
      rw [← ih] at hacted
      change (recorded.act backend.recording act.beside).1 =
        ((run backend (create limits storage) acts).act backend act).1.traced
          (recorded.act backend.recording act.beside).1.storage.2
      rw [hacted]
      rfl

-- One more act adds its own calls.
theorem issued_append (act : Act σ) :
    issued backend (create limits storage) (acts ++ [act]) =
      issued backend (create limits storage) acts ++
        (run backend (create limits storage) acts).pool.begins act := by
  obtain ⟨plans, hs, _⟩ := exists_steady backend limits storage acts
  have hrecorded := run_recording backend limits storage acts
  have hacted := act_traced backend hs (issued backend (create limits storage) acts).reverse act
  rw [issued, List.reverse_reverse, ← hrecorded] at hacted
  rw [issued, List.map_append, run_append]
  refine (congrArg (·.1.storage.2.reverse) hacted).trans ?_
  exact List.reverse_append.trans (by rw [List.reverse_reverse, issued])

theorem exists_issued_append (more : List (Act σ)) :
    ∃ calls, issued backend (create limits storage) (acts ++ more) =
      issued backend (create limits storage) acts ++ calls := by
  induction more using List.reverseRecOn with
  | nil => exact ⟨[], by rw [List.append_nil, List.append_nil]⟩
  | append_singleton more act ih =>
      obtain ⟨calls, hcalls⟩ := ih
      rw [← List.append_assoc, issued_append, hcalls]
      exact ⟨_, List.append_assoc ..⟩

-- What is issued is told of and counted.
theorem launches_run :
    (run backend (create limits storage) acts).pool.launches =
        ((issued backend (create limits storage) acts).map Call.place).reverse ∧
      (run backend (create limits storage) acts).pool.counters.faults =
        (issued backend (create limits storage) acts).length := by
  induction acts using List.reverseRecOn with
  | nil => exact ⟨rfl, rfl⟩
  | append_singleton acts act ih =>
      obtain ⟨plans, hs, _⟩ := exists_steady backend limits storage acts
      obtain ⟨found, hlogs⟩ := exists_logs_act backend hs act
      rw [run_append, issued_append, List.map_append, List.reverse_append, List.length_append,
        ← ih.1, ← ih.2]
      refine ⟨hlogs.launches, hlogs.faults.trans ?_⟩
      rw [List.length_reverse, List.length_map]

theorem exists_fetch_of_issued {call : Call}
    (hm : call ∈ issued backend (create limits storage) acts) :
    ∃ fetch, (run backend (create limits storage) acts).pool.call? fetch = some call := by
  induction acts using List.reverseRecOn with
  | nil => cases hm
  | append_singleton acts act ih =>
      obtain ⟨plans, hs, _⟩ := exists_steady backend limits storage acts
      rw [issued_append] at hm
      rw [run_append]
      rcases List.mem_append.mp hm with hm | hm
      · obtain ⟨fetch, hcall⟩ := ih hm
        obtain ⟨_, hsteps⟩ := exists_steps_act backend hs act
        exact ⟨fetch, hsteps.later.calls fetch call hcall⟩
      · exact exists_fetch_of_begins backend hs hm

-- Whole pages are asked for, so the places tell all.
theorem asks_of_issued {call : Call}
    (hm : call ∈ issued backend (create limits storage) acts) : limits.Asks call := by
  obtain ⟨fetch, hcall⟩ := exists_fetch_of_issued backend limits storage acts hm
  obtain ⟨found, hfound, rfl⟩ := Option.map_eq_some_iff.mp hcall
  exact ((served_anything backend limits storage acts).pool fetch found hfound).1

theorem issued_eq :
    issued backend (create limits storage) acts =
      (run backend (create limits storage) acts).pool.launches.reverse.map
        fun place => ⟨place.1, place.2, limits.pageSize⟩ := by
  rw [(launches_run backend limits storage acts).1, List.reverse_reverse, List.map_map]
  refine (List.map_id _).symm.trans (List.map_congr_left fun call hm => ?_)
  have hlength := (asks_of_issued backend limits storage acts hm).1
  obtain ⟨file, offset, length⟩ := call
  cases hlength
  rfl

-- There is no more than one call a fetch.
theorem length_issued_le :
    (issued backend (create limits storage) acts).length ≤
      (run backend (create limits storage) acts).pool.fetches.size := by
  have hsteady : ((create limits storage : Mount σ τ).traced []).pool.Steady _ :=
    steady_create limits storage fun _ => ⟨0, 0, 0, [], 0⟩
  have hleaves : ∀ act ∈ acts.map Act.beside, Leaves (ListsFetches (σ := σ) (τ := τ)) act := by
    intro act hm
    obtain ⟨plain, _, rfl⟩ := List.mem_map.mp hm
    cases plain with
    | ask op => trivial
    | change become => exact fun _ _ h => h
  obtain ⟨ids, hn, hlength, hbusy⟩ := (stable_listsFetches backend limits).run
    (acts.map Act.beside) rfl hsteady hleaves ⟨[], List.nodup_nil, rfl, fun _ hm => nomatch hm⟩
  rw [issued, List.length_reverse, ← hlength]
  have hpool := congrArg Mount.pool (run_recording backend limits storage acts)
  rw [hpool] at hbusy
  have hsubset : ids ⊆ List.range (run backend (create limits storage) acts).pool.fetches.size :=
    fun id hm => List.mem_range.mpr (hbusy id hm).1
  simpa using (List.subperm_of_subset hn hsubset).length_le

variable {acts}

-- If all reads take prompt turns when they start, storage is asked once for each fetch, in the
-- order of their numbers, and when an act is over no fetch is still to be launched.
theorem issued_eq_calls (hp : ∀ act ∈ acts, act.Prompt) :
    issued backend (create limits storage) acts =
        (run backend (create limits storage) acts).pool.calls ∧
      (run backend (create limits storage) acts).pool.Launched := by
  induction acts using List.reverseRecOn with
  | nil => exact ⟨rfl, fun _ => rfl⟩
  | append_singleton acts act ih =>
      obtain ⟨plans, hs, _⟩ := exists_steady backend limits storage acts
      obtain ⟨hissued, hlaunched⟩ := ih fun other hm => hp other (List.mem_append_left _ hm)
      obtain ⟨hnext, hcalls⟩ := launched_act backend hs hlaunched
        (hp act (List.mem_append_right _ List.mem_cons_self))
      rw [issued_append, run_append, hissued]
      exact ⟨hcalls.symm, hnext⟩

variable (acts)

-- A read asks storage for those of its pages that the file does not hold, in file order.
theorem issued_read (hp : ∀ act ∈ acts, act.Prompt) (file : FileId) {offset length : Nat}
    (hl : 0 < length) (hw : offset + length < wordLimit) {turns : Turns} (ht : turns.Prompt) :
    let pool := (run backend (create limits storage) acts).pool
    issued backend (create limits storage) (acts ++ [.ask (.read file offset length turns)]) =
      issued backend (create limits storage) acts ++
        (pool.absent file (limits.span offset (offset + length))).map
          (⟨file, ·, limits.pageSize⟩) := by
  intro pool
  obtain ⟨plans, hs, hlimits⟩ := exists_steady backend limits storage acts
  obtain ⟨_, hlaunched⟩ := issued_eq_calls backend limits storage hp
  rw [issued_append, Pool.begins, if_pos ⟨hl, hw⟩, hlaunched.started_startRead hs.sound ht, hlimits]

-- It asks for each of them as soon as all its pages have had a turn, whatever came before.
theorem exists_issued_read (file : FileId) {offset length page : Nat} (hl : 0 < length)
    (hw : offset + length < wordLimit) (hm : page ∈ limits.span offset (offset + length))
    (ha : (run backend (create limits storage) acts).pool.pageAt? file page = none)
    {turns : Turns} (ht : turns.Thorough) :
    ∃ calls,
      issued backend (create limits storage) (acts ++ [.ask (.read file offset length turns)]) =
        issued backend (create limits storage) acts ++ calls ∧
      ⟨file, page, limits.pageSize⟩ ∈ calls := by
  obtain ⟨plans, hs, hlimits⟩ := exists_steady backend limits storage acts
  rw [← hlimits] at hm
  have hstarted := Pool.mem_started_startRead hs.sound file hm ha ht
  rw [hlimits] at hstarted
  refine ⟨_, issued_append backend limits storage acts _, ?_⟩
  rw [Pool.begins, if_pos ⟨hl, hw⟩]
  exact hstarted

end Run

end Mount

end PageCache
