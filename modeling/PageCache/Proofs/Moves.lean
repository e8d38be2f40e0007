import Mathlib.Logic.Relation
import PageCache.Mount.Run
import PageCache.Proofs.Aside

namespace PageCache

-- The pages that an operation looks up.
def Op.Spans (op : Op) (limits : Limits) (file : FileId) (page : Nat) : Prop :=
  ∃ offset length turns, op = .read file offset length turns ∧
    page ∈ limits.span offset (offset + length)

namespace Pool

variable {τ : Type}

-- The fetched bytes become the page, before anyone is told of it.
def load (pool : Pool τ) (file : FileId) (wait : Wait) (waiters : List ReadId) (data : Bytes)
    (attributes : Attributes) : Pool τ :=
  let changed := (pool.files.find? file).any (·.isStale attributes)
  let stored := pool.modifyFile file fun cached =>
    { cached with
      pages := cached.pages.insert wait.page (.loaded wait.fetch data)
      attributes := some attributes }
  let fresh := if changed then stored.dropStale file wait.page else stored
  fresh.emit (.pageLoaded file wait.page wait.fetch data.length waiters.length)

theorem store_eq (pool : Pool τ) (file : FileId) (wait : Wait) (waiters : List ReadId)
    (data : Bytes) (attributes : Attributes) :
    pool.store file wait waiters data attributes =
      waiters.foldl (fun pool id => (pool.addPage id wait.page data).arrive id)
        (pool.load file wait waiters data attributes) := rfl

-- All that happens to cached files and their pages while an operation is carried out, one
-- thing at a time.
inductive Move (op : Op) : Pool τ → Pool τ → Prop
  | aside {pool next : Pool τ} (h : pool.Aside next) : Move op pool next
  | enter (pool : Pool τ) {file : FileId} {offset length : Nat} {turns : Turns}
      (h : op = .read file offset length turns) : Move op pool (pool.enter file)
  | create (pool : Pool τ) {file : FileId} {page : Nat} {cached : FileCache}
      (h : op.Spans pool.limits file page) (hf : pool.files.find? file = some cached)
      (hp : cached.pages.find? page = none) : Move op pool (pool.createPage file page)
  | wait (pool : Pool τ) (file : FileId) (page : Nat) (id : ReadId) :
      Move op pool (pool.modifyFile file fun cached =>
        { cached with pages := cached.pages.modify page (Page.wait id) })
  | use (pool : Pool τ) (file : FileId) (page : Nat) {fetch : FetchId} {data : Bytes}
      (hp : pool.pageAt? file page = some (.loaded fetch data)) :
      Move op pool (pool.modifyFile file fun cached =>
        { cached with pages := cached.pages.touch page })
  | load (pool : Pool τ) {file : FileId} {wait : Wait} {waiters : List ReadId} {data : Bytes}
      {attributes : Attributes}
      (hp : pool.pageAt? file wait.page = some (.fetching wait.fetch waiters))
      (ho : pool.outcome? wait.fetch = some (.ok (data, attributes))) :
      Move op pool (pool.load file wait waiters data attributes)
  | fail (pool : Pool τ) {file : FileId} {wait : Wait} {waiters : List ReadId} {error : Error}
      (hp : pool.pageAt? file wait.page = some (.fetching wait.fetch waiters))
      (ho : pool.outcome? wait.fetch = some (.error error)) :
      Move op pool (pool.dropPages file [wait.page]
        (.fetchFailed file wait.page wait.fetch error waiters.length))
  | evict (pool : Pool τ) {file : FileId} {cached : FileCache}
      (hf : pool.files.find? file = some cached) (limit : Nat) :
      Move op pool (pool.dropPages file (cached.victims limit)
        (.pagesEvicted file (cached.victims limit).length))
  | remove (pool : Pool τ) {file : FileId} {cached : FileCache}
      (hf : pool.files.find? file = some cached) (hr : cached.isIdle = true) :
      Move op pool (pool.removeFile file)
  | part (pool : Pool τ) (file : FileId) :
      Move op pool (pool.modifyFile file fun cached =>
        { cached with readers := cached.readers - 1 })
  | mark (pool : Pool τ) (file : FileId) (h : op = .release file) :
      Move op pool (pool.modifyFile file fun cached => { cached with released := true })
  | invalidate (pool : Pool τ) {file : FileId} (h : op = .invalidate file) :
      Move op pool (pool.invalidate file).1
  | revalidate (pool : Pool τ) {file : FileId} {attributes : Attributes}
      (h : op = .revalidate file attributes) : Move op pool (pool.revalidate file attributes).1

abbrev Moves (op : Op) : Pool τ → Pool τ → Prop := Relation.ReflTransGen (Move op)

theorem Aside.moves {pool next : Pool τ} (h : pool.Aside next) (op : Op) :
    Moves op pool next := .single (.aside h)

section Ordered

variable {pool next : Pool τ} {op : Op} {file : FileId}

theorem files_shrink (pool : Pool τ) (pages : Nat) : (pool.shrink pages).files = pool.files :=
  files_require ..

theorem files_dropPages (pool : Pool τ) (file : FileId) (pages : List Nat) (event : Event) :
    (pool.dropPages file pages event).files = (pool.modifyFile file (·.drop pages)).files :=
  files_shrink ..

theorem files_removeFile {cached : FileCache} (hf : pool.files.find? file = some cached) :
    (pool.removeFile file).files = pool.files.erase file := by
  simp only [removeFile, hf, emit]
  exact files_shrink ..

theorem Ordered.dropPages (h : pool.Ordered) (file : FileId) (pages : List Nat) (event : Event) :
    (pool.dropPages file pages event).Ordered := by
  have hdrop : (pool.modifyFile file (·.drop pages)).Ordered :=
    h.modifyFile file fun _ _ hc => hc.eraseAll pages
  exact hdrop.of_files (files_dropPages ..)

theorem Ordered.removeFile (h : pool.Ordered) {cached : FileCache}
    (hf : pool.files.find? file = some cached) : (pool.removeFile file).Ordered where
  files := files_removeFile hf ▸ h.files.erase file
  pages other found hfound := by
    rw [files_removeFile hf] at hfound
    exact h.pages other found (LruMap.find?_of_erase hfound).2

theorem Ordered.load (h : pool.Ordered) (file : FileId) (wait : Wait) (waiters : List ReadId)
    (data : Bytes) (attributes : Attributes) :
    (pool.load file wait waiters data attributes).Ordered := by
  have hstored : (pool.modifyFile file fun cached =>
      { cached with
        pages := cached.pages.insert wait.page (.loaded wait.fetch data)
        attributes := some attributes }).Ordered :=
    h.modifyFile file fun _ _ hc => hc.insert wait.page _
  unfold Pool.load
  simp only
  split
  · exact ((trims_dropStale _ file wait.page).ordered hstored).of_files rfl
  · exact hstored.of_files rfl

theorem Move.ordered (h : Move op pool next) (ho : pool.Ordered) : next.Ordered := by
  cases h with
  | aside h => exact ho.of_files h.files
  | enter => exact ho.enter _
  | create => exact ho.createPage _ _
  | wait file page id => exact ho.modifyFile file fun _ _ hc => hc.modify page _
  | use file page => exact ho.modifyFile file fun _ _ hc => hc.touch page
  | load => exact ho.load ..
  | fail => exact ho.dropPages ..
  | evict => exact ho.dropPages ..
  | remove hf => exact ho.removeFile hf
  | part file => exact ho.modifyFile file fun _ _ hc => hc
  | mark file => exact ho.modifyFile file fun _ _ hc => hc
  | invalidate => exact (trims_invalidate ..).ordered ho
  | revalidate => exact (trims_revalidate ..).ordered ho

-- What each move preserves, a sequence of them does. The files are in good order throughout.
theorem Moves.preserve {P : Pool τ → Prop}
    (hm : ∀ pool next, Move op pool next → pool.Ordered → P pool → P next)
    (h : Moves op pool next) (ho : pool.Ordered) (hp : P pool) : next.Ordered ∧ P next := by
  induction h with
  | refl => exact ⟨ho, hp⟩
  | tail _ hlast ih => exact ⟨hlast.ordered ih.1, hm _ _ hlast ih.1 ih.2⟩

end Ordered

section Moves

variable {op : Op}

theorem moves_join (pool : Pool τ) (id : ReadId) (lease : Lease) (wait : Wait) :
    Moves op pool (pool.join id lease wait) := by
  have hchecked := aside_require pool ((pool.page? lease wait.page).any (!·.isLoaded))
    (by decide : Breach.waitForLoaded ≠ .pagesUnderflow)
  refine ((hchecked.moves op).tail (.wait _ lease.file wait.page id)).tail (.aside ?_)
  exact .of_eq rfl rfl rfl rfl rfl rfl rfl

theorem Holds.of_tenancy {pool other : Pool τ} {lease : Lease} (h : pool.Holds lease)
    (ht : other.tenancy lease.file = pool.tenancy lease.file) : other.Holds lease := by
  obtain ⟨cached, hf, hs⟩ := h
  rw [tenancy, tenancy, hf, Option.map_some] at ht
  obtain ⟨found, hfound, he⟩ := Option.map_eq_some_iff.mp ht
  exact ⟨found, hfound, (congrArg Prod.fst he).trans hs⟩

theorem Holds.lookup {pool : Pool τ} {lease : Lease} (h : pool.Holds lease) (id : ReadId)
    (page : Nat) : (lookup id lease pool page).Holds lease := by
  have hjoin : ∀ (pool : Pool τ) (wait : Wait),
      (pool.join id lease wait).tenancy lease.file = pool.tenancy lease.file := by
    intro pool wait
    rw [tenancy, (join_frame pool id lease wait).2.2.2.1]
    exact tenancy_modifyFile pool lease.file _ (fun _ => rfl) fun _ => rfl
  refine h.of_tenancy ?_
  unfold Pool.lookup
  split
  · rw [tenancy, (delivers_addPage ..).files]
    exact tenancy_modifyFile pool lease.file _ (fun _ => rfl) fun _ => rfl
  · exact hjoin pool _
  · rw [hjoin]
    exact tenancy_modifyFile pool lease.file _ (fun _ => rfl) fun _ => rfl

theorem moves_lookup (id : ReadId) (lease : Lease) (pool : Pool τ) (page : Nat)
    (hl : pool.Holds lease) (hs : op.Spans pool.limits lease.file page) :
    Moves op pool (lookup id lease pool page) := by
  unfold lookup
  split
  · rename_i hp
    rw [page?_eq_pageAt? page hl] at hp
    exact .head (.use pool lease.file page hp)
      (((aside_emit _ rfl).trans (aside_addPage ..)).moves op)
  · exact (moves_join pool id lease _).tail (.aside (aside_emit _ rfl))
  · rename_i hp
    obtain ⟨cached, hf, hserial⟩ := hl
    have hnone : cached.pages.find? page = none := by
      simpa [page?, leased?, hf, hserial, Option.filter] using hp
    exact .head (.create pool hs hf hnone) (moves_join ..)

theorem moves_lookups (id : ReadId) (lease : Lease) {pages : List Nat} (pool : Pool τ)
    (hl : pool.Holds lease) (hs : ∀ page ∈ pages, op.Spans pool.limits lease.file page) :
    Moves op pool (pages.foldl (lookup id lease) pool) := by
  induction pages generalizing pool with
  | nil => exact .refl
  | cons page rest ih =>
      rw [List.forall_mem_cons] at hs
      refine (moves_lookup id lease pool page hl hs.1).trans (ih _ (hl.lookup id page) ?_)
      rw [(keeps_lookup id lease pool page).limits]
      exact hs.2

theorem moves_evictFile (pool : Pool τ) (file : FileId) (excess : Nat) :
    Moves op pool (pool.evictFile file excess).1 := by
  cases hf : pool.files.find? file with
  | none => rw [evictFile_of_none hf]
  | some cached =>
      obtain ⟨evicted, left, he, hevicted, hleft⟩ := evictFile_cases hf excess
      have hchecked : pool.Aside ((pool.require cached.isOrdered .strayOrder).require
          (decide ((cached.victims excess).length ≤ excess)) .excessUnderflow) :=
        (aside_require _ _ (by decide)).trans (aside_require _ _ (by decide))
      have hmoves : Moves op pool evicted := by
        rcases hevicted with ⟨_, rfl⟩ | rfl
        · exact hchecked.moves op
        · exact (hchecked.moves op).tail (.evict _ (hchecked.files ▸ hf) excess)
      rw [he]
      rcases hleft with rfl | ⟨bare, hbare, hidle, _, rfl⟩
      · exact hmoves
      · exact hmoves.tail (.remove evicted hbare hidle)

theorem moves_evict (pool : Pool τ) : Moves op pool pool.evict.1 := by
  have hsweeps (files : List FileId) (excess : Nat) :
      Moves op pool (files.foldl sweep (pool, excess)).1 :=
    sweeps_induction (P := fun swept => Moves op pool swept.1)
      (fun swept file hm => hm.trans (moves_evictFile swept.1 file swept.2)) files .refl
  exact (hsweeps _ _).trans ((aside_require _ _ (by decide)).moves op)

-- The file has one reader less, and is otherwise what it was.
theorem find?_part {pool : Pool τ} {file : FileId} {cached : FileCache}
    (hf : pool.files.find? file = some cached) (holds : Bool) (breach : Breach) :
    ((pool.require holds breach).modifyFile file fun cached =>
      { cached with readers := cached.readers - 1 }).files.find? file =
        some { cached with readers := cached.readers - 1 } := by
  rw [find?_modifyFile, if_pos rfl, files_require, hf, Option.map_some]

theorem moves_leave (pool : Pool τ) (lease : Lease) : Moves op pool (pool.leave lease) := by
  unfold leave
  split
  · exact .refl
  · rename_i cached hl
    have hchecked := aside_require pool (decide (0 < cached.readers))
      (by decide : Breach.readersUnderflow ≠ .pagesUnderflow)
    have hleft := (hchecked.moves op).tail (.part _ lease.file)
    simp only
    split
    · rename_i hc
      obtain ⟨hf, _⟩ := Option.filter_eq_some_iff.mp hl
      have hidle : FileCache.isIdle { cached with readers := cached.readers - 1 } = true :=
        beq_iff_eq.mpr (Nat.sub_eq_zero_of_le hc.1)
      exact hleft.tail (.remove _ (find?_part hf ..) hidle)
    · exact hleft

theorem moves_endRead (pool : Pool τ) (id : ReadId) : Moves op pool (pool.endRead id) := by
  unfold endRead
  split
  · exact .refl
  · rename_i read _
    let rest := { pool with live := pool.live.filter (·.id != id) }
    have hrest : pool.Aside rest := .of_eq rfl rfl rfl rfl rfl rfl rfl
    exact (hrest.moves op).trans (moves_leave rest read.lease)

theorem moves_lookupSpan (pool : Pool τ) (file : FileId) (offset length : Nat)
    (turns : Turns) :
    Moves (.read file offset length turns) pool
      (pool.lookupSpan file offset (offset + length)) := by
  rw [lookupSpan_eq]
  have hregistered : Moves (.read file offset length turns) pool
      (pool.registered file offset (offset + length)) :=
    .head (.enter pool rfl) (.single (.aside (.of_eq rfl rfl rfl rfl rfl rfl rfl)))
  refine (hregistered.trans (moves_lookups _ _ _ ?_ fun page hp => ?_)).tail
    (.aside (aside_require _ _ (by decide)))
  · have hfind := find?_enter pool file file
    rw [if_pos rfl] at hfind
    exact ⟨_, hfind, rfl⟩
  · rw [(alike_registered pool file offset (offset + length)).limits]
    exact ⟨offset, length, turns, rfl, hp⟩

theorem moves_startRead (pool : Pool τ) (file : FileId) (offset length : Nat) (turns : Turns) :
    Moves (.read file offset length turns) pool
      (pool.startRead file offset (offset + length)) := by
  have hlooked := moves_lookupSpan pool file offset length turns
  have hkept : Moves (.read file offset length turns) pool (if pool.fetches.size <
      (pool.lookupSpan file offset (offset + length)).fetches.size then
        (pool.lookupSpan file offset (offset + length)).enforceBudget
      else pool.lookupSpan file offset (offset + length)) := by
    split
    · unfold enforceBudget
      split
      · exact hlooked.trans (moves_evict _)
      · exact hlooked
    · exact hlooked
  exact hkept.tail (.aside (aside_arrive _ _))

-- The first read to see an outcome puts it into the page.
theorem moves_resolve (pool : Pool τ) (lease : Lease) (wait : Wait) {outcome : Outcome}
    (ho : pool.outcome? wait.fetch = some outcome) :
    Moves op pool (pool.resolve lease wait outcome) := by
  unfold resolve
  split
  · rename_i fetch waiters hp
    split
    · rename_i he
      subst he
      have hpage : pool.pageAt? lease.file wait.page = some (.fetching wait.fetch waiters) := by
        obtain ⟨cached, hf, hfound⟩ := Option.bind_eq_some_iff.mp hp
        exact Option.bind_eq_some_iff.mpr
          ⟨cached, (Option.filter_eq_some_iff.mp hf).1, hfound⟩
      cases outcome with
      | ok answer =>
          simp only [store_eq]
          refine .head (.load pool hpage ho) (Aside.moves ?_ op)
          exact aside_foldl (fun pool id => (aside_addPage ..).trans (aside_arrive _ id)) _ _
      | error error =>
          refine .head (.fail pool hpage ho) (Aside.moves ?_ op)
          exact aside_foldl (fun pool id => (aside_spoil ..).trans (aside_arrive _ id)) _ _
    · exact (aside_emit pool rfl).moves op
  · exact (aside_emit pool rfl).moves op

end Moves

end Pool

namespace Mount

variable {σ τ : Type}

theorem moves_pollWait (backend : Backend σ τ) (id : ReadId) (lease : Lease)
    (mount : Mount σ τ) (wait : Wait) (op : Op) :
    Pool.Moves op mount.pool (pollWait backend id lease mount wait).pool := by
  obtain ⟨haside, houtcome⟩ := aside_drive backend mount wait.fetch
  unfold pollWait
  simp only
  split
  · exact haside.moves op
  · rename_i outcome ho
    refine ((haside.moves op).trans (Pool.moves_resolve _ lease wait (houtcome outcome ho))).tail
      (.aside ?_)
    exact .of_eq rfl rfl rfl rfl rfl rfl rfl

theorem moves_takeTurns (backend : Backend σ τ) (id : ReadId) (pages : List Nat)
    (mount : Mount σ τ) (op : Op) :
    Pool.Moves op mount.pool (pages.foldl (takeTurn backend id) mount).pool :=
  takeTurns_induction (P := fun next => Pool.Moves op mount.pool next.pool) backend pages .refl
    fun middle read _ wait _ _ h =>
      h.trans (moves_pollWait backend read.id read.lease middle wait op)

theorem moves_poll (backend : Backend σ τ) (mount : Mount σ τ) (id : ReadId) (turns : Turns)
    (op : Op) : Pool.Moves op mount.pool (mount.poll backend id turns).1.pool := by
  unfold poll
  split
  · exact .refl
  · rename_i read _
    have hturns := moves_takeTurns backend id (turns (read.waits.map (·.page))) mount op
    simp only
    split
    · exact hturns.trans (Pool.moves_endRead _ id)
    · exact hturns

-- Whatever is asked, nothing but such moves is made.
theorem moves_step (backend : Backend σ τ) (mount : Mount σ τ) (op : Op) :
    Pool.Moves op mount.pool (mount.step backend op).1.pool := by
  cases op with
  | read file offset length turns =>
      simp only [step, read]
      split
      · exact .refl
      · split
        · exact (Pool.moves_startRead ..).trans (moves_poll backend { mount with
            pool := mount.pool.startRead file offset (offset + length) } _ turns _)
        · exact .refl
  | poll id turns => exact moves_poll backend mount id turns _
  | drop id => exact Pool.moves_endRead _ id
  | invalidate file => exact .single (.invalidate _ rfl)
  | revalidate file attributes => exact .single (.revalidate _ rfl)
  | release file =>
      simp only [step, Pool.release]
      split
      · exact .refl
      · rename_i cached hf
        split
        · rename_i hidle
          exact .single (.remove _ hf hidle)
        · exact .single (.mark _ file rfl)
  | prune => exact Pool.moves_evict _

-- What every move preserves holds for good.
theorem run_preserves (backend : Backend σ τ) {P : Pool τ → Prop}
    (hm : ∀ op pool next, Pool.Move op pool next → pool.Ordered → P pool → P next)
    (acts : List (Act σ)) {mount : Mount σ τ} (ho : mount.pool.Ordered) (hp : P mount.pool) :
    P (mount.run backend acts).pool := by
  induction acts generalizing mount with
  | nil => exact hp
  | cons act rest ih =>
      cases act with
      | change become => exact ih ho hp
      | ask op =>
          obtain ⟨ho, hp⟩ := (moves_step backend mount op).preserve (hm op) ho hp
          exact ih ho hp

theorem run_create_preserves (backend : Backend σ τ) {P : Pool τ → Prop}
    (hm : ∀ op pool next, Pool.Move op pool next → pool.Ordered → P pool → P next)
    (limits : Limits) (storage : σ) (acts : List (Act σ)) (hp : P { limits := limits }) :
    P (run backend (create limits storage) acts).pool := by
  have hordered : (create limits storage : Mount σ τ).pool.Ordered :=
    ⟨LruMap.Ordered.empty, fun _ _ hf => nomatch hf⟩
  exact run_preserves backend hm acts hordered hp

end Mount

end PageCache
