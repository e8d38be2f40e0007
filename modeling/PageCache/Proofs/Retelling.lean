import PageCache.Proofs.Bare
import PageCache.Proofs.Independence

namespace PageCache

-- What a poll of storage told of a fetch, whatever pieces the bytes came in.
def Glance.told (glance : Glance) : Option Outcome :=
  glance.2.map (·.map fun fetched => (fetched.bytes, fetched.attributes))

-- Storage that says what it is told to say, poll by poll, with all bytes in one piece.
def Backend.retelling : Backend (List (Option Outcome)) Unit where
  start told _ := (told, ())
  poll told _ _ :=
    match told with
    | [] => ([], .waiting ())
    | none :: rest => (rest, .waiting ())
    | some outcome :: rest => (rest, .finished (outcome.map fun page => ⟨[page.1], page.2⟩))

theorem Fetched.toPage_whole (fetched : Fetched) (pageSize : Nat) :
    toPage ⟨[fetched.bytes], fetched.attributes⟩ pageSize = fetched.toPage pageSize := by
  have hlength : length ⟨[fetched.bytes], fetched.attributes⟩ = fetched.length :=
    fetched.length_bytes
  unfold toPage
  rw [hlength, buffer_eq_bytes fetched]
  rfl

-- The page is the same, so nothing else depends on the pieces.
theorem Call.outcome_whole (call : Call) (answer : Except Error Fetched) :
    call.outcome ((answer.map fun fetched => (fetched.bytes, fetched.attributes)).map
      fun page => ⟨[page.1], page.2⟩) = call.outcome answer := by
  cases answer with
  | error error => rfl
  | ok fetched => exact fetched.toPage_whole call.length

-- What an act asks, if it asks anything.
def Act.op? {σ : Type} : Act σ → Option Op
  | .ask op => some op
  | .change _ => none

-- To ask this, or to do nothing.
def Act.asking {σ : Type} (op : Option Op) : Act σ := op.elim (.change id) .ask

namespace Mount

variable {σ τ : Type}

-- The pool of the mount in front of storage that has only to say these things.
def retold (mount : Mount σ τ) (told : List (Option Outcome)) :
    Mount (List (Option Outcome)) Unit :=
  ⟨told, mount.pool.bare⟩

-- Something is done to a mount and to its pool in front of other storage. It comes to the same
-- if the other storage says what the storage of the mount has said meanwhile.
def Retells {β : Type} (mount next : Mount (σ × List Glance) τ)
    (act result : Mount (List (Option Outcome)) Unit → β) : Prop :=
  ∃ said : List Glance, next.storage.2 = said.reverse ++ mount.storage.2 ∧
    ∀ rest, act (mount.retold (said.map Glance.told ++ rest)) = result (next.retold rest)

section Retells

variable {β γ : Type} {mount middle next : Mount (σ × List Glance) τ}
  {act between result : Mount (List (Option Outcome)) Unit → β}

theorem Retells.trans (h : mount.Retells middle act between)
    (hn : middle.Retells next between result) : mount.Retells next act result := by
  obtain ⟨first, hfirst, hact⟩ := h
  obtain ⟨second, hsecond, hbetween⟩ := hn
  refine ⟨first ++ second, ?_, fun rest => ?_⟩
  · rw [hsecond, hfirst, List.reverse_append, List.append_assoc]
  · rw [List.map_append, List.append_assoc, hact, hbetween]

theorem Retells.map (h : mount.Retells next act result) (further : β → γ) :
    mount.Retells next (fun mount => further (act mount))
      (fun mount => further (result mount)) := by
  obtain ⟨said, hsaid, hact⟩ := h
  exact ⟨said, hsaid, fun rest => congrArg further (hact rest)⟩

-- Nothing is said.
theorem Retells.of_eq (hs : next.storage.2 = mount.storage.2)
    (h : ∀ rest, act (mount.retold rest) = result (next.retold rest)) :
    mount.Retells next act result :=
  ⟨[], hs, h⟩

end Retells

theorem setPhase_retold (mount : Mount σ τ) (id : FetchId) (phase : Phase τ)
    (told : List (Option Outcome)) :
    (mount.retold told).setPhase id phase.bare = (mount.setPhase id phase).retold told := by
  have hmodify : (mount.pool.fetches.map Fetch.bare).modify id
      (fun fetch => { fetch with phase := phase.bare }) =
        (mount.pool.fetches.modify id fun fetch => { fetch with phase := phase }).map
          Fetch.bare := by
    refine Array.ext_getElem? fun other => ?_
    simp only [Array.getElem?_map, Array.getElem?_modify]
    split
    · simp only [Option.map_map]
      rfl
    · rfl
  simp only [setPhase, retold, Pool.bare, hmodify]

section Step

variable (backend : Backend σ τ) (mount : Mount (σ × List Glance) τ)

theorem advance_retold (id : FetchId) (call : Call) (token : τ) :
    mount.Retells (mount.advance backend.watching id call token).1
      (·.advance Backend.retelling id call ())
      (·, (mount.advance backend.watching id call token).2) := by
  unfold advance
  simp only [Backend.watching]
  cases hp : (backend.poll mount.storage.1 call token).2 with
  | waiting token =>
      refine ⟨[(call, none)], rfl, fun rest => ?_⟩
      exact congrArg (·, none) (setPhase_retold mount id (.running token) rest)
  | finished answer =>
      refine ⟨[(call, some answer)], rfl, fun rest => ?_⟩
      have houtcome := call.outcome_whole answer
      simp only [Call.outcome] at houtcome
      simp only [List.map_cons, List.map_nil, Glance.told, Progress.answer?, Option.map_some,
        Backend.retelling, retold, List.cons_append, List.nil_append, houtcome]
      exact congrArg (·, some _) (setPhase_retold mount id (.complete _) rest)

theorem drive_retold (id : FetchId) :
    mount.Retells (mount.drive backend.watching id).1 (·.drive Backend.retelling id)
      (·, (mount.drive backend.watching id).2) := by
  have hfetch : ∀ told, (mount.retold told).pool.fetches[id]? =
      mount.pool.fetches[id]?.map Fetch.bare := fun _ => Array.getElem?_map
  unfold drive
  cases hf : mount.pool.fetches[id]? with
  | none =>
      refine .of_eq rfl fun rest => ?_
      simp only [hfetch, hf, Option.map_none]
  | some fetch =>
      obtain ⟨call, phase⟩ := fetch
      cases phase with
      | idle =>
          obtain ⟨said, hsaid, hact⟩ :=
            (mount.launch backend.watching id call).1.advance_retold backend id call
              (mount.launch backend.watching id call).2
          refine ⟨said, hsaid, fun rest => ?_⟩
          simp only [hfetch, hf, Option.map_some, Fetch.bare, Phase.bare]
          exact hact rest
      | running token =>
          obtain ⟨said, hsaid, hact⟩ := mount.advance_retold backend id call token
          refine ⟨said, hsaid, fun rest => ?_⟩
          simp only [hfetch, hf, Option.map_some, Fetch.bare, Phase.bare]
          exact hact rest
      | complete outcome =>
          refine .of_eq rfl fun rest => ?_
          simp only [hfetch, hf, Option.map_some, Fetch.bare, Phase.bare]

theorem pollWait_retold (id : ReadId) (lease : Lease) (wait : Wait) :
    mount.Retells (pollWait backend.watching id lease mount wait)
      (pollWait Backend.retelling id lease · wait) (·) := by
  obtain ⟨said, hsaid, hdrive⟩ := mount.drive_retold backend wait.fetch
  refine ⟨said, (congrArg Prod.snd (storage_pollWait ..)).trans hsaid, fun rest => ?_⟩
  unfold pollWait
  simp only [hdrive rest]
  cases (mount.drive backend.watching wait.fetch).2 with
  | none => rfl
  | some outcome =>
      simp only [retold, Pool.resolve_bare, Pool.observe_bare]

theorem takeTurn_retold (id : ReadId) (page : Nat) :
    mount.Retells (takeTurn backend.watching id mount page)
      (takeTurn Backend.retelling id · page) (·) := by
  have hawaited : ∀ told,
      (mount.retold told).pool.awaited? id page = mount.pool.awaited? id page := fun _ => rfl
  cases ha : mount.pool.awaited? id page with
  | none =>
      unfold takeTurn
      exact .of_eq (by rw [ha]) fun rest => by simp only [hawaited, ha]
  | some found =>
      obtain ⟨said, hsaid, hwait⟩ := mount.pollWait_retold backend id found.1 found.2
      refine ⟨said, ?_, fun rest => ?_⟩
      · rwa [takeTurn, ha]
      · simp only [takeTurn, hawaited, ha, hwait]

theorem takeTurns_retold (id : ReadId) (pages : List Nat) :
    mount.Retells (pages.foldl (takeTurn backend.watching id) mount)
      (pages.foldl (takeTurn Backend.retelling id)) (·) := by
  induction pages generalizing mount with
  | nil => exact .of_eq rfl fun _ => rfl
  | cons page rest ih =>
      have hturn := mount.takeTurn_retold backend id page
      exact (hturn.map (rest.foldl (takeTurn Backend.retelling id))).trans (ih _)

theorem poll_retold (id : ReadId) (turns : Turns) :
    mount.Retells (mount.poll backend.watching id turns).1 (·.poll Backend.retelling id turns)
      (·, (mount.poll backend.watching id turns).2) := by
  have hlive : ∀ (mount : Mount (σ × List Glance) τ) told,
      (mount.retold told).pool.live? id = mount.pool.live? id := fun _ _ => rfl
  cases hl : mount.pool.live? id with
  | none =>
      unfold poll
      exact .of_eq (by rw [hl]) fun rest => by simp only [hlive, hl]
  | some read =>
      obtain rfl : read.id = id := by simpa using List.find?_some hl
      obtain ⟨said, hsaid, hturns⟩ :=
        mount.takeTurns_retold backend read.id (turns (read.waits.map (·.page)))
      have hstorage := storage_poll backend.watching mount hl turns
      refine ⟨said, (congrArg Prod.snd hstorage).trans hsaid, fun rest => ?_⟩
      unfold poll
      simp only [hlive, hl, hturns]
      split
      · simp only [retold, Pool.endRead_bare, Pool.result_bare]
      · rfl

theorem read_retold (file : FileId) (offset length : Nat) (turns : Turns) :
    mount.Retells (mount.read backend.watching file offset length turns).1
      (·.read Backend.retelling file offset length turns)
      (·, (mount.read backend.watching file offset length turns).2) := by
  unfold read
  split
  · exact .of_eq rfl fun _ => rfl
  · split
    · obtain ⟨said, hsaid, hpoll⟩ := poll_retold backend
        { mount with pool := mount.pool.startRead file offset (offset + length) }
        mount.pool.gatherings.size turns
      refine ⟨said, hsaid, fun rest => ?_⟩
      rw [← hpoll rest]
      simp only [retold, Pool.startRead_bare, Pool.gatherings_bare]
    · exact .of_eq rfl fun _ => rfl

theorem step_retold (op : Op) :
    mount.Retells (mount.step backend.watching op).1 (·.step Backend.retelling op)
      (·, (mount.step backend.watching op).2) := by
  cases op with
  | read file offset length turns => exact mount.read_retold backend file offset length turns
  | poll id turns => exact mount.poll_retold backend id turns
  | drop id =>
      refine .of_eq rfl fun rest => ?_
      simp only [step, retold, Pool.endRead_bare, Pool.live?_bare]
  | invalidate file =>
      refine .of_eq rfl fun rest => ?_
      simp only [step, retold, Pool.invalidate_bare]
  | revalidate file attributes =>
      refine .of_eq rfl fun rest => ?_
      simp only [step, retold, Pool.revalidate_bare]
  | release file =>
      refine .of_eq rfl fun rest => ?_
      simp only [step, retold, Pool.release_bare]
  | prune =>
      refine .of_eq rfl fun rest => ?_
      simp only [step, retold, Pool.evict_bare]

theorem act_retold (act : Act σ) :
    mount.Retells (mount.act backend.watching act.watched).1
      (·.act Backend.retelling (.asking act.op?))
      (·, (mount.act backend.watching act.watched).2) := by
  cases act with
  | change become => exact .of_eq rfl fun _ => rfl
  | ask op => exact (mount.step_retold backend op).map fun stepped => (stepped.1, some stepped.2)

-- So all that comes of a run is determined by what storage says in it.
theorem run_retold (acts : List (Act σ)) :
    let asked := (acts.map Act.op?).map Act.asking
    mount.Retells (mount.run backend.watching (acts.map Act.watched))
      (fun mount => (mount.run Backend.retelling asked, mount.answers Backend.retelling asked))
      (·, mount.answers backend.watching (acts.map Act.watched)) := by
  induction acts generalizing mount with
  | nil => exact .of_eq rfl fun _ => rfl
  | cons act rest ih =>
      have hact := (mount.act_retold backend act).map fun acted =>
        (acted.1.run Backend.retelling ((rest.map Act.op?).map Act.asking),
          acted.2 :: acted.1.answers Backend.retelling ((rest.map Act.op?).map Act.asking))
      have hrest := (ih (mount.act backend.watching act.watched).1).map fun done =>
        (done.1, (mount.act backend.watching act.watched).2 :: done.2)
      exact hact.trans hrest

end Step

end Mount

end PageCache
