import PageCache.Proofs.Moves

namespace PageCache

-- What a poll of a read of storage gave: its answer, or nothing yet.
abbrev Glance := Call × Option (Except Error Fetched)

def Progress.answer? {τ : Type} : Progress τ → Option (Except Error Fetched)
  | .waiting _ => none
  | .finished answer => some answer

-- The same storage, with a list of what its polls gave, the latest one first.
def Backend.watching {σ τ : Type} (backend : Backend σ τ) : Backend (σ × List Glance) τ where
  start state call :=
    let started := backend.start state.1 call
    ((started.1, state.2), started.2)
  poll state call token :=
    let polled := backend.poll state.1 call token
    ((polled.1, (call, polled.2.answer?) :: state.2), polled.2)

-- The same act, which leaves the list alone.
def Act.watched {σ : Type} : Act σ → Act (σ × List Glance)
  | .ask op => .ask op
  | .change become => .change fun state => (become state.1, state.2)

-- What the polls for one file gave.
def glancesOf (file : FileId) (glances : List Glance) : List (Option (Except Error Fetched)) :=
  (glances.filter (·.1.file == file)).map (·.2)

theorem glancesOf_cons (file : FileId) (call : Call) (answer : Option (Except Error Fetched))
    (glances : List Glance) :
    glancesOf file ((call, answer) :: glances) =
      if call.file = file then answer :: glancesOf file glances else glancesOf file glances := by
  by_cases h : call.file = file <;> simp [glancesOf, h]

namespace Mount

variable {σ τ : Type} {backend : Backend σ τ}

def watched (mount : Mount σ τ) : Mount (σ × List Glance) τ := ⟨(mount.storage, []), mount.pool⟩

def plain (mount : Mount (σ × List Glance) τ) : Mount σ τ := ⟨mount.storage.1, mount.pool⟩

-- What storage said in a run when it was polled for the file, in order.
def glances (backend : Backend σ τ) (mount : Mount σ τ) (acts : List (Act σ)) (file : FileId) :
    List (Option (Except Error Fetched)) :=
  (glancesOf file
    (run backend.watching mount.watched (acts.map Act.watched)).storage.2).reverse

section Plain

variable (mount : Mount (σ × List Glance) τ)

theorem advance_plain (id : FetchId) (call : Call) (token : τ) :
    mount.plain.advance backend id call token =
      ((mount.advance backend.watching id call token).1.plain,
        (mount.advance backend.watching id call token).2) := by
  obtain ⟨⟨storage, glances⟩, pool⟩ := mount
  simp only [advance, Backend.watching, plain]
  cases (backend.poll storage call token).2 <;> rfl

theorem drive_plain (id : FetchId) :
    mount.plain.drive backend id =
      ((mount.drive backend.watching id).1.plain, (mount.drive backend.watching id).2) := by
  have hfetches : mount.plain.pool.fetches = mount.pool.fetches := rfl
  unfold drive
  rw [hfetches]
  cases mount.pool.fetches[id]? with
  | none => rfl
  | some fetch =>
      obtain ⟨call, phase⟩ := fetch
      cases phase with
      | idle => exact advance_plain (mount.launch backend.watching id call).1 ..
      | running token => exact advance_plain mount ..
      | complete outcome => rfl

theorem pollWait_plain (id : ReadId) (lease : Lease) (wait : Wait) :
    pollWait backend id lease mount.plain wait =
      (pollWait backend.watching id lease mount wait).plain := by
  unfold pollWait
  simp only [drive_plain]
  cases (mount.drive backend.watching wait.fetch).2 <;> rfl

theorem takeTurn_plain (id : ReadId) (page : Nat) :
    takeTurn backend id mount.plain page = (takeTurn backend.watching id mount page).plain := by
  have hawaited : mount.plain.pool.awaited? id page = mount.pool.awaited? id page := rfl
  unfold takeTurn
  rw [hawaited]
  cases mount.pool.awaited? id page with
  | none => rfl
  | some found => exact pollWait_plain mount id found.1 found.2

theorem takeTurns_plain (id : ReadId) (pages : List Nat) :
    pages.foldl (takeTurn backend id) mount.plain =
      (pages.foldl (takeTurn backend.watching id) mount).plain := by
  induction pages generalizing mount with
  | nil => rfl
  | cons page rest ih => rw [List.foldl_cons, List.foldl_cons, takeTurn_plain, ih]

theorem poll_plain (id : ReadId) (turns : Turns) :
    mount.plain.poll backend id turns =
      ((mount.poll backend.watching id turns).1.plain,
        (mount.poll backend.watching id turns).2) := by
  have hlive : mount.plain.pool.live? id = mount.pool.live? id := rfl
  unfold poll
  rw [hlive]
  cases mount.pool.live? id with
  | none => rfl
  | some read =>
      simp only [takeTurns_plain]
      have hpool : ∀ polled : Mount (σ × List Glance) τ, polled.plain.pool = polled.pool :=
        fun _ => rfl
      rw [hpool]
      split <;> rfl

theorem read_plain (file : FileId) (offset length : Nat) (turns : Turns) :
    mount.plain.read backend file offset length turns =
      ((mount.read backend.watching file offset length turns).1.plain,
        (mount.read backend.watching file offset length turns).2) := by
  unfold read
  split
  · rfl
  · split
    · exact poll_plain { mount with
        pool := mount.pool.startRead file offset (offset + length) } _ turns
    · rfl

theorem act_plain (act : Act σ) :
    mount.plain.act backend act =
      ((mount.act backend.watching act.watched).1.plain,
        (mount.act backend.watching act.watched).2) := by
  cases act with
  | change become => rfl
  | ask op =>
      cases op with
      | read file offset length turns =>
          simp only [Act.watched, Mount.act, step, read_plain]
      | poll id turns => simp only [Act.watched, Mount.act, step, poll_plain]
      | _ => rfl

theorem run_plain (acts : List (Act σ)) :
    mount.plain.run backend acts =
      (mount.run backend.watching (acts.map Act.watched)).plain := by
  induction acts generalizing mount with
  | nil => rfl
  | cons act rest ih =>
      simp only [run, List.map_cons, act_plain]
      exact ih _

theorem answers_plain (acts : List (Act σ)) :
    mount.plain.answers backend acts =
      mount.answers backend.watching (acts.map Act.watched) := by
  induction acts generalizing mount with
  | nil => rfl
  | cons act rest ih =>
      simp only [answers, List.map_cons, act_plain]
      rw [ih]

end Plain

section Growing

variable (mount : Mount (σ × List Glance) τ)

-- Nothing is taken off the list.
def Grows (mount grown : Mount (σ × List Glance) τ) : Prop :=
  mount.storage.2 <:+ grown.storage.2

theorem grows_advance (id : FetchId) (call : Call) (token : τ) :
    mount.Grows (mount.advance backend.watching id call token).1 := by
  unfold advance
  simp only
  split <;> exact List.suffix_cons ..

theorem grows_drive (id : FetchId) : mount.Grows (mount.drive backend.watching id).1 := by
  unfold drive
  split
  · exact List.suffix_rfl
  · exact List.suffix_rfl
  · exact grows_advance ..
  · exact grows_advance (mount.launch backend.watching id _).1 ..

theorem grows_pollWait (id : ReadId) (lease : Lease) (wait : Wait) :
    mount.Grows (pollWait backend.watching id lease mount wait) := by
  have hdriven : mount.Grows (mount.drive backend.watching wait.fetch).1 := mount.grows_drive _
  unfold pollWait
  simp only
  split <;> exact hdriven

theorem grows_takeTurns (id : ReadId) (pages : List Nat) :
    mount.Grows (pages.foldl (takeTurn backend.watching id) mount) :=
  takeTurns_induction (P := fun next => mount.Grows next) backend.watching pages List.suffix_rfl
    fun middle read _ wait _ _ h => h.trans (middle.grows_pollWait read.id read.lease wait)

theorem grows_poll (id : ReadId) (turns : Turns) :
    mount.Grows (mount.poll backend.watching id turns).1 := by
  unfold poll
  split
  · exact List.suffix_rfl
  · rename_i read _
    have hpolled : mount.Grows ((turns (read.waits.map (·.page))).foldl
        (takeTurn backend.watching id) mount) := mount.grows_takeTurns ..
    simp only
    split <;> exact hpolled

theorem grows_act (act : Act σ) :
    mount.Grows (mount.act backend.watching act.watched).1 := by
  cases act with
  | change become => exact List.suffix_rfl
  | ask op =>
      cases op with
      | read file offset length turns =>
          simp only [Act.watched, Mount.act, step, read]
          split
          · exact List.suffix_rfl
          · split
            · exact grows_poll { mount with
                pool := mount.pool.startRead file offset (offset + length) } _ turns
            · exact List.suffix_rfl
      | poll id turns => exact mount.grows_poll id turns
      | _ => exact List.suffix_rfl

theorem grows_run (acts : List (Act σ)) :
    mount.Grows (mount.run backend.watching (acts.map Act.watched)) := by
  induction acts generalizing mount with
  | nil => exact List.suffix_rfl
  | cons act rest ih => exact (mount.grows_act act).trans (ih _)

end Growing

end Mount

end PageCache
