import PageCache.Proofs.Transparency

namespace PageCache

-- Storage whose files change over time. A read of it that succeeds gives what the file holds at
-- some time while it is under way: `held` ties a token to the bytes that the file has held since
-- the read was started, and if those are still there when it is answered, the answer is of them.
structure Backend.Faithful {σ τ : Type} (backend : Backend σ τ) (asks : Call → Prop)
    (contents : σ → FileId → Bytes) where
  good : σ → Prop
  held : Bytes → Call → τ → Prop
  start : ∀ state call, good state → asks call →
    good (backend.start state call).1 ∧ contents (backend.start state call).1 = contents state ∧
    held (contents state call.file) call (backend.start state call).2
  poll : ∀ state call token, good state → asks call →
    good (backend.poll state call token).1 ∧
    contents (backend.poll state call token).1 = contents state ∧
    (held (contents state call.file) call token →
      (∀ rest, (backend.poll state call token).2 = .waiting rest →
        held (contents state call.file) call rest) ∧
      ∀ answer, (backend.poll state call token).2 = .finished answer →
        Exact (contents state) call answer)

namespace Backend.Faithful

variable {σ τ : Type} {backend : Backend σ τ} {asks : Call → Prop}
  {contents : σ → FileId → Bytes}

-- What storage does by itself leaves it in a good state.
def Allows (faithful : backend.Faithful asks contents) : Act σ → Prop
  | .ask _ => True
  | .change become => ∀ state, faithful.good state → faithful.good (become state)

-- And it leaves the file as it is.
def Keeps (faithful : backend.Faithful asks contents) (file : FileId) : Act σ → Prop
  | .ask _ => True
  | .change become => ∀ state, faithful.good state →
      faithful.good (become state) ∧ contents (become state) file = contents state file

-- It serves, whatever its files hold at the time.
def serving (faithful : backend.Faithful asks contents) : backend.Serving asks backend.Gives where
  good := faithful.good
  held _ _ := True
  start state call hg ha := ⟨(faithful.start state call hg ha).1, trivial⟩
  poll state call token hg ha _ :=
    ⟨(faithful.poll state call token hg ha).1, fun _ _ => trivial, fun _ h => ⟨state, token, h⟩⟩

theorem allows_serving {faithful : backend.Faithful asks contents} {act : Act σ}
    (h : faithful.Allows act) : faithful.serving.Allows act := by
  cases act with
  | ask op => trivial
  | change become => exact h

-- A fetch of a file that has held these bytes since the fetch was created.
def Drove (faithful : backend.Faithful asks contents) (bytes : Bytes) (fetch : Fetch τ) : Prop :=
  (∀ token, fetch.phase = .running token → faithful.held bytes fetch.call token) ∧
  ∀ data attributes, fetch.phase = .complete (.ok (data, attributes)) →
    data = bytes.slice fetch.call.offset (fetch.call.offset + fetch.call.length)

-- The file holds these bytes, as it has since there were `count` fetches.
structure Current (faithful : backend.Faithful asks contents) (file : FileId) (bytes : Bytes)
    (count : Nat) (storage : σ) (fetches : Array (Fetch τ)) : Prop where
  good : faithful.good storage
  contents : contents storage file = bytes
  asks : ∀ (id : FetchId) (fetch : Fetch τ), fetches[id]? = some fetch → asks fetch.call
  drove : ∀ (id : FetchId) (fetch : Fetch τ), fetches[id]? = some fetch → count ≤ id →
    fetch.call.file = file → faithful.Drove bytes fetch

namespace Current

variable {faithful : backend.Faithful asks contents} {file : FileId} {bytes : Bytes} {count : Nat}
  {mount : Mount σ τ}

-- One fetch is driven on. The others are left alone.
theorem withPhase (h : faithful.Current file bytes count mount.storage mount.pool.fetches)
    {id : FetchId} {fetch : Fetch τ} (hf : mount.pool.fetches[id]? = some fetch) {storage : σ}
    (hg : faithful.good storage) (hc : contents storage file = bytes) {phase : Phase τ}
    (hd : count ≤ id → fetch.call.file = file → faithful.Drove bytes ⟨fetch.call, phase⟩) :
    faithful.Current file bytes count storage (mount.pool.withPhase id phase).fetches := by
  have hcases : ∀ (other : FetchId) (found : Fetch τ),
      (mount.pool.withPhase id phase).fetches[other]? = some found →
      other = id ∧ found = ⟨fetch.call, phase⟩ ∨ mount.pool.fetches[other]? = some found := by
    intro other found ho
    simp only [Pool.withPhase, Array.getElem?_modify] at ho
    split at ho
    · rename_i he
      subst he
      rw [hf] at ho
      cases ho
      exact .inl ⟨rfl, rfl⟩
    · exact .inr ho
  refine ⟨hg, hc, fun other found ho => ?_, fun other found ho => ?_⟩
  · rcases hcases other found ho with ⟨rfl, rfl⟩ | hold
    · exact h.asks other fetch hf
    · exact h.asks other found hold
  · rcases hcases other found ho with ⟨rfl, rfl⟩ | hold
    · exact hd
    · exact h.drove other found hold

theorem advance (h : faithful.Current file bytes count mount.storage mount.pool.fetches)
    {id : FetchId} {fetch : Fetch τ} (hf : mount.pool.fetches[id]? = some fetch) {token : τ}
    (ht : count ≤ id → fetch.call.file = file → faithful.held bytes fetch.call token) :
    faithful.Current file bytes count (mount.advance backend id fetch.call token).1.storage
      (mount.advance backend id fetch.call token).1.pool.fetches := by
  obtain ⟨hgood, hsame, hheld⟩ :=
    faithful.poll mount.storage fetch.call token h.good (h.asks id fetch hf)
  have hcontents := (congrFun hsame file).trans h.contents
  have hbytes : fetch.call.file = file → contents mount.storage fetch.call.file = bytes :=
    fun he => he ▸ h.contents
  rcases mount.advance_cases backend id fetch.call token with
    ⟨rest, hp, he⟩ | ⟨answer, hp, he⟩
  · rw [he]
    refine h.withPhase hf hgood hcontents fun hle hfile => ?_
    rw [hbytes hfile] at hheld
    refine ⟨fun token htoken => ?_, fun _ _ ho => nomatch ho⟩
    cases htoken
    exact (hheld (ht hle hfile)).1 rest hp
  · rw [he]
    refine h.withPhase hf hgood hcontents fun hle hfile => ?_
    refine ⟨(fun _ htoken => nomatch htoken), fun data attributes ho => ?_⟩
    have houtcome : fetch.call.outcome answer = .ok (data, attributes) := Phase.complete.inj ho
    have hexact := (hheld (hbytes hfile ▸ ht hle hfile)).2 answer hp
    rw [← hbytes hfile]
    exact hexact.outcome houtcome

theorem drive (h : faithful.Current file bytes count mount.storage mount.pool.fetches)
    (id : FetchId) :
    faithful.Current file bytes count (mount.drive backend id).1.storage
      (mount.drive backend id).1.pool.fetches := by
  unfold Mount.drive
  cases hf : mount.pool.fetches[id]? with
  | none => exact h
  | some fetch =>
      obtain ⟨call, phase⟩ := fetch
      cases phase with
      | complete outcome => exact h
      | running token =>
          exact h.advance hf fun hle hfile => (h.drove id _ hf hle hfile).1 token rfl
      | idle =>
          obtain ⟨hgood, hsame, hheld⟩ :=
            faithful.start mount.storage call h.good (h.asks id _ hf)
          have hlaunched : faithful.Current file bytes count
              (mount.launch backend id call).1.storage
              (mount.launch backend id call).1.pool.fetches :=
            ⟨hgood, (congrFun hsame file).trans h.contents, h.asks, h.drove⟩
          have hidle : (mount.launch backend id call).1.pool.fetches[id]? =
              some ⟨call, .idle⟩ := hf
          refine hlaunched.advance hidle fun _ hfile => ?_
          have hbytes : contents mount.storage call.file = bytes :=
            (congrArg (contents mount.storage) hfile).trans h.contents
          exact hbytes ▸ hheld

-- What such a fetch gives are bytes that the file has.
theorem data_eq {pool : Pool τ} {storage : σ}
    (h : faithful.Current file bytes count storage pool.fetches) {fetch : FetchId}
    (hle : count ≤ fetch) {page length : Nat} {data : Bytes} {attributes : Attributes}
    (hc : pool.call? fetch = some ⟨file, page, length⟩)
    (ho : pool.outcome? fetch = some (.ok (data, attributes))) :
    data = bytes.slice page (page + length) :=
  (h.drove fetch _ (Pool.getElem?_of_outcome? hc ho) hle rfl).2 data attributes rfl

end Current

theorem stable_current {limits : Limits} (faithful : backend.Faithful limits.Asks contents)
    (file : FileId) (bytes : Bytes) (count : Nat) :
    Mount.Stable backend limits (faithful.Current file bytes count) where
  create storage fetches call hc h := by
    refine ⟨h.good, h.contents, fun id fetch hf => ?_, fun id fetch hf => ?_⟩
    · rw [Array.getElem?_push] at hf
      split at hf
      · cases hf
        exact hc
      · exact h.asks id fetch hf
    · rw [Array.getElem?_push] at hf
      split at hf
      · cases hf
        exact fun _ _ => ⟨(fun _ ht => nomatch ht), (fun _ _ ho => nomatch ho)⟩
      · exact h.drove id fetch hf
  drive mount id h := h.drive id

theorem Keeps.leaves {faithful : backend.Faithful asks contents} {file : FileId} {act : Act σ}
    (h : faithful.Keeps file act) (bytes : Bytes) (count : Nat) :
    Mount.Leaves (faithful.Current file bytes count) act := by
  cases act with
  | ask op => trivial
  | change become =>
      intro storage fetches hc
      obtain ⟨hgood, hsame⟩ := h storage hc.good
      exact ⟨hgood, hsame.trans hc.contents, hc.asks, hc.drove⟩

end Backend.Faithful

-- Memory answers a read all at once, as long as it gives no more than it is asked for.
def Memory.faithful (asks : Call → Prop) :
    backend.Faithful asks fun state => bytesOf state.2.files where
  good state := state.2.overread = 0
  held _ _ _ := True
  start _ _ hg _ := ⟨hg, rfl, trivial⟩
  poll state call gate hg _ := by
    obtain ⟨hfiles, hover⟩ := files_answer state.2 call
    simp only [backend]
    split
    · refine ⟨hover.trans hg, by rw [hfiles], fun _ => ⟨fun _ _ => trivial, fun answer ha => ?_⟩⟩
      cases ha
      exact exact_answer hg call
    · exact ⟨hg, rfl, fun _ => ⟨fun _ _ => trivial, fun _ ha => nomatch ha⟩⟩

end PageCache
