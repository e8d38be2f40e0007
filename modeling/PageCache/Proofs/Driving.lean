import PageCache.Mount
import PageCache.Proofs.Frame
import PageCache.Proofs.Leaving

namespace PageCache

-- The outcome of a read of storage that ends with this answer.
def Call.outcome (call : Call) (answer : Except Error Fetched) : Outcome :=
  answer.bind (·.toPage call.length)

theorem Call.outcome_eq_ok_iff {call : Call} {answer : Except Error Fetched} {data : Bytes}
    {attributes : Attributes} :
    call.outcome answer = .ok (data, attributes) ↔
      ∃ fetched, answer = .ok fetched ∧ fetched.length ≤ call.length ∧
        data = fetched.bytes ∧ attributes = fetched.attributes := by
  cases answer with
  | error error => simp [outcome, Except.bind]
  | ok fetched =>
      by_cases hl : fetched.length ≤ call.length
      · simp [outcome, Except.bind, Fetched.toPage, Fetched.buffer_eq_bytes, hl, eq_comm]
      · simp [outcome, Except.bind, Fetched.toPage, hl]

theorem Call.length_of_outcome {call : Call} {answer : Except Error Fetched} {data : Bytes}
    {attributes : Attributes} (h : call.outcome answer = .ok (data, attributes)) :
    data.length ≤ call.length := by
  obtain ⟨fetched, _, hl, rfl, _⟩ := outcome_eq_ok_iff.mp h
  rwa [Fetched.length_bytes]

namespace Mount

variable {σ τ : Type}

theorem advance_cases (backend : Backend σ τ) (mount : Mount σ τ) (fetch : FetchId)
    (call : Call) (token : τ) :
    (∃ rest, (backend.poll mount.storage call token).2 = .waiting rest ∧
      mount.advance backend fetch call token =
        (⟨(backend.poll mount.storage call token).1,
          mount.pool.withPhase fetch (.running rest)⟩, none)) ∨
    ∃ answer, (backend.poll mount.storage call token).2 = .finished answer ∧
      mount.advance backend fetch call token =
        (⟨(backend.poll mount.storage call token).1,
          mount.pool.withPhase fetch (.complete (call.outcome answer))⟩,
          some (call.outcome answer)) := by
  unfold advance
  simp only
  cases (backend.poll mount.storage call token).2 with
  | waiting rest => exact .inl ⟨rest, rfl, rfl⟩
  | finished answer => exact .inr ⟨answer, rfl, rfl⟩

-- A fetch is driven in one of three ways: its outcome is known, or it is still to be
-- waited for, or its read of storage ends.
theorem drive_cases (backend : Backend σ τ) (mount : Mount σ τ) {fetch : FetchId} {call : Call}
    (hc : mount.pool.call? fetch = some call) :
    (∃ outcome, mount.pool.outcome? fetch = some outcome ∧
      mount.drive backend fetch = (mount, some outcome)) ∨
    mount.pool.outcome? fetch = none ∧ ∃ base storage, mount.pool.Trims base ∧
      ((∃ rest,
        mount.drive backend fetch = (⟨storage, base.withPhase fetch (.running rest)⟩, none)) ∨
      ∃ answer, mount.drive backend fetch =
        (⟨storage, base.withPhase fetch (.complete (call.outcome answer))⟩,
          some (call.outcome answer))) := by
  have hadvance : ∀ (start : Mount σ τ) (token : τ), mount.pool.Trims start.pool →
      mount.drive backend fetch = start.advance backend fetch call token →
      ∃ base storage, mount.pool.Trims base ∧
        ((∃ rest,
          mount.drive backend fetch = (⟨storage, base.withPhase fetch (.running rest)⟩, none)) ∨
        ∃ answer, mount.drive backend fetch =
          (⟨storage, base.withPhase fetch (.complete (call.outcome answer))⟩,
            some (call.outcome answer))) := by
    intro start token ht hd
    rw [hd]
    rcases start.advance_cases backend fetch call token with ⟨rest, _, h⟩ | ⟨answer, _, h⟩
    · exact ⟨_, _, ht, .inl ⟨rest, h⟩⟩
    · exact ⟨_, _, ht, .inr ⟨answer, h⟩⟩
  obtain ⟨⟨asked, phase⟩, hf, rfl⟩ := Option.map_eq_some_iff.mp hc
  cases phase with
  | complete outcome =>
      refine .inl ⟨outcome, ?_, ?_⟩
      · simp [Pool.outcome?, hf, Phase.outcome?]
      · simp [drive, hf]
  | running token =>
      refine .inr ⟨?_, hadvance mount token (.refl _) ?_⟩
      · simp [Pool.outcome?, hf, Phase.outcome?]
      · simp [drive, hf]
  | idle =>
      let launched := mount.launch backend fetch asked
      refine .inr ⟨?_, hadvance launched.1 launched.2 (Pool.trims_emit _ _ rfl) ?_⟩
      · simp [Pool.outcome?, hf, Phase.outcome?]
      · simp [drive, hf, launched]

theorem storage_pollWait (backend : Backend σ τ) (mount : Mount σ τ) (id : ReadId)
    (lease : Lease) (wait : Wait) :
    (pollWait backend id lease mount wait).storage =
      (mount.drive backend wait.fetch).1.storage := by
  unfold pollWait
  simp only
  split <;> rfl

-- The read waits for the page with this fetch.
theorem exists_of_awaited? {pool : Pool τ} {id : ReadId} {page : Nat} {lease : Lease}
    {wait : Wait} (h : pool.awaited? id page = some (lease, wait)) :
    ∃ read, pool.live? id = some read ∧ read.lease = lease ∧ wait ∈ read.waits ∧
      wait.page = page := by
  obtain ⟨read, hl, hw⟩ := Option.bind_eq_some_iff.mp h
  obtain ⟨found, hf, he⟩ := Option.map_eq_some_iff.mp hw
  obtain ⟨rfl, rfl⟩ := Prod.mk.inj he
  exact ⟨read, hl, rfl, List.mem_of_find?_eq_some hf, by simpa using List.find?_some hf⟩

-- A turn is lost when the read does not wait for the page.
theorem takeTurn_cases (backend : Backend σ τ) (mount : Mount σ τ) (id : ReadId) (page : Nat) :
    (mount.pool.awaited? id page = none ∧ takeTurn backend id mount page = mount) ∨
    ∃ read, mount.pool.live? id = some read ∧ ∃ wait ∈ read.waits, wait.page = page ∧
      takeTurn backend id mount page = pollWait backend id read.lease mount wait := by
  unfold takeTurn
  cases ha : mount.pool.awaited? id page with
  | none => exact .inl ⟨rfl, rfl⟩
  | some found =>
      obtain ⟨read, hl, hlease, hwait, hpage⟩ := exists_of_awaited? ha
      exact .inr ⟨read, hl, found.2, hwait, hpage, by rw [hlease]⟩

-- What each poll of a fetch keeps, the turns of a read keep, however they are taken.
theorem takeTurns_induction (backend : Backend σ τ) {id : ReadId} {P : Mount σ τ → Prop}
    (pages : List Nat) {mount : Mount σ τ} (h : P mount)
    (step : ∀ middle : Mount σ τ, ∀ read ∈ middle.pool.live, ∀ wait ∈ read.waits, read.id = id →
      P middle → P (pollWait backend read.id read.lease middle wait)) :
    P (pages.foldl (takeTurn backend id) mount) := by
  refine List.foldlRecOn pages _ h fun middle hm page _ => ?_
  rcases takeTurn_cases backend middle id page with ⟨_, ht⟩ | ⟨read, hl, wait, hw, _, ht⟩
  · rwa [ht]
  · obtain ⟨hr, rfl⟩ := Pool.mem_of_live? hl
    rw [ht]
    exact step middle read hr wait hw rfl hm

end Mount

end PageCache
