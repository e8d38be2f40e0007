import PageCache.Proofs.Leaving
import Mathlib.Logic.Function.Basic

namespace PageCache

namespace Pool

variable {τ : Type}

-- The cached file that a new read works on, before it is counted.
def resident (pool : Pool τ) (file : FileId) : FileCache :=
  (pool.files.find? file).getD { serial := pool.serials }

theorem find?_enter (pool : Pool τ) (file other : FileId) :
    (pool.enter file).files.find? other =
      if other = file then
        some { pool.resident file with readers := (pool.resident file).readers + 1 }
      else pool.files.find? other := by
  unfold enter resident
  cases hf : pool.files.find? file with
  | none =>
      simp only [LruMap.contains_eq_isSome, hf, Option.isSome_none, Bool.false_eq_true, if_false,
        emit, LruMap.find?_modify, LruMap.find?_touch, LruMap.find?_insert]
      split <;> rfl
  | some cached =>
      simp only [LruMap.contains_eq_isSome, hf, Option.isSome_some, if_true,
        LruMap.find?_modify, LruMap.find?_touch]
      split
      · rename_i he
        rw [he, hf]
        rfl
      · rfl

theorem pages_resident (pool : Pool τ) (file : FileId) (page : Nat) :
    (pool.resident file).pages.find? page = pool.pageAt? file page := by
  unfold resident pageAt?
  cases pool.files.find? file <;> rfl

theorem pageAt?_enter (pool : Pool τ) (file : FileId) :
    (pool.enter file).pageAt? = pool.pageAt? := by
  funext other page
  rw [pageAt?, find?_enter]
  split
  · rename_i he
    rw [he, ← pages_resident]
    rfl
  · rfl

theorem Ordered.resident {pool : Pool τ} (h : pool.Ordered) (file : FileId) :
    (pool.resident file).pages.Ordered := by
  unfold Pool.resident
  cases hf : pool.files.find? file with
  | none => exact LruMap.Ordered.empty
  | some cached => exact h.pages file cached hf

theorem Ordered.enter {pool : Pool τ} (h : pool.Ordered) (file : FileId) :
    (pool.enter file).Ordered where
  files := by
    unfold Pool.enter
    simp only
    split
    · exact (h.files.touch file).modify file _
    · exact ((h.files.insert file _).touch file).modify file _
  pages other cached hf := by
    rw [find?_enter] at hf
    split at hf
    · cases hf
      exact h.resident file
    · exact h.pages other cached hf

-- The reads, the fetches and the journal of failures know nothing of files.
theorem enter_frame (pool : Pool τ) (file : FileId) :
    (pool.enter file).limits = pool.limits ∧ (pool.enter file).fetches = pool.fetches ∧
    (pool.enter file).gatherings = pool.gatherings ∧ (pool.enter file).live = pool.live ∧
    (pool.enter file).failures = pool.failures := by
  unfold enter
  simp only
  split
  · exact ⟨rfl, rfl, rfl, rfl, rfl⟩
  · refine ⟨rfl, rfl, rfl, rfl, ?_⟩
    exact (failures_emit _ _).trans (List.append_nil _)

def registered (pool : Pool τ) (file : FileId) (offset stop : Nat) : Pool τ :=
  (pool.enter file).register ((pool.enter file).lease file) offset stop

theorem lease_enter (pool : Pool τ) (file : FileId) :
    (pool.enter file).lease file = ⟨file, (pool.resident file).serial⟩ := by
  simp [lease, find?_enter]

theorem live_registered (pool : Pool τ) (file : FileId) (offset stop : Nat) :
    (pool.registered file offset stop).live = pool.live ++
      [{ id := pool.gatherings.size, lease := ⟨file, (pool.resident file).serial⟩ }] := by
  obtain ⟨_, _, hg, hl, _⟩ := enter_frame pool file
  simp only [registered, register, hl, hg, lease_enter]

theorem gatherings_registered (pool : Pool τ) (file : FileId) (offset stop : Nat) :
    (pool.registered file offset stop).gatherings =
      pool.gatherings.push { offset := offset, stop := stop } := by
  obtain ⟨_, _, hg, _, _⟩ := enter_frame pool file
  simp only [registered, register, hg]

theorem alike_registered (pool : Pool τ) (file : FileId) (offset stop : Nat) :
    pool.Alike (pool.registered file offset stop) := by
  obtain ⟨hl, hf, _, _, hj⟩ := enter_frame pool file
  refine ⟨hl, ?_, ?_, hj, pageAt?_enter pool file⟩
  · funext fetch
    exact congrArg (fun fetches : Array (Fetch τ) => fetches[fetch]?.map (·.call)) hf
  · funext fetch
    exact congrArg (fun fetches : Array (Fetch τ) => fetches[fetch]?.bind (·.phase.outcome?)) hf

-- A file that is not cached has no readers.
theorem Leased.countP_eq {pool : Pool τ} (h : pool.Leased) (file : FileId) :
    pool.live.countP (·.lease.file == file) = (pool.resident file).readers := by
  unfold resident
  cases hf : pool.files.find? file with
  | some cached => exact (h.readers file cached hf).symm
  | none =>
      rw [Option.getD_none, List.countP_eq_zero]
      intro read hr hfile
      obtain ⟨cached, hc, _⟩ := h.current read hr
      rw [beq_iff_eq] at hfile
      rw [hfile, hf] at hc
      cases hc

theorem Leased.registered {pool : Pool τ} (h : pool.Leased) (file : FileId) (offset stop : Nat) :
    (pool.registered file offset stop).Leased := by
  have hfind : ∀ other, (pool.registered file offset stop).files.find? other = _ :=
    find?_enter pool file
  refine ⟨?_, ?_, ?_, ?_⟩
  · rw [live_registered, List.map_append, List.nodup_append]
    refine ⟨h.distinct, List.nodup_singleton _, ?_⟩
    rintro id hid other hother rfl
    obtain ⟨read, hr, rfl⟩ := List.mem_map.mp hid
    rw [List.map_singleton, List.mem_singleton] at hother
    exact Nat.ne_of_lt (h.known read hr) hother
  · intro read hr
    rw [live_registered, List.mem_append, List.mem_singleton] at hr
    rw [gatherings_registered, Array.size_push]
    rcases hr with hr | rfl
    · exact Nat.lt_succ_of_lt (h.known read hr)
    · exact Nat.lt_succ_self _
  · intro read hr
    rw [live_registered, List.mem_append, List.mem_singleton] at hr
    rw [hfind]
    rcases hr with hr | rfl
    · obtain ⟨cached, hf, hs⟩ := h.current read hr
      split
      · rename_i he
        refine ⟨_, rfl, ?_⟩
        simpa [resident, ← he, hf] using hs
      · exact ⟨cached, hf, hs⟩
    · exact ⟨_, if_pos rfl, rfl⟩
  · intro other cached hf
    rw [hfind] at hf
    rw [live_registered, List.countP_append, List.countP_singleton]
    split at hf
    · rename_i he
      subst he
      cases hf
      simp [h.countP_eq]
    · rename_i he
      simp [Ne.symm he, h.readers other cached hf]

-- A read is registered with nothing looked up, so that all it waits for is the hold.
theorem sound_registered {pool : Pool τ} {plans : ReadId → Plan} (hs : pool.Sound plans)
    (file : FileId) (offset stop : Nat) :
    (pool.registered file offset stop).Sound
      (Function.update plans pool.gatherings.size ⟨file, offset, stop, [], 1⟩) := by
  have halike := alike_registered pool file offset stop
  have hgather := gatherings_registered pool file offset stop
  have hlive := live_registered pool file offset stop
  refine ⟨(hs.ordered.enter file).of_files rfl, hs.leased.registered file offset stop,
    halike.backed hs.backed, ?_, ?_⟩
  · rw [halike.pageAt?, hgather, Array.size_push]
    intro other page fetch waiters hp
    obtain ⟨hsorted, hknown⟩ := hs.waiters other page fetch waiters hp
    exact ⟨hsorted, fun id hid => Nat.lt_succ_of_lt (hknown id hid)⟩
  · intro id hid
    rw [hgather, Array.size_push] at hid
    by_cases hnew : id = pool.gatherings.size
    · subst hnew
      rw [Function.update_self]
      refine ⟨?_, List.nil_prefix, fun _ _ hm => (List.not_mem_nil hm).elim, ?_, ?_⟩
      · rw [hgather, Array.getElem?_push_size, Plan.gathering_start]
      · rw [halike.pageAt?]
        intro other page fetch waiters hp
        refine iff_of_false (fun hm => ?_) fun hm => List.not_mem_nil hm.2
        exact Nat.lt_irrefl _ ((hs.waiters other page fetch waiters hp).2 _ hm)
      · intro read hr hreadId
        rw [hlive, List.mem_append, List.mem_singleton] at hr
        rcases hr with hr | rfl
        · exact absurd hreadId (Nat.ne_of_lt (hs.leased.known read hr))
        · exact ⟨rfl, List.nodup_nil, fun _ hm => (List.not_mem_nil hm).elim,
            fun _ _ hm => (List.not_mem_nil hm).elim⟩
    · have hlt : id < pool.gatherings.size := by omega
      rw [Function.update_of_ne hnew]
      refine halike.tracks (hs.tracked id hlt) ?_ fun read hr hreadId => ?_
      · rw [hgather, Array.getElem?_push_lt hlt, Array.getElem?_eq_getElem hlt]
      · rw [hlive, List.mem_append, List.mem_singleton] at hr
        rcases hr with hr | rfl
        · exact (hs.tracked id hlt).reading read hr hreadId
        · exact absurd hreadId.symm hnew

end Pool

end PageCache
