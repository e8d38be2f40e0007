import PageCache.Proofs.Extents
import PageCache.Proofs.ReadOutcome

namespace PageCache

-- What a read of this plan returns once all its fetches are complete. It fails if one of them
-- failed, with the error of the first that did. Else it gives what the pages have of its range,
-- up to the first that does not reach its end.
structure Plan.Yields {τ : Type} (plan : Plan) (pool : Pool τ) (result : Except Error Reply) :
    Prop where
  complete : ∀ fetch ∈ plan.fetches, pool.outcome? fetch ≠ none
  failed : (∃ error, result = .error error) ↔
    ∃ fetch ∈ plan.fetches, ∃ error, pool.outcome? fetch = some (.error error)
  error : ∀ error, result = .error error → plan.failure? pool.failures = some error
  reply : ∀ reply, result = .ok reply →
    (plan.pages pool.outcome?).map (·.1) = pool.limits.span plan.offset plan.stop ∧
    reply.segments =
      assembled pool.limits.pageSize plan.offset plan.stop (plan.pages pool.outcome?)

-- A poll returns the result of the read, or leaves it pending. In the second case a fetch of it
-- is incomplete, if each of them has had a turn.
def Plan.Answers {σ τ : Type} (plan : Plan) (id : ReadId) (turns : Turns)
    (polled : Mount σ τ × Answer) : Prop :=
  polled.2 = .pending id ∧ (turns.Thorough →
      ∃ fetch ∈ plan.fetches, polled.1.pool.outcome? fetch = none) ∨
    ∃ result, polled.2 = .returned result ∧ plan.Yields polled.1.pool result

namespace Mount

variable {σ τ : Type} {backend : Backend σ τ} {mount final : Mount σ τ} {plans : ReadId → Plan}
  {file : FileId} {offset length : Nat} {acts : List (Act σ)} {result : Except Error Reply}

theorem Returns.yields (h : Returns backend mount file offset length acts result final)
    (hs : mount.pool.Steady plans) (hl : 0 < length) (hw : offset + length < wordLimit) :
    (mount.pool.plan file offset (offset + length)).Yields final.pool result := by
  obtain ⟨hlater, ⟨after, hafter⟩, _, hdone, hresult⟩ := h.kept hs hl hw
  refine ⟨hdone, h.failed_iff hs hl hw, ?_, ?_⟩
  · rintro error rfl
    rw [Plan.outcome_eq] at hresult
    split at hresult
    · rename_i cause hcause
      cases hresult
      exact hcause
    · cases hresult
  · rintro reply rfl
    obtain ⟨hspan, hsource, hsegments⟩ := h.reply hs hl hw
    rw [hlater.limits]
    refine ⟨hspan, ?_⟩
    rw [hsegments, contiguous_span _ (Nat.lt_add_of_pos_right hl) hw hspan]
    · rfl
    · intro found hm
      obtain ⟨fetch, attributes, _, ho⟩ := hsource found hm
      have hsized := hafter.sound.backed.sized fetch _ _ ho
      rwa [hlater.limits] at hsized

-- A read is polled when it starts.
theorem answers_read (hs : mount.pool.Steady plans) (file : FileId) (hl : 0 < length)
    (hw : offset + length < wordLimit) (turns : Turns) :
    (mount.pool.plan file offset (offset + length)).Answers mount.pool.gatherings.size turns
      (mount.read backend file offset length turns) := by
  have hpolls := polls_read backend hs file hl hw turns
  rcases hpolls.answer with ⟨he, _, hincomplete⟩ | ⟨he, _, _⟩
  · rw [Function.update_self] at hincomplete
    exact .inl ⟨he, hincomplete⟩
  · have hreturns : Returns backend mount file offset length [] _
        (mount.read backend file offset length turns).1 := ⟨turns, .inl ⟨rfl, Prod.ext rfl he⟩⟩
    exact .inr ⟨_, he, hreturns.yields hs hl hw⟩

-- A read that is in progress still has not returned at once, and has kept the plan of its start.
theorem exists_kept_plan (backend : Backend σ τ) (hs : mount.pool.Steady plans) (hl : 0 < length)
    (hw : offset + length < wordLimit) {turns : Turns} (last : List (Act σ)) {lease : Lease}
    (hm : (mount.pool.gatherings.size, lease) ∈
      ((mount.read backend file offset length turns).1.run backend last).pool.leases) :
    (mount.read backend file offset length turns).2 = .pending mount.pool.gatherings.size ∧
    ∃ after, ((mount.read backend file offset length turns).1.run backend last).pool.Steady after ∧
      after mount.pool.gatherings.size = mount.pool.plan file offset (offset + length) := by
  have hpolls := polls_read backend hs file hl hw turns
  have hstarted : (mount.read backend file offset length turns).1.pool.Steady _ :=
    (hpolls.steps (Pool.steady_startRead hs file offset _) : Pool.Steps _ _ _ _
      fun _ => False).steady
  obtain ⟨after, hsteps⟩ := exists_steps_run backend last hstarted
  have hnew : mount.pool.gatherings.size <
      (mount.read backend file offset length turns).1.pool.gatherings.size := by
    obtain ⟨_, _, _, _, hsize, _⟩ := Pool.startRead_frame hs.sound file offset (offset + length)
    exact (Nat.lt_succ_self _).trans_eq (hpolls.size.trans hsize).symm
  refine ⟨?_, after, hsteps.steady, ?_⟩
  · rcases hpolls.answer with ⟨he, _⟩ | ⟨_, hgone, _⟩
    · exact he
    · have hheld := (hsteps.origin _ hm).resolve_right (Nat.not_le_of_lt hnew)
      rw [hgone] at hheld
      simpa using (List.mem_filter.mp hheld).2
  · rw [hsteps.same _ hnew, Function.update_self]

-- Whatever has gone on since, a read in progress gets what its plan was at its start.
theorem Starts.answers {limits : Limits} {storage : σ} {first last : List (Act σ)}
    {extent : Extent} {held : ReadId × Lease}
    (h : Starts backend (create limits storage) acts first last extent held)
    (hm : held ∈ (run backend (create limits storage) acts).pool.leases) (turns : Turns) :
    ((run backend (create limits storage) first).pool.plan extent.file extent.offset
      extent.stop).Answers held.1 turns
        ((run backend (create limits storage) acts).poll backend held.1 turns) := by
  obtain ⟨⟨act, rfl, hextent⟩, rfl⟩ := h
  obtain ⟨file, offset, length, earlier, rfl, hl, hw, rfl⟩ := Act.exists_read_of_extent hextent
  obtain ⟨plans, hs, _⟩ := exists_steady backend limits storage first
  rw [run_append] at hm ⊢
  generalize run backend (create limits storage) first = before at hs hm ⊢
  obtain ⟨hpending, after, hsteady, hplan⟩ := exists_kept_plan backend hs hl hw last hm
  obtain ⟨read, hr, he⟩ := List.mem_map.mp hm
  have hid : read.id = before.pool.gatherings.size := congrArg Prod.fst he
  have hpolls := polls_poll backend hsteady hr turns
  rw [hid] at hpolls
  rcases hpolls.answer with ⟨he, _, hincomplete⟩ | ⟨he, _, _⟩
  · rw [hplan] at hincomplete
    exact .inl ⟨he, hincomplete⟩
  · have hreturns : Returns backend before file offset length last _ _ :=
      ⟨earlier, .inr ⟨_, turns, hpending, Prod.ext rfl he⟩⟩
    exact .inr ⟨_, he, hreturns.yields hs hl hw⟩

end Mount

end PageCache
