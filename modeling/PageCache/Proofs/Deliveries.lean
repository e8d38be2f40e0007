import PageCache.Proofs.Outcome

namespace PageCache

namespace Pool

variable {τ : Type}

-- The result of a read, once it is there.
def delivered? (pool : Pool τ) (id : ReadId) : Option (Except Error Reply) :=
  pool.gatherings[id]?.bind (·.result)

theorem Steady.delivered?_eq_some_iff {pool : Pool τ} {plans : ReadId → Plan}
    (h : pool.Steady plans) {id : ReadId} (hid : id < pool.gatherings.size)
    {result : Except Error Reply} :
    pool.delivered? id = some result ↔
      (∀ fetch ∈ (plans id).fetches, pool.outcome? fetch ≠ none) ∧
        result = (plans id).outcome pool.outcome? pool.failures := by
  rw [delivered?, (h.sound.tracked id hid).gathering, Option.bind_some]
  exact Plan.result_gathering (h.released id hid) _ _ result

-- A result that was delivered stays, whatever fails later.
theorem Steps.delivered? {pool next : Pool τ} {plans after : ReadId → Plan}
    {gone : ReadId → Prop} (h : pool.Steps next plans after gone) (hs : pool.Steady plans)
    {id : ReadId} {result : Except Error Reply} (hd : pool.delivered? id = some result) :
    next.delivered? id = some result := by
  obtain ⟨gathering, hg, _⟩ := Option.bind_eq_some_iff.mp hd
  have hid : id < pool.gatherings.size := (Array.getElem?_eq_some_iff.mp hg).1
  obtain ⟨hdone, rfl⟩ := (hs.delivered?_eq_some_iff hid).mp hd
  have houtcome : ∀ fetch ∈ (plans id).fetches, next.outcome? fetch = pool.outcome? fetch := by
    intro fetch hf
    obtain ⟨outcome, ho⟩ := Option.ne_none_iff_exists'.mp (hdone fetch hf)
    rw [ho]
    exact h.later.outcomes fetch outcome ho
  rw [h.steady.delivered?_eq_some_iff (hid.trans_le h.later.size), h.same id hid]
  refine ⟨fun fetch hf => houtcome fetch hf ▸ hdone fetch hf, ?_⟩
  obtain ⟨later, hlater⟩ := h.later.failures
  rw [← hlater, Plan.outcome_append houtcome]
  rintro ⟨fetch, error⟩ hm hf
  have ho : next.outcome? fetch = some (.error error) :=
    (h.steady.sound.backed.failed fetch error).mp (hlater ▸ List.mem_append_right _ hm)
  rw [houtcome fetch hf] at ho
  exact (hs.sound.backed.failed fetch error).mpr ho

end Pool

namespace Mount

variable {σ τ : Type} {mount : Mount σ τ} {plans : ReadId → Plan}

-- The results that a read gets in the course of a run, one for each time that it gets one
-- or gets another.
def deliveries (backend : Backend σ τ) (mount : Mount σ τ) (id : ReadId) :
    List (Act σ) → List (Except Error Reply)
  | [] => []
  | act :: rest =>
      let next := (mount.act backend act).1
      let new :=
        if next.pool.delivered? id = mount.pool.delivered? id then []
        else (next.pool.delivered? id).toList
      new ++ deliveries backend next id rest

theorem deliveries_eq (backend : Backend σ τ) (acts : List (Act σ)) (hs : mount.pool.Steady plans)
    (id : ReadId) :
    deliveries backend mount id acts =
      if (mount.pool.delivered? id).isSome then []
      else ((mount.run backend acts).pool.delivered? id).toList := by
  induction acts generalizing mount plans with
  | nil =>
      rw [run]
      cases hd : mount.pool.delivered? id <;> rfl
  | cons act rest ih =>
      obtain ⟨after, hstep⟩ := exists_steps_act backend hs act
      have hlater : ∀ result, mount.pool.delivered? id = some result →
          (mount.act backend act).1.pool.delivered? id = some result :=
        fun _ hd => hstep.delivered? hs hd
      have hrun : ∀ result, (mount.act backend act).1.pool.delivered? id = some result →
          ((mount.act backend act).1.run backend rest).pool.delivered? id = some result := by
        intro result hd
        obtain ⟨_, hrest⟩ := exists_steps_run backend rest hstep.steady
        exact hrest.delivered? hstep.steady hd
      rw [deliveries, run, ih hstep.steady]
      cases hd : mount.pool.delivered? id with
      | some result => simp [hlater result hd]
      | none =>
          cases hn : (mount.act backend act).1.pool.delivered? id with
          | none => simp
          | some result => simp [hrun result hn]

end Mount

end PageCache
