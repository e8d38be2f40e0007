import Mathlib.Data.List.Induction
import PageCache.Proofs.Pinning
import PageCache.Proofs.ReadOutcome
import PageCache.Proofs.Renewal

namespace PageCache

namespace Pool

variable {τ : Type} {pool next : Pool τ}

theorem pagesUsed_enter (pool : Pool τ) (file : FileId) :
    (pool.enter file).pagesUsed = pool.pagesUsed := by
  unfold enter
  simp only
  split <;> rfl

theorem pagesUsed_dropStale_le (pool : Pool τ) (file : FileId) (keep : Nat) :
    (pool.dropStale file keep).pagesUsed ≤ pool.pagesUsed := by
  unfold dropStale
  split
  · exact Nat.le_refl _
  · simp only
    split
    · exact Nat.le_refl _
    · exact Nat.sub_le ..

theorem pagesUsed_load_le (pool : Pool τ) (file : FileId) (wait : Wait) (waiters : List ReadId)
    (data : Bytes) (attributes : Attributes) :
    (pool.load file wait waiters data attributes).pagesUsed ≤ pool.pagesUsed := by
  simp only [load, emit]
  split
  · exact pagesUsed_dropStale_le ..
  · exact Nat.le_refl _

theorem pagesUsed_invalidate_le (pool : Pool τ) (file : FileId) :
    (pool.invalidate file).1.pagesUsed ≤ pool.pagesUsed := by
  unfold invalidate
  split
  · exact Nat.le_refl _
  · exact Nat.sub_le ..

theorem pagesUsed_revalidate_le (pool : Pool τ) (file : FileId) (attributes : Attributes) :
    (pool.revalidate file attributes).1.pagesUsed ≤ pool.pagesUsed := by
  unfold revalidate
  split
  · exact Nat.le_refl _
  · simp only
    split
    · exact Nat.sub_le ..
    · exact Nat.le_refl _

-- Nothing but the creation of a page makes the count go up.
theorem Move.used_le {op : Op} (h : Move op pool next)
    (hn : ∀ limits file page, ¬ op.Spans limits file page) : next.pagesUsed ≤ pool.pagesUsed := by
  cases h with
  | aside h => exact Nat.le_of_eq h.used
  | enter => exact Nat.le_of_eq (pagesUsed_enter ..)
  | create hs => exact absurd hs (hn _ _ _)
  | wait => exact Nat.le_refl _
  | use => exact Nat.le_refl _
  | load => exact pagesUsed_load_le ..
  | fail => exact Nat.sub_le ..
  | evict => exact Nat.sub_le ..
  | remove hf => exact pagesUsed_removeFile hf ▸ Nat.sub_le ..
  | part => exact Nat.le_refl _
  | mark => exact Nat.le_refl _
  | invalidate => exact pagesUsed_invalidate_le ..
  | revalidate => exact pagesUsed_revalidate_le ..

theorem Moves.used_le {op : Op} (h : Moves op pool next)
    (hn : ∀ limits file page, ¬ op.Spans limits file page) : next.pagesUsed ≤ pool.pagesUsed := by
  induction h with
  | refl => exact Nat.le_refl _
  | tail _ hlast ih => exact (hlast.used_le hn).trans ih

theorem pagesUsed_join (pool : Pool τ) (id : ReadId) (lease : Lease) (wait : Wait) :
    (pool.join id lease wait).pagesUsed = pool.pagesUsed := pagesUsed_require ..

-- Each page that a read creates comes with a fetch, so that one count tells the other.
theorem pagesUsed_lookup (id : ReadId) (lease : Lease) (pool : Pool τ) (page : Nat) :
    (lookup id lease pool page).pagesUsed + pool.fetches.size =
      pool.pagesUsed + (lookup id lease pool page).fetches.size := by
  unfold lookup
  split
  · rw [(aside_addPage ..).used, (delivers_addPage ..).fetches]
    rfl
  · simp only [emit]
    rw [pagesUsed_join, (join_frame ..).2.1]
  · rw [pagesUsed_join, (join_frame ..).2.1]
    simp only [createPage, grow, setUsed, emit, modifyFile, Array.size_push]
    omega

theorem pagesUsed_lookups (id : ReadId) (lease : Lease) (pages : List Nat) (pool : Pool τ) :
    (pages.foldl (lookup id lease) pool).pagesUsed + pool.fetches.size =
      pool.pagesUsed + (pages.foldl (lookup id lease) pool).fetches.size := by
  induction pages generalizing pool with
  | nil => rfl
  | cons page rest ih =>
      have hfirst := pagesUsed_lookup id lease pool page
      have hrest := ih (lookup id lease pool page)
      rw [List.foldl_cons]
      omega

theorem pagesUsed_lookupSpan (pool : Pool τ) (file : FileId) (offset stop : Nat) :
    (pool.lookupSpan file offset stop).pagesUsed + pool.fetches.size =
      pool.pagesUsed + (pool.lookupSpan file offset stop).fetches.size := by
  have hlooked := pagesUsed_lookups pool.gatherings.size ⟨file, (pool.resident file).serial⟩
    (pool.limits.span offset stop) (pool.registered file offset stop)
  have hused : (pool.registered file offset stop).pagesUsed = pool.pagesUsed :=
    pagesUsed_enter pool file
  have hfetches : (pool.registered file offset stop).fetches = pool.fetches :=
    (enter_frame pool file).2.1
  rw [hused, hfetches] at hlooked
  rw [lookupSpan_eq, pagesUsed_require, fetches_require]
  exact hlooked

end Pool

namespace Mount

variable {σ τ : Type} {mount : Mount σ τ} {charged : Pool τ} {act : Act σ}

-- The pool right after an act is charged for the pages that it has created, if there are any.
-- By then the read has looked up its pages and the budget has been enforced.
def charge? (mount : Mount σ τ) : Act σ → Option (Pool τ)
  | .ask (.read file offset length _) =>
      let looked := mount.pool.lookupSpan file offset (offset + length)
      if 0 < length ∧ offset + length < wordLimit ∧
          mount.pool.fetches.size < looked.fetches.size then some looked.enforceBudget
      else none
  | _ => none

theorem exists_read_of_charge? (h : mount.charge? act = some charged) :
    ∃ file offset length turns, act = .ask (.read file offset length turns) ∧ 0 < length ∧
      offset + length < wordLimit ∧
      mount.pool.fetches.size <
        (mount.pool.lookupSpan file offset (offset + length)).fetches.size ∧
      charged = (mount.pool.lookupSpan file offset (offset + length)).enforceBudget := by
  unfold charge? at h
  split at h
  · rename_i file offset length turns
    simp only at h
    split at h
    · rename_i hc
      exact ⟨file, offset, length, turns, rfl, hc.1, hc.2.1, hc.2.2, (Option.some.inj h).symm⟩
    · cases h
  · cases h

theorem pagesUsed_poll_le (backend : Backend σ τ) (mount : Mount σ τ) (id : ReadId)
    (turns : Turns) : (mount.poll backend id turns).1.pool.pagesUsed ≤ mount.pool.pagesUsed :=
  (moves_poll backend mount id turns .prune).used_le fun _ _ _ ⟨_, _, _, he, _⟩ => nomatch he

theorem pagesUsed_read_le (backend : Backend σ τ) (mount : Mount σ τ) (file : FileId)
    {offset length : Nat} (hl : 0 < length) (hw : offset + length < wordLimit) (turns : Turns) :
    (mount.read backend file offset length turns).1.pool.pagesUsed ≤
      (mount.pool.startRead file offset (offset + length)).pagesUsed := by
  unfold read
  rw [if_neg (Nat.ne_of_gt hl), if_pos hw]
  exact pagesUsed_poll_le ..

theorem pagesUsed_act_le_of_charge? (backend : Backend σ τ)
    (h : mount.charge? act = some charged) :
    (mount.act backend act).1.pool.pagesUsed ≤ charged.pagesUsed := by
  obtain ⟨file, offset, length, turns, rfl, hl, hw, hc, rfl⟩ := exists_read_of_charge? h
  refine (pagesUsed_read_le backend mount file hl hw turns).trans (Nat.le_of_eq ?_)
  simp only [Pool.startRead, hc, if_true]
  exact (Pool.aside_arrive ..).used

theorem pagesUsed_act_le (backend : Backend σ τ) (h : mount.charge? act = none) :
    (mount.act backend act).1.pool.pagesUsed ≤ mount.pool.pagesUsed := by
  cases act with
  | change become => exact Nat.le_refl _
  | ask op =>
      cases op with
      | read file offset length turns =>
          by_cases hl : 0 < length
          · by_cases hw : offset + length < wordLimit
            · -- every page was there, so that nothing is added to the count
              have hc : ¬ mount.pool.fetches.size <
                  (mount.pool.lookupSpan file offset (offset + length)).fetches.size := by
                simpa [charge?, hl, hw] using h
              refine (pagesUsed_read_le backend mount file hl hw turns).trans ?_
              have hlooked := mount.pool.pagesUsed_lookupSpan file offset (offset + length)
              simp only [Pool.startRead, hc, if_false]
              rw [(Pool.aside_arrive ..).used]
              omega
            · simp only [act, step, read, Nat.ne_of_gt hl, hw, if_false]
              exact Nat.le_refl _
          · simp only [act, step, read, Nat.eq_zero_of_not_pos hl, if_true]
            exact Nat.le_refl _
      | _ =>
          refine (moves_step backend mount _).used_le ?_
          rintro _ _ _ ⟨_, _, _, he, _⟩
          cases he

theorem pagesUsed_charge?_le (ho : mount.pool.Ordered) (ha : mount.pool.Accounted)
    (h : mount.charge? act = some charged) :
    charged.pagesUsed ≤ max mount.pool.limits.pageBudget charged.pinned := by
  obtain ⟨file, offset, length, turns, rfl, _, _, _, rfl⟩ := exists_read_of_charge? h
  have hmoves := mount.pool.moves_lookupSpan file offset length turns
  obtain ⟨hordered, haccounted⟩ := hmoves.preserve (fun _ _ hm => hm.accounted) ho ha
  rw [← hmoves.renews.limits]
  exact Pool.pagesUsed_enforceBudget_le hordered haccounted

-- Right after a charge the count of pages is within the budget, or it is that of the pages which
-- reads in progress wait for. Nothing else adds to the count. So it stays within the budget as
-- long as no read, when it is charged, leaves more pages waited for than the budget has room for.
theorem pages_within_budget (backend : Backend σ τ) (limits : Limits) (storage : σ)
    (acts : List (Act σ)) :
    let mount := run backend (create limits storage) acts
    (∀ act charged, mount.charge? act = some charged →
      charged.pagesUsed ≤ max limits.pageBudget charged.pinned ∧
      (mount.act backend act).1.pool.pagesUsed ≤ charged.pagesUsed) ∧
    (∀ act, mount.charge? act = none →
      (mount.act backend act).1.pool.pagesUsed ≤ mount.pool.pagesUsed) ∧
    ((∀ before act after charged, acts = before ++ act :: after →
      (run backend (create limits storage) before).charge? act = some charged →
        charged.pinned ≤ limits.pageBudget) → mount.pool.pagesUsed ≤ limits.pageBudget) := by
  have hcharge : ∀ (acts : List (Act σ)) (act : Act σ) (charged : Pool τ),
      (run backend (create limits storage) acts).charge? act = some charged →
        charged.pagesUsed ≤ max limits.pageBudget charged.pinned := by
    intro acts act charged hcharged
    obtain ⟨plans, hs, hlimits⟩ := exists_steady backend limits storage acts
    have hle := pagesUsed_charge?_le hs.sound.ordered
      (accounted_run backend limits storage acts) hcharged
    rwa [hlimits] at hle
  refine ⟨fun act charged h => ⟨hcharge acts act charged h, pagesUsed_act_le_of_charge? backend h⟩,
    fun act h => pagesUsed_act_le backend h, fun hpinned => ?_⟩
  induction acts using List.reverseRecOn with
  | nil => exact Nat.zero_le _
  | append_singleton earlier act ih =>
      have hearlier := ih fun before middle after charged he =>
        hpinned before middle (after ++ [act]) charged (by rw [he]; simp)
      rw [run_append]
      change ((run backend (create limits storage) earlier).act backend act).1.pool.pagesUsed ≤ _
      cases hc : (run backend (create limits storage) earlier).charge? act with
      | none => exact (pagesUsed_act_le backend hc).trans hearlier
      | some charged =>
          have hroom := hpinned earlier act [] charged rfl hc
          have hle := hcharge earlier act charged hc
          rw [max_eq_left hroom] at hle
          exact (pagesUsed_act_le_of_charge? backend hc).trans hle

-- A read of three pages goes over a budget of two, and one of two pages does not.
theorem gated_pages_within_budget :
    (∃ charged, gatedMount.charge? (.ask (.read 0 1 8 .all)) = some charged ∧
      charged.pinned = 3 ∧ charged.pagesUsed ≤ max 2 charged.pinned ∧
      (gatedRun []).pool.pagesUsed ≤ charged.pagesUsed) ∧
    (gatedRun []).charge? (.ask (.poll 0 .all)) = none ∧
    (gatedRun [.ask (.poll 0 .all)]).pool.pagesUsed ≤ (gatedRun []).pool.pagesUsed ∧
    (∃ charged, gatedMount.charge? (.ask (.read 0 0 8 .all)) = some charged ∧ charged.pinned = 2) ∧
    (run Memory.backend gatedMount [.ask (.read 0 0 8 .all)]).pool.pagesUsed ≤ 2 := by
  obtain ⟨hcharge, _, _⟩ := pages_within_budget Memory.backend fourByteLimits gatedStorage []
  obtain ⟨_, hothers, _⟩ :=
    pages_within_budget Memory.backend fourByteLimits gatedStorage [.ask (.read 0 1 8 .all)]
  obtain ⟨_, _, hwithin⟩ :=
    pages_within_budget Memory.backend fourByteLimits gatedStorage [.ask (.read 0 0 8 .all)]
  obtain ⟨hle, hused⟩ := hcharge (.ask (.read 0 1 8 .all)) _ rfl
  refine ⟨⟨_, rfl, rfl, hle, hused⟩, rfl, hothers (.ask (.poll 0 .all)) rfl, ⟨_, rfl, rfl⟩,
    hwithin fun before act after charged he hc => ?_⟩
  cases before with
  | nil =>
      cases he
      cases hc
      exact Nat.le_refl 2
  | cons first rest => simp at he

end Mount

end PageCache
