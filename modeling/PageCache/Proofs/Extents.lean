import Mathlib.Data.List.Induction
import PageCache.Proofs.Shedding
import PageCache.Proofs.Sightings

namespace PageCache

-- The bytes `[offset, stop)` of a file.
structure Extent where
  file : FileId
  offset : Nat
  stop : Nat
  deriving DecidableEq

def Extent.span (extent : Extent) (limits : Limits) : List Nat :=
  limits.span extent.offset extent.stop

namespace Act

variable {σ : Type} {act : Act σ}

-- What an act starts to read. A read of nothing, or past the last offset, starts nothing.
def extent? : Act σ → Option Extent
  | .ask (.read file offset length _) =>
      if 0 < length ∧ offset + length < wordLimit then some ⟨file, offset, offset + length⟩
      else none
  | _ => none

theorem exists_read_of_extent {extent : Extent} (h : act.extent? = some extent) :
    ∃ file offset length turns, act = .ask (.read file offset length turns) ∧ 0 < length ∧
      offset + length < wordLimit ∧ extent = ⟨file, offset, offset + length⟩ := by
  unfold extent? at h
  split at h
  · rename_i file offset length turns
    split at h
    · rename_i hread
      cases h
      exact ⟨file, offset, length, turns, rfl, hread.1, hread.2, rfl⟩
    · cases h
  · cases h

end Act

namespace Mount

variable {σ τ : Type} {mount : Mount σ τ} {act : Act σ} {extent : Extent}

-- A read has started and has looked up its pages, and is still to be polled.
def opened (mount : Mount σ τ) (extent : Extent) : Mount σ τ :=
  { mount with pool := mount.pool.startRead extent.file extent.offset extent.stop }

theorem act_of_extent (backend : Backend σ τ) (mount : Mount σ τ)
    (h : act.extent? = some extent) : ∃ turns,
    (mount.act backend act).1 =
        ((mount.opened extent).poll backend mount.pool.gatherings.size turns).1 ∧
      mount.actSightings backend act =
        (mount.opened extent).pollSightings backend mount.pool.gatherings.size turns := by
  obtain ⟨file, offset, length, turns, rfl, hl, hw, rfl⟩ := Act.exists_read_of_extent h
  refine ⟨turns, ?_⟩
  simp only [Mount.act, step, read, actSightings, Nat.ne_of_gt hl, if_false, hw, if_true, opened,
    and_self]

-- A read that starts nothing leaves no trace.
theorem act_read_of_none (backend : Backend σ τ) (mount : Mount σ τ) {file : FileId}
    {offset length : Nat} {turns : Turns}
    (h : (Act.ask (.read file offset length turns) : Act σ).extent? = none) :
    (mount.act backend (.ask (.read file offset length turns))).1 = mount ∧
      mount.actSightings backend (.ask (.read file offset length turns)) = [] := by
  by_cases hl : length = 0
  · subst hl
    exact ⟨rfl, rfl⟩
  · have hw : ¬ offset + length < wordLimit := by
      intro hw
      simp [Act.extent?, Nat.pos_of_ne_zero hl, hw] at h
    simp only [Mount.act, step, read, actSightings, hl, hw, if_false, and_self]

-- What neither starts a read nor polls one only sheds.
theorem sheds_act (backend : Backend σ τ) (mount : Mount σ τ) (h : act.extent? = none)
    (hp : ∀ id turns, act ≠ .ask (.poll id turns)) :
    mount.pool.Sheds (mount.act backend act).1.pool ∧ mount.actSightings backend act = [] := by
  cases act with
  | change become => exact ⟨.refl _, rfl⟩
  | ask op =>
      cases op with
      | read file offset length turns =>
          obtain ⟨hsame, hnone⟩ := act_read_of_none backend mount h
          rw [hsame]
          exact ⟨.refl _, hnone⟩
      | poll id turns => exact absurd rfl (hp id turns)
      | drop id => exact ⟨Pool.sheds_endRead _ id, rfl⟩
      | invalidate file => exact ⟨Pool.sheds_invalidate _ file, rfl⟩
      | revalidate file attributes => exact ⟨Pool.sheds_revalidate _ file attributes, rfl⟩
      | release file => exact ⟨Pool.sheds_release _ file, rfl⟩
      | prune => exact ⟨Pool.sheds_evict _, rfl⟩

section Start

variable {plans : ReadId → Plan}

-- A read is dropped, or returns when it is polled.
def Ends (backend : Backend σ τ) (mount : Mount σ τ) (id : ReadId) (act : Act σ) : Prop :=
  act = .ask (.drop id) ∨
    (∃ turns, act = .ask (.poll id turns)) ∧
      ∃ result, (mount.act backend act).2 = some (.returned result)

-- A read that starts holds the file that is cached, or that is added for it. It may have
-- returned already when the act is over.
theorem leases_act_of_extent (backend : Backend σ τ) (hs : mount.pool.Steady plans)
    (h : act.extent? = some extent) :
    (mount.act backend act).1.pool.leases = mount.pool.leases ∨
    (mount.act backend act).1.pool.leases = mount.pool.leases ++
      [(mount.pool.gatherings.size, ⟨extent.file, (mount.pool.resident extent.file).serial⟩)] := by
  obtain ⟨file, offset, length, turns, rfl, hl, hw, rfl⟩ := Act.exists_read_of_extent h
  obtain ⟨_, _, _, _, _, hleases⟩ := Pool.startRead_frame hs.sound file offset (offset + length)
  have hpolls := polls_read backend hs file hl hw turns
  simp only [Mount.act, step]
  rcases hpolls.answer with ⟨_, he, _⟩ | ⟨_, he, _⟩
  · exact .inr (he.trans hleases)
  · refine .inl (he.trans ?_)
    have hold : mount.pool.leases.filter (·.1 != mount.pool.gatherings.size) =
        mount.pool.leases := by
      refine List.filter_eq_self.mpr fun held hm => ?_
      simpa using Nat.ne_of_lt (hs.sound.leased.known_of_leases hm)
    simp only [hleases, List.filter_append, hold, List.filter_singleton, bne_self_eq_false]
    exact List.append_nil _

-- No other act adds to the reads in progress, and none but their ends takes any of them away.
theorem leases_act_of_none (backend : Backend σ τ) (hs : mount.pool.Steady plans)
    (h : act.extent? = none) :
    (mount.act backend act).1.pool.leases = mount.pool.leases ∨ ∃ id,
      Ends backend mount id act ∧
        (mount.act backend act).1.pool.leases = mount.pool.leases.filter (·.1 != id) := by
  cases act with
  | change become => exact .inl rfl
  | ask op =>
      cases op with
      | read file offset length turns => exact .inl (by rw [(act_read_of_none backend mount h).1])
      | poll id turns =>
          cases hl : mount.pool.live? id with
          | none => exact .inl (by simp only [Mount.act, step, poll, hl])
          | some read =>
              obtain ⟨hr, rfl⟩ := hs.sound.leased.live?_eq_some_iff.mp hl
              rcases (polls_poll backend hs hr turns).answer with ⟨_, he, _⟩ | ⟨ha, he, _⟩
              · exact .inl he
              · exact .inr ⟨read.id, .inr ⟨⟨turns, rfl⟩, _, congrArg some ha⟩, he⟩
      | drop id => exact .inr ⟨id, .inl rfl, Pool.leases_endRead ..⟩
      | invalidate file => exact .inl (Pool.trims_invalidate _ file).keeps.leases
      | revalidate file attributes =>
          exact .inl (Pool.trims_revalidate _ file attributes).keeps.leases
      | release file => exact .inl (Pool.trims_release hs.sound.leased file).keeps.leases
      | prune => exact .inl (Pool.trims_evict hs.sound.leased).keeps.leases

-- A read in progress was in progress before, or starts with the act.
theorem mem_leases_act (backend : Backend σ τ) (hs : mount.pool.Steady plans)
    {held : ReadId × Lease} (hm : held ∈ (mount.act backend act).1.pool.leases) :
    held ∈ mount.pool.leases ∨ ∃ extent, act.extent? = some extent ∧ held =
      (mount.pool.gatherings.size, ⟨extent.file, (mount.pool.resident extent.file).serial⟩) := by
  cases hextent : act.extent? with
  | none =>
      rcases leases_act_of_none backend hs hextent with he | ⟨id, _, he⟩
      · exact .inl (he ▸ hm)
      · rw [he] at hm
        exact .inl (List.mem_of_mem_filter hm)
  | some extent =>
      rcases leases_act_of_extent backend hs hextent with he | he
      · exact .inl (he ▸ hm)
      · rw [he] at hm
        exact (List.mem_append.mp hm).imp_right fun hm => ⟨extent, rfl, List.mem_singleton.mp hm⟩

-- A read of the extent started in the course of the run. This is its number and its lease.
def Starts (backend : Backend σ τ) (mount : Mount σ τ) (acts first last : List (Act σ))
    (extent : Extent) (held : ReadId × Lease) : Prop :=
  let before := (mount.run backend first).pool
  (∃ act, acts = first ++ act :: last ∧ act.extent? = some extent) ∧
    held = (before.gatherings.size, ⟨extent.file, (before.resident extent.file).serial⟩)

theorem Starts.append {backend : Backend σ τ} {acts first last : List (Act σ)}
    {held : ReadId × Lease} (h : Starts backend mount acts first last extent held)
    (more : List (Act σ)) :
    Starts backend mount (acts ++ more) first (last ++ more) extent held := by
  obtain ⟨⟨act, rfl, hextent⟩, hheld⟩ := h
  exact ⟨⟨act, by simp, hextent⟩, hheld⟩

-- So did every read in progress.
theorem exists_starts (backend : Backend σ τ) (limits : Limits) (storage : σ)
    (acts : List (Act σ)) :
    ∀ held ∈ (run backend (create limits storage) acts).pool.leases, ∃ first last extent,
      Starts backend (create limits storage) acts first last extent held := by
  induction acts using List.reverseRecOn with
  | nil => exact fun held hm => (List.not_mem_nil hm).elim
  | append_singleton earlier act ih =>
      intro held hm
      have hlonger : held ∈ (run backend (create limits storage) earlier).pool.leases →
          ∃ first last extent,
            Starts backend (create limits storage) (earlier ++ [act]) first last extent held := by
        intro hm
        obtain ⟨first, last, extent, hstarts⟩ := ih held hm
        exact ⟨first, _, extent, hstarts.append [act]⟩
      obtain ⟨plans, hs, _⟩ := exists_steady backend limits storage earlier
      rw [run_append] at hm
      rcases mem_leases_act backend hs hm with hm | ⟨extent, hextent, he⟩
      · exact hlonger hm
      · exact ⟨earlier, [], extent, ⟨act, rfl, hextent⟩, he⟩

end Start

end Mount

end PageCache
