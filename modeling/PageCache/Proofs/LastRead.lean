import PageCache.Proofs.Extents
import PageCache.Proofs.Marking

namespace PageCache

namespace Pool

variable {τ : Type} {pool next : Pool τ} {file : FileId} {cached : FileCache} {id : ReadId}

-- Neither the file is left, nor any page of it, nor its attributes.
structure Gone (pool : Pool τ) (file : FileId) : Prop where
  uncached : pool.files.find? file = none
  pages : ∀ page, pool.pageAt? file page = none
  attributes : pool.attributes? file = none

theorem gone_of_none (h : pool.files.find? file = none) : pool.Gone file :=
  ⟨h, fun page => by rw [pageAt?, h, Option.bind_none], by rw [attributes?, h, Option.bind_none]⟩

theorem gone_removeFile (hf : pool.files.find? file = some cached) :
    (pool.removeFile file).Gone file := by
  refine gone_of_none ?_
  rw [files_removeFile hf]
  exact LruMap.find?_erase_self ..

theorem gone_leave {lease : Lease} (hl : pool.leased? lease = some cached)
    (hr : cached.readers ≤ 1) (hm : cached.released = true) :
    (pool.leave lease).Gone lease.file := by
  simp only [leave, hl, hr, hm, and_self, if_true]
  exact gone_removeFile (find?_part (leased?_eq_some_iff.mp hl).1 ..)

theorem busy_endRead_iff : (pool.endRead id).Busy file ↔
    ∃ read ∈ pool.live, read.id ≠ id ∧ read.lease.file = file := by
  simp only [Busy, (endRead_frame pool id).2.2.2.2, List.mem_filter, bne_iff_ne, ne_eq, and_assoc]

-- A file that is marked goes with the last read of it.
theorem Leased.gone_endRead (h : pool.Leased) (hf : pool.files.find? file = some cached)
    (hm : cached.released = true) (hb : pool.Busy file) (hidle : ¬ (pool.endRead id).Busy file) :
    (pool.endRead id).Gone file := by
  obtain ⟨read, hr, rfl⟩ := hb
  have hid : read.id = id := by
    by_contra hne
    exact hidle (busy_endRead_iff.mpr ⟨read, hr, hne, rfl⟩)
  subst hid
  have hreaders : cached.readers = 1 := by
    rw [busy_iff_countP_pos, (endRead_frame pool read.id).2.2.2.2] at hidle
    have hcount := h.countP_filter hr read.lease.file
    rw [if_pos rfl, ← h.readers _ cached hf] at hcount
    omega
  obtain ⟨found, hfound, hserial⟩ := h.current read hr
  cases hf.symm.trans hfound
  rw [endRead, h.live?_eq_some_iff.mpr ⟨hr, rfl⟩]
  exact gone_leave (leased?_eq_some_iff.mpr ⟨hf, hserial⟩) (Nat.le_of_eq hreaders) hm

-- While a read is in progress its file stays the one that it was.
theorem Leased.exists_same (h : pool.Leased) (hn : next.Leased) {held : ReadId × Lease}
    (hm : held ∈ pool.leases) (hnext : held ∈ next.leases)
    (hf : pool.files.find? held.2.file = some cached) :
    ∃ left, next.files.find? held.2.file = some left ∧ left.serial = cached.serial := by
  obtain ⟨read, hr, rfl⟩ := List.mem_map.mp hm
  obtain ⟨other, ho, he⟩ := List.mem_map.mp hnext
  obtain ⟨found, hfound, hserial⟩ := h.current read hr
  cases hf.symm.trans hfound
  obtain ⟨left, hleft, hsame⟩ := hn.current other ho
  have hlease : other.lease = read.lease := congrArg Prod.snd he
  rw [hlease] at hleft hsame
  exact ⟨left, hleft, hsame.trans hserial.symm⟩

theorem busy_iff_leases : pool.Busy file ↔ ∃ held ∈ pool.leases, held.2.file = file := by
  simp [Busy, leases]

end Pool

namespace Mount

variable {σ τ : Type} {backend : Backend σ τ} {mount : Mount σ τ} {plans : ReadId → Plan}
  {act : Act σ} {file : FileId} {cached : FileCache}

-- The only read of the file that is in progress ends.
def EndsLast (backend : Backend σ τ) (mount : Mount σ τ) (file : FileId) (act : Act σ) : Prop :=
  ∃ read ∈ mount.pool.live, read.lease.file = file ∧
    (∀ other ∈ mount.pool.live, other.lease.file = file → other = read) ∧
    Ends backend mount read.id act

theorem leases_act_of_ends (hs : mount.pool.Steady plans) {id : ReadId}
    (h : Ends backend mount id act) :
    (mount.act backend act).1.pool.leases = mount.pool.leases.filter (·.1 != id) := by
  rcases h with rfl | ⟨⟨turns, rfl⟩, result, hresult⟩
  · exact Pool.leases_endRead ..
  · have hpoll : mount.poll backend id turns =
        ((mount.poll backend id turns).1, .returned result) :=
      Prod.ext rfl (Option.some.inj hresult)
    rcases (polls_of_returned hs hpoll).1.answer with ⟨he, _⟩ | ⟨_, hleases, _⟩
    · cases he
    · exact hleases

-- Reads in progress stay so until they end.
theorem leases_subset_act (hs : mount.pool.Steady plans) (h : ∀ id, ¬ Ends backend mount id act) :
    mount.pool.leases ⊆ (mount.act backend act).1.pool.leases := by
  cases hextent : act.extent? with
  | none =>
      rcases leases_act_of_none backend hs hextent with he | ⟨id, hends, _⟩
      · exact he ▸ List.Subset.refl _
      · exact absurd hends (h id)
  | some extent =>
      rcases leases_act_of_extent backend hs hextent with he | he
      · exact he ▸ List.Subset.refl _
      · exact he ▸ List.subset_append_left ..

-- A file is read until the last read of it ends.
theorem idle_act_iff (hs : mount.pool.Steady plans) (hb : mount.pool.Busy file) :
    ¬ (mount.act backend act).1.pool.Busy file ↔ EndsLast backend mount file act := by
  rw [Pool.busy_iff_leases]
  constructor
  · intro hidle
    obtain ⟨read, hr, hfile⟩ := hb
    have hgone : ∀ other ∈ mount.pool.live, other.lease.file = file →
        (other.id, other.lease) ∉ (mount.act backend act).1.pool.leases :=
      fun other _ ho hm => hidle ⟨_, hm, ho⟩
    have hends : ∃ id, Ends backend mount id act := by
      by_contra hn
      exact hgone read hr hfile
        (leases_subset_act hs (not_exists.mp hn) (List.mem_map.mpr ⟨read, hr, rfl⟩))
    obtain ⟨id, hends⟩ := hends
    have hid : ∀ other ∈ mount.pool.live, other.lease.file = file → other.id = id := by
      intro other ho hother
      by_contra hne
      refine hgone other ho hother ?_
      rw [leases_act_of_ends hs hends]
      exact List.mem_filter.mpr ⟨List.mem_map.mpr ⟨other, ho, rfl⟩, by simpa using hne⟩
    refine ⟨read, hr, hfile, fun other ho hother => ?_, hid read hr hfile ▸ hends⟩
    exact List.inj_on_of_nodup_map hs.sound.leased.distinct ho hr
      ((hid other ho hother).trans (hid read hr hfile).symm)
  · rintro ⟨read, hr, _, honly, hends⟩ ⟨held, hm, hfile⟩
    rw [leases_act_of_ends hs hends] at hm
    obtain ⟨hold, hne⟩ := List.mem_filter.mp hm
    obtain ⟨other, ho, rfl⟩ := List.mem_map.mp hold
    rw [honly other ho hfile] at hne
    simp at hne

-- A file that is read after an act is the one that was there before it.
theorem exists_same_act (hs : mount.pool.Steady plans)
    (hf : mount.pool.files.find? file = some cached)
    (hb : (mount.act backend act).1.pool.Busy file) :
    ∃ left, (mount.act backend act).1.pool.files.find? file = some left ∧
      left.serial = cached.serial := by
  obtain ⟨after, hstep⟩ := exists_steps_act backend hs act
  obtain ⟨held, hm, rfl⟩ := Pool.busy_iff_leases.mp hb
  have hnext := hstep.steady.sound.leased
  rcases mem_leases_act backend hs hm with hold | ⟨extent, _, rfl⟩
  · exact hs.sound.leased.exists_same hnext hold hm hf
  · -- the new read has found the file there
    obtain ⟨read, hr, he⟩ := List.mem_map.mp hm
    have hlease : read.lease = ⟨extent.file, (mount.pool.resident extent.file).serial⟩ :=
      congrArg Prod.snd he
    obtain ⟨left, hleft, hserial⟩ := hnext.current read hr
    rw [hlease] at hleft hserial
    rw [Pool.resident, hf, Option.getD_some] at hserial
    exact ⟨left, hleft, hserial⟩

end Mount

end PageCache
