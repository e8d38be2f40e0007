import PageCache.Proofs.MirroredPolls

namespace PageCache

namespace Mount

variable {σ τ : Type} {backend : Backend σ τ} {mount next mirror : Mount (σ × List Glance) τ}
  {file : FileId} {mine : ReadId → Prop} {numbers : Numbering} {plans : ReadId → Plan}
  {id : ReadId} {lease : Lease}

-- Nothing happens to the file, and storage is not polled for it.
structure Apart (file : FileId) (mine : ReadId → Prop)
    (mount next : Mount (σ × List Glance) τ) : Prop where
  pool : Pool.Apart file mine mount.pool next.pool
  glances : glancesOf file next.storage.2 = glancesOf file mount.storage.2
  launches : next.pool.launchesOf file = mount.pool.launchesOf file

theorem Apart.trans {middle : Mount (σ × List Glance) τ} (h : mount.Apart file mine middle)
    (hn : middle.Apart file mine next) : mount.Apart file mine next :=
  ⟨h.pool.trans hn.pool, hn.glances.trans h.glances, hn.launches.trans h.launches⟩

theorem Apart.refl (file : FileId) (mine : ReadId → Prop) (mount : Mount (σ × List Glance) τ) :
    mount.Apart file mine mount := ⟨.refl .., rfl, rfl⟩

-- Storage is not asked for anything.
theorem Apart.of_pool (h : Pool.Apart file mine mount.pool next.pool)
    (hs : next.storage = mount.storage) (hl : next.pool.launches = mount.pool.launches) :
    mount.Apart file mine next :=
  ⟨h, by rw [hs], by rw [Pool.launchesOf, hl, Pool.launchesOf]⟩

theorem Mirrors.apart (h : mount.Mirrors file mine numbers mirror)
    (ha : mount.Apart file mine next) : next.Mirrors file mine numbers mirror :=
  ⟨h.pool.apart ha.pool, h.glances.trans ha.glances.symm, h.launches.trans ha.launches.symm⟩

theorem apart_advance (mount : Mount (σ × List Glance) τ) {fetch : FetchId} {call : Call}
    (hw : ¬ mount.pool.Owns file fetch) (hc : call.file ≠ file) (token : τ) :
    mount.Apart file mine (mount.advance backend.watching fetch call token).1 := by
  have hglances : glancesOf file (backend.watching.poll mount.storage call token).1.2 =
      glancesOf file mount.storage.2 := by
    rw [glances_poll, glancesOf_cons, if_neg hc]
  rcases advance_cases backend.watching mount fetch call token with
    ⟨rest, _, hmount⟩ | ⟨answer, _, hmount⟩ <;>
  · rw [hmount]
    exact ⟨Pool.apart_withPhase hw _, hglances, rfl⟩

theorem apart_drive (mount : Mount (σ × List Glance) τ) {fetch : FetchId}
    (hw : ¬ mount.pool.Owns file fetch) :
    mount.Apart file mine (mount.drive backend.watching fetch).1 := by
  have hself : mount.Apart file mine mount := .refl ..
  unfold drive
  cases hf : mount.pool.fetches[fetch]? with
  | none => exact hself
  | some found =>
      obtain ⟨call, phase⟩ := found
      have hc : call.file ≠ file := fun he => hw (Pool.owns_iff.mpr ⟨_, hf, he⟩)
      cases phase with
      | idle =>
          have hlaunched : mount.Apart file mine (mount.launch backend.watching fetch call).1 := by
            refine ⟨Pool.apart_emit .., rfl, ?_⟩
            exact List.filter_cons_of_neg (fun he : (call.file == file) = true =>
              hc (beq_iff_eq.mp he))
          exact hlaunched.trans
            (apart_advance (mount.launch backend.watching fetch call).1 hw hc _)
      | running token => exact apart_advance mount hw hc token
      | complete outcome => exact hself

theorem apart_pollWait (mount : Mount (σ × List Glance) τ)
    (hb : mount.pool.Belongs lease.file fun id => ¬ mine id) (hne : file ≠ lease.file)
    (hid : ¬ mine id) {wait : Wait} (hw : ¬ mount.pool.Owns file wait.fetch) :
    mount.Apart file mine (pollWait backend.watching id lease mount wait) := by
  have hdriven : mount.Apart file mine (mount.drive backend.watching wait.fetch).1 :=
    apart_drive mount hw
  have haside := (aside_drive backend.watching mount wait.fetch).1
  unfold pollWait
  simp only
  split
  · exact hdriven
  · rename_i outcome _
    have hresolved := Pool.apart_resolve (hb.of_files haside.files haside.calls) hne wait outcome
    refine ⟨(hdriven.pool.trans hresolved).trans (Pool.apart_modifyLive _ hid fun _ => rfl),
      hdriven.glances, ?_⟩
    have hlaunches := (Pool.logs_resolve (mount.drive backend.watching wait.fetch).1.pool lease
      wait outcome).launches
    exact (congrArg (List.filter fun place : FileId × Nat => place.1 == file) hlaunches).trans
      hdriven.launches

theorem apart_takeTurns (hs : mount.pool.Sound plans)
    (hmine : ∀ id < mount.pool.gatherings.size, mine id ↔ (plans id).file = file)
    (hid : ¬ mine id) (pages : List Nat) :
    mount.Apart file mine (pages.foldl (takeTurn backend.watching id) mount) := by
  refine takeTurns_sound_induction backend.watching pages hs (.refl ..) ?_
  rintro middle hmiddle hsize read hr wait hw rfl h
  obtain ⟨call, hc, hfile⟩ := hmiddle.owns_of_wait hr hw
  have hknown := hsize ▸ hmiddle.leased.known read hr
  have hne : file ≠ read.lease.file := fun he =>
    hid ((hmine _ hknown).mpr ((hmiddle.lease_file hr).symm.trans he.symm))
  refine h.trans (apart_pollWait middle ?_ hne hid ?_)
  · refine hmiddle.belongs fun id hlt hplan hown => hne ?_
    exact ((hmine id (hsize ▸ hlt)).mp hown).symm.trans hplan
  · rintro ⟨other, ho, hother⟩
    cases hc.symm.trans ho
    exact hne (hother.symm.trans hfile)

-- A poll of another read leaves the file alone.
theorem apart_poll (hs : mount.pool.Sound plans)
    (hmine : ∀ id < mount.pool.gatherings.size, mine id ↔ (plans id).file = file)
    (hid : ¬ mine id) (turns : Turns) :
    mount.Apart file mine (mount.poll backend.watching id turns).1 := by
  cases hlive : mount.pool.live? id with
  | none =>
      unfold poll
      rw [hlive]
      exact .refl ..
  | some read =>
      obtain ⟨hr, rfl⟩ := hs.leased.live?_eq_some_iff.mp hlive
      have hknown := hs.leased.known read hr
      let pages := turns (read.waits.map (·.page))
      have hpolled : mount.Apart file mine
          (pages.foldl (takeTurn backend.watching read.id) mount) :=
        apart_takeTurns hs hmine hid pages
      have hswept := swept_takeTurns backend.watching pages hs hr
      rw [poll_eq backend.watching mount hlive]
      generalize (turns (read.waits.map (·.page))).foldl (takeTurn backend.watching read.id)
        mount = polled at hswept hpolled
      simp only
      split
      · have hended : polled.Apart file mine { polled with pool := polled.pool.endRead read.id } :=
          .of_pool (Pool.apart_endRead hid hswept.sound.leased fun known hk he hfile => by
            have hplan : (plans read.id).file = file :=
              he ▸ (hswept.sound.lease_file hk).symm.trans hfile.symm
            exact hid ((hmine _ hknown).mpr hplan)) rfl (Pool.sheds_endRead ..).launches
        exact hpolled.trans hended
      · exact hpolled

end Mount

end PageCache
