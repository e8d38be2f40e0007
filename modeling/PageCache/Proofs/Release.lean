import PageCache.Proofs.Accounting
import PageCache.Proofs.LastRead
import PageCache.Proofs.Yielding

namespace PageCache

namespace Pool

variable {τ : Type} {pool : Pool τ} {file : FileId} {cached : FileCache}

-- All that a file holds goes with it, also the pages that nobody waits for any longer.
theorem Accounted.pagesUsed_removeFile (h : pool.Accounted) (ho : pool.Ordered)
    (hf : pool.files.find? file = some cached) :
    (pool.removeFile file).pagesUsed + (pool.pagesOf file).length = pool.pagesUsed := by
  have hsize : (pool.pagesOf file).length = cached.pages.size := by
    simp only [pagesOf, hf, LruMap.keys, List.length_map,
      (ho.pages file cached hf).order.length_eq, LruMap.size]
  have htotal : (pool.removeFile file).pagesHeld + cached.pages.size = pool.pagesHeld := by
    rw [pagesHeld, files_removeFile hf]
    exact ho.files.total_erase (·.pages.size) hf
  rw [hsize, (h.removeFile ho hf).used, h.used, htotal]

-- The file is marked to go with the last of the reads that are in progress.
structure Leaving (pool : Pool τ) (file : FileId) (serial : Nat) : Prop where
  busy : pool.Busy file
  marked : ∃ cached, pool.files.find? file = some cached ∧ cached.serial = serial ∧
    cached.released = true

theorem Leaving.not_gone {serial : Nat} (h : pool.Leaving file serial) : ¬ pool.Gone file := by
  intro hgone
  obtain ⟨cached, hf, _⟩ := h.marked
  cases hgone.uncached.symm.trans hf

-- What a release does goes by whether the file is read.
theorem release_of_busy (hl : pool.Leased) (hf : pool.files.find? file = some cached)
    (hb : pool.Busy file) :
    (pool.release file).2 = false ∧ (pool.release file).1.Leaving file cached.serial := by
  rcases pool.release_cases file with ⟨hnone, _⟩ | ⟨found, hfound, ⟨hidle, _⟩ | ⟨_, he⟩⟩
  · cases hf.symm.trans hnone
  · exact absurd hb ((hl.isIdle_iff hfound).mp hidle)
  · cases hf.symm.trans hfound
    rw [he]
    refine ⟨rfl, hb, { cached with released := true }, ?_, rfl, rfl⟩
    rw [find?_modifyFile, if_pos rfl, hf, Option.map_some]

theorem release_of_idle (hl : pool.Leased) (hf : pool.files.find? file = some cached)
    (hb : ¬ pool.Busy file) : pool.release file = (pool.removeFile file, true) := by
  rcases pool.release_cases file with ⟨hnone, _⟩ | ⟨found, hfound, ⟨_, he⟩ | ⟨hidle, _⟩⟩
  · cases hf.symm.trans hnone
  · exact he
  · rw [(hl.isIdle_iff hfound).mpr hb] at hidle
    cases hidle

theorem release_of_none (hf : pool.files.find? file = none) :
    pool.release file = (pool, false) := by
  simp only [release, hf]

theorem release_iff (hl : pool.Leased) : (pool.release file).2 = true ↔
    ∃ cached, pool.files.find? file = some cached ∧ ¬ pool.Busy file := by
  cases hf : pool.files.find? file with
  | none =>
      rw [release_of_none hf]
      exact iff_of_false Bool.false_ne_true fun ⟨_, he, _⟩ => nomatch he
  | some cached =>
      by_cases hb : pool.Busy file
      · rw [(release_of_busy hl hf hb).1]
        exact iff_of_false Bool.false_ne_true fun ⟨_, _, hn⟩ => hn hb
      · rw [release_of_idle hl hf hb]
        exact iff_of_true rfl ⟨cached, rfl, hb⟩

theorem busy_of_release (hl : pool.Leased)
    (hf : (pool.release file).1.files.find? file = some cached) :
    (pool.release file).1.Busy file := by
  cases hfound : pool.files.find? file with
  | none =>
      rw [release_of_none hfound] at hf
      cases hfound.symm.trans hf
  | some found =>
      by_cases hb : pool.Busy file
      · exact (release_of_busy hl hfound hb).2.busy
      · rw [release_of_idle hl hfound hb] at hf
        cases (gone_removeFile hfound).uncached.symm.trans hf

end Pool

namespace Mount

variable {σ τ : Type} {backend : Backend σ τ} {mount : Mount σ τ} {plans : ReadId → Plan}
  {act : Act σ} {file : FileId} {cached : FileCache} {serial : Nat}

-- The mark is not taken off while the file stays.
theorem released_act (hs : mount.pool.Steady plans)
    (hf : mount.pool.files.find? file = some cached) (hm : cached.released = true)
    (hlt : cached.serial < mount.pool.serials) (hb : (mount.act backend act).1.pool.Busy file) :
    (mount.act backend act).1.pool.Leaving file cached.serial := by
  obtain ⟨left, hleft, hserial⟩ := exists_same_act hs hf hb
  refine ⟨hb, left, hleft, hserial, ?_⟩
  cases act with
  | change become =>
      cases hf.symm.trans hleft
      exact hm
  | ask op =>
      by_cases ho : op = .release file
      · subst ho
        have hbefore : mount.pool.Busy file :=
          ((Pool.trims_release hs.sound.leased file).busy_iff file).mp hb
        obtain ⟨_, _, found, hfound, _, hreleased⟩ :=
          Pool.release_of_busy hs.sound.leased hf hbefore
        cases hfound.symm.trans hleft
        exact hreleased
      · exact ((moves_step backend mount op).marks.released_eq ho hf hlt hleft hserial).trans hm

-- The last read takes the file along.
theorem gone_act (hs : mount.pool.Steady plans)
    (hf : mount.pool.files.find? file = some cached) (hm : cached.released = true)
    (hlt : cached.serial < mount.pool.serials) (h : EndsLast backend mount file act) :
    (mount.act backend act).1.pool.Gone file := by
  obtain ⟨read, hr, rfl, honly, hends⟩ := h
  have hb : mount.pool.Busy read.lease.file := ⟨read, hr, rfl⟩
  have hidle := (idle_act_iff hs hb).mpr ⟨read, hr, rfl, honly, hends⟩
  rcases hends with rfl | ⟨⟨turns, rfl⟩, result, hresult⟩
  · exact hs.sound.leased.gone_endRead hf hm hb hidle
  · -- the file is the same when all the fetches have been polled
    have hl := hs.sound.leased.live?_eq_some_iff.mpr ⟨hr, rfl⟩
    have hswept := swept_takeTurns backend (turns (read.waits.map (·.page))) hs.sound hr
    have hmarks := (moves_takeTurns backend read.id (turns (read.waits.map (·.page))) mount
      .prune).marks
    simp only [Mount.act, step, poll_eq backend mount hl] at hresult hidle ⊢
    generalize (turns (read.waits.map (·.page))).foldl (takeTurn backend read.id) mount = polled
      at *
    have hheld : (read.id, read.lease) ∈ mount.pool.leases := List.mem_map.mpr ⟨read, hr, rfl⟩
    have hstill : (read.id, read.lease) ∈ polled.pool.leases := hswept.leases ▸ hheld
    obtain ⟨left, hleft, hserial⟩ :=
      hs.sound.leased.exists_same hswept.sound.leased hheld hstill hf
    have hmark := (hmarks.released_eq (by simp) hf hlt hleft hserial).trans hm
    by_cases hdone : (polled.pool.live? read.id).all (·.waits.isEmpty)
    · simp only [hdone, if_true] at hidle ⊢
      exact hswept.sound.leased.gone_endRead hleft hmark
        (Pool.busy_iff_leases.mpr ⟨_, hstill, rfl⟩) hidle
    · simp only [hdone] at hresult
      cases hresult

theorem leaving_act (hs : mount.pool.Steady plans) (hlt : serial < mount.pool.serials)
    (h : mount.pool.Leaving file serial) (hn : ¬ EndsLast backend mount file act) :
    (mount.act backend act).1.pool.Leaving file serial := by
  obtain ⟨cached, hf, rfl, hm⟩ := h.marked
  exact released_act hs hf hm hlt (not_not.mp fun hidle => hn ((idle_act_iff hs h.busy).mp hidle))

-- It stays marked, and is read, for as long as its last read has not ended.
theorem leaving_run {rest : List (Act σ)} (hs : mount.pool.Steady plans)
    (hlt : serial < mount.pool.serials) (h : mount.pool.Leaving file serial)
    (hn : ∀ first act last, rest = first ++ act :: last →
      ¬ EndsLast backend (mount.run backend first) file act) :
    (mount.run backend rest).pool.Leaving file serial := by
  induction rest generalizing mount plans with
  | nil => exact h
  | cons act rest ih =>
      obtain ⟨after, hstep⟩ := exists_steps_act backend hs act
      have hnext := leaving_act hs hlt h (hn [] act rest rfl)
      refine ih hstep.steady (hlt.trans_le (ages_act backend mount act).serials) hnext ?_
      rintro first later last rfl
      exact hn (act :: first) later last rfl

-- No file is left behind with the mark.
theorem busy_of_released (backend : Backend σ τ) (limits : Limits) (storage : σ)
    (acts : List (Act σ)) {file : FileId} {left : FileCache}
    (hf : (run backend (create limits storage) acts).pool.files.find? file = some left)
    (hm : left.released = true) :
    (run backend (create limits storage) acts).pool.Busy file := by
  induction acts using List.reverseRecOn generalizing left with
  | nil => cases hf
  | append_singleton earlier act ih =>
      obtain ⟨plans, hs, _⟩ := exists_steady backend limits storage earlier
      have hages := ages_run backend (create limits storage) earlier
      rw [run_append] at hf ⊢
      generalize run backend (create limits storage) earlier = mount at *
      change (mount.act backend act).1.pool.files.find? file = some left at hf
      change (mount.act backend act).1.pool.Busy file
      cases act with
      | change become => exact ih hf hm
      | ask op =>
          by_cases ho : op = .release file
          · subst ho
            exact Pool.busy_of_release hs.sound.leased hf
          · rcases (moves_step backend mount op).marks.file file left ho hf with
              ⟨cached, hcached, hmark⟩ | ⟨_, hfresh⟩
            · have hreleased : cached.released = true := (congrArg Prod.snd hmark).symm.trans hm
              by_contra hidle
              have hlast := (idle_act_iff hs (ih hcached hreleased)).mp hidle
              have hgone := gone_act hs hcached hreleased (serial_lt_of_ages hages hcached) hlast
              cases hgone.uncached.symm.trans hf
            · cases hfresh.symm.trans hm

-- A released file goes at once if nobody reads it. If somebody does, it goes in the very act
-- with which its last read ends, be it one that started after the release, and not before. The
-- reads that are in progress until then stick to their plans as all others do.
theorem released_with_last_read (backend : Backend σ τ) (limits : Limits) (storage : σ)
    (acts : List (Act σ)) (file : FileId) :
    let mount := run backend (create limits storage) acts
    let released := mount.step backend (.release file)
    (∀ other cached, mount.pool.files.find? other = some cached → cached.released = true →
      mount.pool.Busy other) ∧
    (∃ gone, released.2 = .flag gone ∧ (gone = true ↔ ∃ cached,
      mount.pool.files.find? file = some cached ∧ ¬ mount.pool.Busy file)) ∧
    (released.2 = .flag true → released.1.pool.Gone file ∧
      released.1.pool.pagesUsed + (mount.pool.pagesOf file).length = mount.pool.pagesUsed) ∧
    ∀ cached rest, mount.pool.files.find? file = some cached → mount.pool.Busy file →
      (∀ first act last, rest = first ++ act :: last →
        ¬ EndsLast backend (released.1.run backend first) file act) →
      let later := released.1.run backend rest
      later.pool.Leaving file cached.serial ∧
      (∀ act, (later.act backend act).1.pool.Gone file ↔ EndsLast backend later file act) ∧
      (∀ read ∈ later.pool.live, read.lease.file = file → ∃ first last extent,
        Starts backend (create limits storage) (acts ++ .ask (.release file) :: rest) first last
          extent (read.id, read.lease) ∧
        ∀ turns, ((run backend (create limits storage) first).pool.plan extent.file extent.offset
          extent.stop).Answers read.id turns (later.poll backend read.id turns)) ∧
      ∀ offset length turns, 0 < length → offset + length < wordLimit →
        (later.pool.plan file offset (offset + length)).Answers later.pool.gatherings.size turns
          (later.read backend file offset length turns) := by
  intro mount released
  obtain ⟨plans, hs, _⟩ := exists_steady backend limits storage acts
  have hleased := hs.sound.leased
  refine ⟨fun other cached hf hm => busy_of_released backend limits storage acts hf hm,
    ⟨_, rfl, Pool.release_iff hleased⟩, fun hflag => ?_, fun cached rest hf hb hn => ?_⟩
  · obtain ⟨cached, hf, hb⟩ := (Pool.release_iff hleased).mp (Answer.flag.inj hflag)
    have hpool : released.1.pool = mount.pool.removeFile file :=
      congrArg Prod.fst (Pool.release_of_idle hleased hf hb)
    rw [hpool]
    exact ⟨Pool.gone_removeFile hf,
      (accounted_run backend limits storage acts).pagesUsed_removeFile hs.sound.ordered hf⟩
  · intro later
    have hrun : later =
        run backend (create limits storage) (acts ++ .ask (.release file) :: rest) := by
      rw [run_append]
      rfl
    obtain ⟨after, hsteady, _⟩ :=
      exists_steady backend limits storage (acts ++ .ask (.release file) :: rest)
    rw [← hrun] at hsteady
    have hserial : cached.serial < released.1.pool.serials :=
      (serial_lt_of_ages (ages_run backend (create limits storage) acts) hf).trans_le
        (ages_act backend mount (.ask (.release file))).serials
    have hreleased : released.1.pool.Steady _ :=
      (Pool.Steps.of_trims (Pool.trims_release hleased file) hs :
        Pool.Steps _ _ _ plans fun _ => False).steady
    have hleaving := leaving_run hreleased hserial (Pool.release_of_busy hleased hf hb).2 hn
    have hlt : cached.serial < later.pool.serials :=
      hserial.trans_le (ages_run backend released.1 rest).serials
    refine ⟨hleaving, fun act => ⟨fun hgone => ?_, fun hlast => ?_⟩, fun read hr hfile => ?_,
      fun offset length turns hl hw => answers_read hsteady file hl hw turns⟩
    · by_contra hstays
      exact (leaving_act hsteady hlt hleaving hstays).not_gone hgone
    · obtain ⟨left, hleft, hsame, hm⟩ := hleaving.marked
      exact gone_act hsteady hleft hm (hsame ▸ hlt) hlast
    · have hheld : (read.id, read.lease) ∈ later.pool.leases := List.mem_map.mpr ⟨read, hr, rfl⟩
      rw [hrun] at hheld ⊢
      obtain ⟨first, last, extent, hstarts⟩ := exists_starts backend limits storage _ _ hheld
      exact ⟨first, last, extent, hstarts, hstarts.answers hheld⟩

-- What has become of the mount some time after a release that came while a read waits at a gate.
abbrev releasedRun (acts : List (Act (Gates × Memory))) : Mount (Gates × Memory) (Option GateId) :=
  ((gatedRun []).step Memory.backend (.release 0)).1.run Memory.backend acts

-- The same release when the read has been given up before.
abbrev abandonedRelease : Mount (Gates × Memory) (Option GateId) × Answer :=
  (gatedRun [.ask (.drop 0)]).step Memory.backend (.release 0)

-- The file goes when the read returns. Without the read it goes at once, and with it the page
-- that is still being fetched.
theorem gated_released_with_last_read :
    (gatedRun []).pool.Busy 0 ∧
    ((gatedRun []).step Memory.backend (.release 0)).2 = .flag false ∧
    (releasedRun untilReleased).pool.Leaving 0 0 ∧
    (∃ first last extent, Starts Memory.backend (create fourByteLimits gatedStorage)
        ([.ask (.read 0 1 8 .all)] ++ .ask (.release 0) :: untilReleased) first last extent
        (0, ⟨0, 0⟩) ∧
      ((run Memory.backend (create fourByteLimits gatedStorage) first).pool.plan extent.file
        extent.offset extent.stop).Answers 0 .all
          ((releasedRun untilReleased).poll Memory.backend 0 .all)) ∧
    ((releasedRun untilReleased).poll Memory.backend 0 .all).2 =
      .returned (.ok ⟨[⟨1, [2, 3, 4]⟩, ⟨4, [5, 6, 7, 8]⟩, ⟨8, [9]⟩]⟩) ∧
    ((releasedRun untilReleased).act Memory.backend (.ask (.poll 0 .all))).1.pool.Gone 0 ∧
    (gatedRun [.ask (.drop 0)]).pool.pageAt? 0 4 = some (.fetching 1 [0]) ∧
    abandonedRelease.2 = .flag true ∧ abandonedRelease.1.pool.Gone 0 ∧
    abandonedRelease.1.pool.pagesUsed + 3 = (gatedRun [.ask (.drop 0)]).pool.pagesUsed := by
  obtain ⟨_, _, _, hleaving⟩ := released_with_last_read Memory.backend fourByteLimits gatedStorage
    [.ask (.read 0 1 8 .all)] 0
  have hbusy : (gatedRun []).pool.Busy 0 := ⟨gatedRead, List.mem_singleton.mpr rfl, rfl⟩
  have hreturned : ((releasedRun untilReleased).poll Memory.backend 0 .all).2 =
      .returned (.ok ⟨[⟨1, [2, 3, 4]⟩, ⟨4, [5, 6, 7, 8]⟩, ⟨8, [9]⟩]⟩) := rfl
  have hread : gatedRead ∈ (releasedRun untilReleased).pool.live := List.mem_singleton.mpr rfl
  -- until the gate is released nothing is polled
  have hstays : ∀ first act last, untilReleased = first ++ act :: last →
      ¬ EndsLast Memory.backend (releasedRun first) 0 act := by
    rintro first act last he ⟨read, _, _, _, hends⟩
    have hm : act ∈ untilReleased := by
      rw [he]
      exact List.mem_append_right _ List.mem_cons_self
    rcases hends with rfl | ⟨⟨_, rfl⟩, _⟩ <;> simp [untilReleased] at hm
  obtain ⟨hlater, hlast, hresult, _⟩ := hleaving _ untilReleased rfl hbusy hstays
  have hends : EndsLast Memory.backend (releasedRun untilReleased) 0 (.ask (.poll 0 .all)) :=
    ⟨gatedRead, hread, rfl, fun other ho _ => List.mem_singleton.mp ho,
      .inr ⟨⟨.all, rfl⟩, _, congrArg some hreturned⟩⟩
  obtain ⟨_, _, hgone, _⟩ := released_with_last_read Memory.backend fourByteLimits gatedStorage
    [.ask (.read 0 1 8 .all), .ask (.drop 0)] 0
  obtain ⟨hremoved, hused⟩ := hgone rfl
  obtain ⟨first, last, extent, hstarts, hanswers⟩ := hresult gatedRead hread rfl
  exact ⟨hbusy, rfl, hlater, ⟨first, last, extent, hstarts, hanswers .all⟩, hreturned,
    (hlast (.ask (.poll 0 .all))).mpr hends, rfl, rfl, hremoved, hused⟩

end Mount

end PageCache
