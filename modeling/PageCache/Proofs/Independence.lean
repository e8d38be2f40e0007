import PageCache.Proofs.Isolation

namespace PageCache

-- Two lists that are the same at all places that both have.
theorem prefix_or_prefix_of_getElem? {α : Type} {first second : List α}
    (h : ∀ (n : Nat) (one other : α), first[n]? = some one → second[n]? = some other →
      one = other) :
    first <+: second ∨ second <+: first := by
  induction first generalizing second with
  | nil => exact .inl List.nil_prefix
  | cons one rest ih =>
      cases second with
      | nil => exact .inr List.nil_prefix
      | cons other more =>
          obtain rfl : one = other := h 0 _ _ rfl rfl
          exact (ih fun n => h (n + 1)).imp (List.cons_prefix_cons.mpr ⟨rfl, ·⟩)
            (List.cons_prefix_cons.mpr ⟨rfl, ·⟩)

namespace Mount

variable {σ τ : Type} {file : FileId} {fetch : FetchId → FetchId}

section Run

variable (backend : Backend σ τ) (limits : Limits) (storage : σ)

-- What a run comes to, with a list of what storage said in it.
abbrev observed (acts : List (Act σ)) : Mount (σ × List Glance) τ :=
  run backend.watching (create limits storage).watched (acts.map Act.watched)

theorem run_eq_observed (acts : List (Act σ)) :
    run backend (create limits storage) acts = (observed backend limits storage acts).plain :=
  run_plain (create limits storage).watched acts

theorem observed_append (first second : List (Act σ)) :
    observed backend limits storage (first ++ second) =
      (observed backend limits storage first).run backend.watching (second.map Act.watched) := by
  rw [observed, List.map_append, run_append]

theorem exists_named_run (acts : List (Act σ)) : ∃ plans,
    (run backend (create limits storage) acts).pool.Named (startsOf acts) plans := by
  induction acts using List.reverseRecOn with
  | nil =>
      exact ⟨fun _ => ⟨0, 0, 0, [], 0⟩, steady_create limits storage _, rfl,
        fun _ hid => absurd hid (Nat.not_lt_zero _)⟩
  | append_singleton first act ih =>
      obtain ⟨plans, hfirst⟩ := ih
      rw [run_append, startsOf_append, startsOf, startsOf, List.flatMap_singleton]
      exact exists_named_act backend hfirst act

-- At first there is nothing here or there.
theorem mirrors_create (file : FileId) : (create limits storage : Mount σ τ).watched.Mirrors file
    (([] : List FileId)[·]? = some file) ⟨number file [], id⟩ (create limits storage).watched where
  pool :=
    { limits := rfl
      cached := rfl
      alone := fun _ _ => rfl
      fetch := fun _ _ hf => nomatch hf
      fetches := fun _ _ hid => nomatch hid
      gathering := fun _ hid => nomatch hid
      reads := fun _ _ hid => nomatch hid
      waits := fun _ hid => nomatch hid }
  glances := rfl
  launches := rfl

variable {backend limits storage} {first : List (Act σ)}

-- One more act is done here, and there if it is not about another file.
theorem exists_mirrors_act {act : Act σ}
    (hq : ∀ swept ∈ (create limits storage).sweeps backend (first ++ [act]),
      swept.pagesUsed ≤ swept.limits.lowWatermark)
    (hg : Agree file (observed backend limits storage (first ++ [act]))
      (observed backend limits storage (isolate file [] (first ++ [act]))))
    (h : (observed backend limits storage first).Mirrors file
      ((startsOf first)[·]? = some file) ⟨number file (startsOf first), fetch⟩
      (observed backend limits storage (isolate file [] first))) :
    (∃ fetch, (observed backend limits storage (first ++ [act])).Mirrors file
      ((startsOf (first ++ [act]))[·]? = some file)
      ⟨number file (startsOf (first ++ [act])), fetch⟩
      (observed backend limits storage (isolate file [] (first ++ [act])))) ∧
    ∀ own, act.within? file (startsOf first) = some own →
      ((run backend (create limits storage) (isolate file [] first)).act backend own).2 =
        ((run backend (create limits storage) first).act backend act).2.map
          (·.renumber (number file (startsOf first))) := by
  obtain ⟨plans, hn⟩ := exists_named_run backend limits storage first
  obtain ⟨others, ho⟩ := exists_named_run backend limits storage (isolate file [] first)
  have ha := accounted_run backend limits storage first
  have hb := accounted_run backend limits storage (isolate file [] first)
  have hr : ∀ op, act = .ask op →
      (observed backend limits storage first).pool.Roomy op := by
    rintro op rfl swept hs
    refine hq swept ?_
    rw [sweeps_append, run_eq_observed]
    exact List.mem_append_right _ (List.mem_append_left _ (Option.mem_toList.mpr hs))
  have hstarts : startsOf (first ++ [act]) = startsOf first ++ act.starts := by
    rw [startsOf_append, startsOf, startsOf, List.flatMap_singleton]
  rw [startsOf_isolate] at ho
  rw [isolate_append, List.nil_append, isolate, isolate, List.append_nil] at hg ⊢
  simp only [run_eq_observed, act_plain] at hn ho ha hb ⊢
  rw [hstarts]
  rw [observed_append _ _ _ first] at hg ⊢
  cases hw : act.within? file (startsOf first) with
  | none =>
      rw [Option.toList_none, List.append_nil]
      refine ⟨⟨fetch, h.act_beyond hn hr hw⟩, fun own hown => ?_⟩
      cases hown
  | some own =>
      rw [hw, Option.toList_some, observed_append] at hg
      rw [Option.toList_some, observed_append]
      obtain ⟨hnext, hanswer⟩ := h.act_within hn ho ha hb hr hw hg
      refine ⟨hnext, ?_⟩
      rintro _ ⟨⟩
      exact hanswer

theorem exists_mirrors_run
    (hq : ∀ swept ∈ (create limits storage).sweeps backend first,
      swept.pagesUsed ≤ swept.limits.lowWatermark)
    (hg : Agree file (observed backend limits storage first)
      (observed backend limits storage (isolate file [] first))) :
    ∃ fetch, (observed backend limits storage first).Mirrors file
      ((startsOf first)[·]? = some file) ⟨number file (startsOf first), fetch⟩
      (observed backend limits storage (isolate file [] first)) := by
  induction first using List.reverseRecOn with
  | nil => exact ⟨id, mirrors_create limits storage file⟩
  | append_singleton first act ih =>
      have hbefore : Agree file (observed backend limits storage first)
          (observed backend limits storage (isolate file [] first)) := by
        rw [isolate_append, observed_append, observed_append] at hg
        exact hg.of_grows (grows_run ..) (grows_run ..)
      rw [sweeps_append] at hq
      obtain ⟨fetch, hfirst⟩ := ih (fun swept hs => hq swept (List.mem_append_left _ hs)) hbefore
      exact (exists_mirrors_act (by rwa [sweeps_append]) hg hfirst).1

end Run

-- As long as nothing is to be evicted, a file gets on as it would without the others. The same is
-- answered and the same reads of storage are issued, if only storage says the same when it is
-- polled for the file. That is asked of the polls that both runs come to, one by one.
theorem files_apart (backend : Backend σ τ) (limits : Limits) (storage : σ)
    (acts : List (Act σ)) (file : FileId)
    (hq : ∀ swept ∈ (create limits storage).sweeps backend acts,
      swept.pagesUsed ≤ swept.limits.lowWatermark)
    (hg : ∀ (n : Nat) (answer other : Option (Except Error Fetched)),
      (glances backend (create limits storage) acts file)[n]? = some answer →
      (glances backend (create limits storage) (isolate file [] acts) file)[n]? = some other →
      answer = other) :
    ∀ first rest, acts = first ++ rest →
      let whole := run backend (create limits storage) first
      let alone := run backend (create limits storage) (isolate file [] first)
      issued backend (create limits storage) (isolate file [] first) =
        (issued backend (create limits storage) first).filter (·.file == file) ∧
      (∀ offset, alone.pool.contains file offset = whole.pool.contains file offset) ∧
      alone.pool.attributes? file = whole.pool.attributes? file ∧
      ∀ act last own, rest = act :: last → act.within? file (startsOf first) = some own →
        (alone.act backend own).2 =
          (whole.act backend act).2.map (·.renumber (number file (startsOf first))) := by
  rintro first rest rfl whole alone
  have hagree : Agree file (observed backend limits storage (first ++ rest))
      (observed backend limits storage (isolate file [] (first ++ rest))) := by
    refine (prefix_or_prefix_of_getElem? hg).imp ?_ ?_ <;>
    · intro hprefix
      exact List.reverse_prefix.mp hprefix
  have hbefore : ∀ before after : List (Act σ), first ++ rest = before ++ after →
      Agree file (observed backend limits storage before)
        (observed backend limits storage (isolate file [] before)) := by
    intro before after he
    rw [he, isolate_append, observed_append, observed_append] at hagree
    exact hagree.of_grows (grows_run ..) (grows_run ..)
  have hquiet : ∀ before after : List (Act σ), first ++ rest = before ++ after →
      ∀ swept ∈ (create limits storage).sweeps backend before,
        swept.pagesUsed ≤ swept.limits.lowWatermark := by
    intro before after he swept hs
    refine hq swept ?_
    rw [he, sweeps_append]
    exact List.mem_append_left _ hs
  obtain ⟨fetch, hmirrors⟩ := exists_mirrors_run (hquiet first rest rfl) (hbefore first rest rfl)
  have hwhole : whole = (observed backend limits storage first).plain :=
    run_eq_observed backend limits storage first
  have halone : alone = (observed backend limits storage (isolate file [] first)).plain :=
    run_eq_observed backend limits storage _
  refine ⟨?_, fun offset => ?_, ?_, ?_⟩
  · have hlaunches : alone.pool.launches = whole.pool.launchesOf file := by
      rw [hwhole, halone]
      exact hmirrors.launches
    rw [issued_eq, issued_eq, List.filter_map, List.filter_reverse]
    exact congrArg (fun launches : List (FileId × Nat) => launches.reverse.map _) hlaunches
  · rw [hwhole, halone]
    exact hmirrors.pool.contains offset
  · rw [hwhole, halone]
    exact hmirrors.pool.attributes?
  · rintro act last own rfl hw
    have he : first ++ act :: last = (first ++ [act]) ++ last := by simp
    exact (exists_mirrors_act (hquiet _ last he) (hbefore _ last he) hmirrors).2 own hw

-- The ten bytes and the gate, and a second file whose only page is held back by another gate.
def pairedStorage : Gates × Memory :=
  (gatedStorage.1, (gatedStorage.2.insert 1 [11, 12, 13]).hold 1 0 1)

def eightPageLimits : Limits := ⟨2, 8, 4, by decide⟩

-- Both files are read. The gate of the first opens, the pages of the second are dropped.
def pairedStart : List (Act (Gates × Memory)) :=
  [.ask (.read 1 0 3 .all), .ask (.read 0 1 8 .all), .ask (.invalidate 1), .ask .prune,
    .change fun storage => (storage.1.release 0, storage.2)]

-- The read of the first file is the second one of all.
def pairedActs : List (Act (Gates × Memory)) := pairedStart ++ [.ask (.poll 1 .all)]

-- What storage says of the first file, with the other file or without it. The second page has to
-- wait.
def pairedGlances : List (Option (Except Error Fetched)) :=
  [some (.ok ⟨[[1, 2, 3, 4]], ⟨10, 1000000000⟩⟩), none, some (.ok ⟨[[9, 10]], ⟨10, 1000000000⟩⟩),
    some (.ok ⟨[[5, 6, 7, 8]], ⟨10, 1000000000⟩⟩)]

abbrev pairedMount : Mount (Gates × Memory) (Option GateId) :=
  create eightPageLimits pairedStorage

-- The read returns the same when it is the only one.
theorem gated_files_apart :
    (∀ swept ∈ pairedMount.sweeps Memory.backend pairedActs,
      swept.pagesUsed ≤ swept.limits.lowWatermark) ∧
    glances Memory.backend pairedMount pairedActs 0 = pairedGlances ∧
    glances Memory.backend pairedMount (isolate 0 [] pairedActs) 0 = pairedGlances ∧
    (Act.ask (.poll 1 .all) : Act (Gates × Memory)).within? 0 (startsOf pairedStart) =
      some (.ask (.poll 0 .all)) ∧
    ((run Memory.backend pairedMount pairedStart).act Memory.backend (.ask (.poll 1 .all))).2 =
      some (.returned (.ok ⟨[⟨1, [2, 3, 4]⟩, ⟨4, [5, 6, 7, 8]⟩, ⟨8, [9]⟩]⟩)) ∧
    ((run Memory.backend pairedMount (isolate 0 [] pairedStart)).act Memory.backend
        (.ask (.poll 0 .all))).2 =
      some (.returned (.ok ⟨[⟨1, [2, 3, 4]⟩, ⟨4, [5, 6, 7, 8]⟩, ⟨8, [9]⟩]⟩)) ∧
    issued Memory.backend pairedMount (isolate 0 [] pairedStart) =
      (issued Memory.backend pairedMount pairedStart).filter (·.file == 0) ∧
    (issued Memory.backend pairedMount pairedStart).filter (·.file == 0) =
      [⟨0, 0, 4⟩, ⟨0, 4, 4⟩, ⟨0, 8, 4⟩] := by
  have hq : ∀ swept ∈ pairedMount.sweeps Memory.backend pairedActs,
      swept.pagesUsed ≤ swept.limits.lowWatermark := by decide
  have hwhole : glances Memory.backend pairedMount pairedActs 0 = pairedGlances := rfl
  have halone : glances Memory.backend pairedMount (isolate 0 [] pairedActs) 0 =
      pairedGlances := rfl
  have hanswer : ((run Memory.backend pairedMount pairedStart).act Memory.backend
      (.ask (.poll 1 .all))).2 =
        some (.returned (.ok ⟨[⟨1, [2, 3, 4]⟩, ⟨4, [5, 6, 7, 8]⟩, ⟨8, [9]⟩]⟩)) := rfl
  have hg : ∀ (n : Nat) (answer other : Option (Except Error Fetched)),
      (glances Memory.backend pairedMount pairedActs 0)[n]? = some answer →
      (glances Memory.backend pairedMount (isolate 0 [] pairedActs) 0)[n]? = some other →
      answer = other := by
    rw [hwhole, halone]
    exact fun n answer other ha ho => Option.some.inj (ha.symm.trans ho)
  obtain ⟨hissued, _, _, hsame⟩ := files_apart Memory.backend eightPageLimits pairedStorage
    pairedActs 0 hq hg pairedStart [.ask (.poll 1 .all)] rfl
  have halike := hsame (.ask (.poll 1 .all)) [] (.ask (.poll 0 .all)) rfl rfl
  rw [hanswer] at halike
  exact ⟨hq, hwhole, halone, rfl, hanswer, halike, hissued, rfl⟩

end Mount

end PageCache
