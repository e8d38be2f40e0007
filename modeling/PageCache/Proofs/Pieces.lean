import PageCache.Proofs.Issuing
import PageCache.Proofs.Retelling
import PageCache.Script

namespace PageCache

namespace Mount

variable {σ τ ρ υ : Type}

-- What storage told in a run, poll by poll.
def heard (backend : Backend σ τ) (mount : Mount σ τ) (acts : List (Act σ)) :
    List (Option Outcome) :=
  ((run backend.watching mount.watched (acts.map Act.watched)).storage.2.map Glance.told).reverse

theorem heard_take (backend : Backend σ τ) (mount : Mount σ τ) (acts : List (Act σ))
    (n : Nat) : heard backend mount (acts.take n) <+: heard backend mount acts := by
  conv_rhs => rw [← List.take_append_drop n acts]
  unfold heard
  rw [List.map_append, run_append, List.reverse_prefix]
  exact (grows_run _ (acts.drop n)).map Glance.told

-- What was told does for the whole run, and what is told besides is left over.
theorem create_retold (backend : Backend σ τ) (limits : Limits) (storage : σ)
    (acts : List (Act σ)) (rest : List (Option Outcome)) :
    let asked := (acts.map Act.op?).map Act.asking
    let told := heard backend (create limits storage) acts ++ rest
    run Backend.retelling (create limits told) asked =
        (run backend (create limits storage) acts).retold rest ∧
      answers Backend.retelling (create limits told) asked =
        answers backend (create limits storage) acts := by
  intro asked told
  obtain ⟨said, hsaid, hrun⟩ :=
    run_retold backend (create limits storage : Mount σ τ).watched acts
  have hlog : (observed backend limits storage acts).storage.2 = said.reverse :=
    hsaid.trans (List.append_nil _)
  have htold : told = said.map Glance.told ++ rest := by
    rw [← List.reverse_reverse said, ← hlog, List.map_reverse]
    rfl
  have hcreate : (create limits told : Mount (List (Option Outcome)) Unit) =
      (create limits storage : Mount σ τ).watched.retold told := by
    simp [create, watched, retold, Pool.bare]
  have hanswers : answers backend (create limits storage) acts =
      answers backend.watching (create limits storage).watched (acts.map Act.watched) :=
    answers_plain (create limits storage).watched acts
  rw [hcreate, htold, run_eq_observed, hanswers]
  exact Prod.mk.inj (hrun rest)

section Alike

variable {backend : Backend σ τ} {other : Backend ρ υ} {limits : Limits} {storage : σ}
  {elsewhere : ρ} {acts : List (Act σ)} {others : List (Act ρ)}

theorem alike_of_longer (ha : others.map Act.op? = acts.map Act.op?)
    (hh : heard other (create limits elsewhere) others <+:
      heard backend (create limits storage) acts) :
    (run other (create limits elsewhere) others).pool.bare =
        (run backend (create limits storage) acts).pool.bare ∧
      answers other (create limits elsewhere) others =
        answers backend (create limits storage) acts := by
  obtain ⟨more, hmore⟩ := hh
  obtain ⟨hrun, hanswers⟩ := create_retold backend limits storage acts []
  obtain ⟨hother, hothers⟩ := create_retold other limits elsewhere others more
  rw [List.append_nil, ← hmore, ← ha] at hrun hanswers
  exact ⟨congrArg Mount.pool (hother.symm.trans hrun), hothers.symm.trans hanswers⟩

-- Two runs that hear the same, as far as both of them hear anything, come to the same.
theorem alike_of_heard (ha : others.map Act.op? = acts.map Act.op?)
    (hh : heard backend (create limits storage) acts <+:
        heard other (create limits elsewhere) others ∨
      heard other (create limits elsewhere) others <+:
        heard backend (create limits storage) acts) :
    (run other (create limits elsewhere) others).pool.bare =
        (run backend (create limits storage) acts).pool.bare ∧
      answers other (create limits elsewhere) others =
        answers backend (create limits storage) acts := by
  rcases hh with hh | hh
  · exact (alike_of_longer ha.symm hh).imp Eq.symm Eq.symm
  · exact alike_of_longer ha hh

end Alike

-- It makes no difference in which pieces storage hands over the bytes. Two mounts are asked the
-- same, and their storages say the same but for the pieces when they are polled: the same errors,
-- the same attributes and the same bytes in all, after as many polls. Then the same is answered,
-- the same reads of storage are issued, and after each act the pools hold the same.
theorem pieces_unseen (backend : Backend σ τ) (other : Backend ρ υ) (limits : Limits)
    (storage : σ) (elsewhere : ρ) (acts : List (Act σ)) (others : List (Act ρ))
    (ha : others.map Act.op? = acts.map Act.op?)
    (hh : ∀ (n : Nat) (here there : Option Outcome),
      (heard backend (create limits storage) acts)[n]? = some here →
      (heard other (create limits elsewhere) others)[n]? = some there → here = there) :
    answers other (create limits elsewhere) others =
      answers backend (create limits storage) acts ∧
    issued other (create limits elsewhere) others =
      issued backend (create limits storage) acts ∧
    ∀ n,
      let here := (run backend (create limits storage) (acts.take n)).pool
      let there := (run other (create limits elsewhere) (others.take n)).pool
      there.bare = here.bare ∧ there.counters = here.counters ∧ there.files = here.files ∧
      (∀ file offset, there.contains file offset = here.contains file offset) ∧
      ∀ file, there.attributes? file = here.attributes? file := by
  have hwhole := prefix_or_prefix_of_getElem? hh
  obtain ⟨hbare, hanswers⟩ := alike_of_heard ha hwhole
  refine ⟨hanswers, ?_, fun n => ?_⟩
  · have hlaunches := congrArg Pool.launches hbare
    rw [issued_eq, issued_eq]
    exact congrArg (fun launches : List (FileId × Nat) => launches.reverse.map _) hlaunches
  · intro here there
    have htaken : (others.take n).map Act.op? = (acts.take n).map Act.op? := by
      rw [List.map_take, ha, List.map_take]
    have hhere := heard_take backend (create limits storage) acts n
    have hthere := heard_take other (create limits elsewhere) others n
    have hprefix := hwhole.elim
      (fun hwhole => List.prefix_or_prefix_of_prefix (hhere.trans hwhole) hthere)
      (fun hwhole => List.prefix_or_prefix_of_prefix hhere (hthere.trans hwhole))
    have hpools : there.bare = here.bare := (alike_of_heard htaken hprefix).1
    have hfiles : there.files = here.files := congrArg Pool.files hpools
    have hlimits : there.limits = here.limits := congrArg Pool.limits hpools
    refine ⟨hpools, congrArg Pool.counters hpools, hfiles, fun file offset => ?_, fun file => ?_⟩
    · rw [Pool.contains, hfiles, hlimits, Pool.contains]
    · rw [Pool.attributes?, hfiles, Pool.attributes?]

-- A file of three pages, the second of which is held back by a gate, a page that is too long and
-- one without bytes.
def piecewise (first second third long empty : List Bytes) : Gates × Script :=
  ({ made := 1 },
    ((((({} : Script).append 0 0 ⟨none, .ok ⟨first, ⟨10, 7⟩⟩⟩).append 0 4
      ⟨some 0, .ok ⟨second, ⟨10, 7⟩⟩⟩).append 0 8 ⟨none, .ok ⟨third, ⟨10, 7⟩⟩⟩).append 1 0
        ⟨none, .ok ⟨long, ⟨5, 7⟩⟩⟩).append 2 0 ⟨none, .ok ⟨empty, ⟨0, 7⟩⟩⟩)

-- Each page in one piece at most.
def wholePages : Gates × Script :=
  piecewise [[1, 2, 3, 4]] [[5, 6, 7, 8]] [[9, 10]] [[1, 2, 3, 4, 5]] []

def cutPages : Gates × Script :=
  piecewise [[1], [], [2, 3, 4]] [[5, 6], [7, 8]] [[], [9, 10]] [[1, 2, 3], [4, 5]] [[], []]

def piecewiseActs : List (Act (Gates × Script)) :=
  [.ask (.read 0 1 8 .all), .change fun storage => (storage.1.release 0, storage.2),
    .ask (.poll 0 .all), .ask (.read 1 0 3 .all), .ask (.read 2 0 1 .all)]

def piecewiseAnswers : List (Option Answer) :=
  [some (.pending 0), none,
    some (.returned (.ok ⟨[⟨1, [2, 3, 4]⟩, ⟨4, [5, 6, 7, 8]⟩, ⟨8, [9]⟩]⟩)),
    some (.returned (.error (.malformedRead 4 5))), some (.returned (.ok {}))]

-- What storage says of the pages, cut or not. At first the second page has to wait.
def piecewiseHeard : List (Option Outcome) :=
  [some (.ok ([1, 2, 3, 4], ⟨10, 7⟩)), none, some (.ok ([9, 10], ⟨10, 7⟩)),
    some (.ok ([5, 6, 7, 8], ⟨10, 7⟩)), some (.ok ([1, 2, 3, 4, 5], ⟨5, 7⟩)),
    some (.ok ([], ⟨0, 7⟩))]

theorem scripted_pieces_unseen :
    heard Script.backend (create fourByteLimits wholePages) piecewiseActs = piecewiseHeard ∧
    heard Script.backend (create fourByteLimits cutPages) piecewiseActs = piecewiseHeard ∧
    answers Script.backend (create fourByteLimits wholePages) piecewiseActs = piecewiseAnswers ∧
    answers Script.backend (create fourByteLimits cutPages) piecewiseActs = piecewiseAnswers ∧
    (run Script.backend (create fourByteLimits cutPages) piecewiseActs).pool.counters =
      (run Script.backend (create fourByteLimits wholePages) piecewiseActs).pool.counters := by
  have hwhole : heard Script.backend (create fourByteLimits wholePages) piecewiseActs =
      piecewiseHeard := rfl
  have hcut : heard Script.backend (create fourByteLimits cutPages) piecewiseActs =
      piecewiseHeard := rfl
  have hanswers : answers Script.backend (create fourByteLimits wholePages) piecewiseActs =
      piecewiseAnswers := rfl
  obtain ⟨hsame, _, hpools⟩ := pieces_unseen Script.backend Script.backend fourByteLimits wholePages
    cutPages piecewiseActs piecewiseActs rfl fun n here there hhere hthere => by
      rw [hwhole] at hhere
      rw [hcut, hhere] at hthere
      exact Option.some.inj hthere
  obtain ⟨_, hcounters, _⟩ := hpools piecewiseActs.length
  rw [List.take_length] at hcounters
  exact ⟨hwhole, hcut, hanswers, hsame.trans hanswers, hcounters⟩

end Mount

end PageCache
