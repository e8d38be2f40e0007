import PageCache.FileCache
import Mathlib.Data.List.Basic
import Mathlib.Data.List.Find
import Mathlib.Data.List.Nodup

namespace PageCache

attribute [ext] Gathering

-- The failure of a fetch with this outcome, if it is one.
def Outcome.failure? (fetch : FetchId) : Outcome → List (FetchId × Error)
  | .ok _ => []
  | .error error => [(fetch, error)]

namespace Gathering

-- What a gathering becomes when no page is to come.
def close (gathering : Gathering) : Gathering :=
  if gathering.awaited = 0 then { gathering with result := some gathering.outcome }
  else gathering

-- A page that was awaited has come, with its bytes or with an error.
def settle (gathering : Gathering) (page : Nat) : Outcome → Gathering
  | .ok (data, _) => (gathering.add page data).arrive
  | .error error => (gathering.spoil error).arrive

theorem arrive_eq_close (gathering : Gathering) (h : gathering.result = none) :
    gathering.arrive = close { gathering with awaited := gathering.awaited - 1 } := by
  simp [arrive, close, h, outcome, reply]

theorem close_eq_self (gathering : Gathering) (h : gathering.awaited ≠ 0) :
    gathering.close = gathering := if_neg h

theorem overlap_offset {gathering : Gathering} {page : Nat} {data : Bytes} {segment : Segment}
    (h : gathering.overlap page data = some segment) :
    segment.offset = max gathering.offset page := by
  simp only [overlap, Option.ite_none_right_eq_some, Option.some.injEq] at h
  exact h.2 ▸ rfl

theorem add_eq (gathering : Gathering) (page : Nat) (data : Bytes) :
    gathering.add page data =
      { gathering with
        segments :=
          if gathering.error.isSome then gathering.segments
          else (gathering.overlap page data).elim gathering.segments
            fun segment => place segment gathering.segments } := by
  rcases gathering with ⟨offset, stop, segments, awaited, error, result⟩
  cases error with
  | some error => rfl
  | none =>
      simp only [add, Option.isSome_none, Bool.false_eq_true, if_false]
      cases Gathering.overlap ⟨offset, stop, segments, awaited, none, result⟩ page data <;> rfl

theorem spoil_eq (gathering : Gathering) (error : Error) :
    gathering.spoil error =
      { gathering with
        error := gathering.error.or (some error)
        segments := if gathering.error.isSome then gathering.segments else [] } := by
  rcases gathering with ⟨offset, stop, segments, awaited, found, result⟩
  cases found <;> rfl

-- A segment goes to its place among those that were put in before.
theorem place_append (segment : Segment) (before after : List Segment)
    (hb : ∀ other ∈ before, other.offset < segment.offset)
    (ha : ∀ other ∈ after, segment.offset < other.offset) :
    place segment (before ++ after) = before ++ segment :: after := by
  induction before with
  | nil =>
      cases after with
      | nil => rfl
      | cons first rest => simp [place, ha first List.mem_cons_self]
  | cons first rest ih =>
      have hf := hb first List.mem_cons_self
      have hr := ih fun other ho => hb other (List.mem_cons_of_mem _ ho)
      simp only [List.cons_append, place, hr]
      rw [if_neg (by omega), if_neg (by omega)]

end Gathering

-- Where a read finds a page: its bytes were held when the read started, or a fetch
-- brings them.
inductive Source where
  | held (data : Bytes)
  | fetch (fetch : FetchId)
  deriving DecidableEq

-- One page of the span of a read.
structure Part where
  page : Nat
  source : Source
  deriving DecidableEq

namespace Part

def fetch? (part : Part) : Option FetchId :=
  match part.source with
  | .held _ => none
  | .fetch fetch => some fetch

-- The bytes of the page, if they have come.
def data? (outcomes : FetchId → Option Outcome) (part : Part) : Option Bytes :=
  match part.source with
  | .held data => some data
  | .fetch fetch => (outcomes fetch).bind fun outcome => outcome.toOption.map (·.1)

def isPending (outcomes : FetchId → Option Outcome) (part : Part) : Bool :=
  part.fetch?.any fun fetch => (outcomes fetch).isNone

@[simp] theorem data?_held (outcomes : FetchId → Option Outcome) (page : Nat) (data : Bytes) :
    Part.data? outcomes ⟨page, .held data⟩ = some data := rfl

@[simp] theorem data?_fetch (outcomes : FetchId → Option Outcome) (page : Nat)
    (fetch : FetchId) :
    Part.data? outcomes ⟨page, .fetch fetch⟩ =
      (outcomes fetch).bind fun outcome => outcome.toOption.map (·.1) := rfl

@[simp] theorem isPending_held (outcomes : FetchId → Option Outcome) (page : Nat)
    (data : Bytes) : Part.isPending outcomes ⟨page, .held data⟩ = false := rfl

@[simp] theorem isPending_fetch (outcomes : FetchId → Option Outcome) (page : Nat)
    (fetch : FetchId) :
    Part.isPending outcomes ⟨page, .fetch fetch⟩ = (outcomes fetch).isNone := rfl

theorem fetch?_eq_some_iff {part : Part} {fetch : FetchId} :
    part.fetch? = some fetch ↔ part.source = .fetch fetch := by
  unfold fetch?
  cases part.source <;> simp

theorem data?_congr {before after : FetchId → Option Outcome} {part : Part}
    (h : ∀ fetch, part.fetch? = some fetch → after fetch = before fetch) :
    part.data? after = part.data? before := by
  rcases part with ⟨page, source⟩
  cases source with
  | held data => rfl
  | fetch fetch => simp only [data?, h fetch rfl]

theorem isPending_congr {before after : FetchId → Option Outcome} {part : Part}
    (h : ∀ fetch, part.fetch? = some fetch → after fetch = before fetch) :
    part.isPending after = part.isPending before := by
  rcases part with ⟨page, source⟩
  cases source with
  | held data => rfl
  | fetch fetch => simp only [isPending, fetch?, Option.any_some, h fetch rfl]

end Part

-- What a read is made of: its range, and where each page of it comes from. While the
-- pages are looked up the plan has the `hold` that keeps the read from being done.
structure Plan where
  file : FileId
  offset : Nat
  stop : Nat
  parts : List Part := []
  hold : Nat := 0

namespace Plan

def fetches (plan : Plan) : List FetchId := plan.parts.filterMap Part.fetch?

def extend (plan : Plan) (part : Part) : Plan := { plan with parts := plan.parts ++ [part] }

-- The error of the fetch of the read that failed first.
def failure? (plan : Plan) (failures : List (FetchId × Error)) : Option Error :=
  (failures.find? fun failure => decide (failure.1 ∈ plan.fetches)).map (·.2)

def overlap (plan : Plan) (page : Nat) (data : Bytes) : Option Segment :=
  Gathering.overlap { offset := plan.offset, stop := plan.stop } page data

-- What the pages that have come hold of the range.
def segments (plan : Plan) (outcomes : FetchId → Option Outcome) : List Segment :=
  plan.parts.filterMap fun part => (part.data? outcomes).bind (plan.overlap part.page)

-- The state of a read as its plan, the outcomes of all fetches and the order in which
-- fetches failed determine it.
def opened (plan : Plan) (outcomes : FetchId → Option Outcome)
    (failures : List (FetchId × Error)) : Gathering where
  offset := plan.offset
  stop := plan.stop
  segments := if (plan.failure? failures).isSome then [] else plan.segments outcomes
  awaited := plan.parts.countP (·.isPending outcomes) + plan.hold
  error := plan.failure? failures

def gathering (plan : Plan) (outcomes : FetchId → Option Outcome)
    (failures : List (FetchId × Error)) : Gathering :=
  (plan.opened outcomes failures).close

-- The pages come in file order, and no more than one of them begins at the offset or
-- before it.
def Spaced (plan : Plan) : Prop :=
  plan.parts.Pairwise fun part later => part.page < later.page ∧ plan.offset < later.page

theorem Spaced.part_unique {plan : Plan} (h : plan.Spaced) {part other : Part}
    (hp : part ∈ plan.parts) (ho : other ∈ plan.parts) (he : other.page = part.page) :
    other = part := by
  have hpages : (plan.parts.map (·.page)).Nodup :=
    List.pairwise_map.mpr (h.imp fun hlt => Nat.ne_of_lt hlt.1)
  exact List.inj_on_of_nodup_map hpages ho hp he

theorem mem_fetches {plan : Plan} {fetch : FetchId} :
    fetch ∈ plan.fetches ↔ ∃ page, ⟨page, .fetch fetch⟩ ∈ plan.parts := by
  simp only [fetches, List.mem_filterMap, Part.fetch?_eq_some_iff]
  constructor
  · rintro ⟨⟨page, source⟩, hp, rfl⟩
    exact ⟨page, hp⟩
  · rintro ⟨page, hp⟩
    exact ⟨_, hp, rfl⟩

-- Pages further on begin further on in the range, too.
theorem overlap_lt {plan : Plan} {page later : Nat} {data other : Bytes}
    {segment found : Segment} (hp : page < later) (ho : plan.offset < later)
    (hs : plan.overlap page data = some segment) (hf : plan.overlap later other = some found) :
    segment.offset < found.offset := by
  have h₁ := Gathering.overlap_offset hs
  have h₂ := Gathering.overlap_offset hf
  simp only at h₁ h₂
  omega

-- The pages before and after one of the parts keep clear of it.
theorem place_segments {plan : Plan} (h : plan.Spaced) {before after : List Part} {part : Part}
    (hp : plan.parts = before ++ part :: after) (known : Part → Option Bytes) {data : Bytes}
    {segment : Segment} (hs : plan.overlap part.page data = some segment) :
    let found := fun part : Part => (known part).bind (plan.overlap part.page)
    Gathering.place segment (before.filterMap found ++ after.filterMap found) =
      before.filterMap found ++ segment :: after.filterMap found := by
  intro found
  unfold Spaced at h
  rw [hp, List.pairwise_append, List.pairwise_cons] at h
  obtain ⟨_, ⟨hafter, _⟩, hbefore⟩ := h
  apply Gathering.place_append
  · intro other ho
    obtain ⟨first, hf, hof⟩ := List.mem_filterMap.mp ho
    obtain ⟨bytes, _, hb⟩ := Option.bind_eq_some_iff.mp hof
    have hl := hbefore first hf part List.mem_cons_self
    exact overlap_lt hl.1 hl.2 hb hs
  · intro other ho
    obtain ⟨last, hf, hof⟩ := List.mem_filterMap.mp ho
    obtain ⟨bytes, _, hb⟩ := Option.bind_eq_some_iff.mp hof
    have hl := hafter last hf
    exact overlap_lt hl.1 hl.2 hs hb

@[simp] theorem opened_overlap (plan : Plan) (outcomes : FetchId → Option Outcome)
    (failures : List (FetchId × Error)) (page : Nat) (data : Bytes) :
    (plan.opened outcomes failures).overlap page data = plan.overlap page data := rfl

@[simp] theorem opened_error (plan : Plan) (outcomes : FetchId → Option Outcome)
    (failures : List (FetchId × Error)) :
    (plan.opened outcomes failures).error = plan.failure? failures := rfl

@[simp] theorem opened_segments (plan : Plan) (outcomes : FetchId → Option Outcome)
    (failures : List (FetchId × Error)) :
    (plan.opened outcomes failures).segments =
      if (plan.failure? failures).isSome then [] else plan.segments outcomes := rfl

@[simp] theorem extend_overlap (plan : Plan) (part : Part) :
    (plan.extend part).overlap = plan.overlap := rfl

theorem segments_extend (plan : Plan) (part : Part) (outcomes : FetchId → Option Outcome) :
    (plan.extend part).segments outcomes =
      plan.segments outcomes ++ ((part.data? outcomes).bind (plan.overlap part.page)).toList := by
  simp only [segments, extend_overlap]
  rw [extend, List.filterMap_append]
  cases hf : (part.data? outcomes).bind (plan.overlap part.page) <;> simp [hf]

-- A read of which no page has been looked up.
theorem gathering_start (file : FileId) (offset stop : Nat)
    (outcomes : FetchId → Option Outcome) (failures : List (FetchId × Error)) :
    gathering ⟨file, offset, stop, [], 1⟩ outcomes failures =
      { offset := offset, stop := stop } := by
  simp [gathering, opened, Gathering.close, failure?, fetches, segments]

-- A page that is held when it is looked up goes in at once.
theorem opened_extend_held (plan : Plan) (page : Nat) (data : Bytes)
    (outcomes : FetchId → Option Outcome) (failures : List (FetchId × Error))
    (h : (plan.extend ⟨page, .held data⟩).Spaced) :
    (plan.extend ⟨page, .held data⟩).opened outcomes failures =
      (plan.opened outcomes failures).add page data := by
  have hf : (plan.extend ⟨page, .held data⟩).failure? failures = plan.failure? failures := by
    simp [failure?, fetches, extend, Part.fetch?]
  rw [Gathering.add_eq]
  apply Gathering.ext
  case offset | stop | result => rfl
  case error => exact hf
  case awaited => simp [opened, extend, List.countP_append]
  case segments =>
      simp only [opened_segments, opened_error, opened_overlap, hf, segments_extend, Part.data?,
        Option.bind_some]
      rcases Option.eq_none_or_eq_some (plan.failure? failures) with he | ⟨error, he⟩
      · cases ho : plan.overlap page data with
        | none => simp [he]
        | some segment =>
            have hparts : (plan.extend ⟨page, .held data⟩).parts =
                plan.parts ++ ⟨page, .held data⟩ :: [] := rfl
            have hp := place_segments h hparts (·.data? outcomes) ho
            simp only [extend_overlap, List.filterMap_nil, List.append_nil] at hp
            simpa [he, segments] using hp.symm
      · simp [he]

-- A fetch that is still under way is one more page to come.
theorem opened_extend_fetch (plan : Plan) (page : Nat) (fetch : FetchId)
    (outcomes : FetchId → Option Outcome) (failures : List (FetchId × Error))
    (ho : outcomes fetch = none) (hf : ∀ failure ∈ failures, failure.1 ≠ fetch) :
    (plan.extend ⟨page, .fetch fetch⟩).opened outcomes failures =
      (plan.opened outcomes failures).await := by
  have he : (plan.extend ⟨page, .fetch fetch⟩).failure? failures = plan.failure? failures := by
    unfold failure?
    congr 1
    apply List.find?_congr
    intro failure hm
    simp [fetches, extend, Part.fetch?, hf failure hm]
  apply Gathering.ext
  case offset | stop | result => rfl
  case error => exact he
  case awaited =>
      simp only [opened, Gathering.await, extend, List.countP_append, List.countP_singleton]
      simp [ho]
      omega
  case segments =>
      simp only [opened_segments, Gathering.await, he, segments_extend]
      simp [Part.data?, ho]

theorem segments_congr {plan : Plan} {before after : FetchId → Option Outcome}
    (h : ∀ fetch ∈ plan.fetches, after fetch = before fetch) :
    plan.segments after = plan.segments before :=
  List.filterMap_congr fun part hm => by
    rw [Part.data?_congr fun fetch hf => h fetch (List.mem_filterMap.mpr ⟨part, hm, hf⟩)]

theorem countP_isPending_congr {plan : Plan} {before after : FetchId → Option Outcome}
    (h : ∀ fetch ∈ plan.fetches, after fetch = before fetch) :
    plan.parts.countP (·.isPending after) = plan.parts.countP (·.isPending before) :=
  List.countP_congr fun part hm => by
    rw [Part.isPending_congr fun fetch hf => h fetch (List.mem_filterMap.mpr ⟨part, hm, hf⟩)]

-- A fetch that the read does not wait for makes no difference to it.
theorem gathering_of_notMem {plan : Plan} {before after : FetchId → Option Outcome}
    {fetch : FetchId} (failures : List (FetchId × Error)) (outcome : Outcome)
    (hn : fetch ∉ plan.fetches) (hs : ∀ other ≠ fetch, after other = before other) :
    plan.gathering after (failures ++ outcome.failure? fetch) =
      plan.gathering before failures := by
  have hsame : ∀ other ∈ plan.fetches, after other = before other :=
    fun other ho => hs other fun he => hn (he ▸ ho)
  have hf : plan.failure? (failures ++ outcome.failure? fetch) = plan.failure? failures := by
    cases outcome with
    | ok page => simp [Outcome.failure?]
    | error error => simp [Outcome.failure?, failure?, hn]
  simp only [gathering, opened, countP_isPending_congr hsame, segments_congr hsame, hf]

-- The part that a fetch belongs to, and the parts that have nothing to do with it.
theorem exists_split {plan : Plan} (h : plan.Spaced) {page : Nat} {fetch : FetchId}
    (hm : ⟨page, .fetch fetch⟩ ∈ plan.parts)
    (hu : ∀ other, ⟨other, .fetch fetch⟩ ∈ plan.parts → other = page) :
    ∃ first last, plan.parts = first ++ ⟨page, .fetch fetch⟩ :: last ∧
      (∀ part ∈ first, part.fetch? ≠ some fetch) ∧ ∀ part ∈ last, part.fetch? ≠ some fetch := by
  obtain ⟨first, last, hparts⟩ := List.append_of_mem hm
  unfold Spaced at h
  rw [hparts, List.pairwise_append, List.pairwise_cons] at h
  obtain ⟨_, ⟨hlast, _⟩, hfirst⟩ := h
  have hpage : ∀ part ∈ plan.parts, part.fetch? = some fetch → part.page = page := by
    rintro ⟨other, source⟩ hp ho
    rw [Part.fetch?_eq_some_iff] at ho
    cases ho
    exact hu other hp
  refine ⟨first, last, hparts, ?_, ?_⟩
  · intro part hp ho
    have he := hpage part (by simp [hparts, hp]) ho
    have hlt := (hfirst part hp _ List.mem_cons_self).1
    simp only at hlt
    omega
  · intro part hp ho
    have he := hpage part (by simp [hparts, hp]) ho
    have hlt := (hlast part hp).1
    simp only at hlt
    omega

-- One fetch gets its outcome, and no other does.
structure Completes (before after : FetchId → Option Outcome) (fetch : FetchId)
    (outcome : Outcome) : Prop where
  incomplete : before fetch = none
  complete : after fetch = some outcome
  others : ∀ other ≠ fetch, after other = before other

theorem Completes.agree {before after : FetchId → Option Outcome} {fetch : FetchId}
    {outcome : Outcome} (h : Completes before after fetch outcome) {part : Part}
    (hn : part.fetch? ≠ some fetch) :
    ∀ other, part.fetch? = some other → after other = before other := by
  rintro other ho
  apply h.others
  rintro rfl
  exact hn ho

section Settling

variable {plan : Plan} {before after : FetchId → Option Outcome} {page : Nat} {fetch : FetchId}

theorem countP_isPending_settle {outcome : Outcome} (h : plan.Spaced)
    (hc : Completes before after fetch outcome) (hm : ⟨page, .fetch fetch⟩ ∈ plan.parts)
    (hu : ∀ other, ⟨other, .fetch fetch⟩ ∈ plan.parts → other = page) :
    plan.parts.countP (·.isPending before) = plan.parts.countP (·.isPending after) + 1 := by
  obtain ⟨first, last, hparts, hfirst, hlast⟩ := exists_split h hm hu
  have hsame : ∀ parts : List Part, (∀ part ∈ parts, part.fetch? ≠ some fetch) →
      parts.countP (·.isPending after) = parts.countP (·.isPending before) :=
    fun parts hp => List.countP_congr fun part hpm => by
      rw [Part.isPending_congr (hc.agree (hp part hpm))]
  simp only [hparts, List.countP_append, List.countP_cons, hsame first hfirst, hsame last hlast]
  simp [hc.incomplete, hc.complete]
  omega

theorem segments_settle {data : Bytes} {attributes : Attributes} (h : plan.Spaced)
    (hc : Completes before after fetch (.ok (data, attributes)))
    (hm : ⟨page, .fetch fetch⟩ ∈ plan.parts)
    (hu : ∀ other, ⟨other, .fetch fetch⟩ ∈ plan.parts → other = page) :
    plan.segments after =
      (plan.overlap page data).elim (plan.segments before) fun segment =>
        Gathering.place segment (plan.segments before) := by
  obtain ⟨first, last, hparts, hfirst, hlast⟩ := exists_split h hm hu
  have hsame : ∀ parts : List Part, (∀ part ∈ parts, part.fetch? ≠ some fetch) →
      parts.filterMap (fun part => (part.data? after).bind (plan.overlap part.page)) =
        parts.filterMap fun part => (part.data? before).bind (plan.overlap part.page) :=
    fun parts hp => List.filterMap_congr fun part hpm => by
      rw [Part.data?_congr (hc.agree (hp part hpm))]
  simp only [segments, hparts, List.filterMap_append, List.filterMap_cons, hsame first hfirst,
    hsame last hlast, Part.data?_fetch, hc.incomplete, hc.complete, Option.bind_none,
    Option.bind_some, Except.toOption, Option.map_some]
  cases ho : plan.overlap page data with
  | none => rfl
  | some segment => exact (place_segments h hparts (·.data? before) ho).symm

theorem failure?_append_error (failures : List (FetchId × Error)) (error : Error)
    (hm : fetch ∈ plan.fetches) :
    plan.failure? (failures ++ [(fetch, error)]) = (plan.failure? failures).or (some error) := by
  unfold failure?
  rw [List.find?_append]
  cases failures.find? fun failure => decide (failure.1 ∈ plan.fetches) <;> simp [hm]

-- With the outcome of a fetch that the read waits for, one page has come.
theorem gathering_settle (h : plan.Spaced) (failures : List (FetchId × Error))
    {outcome : Outcome} (hc : Completes before after fetch outcome)
    (hm : ⟨page, .fetch fetch⟩ ∈ plan.parts)
    (hu : ∀ other, ⟨other, .fetch fetch⟩ ∈ plan.parts → other = page) :
    plan.gathering after (failures ++ outcome.failure? fetch) =
      (plan.gathering before failures).settle page outcome := by
  have hcount := countP_isPending_settle h hc hm hu
  have hopen : plan.gathering before failures = plan.opened before failures :=
    Gathering.close_eq_self _ (by simp only [opened]; omega)
  rw [hopen]
  cases outcome with
  | ok answer =>
      obtain ⟨data, attributes⟩ := answer
      rw [gathering, Gathering.settle, Gathering.arrive_eq_close _ (by rw [Gathering.add_eq]; rfl)]
      congr 1
      rw [Gathering.add_eq]
      apply Gathering.ext
      case offset | stop | result => rfl
      case error => simp [Outcome.failure?]
      case awaited => simp [opened, hcount]
      case segments =>
          simp only [opened_segments, opened_error, opened_overlap, Outcome.failure?,
            List.append_nil, segments_settle h hc hm hu]
          rcases Option.eq_none_or_eq_some (plan.failure? failures) with he | ⟨error, he⟩ <;>
            simp [he]
  | error error =>
      have hf := failure?_append_error failures error (mem_fetches.mpr ⟨page, hm⟩)
      have hresult : ((plan.opened before failures).spoil error).result = none := by
        rw [Gathering.spoil_eq]
        rfl
      rw [gathering, Gathering.settle, Gathering.arrive_eq_close _ hresult]
      congr 1
      rw [Gathering.spoil_eq]
      apply Gathering.ext
      case offset | stop | result => rfl
      case error => simpa [Outcome.failure?] using hf
      case awaited => simp [opened, hcount]
      case segments =>
          simp only [opened_segments, opened_error, Outcome.failure?, hf]
          rcases Option.eq_none_or_eq_some (plan.failure? failures) with he | ⟨first, he⟩ <;>
            simp [he]

end Settling

-- Once all pages have been looked up, only pages are waited for.
theorem gathering_release (plan : Plan) (outcomes : FetchId → Option Outcome)
    (failures : List (FetchId × Error)) :
    { plan with hold := 0 }.gathering outcomes failures =
      ({ plan with hold := 1 }.gathering outcomes failures).arrive := by
  have hopen : { plan with hold := 1 }.gathering outcomes failures =
      { plan with hold := 1 }.opened outcomes failures :=
    Gathering.close_eq_self _ (by simp [opened])
  rw [hopen, Gathering.arrive_eq_close _ rfl]
  rfl

-- What the read returns once all its fetches have their outcomes.
def outcome (plan : Plan) (outcomes : FetchId → Option Outcome)
    (failures : List (FetchId × Error)) : Except Error Reply :=
  (plan.opened outcomes failures).outcome

-- Later failures of other fetches make no difference.
theorem outcome_append {plan : Plan} {before after : FetchId → Option Outcome}
    (h : ∀ fetch ∈ plan.fetches, after fetch = before fetch)
    (failures later : List (FetchId × Error))
    (hl : ∀ failure ∈ later, failure.1 ∈ plan.fetches → failure ∈ failures) :
    plan.outcome after (failures ++ later) = plan.outcome before failures := by
  have hf : plan.failure? (failures ++ later) = plan.failure? failures := by
    unfold failure?
    rw [List.find?_append]
    cases hfind : failures.find? fun failure => decide (failure.1 ∈ plan.fetches) with
    | some failure => rfl
    | none =>
        have hnone : later.find? (fun failure => decide (failure.1 ∈ plan.fetches)) = none := by
          rw [List.find?_eq_none] at hfind ⊢
          intro failure hm hd
          exact hfind failure (hl failure hm (of_decide_eq_true hd)) hd
        rw [hnone]
        rfl
  simp only [outcome, opened, segments_congr h, hf]
  rfl

theorem countP_isPending_eq_zero {plan : Plan} {outcomes : FetchId → Option Outcome} :
    plan.parts.countP (·.isPending outcomes) = 0 ↔
      ∀ fetch ∈ plan.fetches, outcomes fetch ≠ none := by
  rw [List.countP_eq_zero]
  constructor
  · intro h fetch hf ho
    obtain ⟨page, hm⟩ := mem_fetches.mp hf
    exact h _ hm (by simp [ho])
  · rintro h ⟨page, source⟩ hm hpending
    cases source with
    | held data => cases hpending
    | fetch fetch =>
        rw [Part.isPending_fetch, Option.isNone_iff_eq_none] at hpending
        exact h fetch (mem_fetches.mpr ⟨page, hm⟩) hpending

-- The result is there as soon as nothing is waited for, and not before.
theorem result_gathering {plan : Plan} (h : plan.hold = 0)
    (outcomes : FetchId → Option Outcome) (failures : List (FetchId × Error))
    (result : Except Error Reply) :
    (plan.gathering outcomes failures).result = some result ↔
      (∀ fetch ∈ plan.fetches, outcomes fetch ≠ none) ∧
        result = plan.outcome outcomes failures := by
  rw [← countP_isPending_eq_zero, gathering, Gathering.close]
  split
  · rename_i hz
    have hcount : plan.parts.countP (·.isPending outcomes) = 0 := by simpa [opened, h] using hz
    simp [hcount, outcome, eq_comm]
  · rename_i hz
    have hcount : plan.parts.countP (·.isPending outcomes) ≠ 0 := by simpa [opened, h] using hz
    simp [hcount, opened]

end Plan

end PageCache
