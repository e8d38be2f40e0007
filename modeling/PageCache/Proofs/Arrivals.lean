import PageCache.Proofs.Fitting
import Mathlib.Data.List.Induction

namespace PageCache

namespace Segment

-- The first segment ends where the second begins, or sooner.
def Before (first second : Segment) : Prop :=
  first.offset + first.data.length ≤ second.offset

theorem Before.trans {first second third : Segment} (h : first.Before second)
    (hn : second.Before third) : first.Before third := by
  unfold Before at *
  omega

end Segment

namespace Gathering

-- Among segments that do not overlap, each stands before or after any other that overlaps none.
theorem exists_split_before {segment : Segment} {segments : List Segment}
    (hs : segments.Pairwise Segment.Before)
    (h : ∀ other ∈ segments, other.Before segment ∨ segment.Before other) :
    ∃ before after, segments = before ++ after ∧ (∀ other ∈ before, other.Before segment) ∧
      ∀ other ∈ after, segment.Before other := by
  induction segments with
  | nil => exact ⟨[], [], rfl, List.forall_mem_nil _, List.forall_mem_nil _⟩
  | cons first rest ih =>
      obtain ⟨hfirst, hrest⟩ := List.pairwise_cons.mp hs
      rw [List.forall_mem_cons] at h
      rcases h.1 with hb | ha
      · obtain ⟨before, after, rfl, hbefore, hafter⟩ := ih hrest h.2
        exact ⟨first :: before, after, rfl, List.forall_mem_cons.mpr ⟨hb, hbefore⟩, hafter⟩
      · exact ⟨[], first :: rest, rfl, List.forall_mem_nil _,
          List.forall_mem_cons.mpr ⟨ha, fun other ho => ha.trans (hfirst other ho)⟩⟩

-- A segment that overlaps none of the others goes between them, and none of them is lost.
theorem place_spec {segment : Segment} {segments : List Segment}
    (hs : segments.Pairwise Segment.Before) (hd : segment.data ≠ [])
    (hne : ∀ other ∈ segments, other.data ≠ [])
    (h : ∀ other ∈ segments, other.Before segment ∨ segment.Before other) :
    (place segment segments).Pairwise Segment.Before ∧
    ∀ other, other ∈ place segment segments ↔ other ∈ segments ∨ other = segment := by
  obtain ⟨before, after, rfl, hbefore, hafter⟩ := exists_split_before hs h
  have hplace : place segment (before ++ after) = before ++ segment :: after := by
    apply place_append
    · intro other ho
      have hlen := List.length_pos_iff.mpr (hne other (List.mem_append_left _ ho))
      exact Nat.lt_of_lt_of_le (Nat.lt_add_of_pos_right hlen) (hbefore other ho)
    · intro other ho
      have hlen := List.length_pos_iff.mpr hd
      exact Nat.lt_of_lt_of_le (Nat.lt_add_of_pos_right hlen) (hafter other ho)
  obtain ⟨hb, ha, hcross⟩ := List.pairwise_append.mp hs
  rw [hplace]
  refine ⟨List.pairwise_append.mpr ⟨hb, List.pairwise_cons.mpr ⟨hafter, ha⟩, ?_⟩, fun other => ?_⟩
  · intro other ho next hn
    rcases List.mem_cons.mp hn with rfl | hn
    · exact hbefore other ho
    · exact hcross other ho next hn
  · simp only [List.mem_append, List.mem_cons]
    constructor
    · rintro (ho | rfl | ho)
      · exact .inl (.inl ho)
      · exact .inr rfl
      · exact .inl (.inr ho)
    · rintro ((ho | ho) | rfl)
      · exact .inl ho
      · exact .inr (.inr ho)
      · exact .inr (.inl rfl)

-- A segment is within what follows without a gap, or begins after the end of it.
theorem le_contiguous_end_or_lt {segments : List Segment} {next : Nat}
    (hs : segments.Pairwise Segment.Before) (hn : ∀ segment ∈ segments, next ≤ segment.offset)
    {segment : Segment} (h : segment ∈ segments) :
    let stop := next + Bytes.totalLength ((contiguous next segments).map (·.data))
    segment.offset + segment.data.length ≤ stop ∨ stop < segment.offset := by
  intro stop
  induction segments generalizing next with
  | nil => cases h
  | cons first rest ih =>
      obtain ⟨hfirst, hrest⟩ := List.pairwise_cons.mp hs
      rw [List.forall_mem_cons] at hn
      by_cases he : first.offset = next
      · have hstop : stop = next + first.data.length +
            Bytes.totalLength ((contiguous (next + first.data.length) rest).map (·.data)) := by
          simp only [stop, contiguous, if_pos he, List.map_cons, Bytes.totalLength]
          omega
        rw [hstop]
        rcases List.mem_cons.mp h with rfl | h
        · left
          omega
        · exact ih hrest (fun other ho => he ▸ hfirst other ho) h
      · have hstop : stop = next := by
          simp only [stop, contiguous, if_neg he, List.map_nil, Bytes.totalLength, Nat.add_zero]
        have hlt : next < first.offset := Nat.lt_of_le_of_ne hn.1 (Ne.symm he)
        rw [hstop]
        right
        rcases List.mem_cons.mp h with rfl | h
        · exact hlt
        · have hle : first.offset + first.data.length ≤ segment.offset := hfirst segment h
          omega

end Gathering

-- What comes to a gathering: a page that it waits for, with its bytes or with an error, or word
-- that all of its pages have been looked up.
inductive Arrival where
  | settled (page : Nat) (outcome : Except Error Bytes)
  | lookedUp

namespace Arrival

-- What it brings of a range.
def part? (offset stop : Nat) : Arrival → Option Segment
  | .settled page (.ok data) => Gathering.overlap { offset := offset, stop := stop } page data
  | _ => none

def failure? : Arrival → Option Error
  | .settled _ (.error error) => some error
  | _ => none

-- What the two bring of a range does not overlap.
def Apart (offset stop : Nat) (arrival other : Arrival) : Prop :=
  ∀ segment ∈ arrival.part? offset stop, ∀ next ∈ other.part? offset stop,
    segment.Before next ∨ next.Before segment

theorem Apart.symm {offset stop : Nat} {arrival other : Arrival}
    (h : arrival.Apart offset stop other) : other.Apart offset stop arrival :=
  fun segment hs next hn => (h next hn segment hs).symm

theorem ne_nil_of_part? {offset stop : Nat} (hw : stop < wordLimit) {arrival : Arrival}
    {segment : Segment} (h : arrival.part? offset stop = some segment) : segment.data ≠ [] := by
  rcases arrival with ⟨page, _ | data⟩ | _
  · cases h
  · obtain ⟨_, hlt, hlen⟩ := Gathering.length_overlap hw h
    rw [← List.length_pos_iff, hlen]
    exact Nat.sub_pos_of_lt hlt
  · cases h

end Arrival

namespace Gathering

-- What comes is put in, before it counts as having come.
def receive (gathering : Gathering) : Arrival → Gathering
  | .settled page (.ok data) => gathering.add page data
  | .settled _ (.error error) => gathering.spoil error
  | .lookedUp => gathering

def take (gathering : Gathering) (arrival : Arrival) : Gathering :=
  (gathering.receive arrival).arrive

-- The gathering of a range once all its pages are awaited.
def expecting (offset stop count : Nat) : Gathering :=
  await^[count] { offset := offset, stop := stop }

-- What has come to it when these have, in this order.
def taken (offset stop count : Nat) (order : List Arrival) : Gathering :=
  order.foldl take (expecting offset stop count)

theorem expecting_eq (offset stop count : Nat) :
    expecting offset stop count =
      { offset := offset, stop := stop, awaited := count + 1 } := by
  induction count with
  | zero => rfl
  | succ count ih =>
      rw [expecting, Function.iterate_succ_apply', ← expecting, ih]
      rfl

theorem taken_append (offset stop count : Nat) (order : List Arrival) (arrival : Arrival) :
    taken offset stop count (order ++ [arrival]) = (taken offset stop count order).take arrival :=
  List.foldl_concat ..

theorem receive_eq (gathering : Gathering) (arrival : Arrival) :
    gathering.receive arrival =
      { gathering with
        error := gathering.error.or arrival.failure?
        segments :=
          if gathering.error.isSome then gathering.segments
          else if arrival.failure?.isSome then []
          else (arrival.part? gathering.offset gathering.stop).elim gathering.segments
            fun segment => place segment gathering.segments } := by
  rcases gathering with ⟨offset, stop, segments, awaited, found, result⟩
  rcases arrival with ⟨page, error | data⟩ | _
  · rw [receive, spoil_eq]
    rfl
  · rw [receive, add_eq]
    simp only [Arrival.failure?, Option.or_none, Option.isSome_none, Bool.false_eq_true, if_false]
    rfl
  · simp [receive, Arrival.failure?, Arrival.part?]

-- What a gathering that waits for `count` pages is when some have come: it has the first error
-- that came, or all there is of the range on the pages that came, in file order. There is a
-- result when nothing more is to come.
structure Gathers (offset stop count : Nat) (order : List Arrival) (gathering : Gathering) :
    Prop where
  range : gathering.offset = offset ∧ gathering.stop = stop
  awaited : gathering.awaited + order.length = count + 1
  error : gathering.error = order.findSome? Arrival.failure?
  spoiled : gathering.error.isSome → gathering.segments = []
  ordered : gathering.segments.Pairwise Segment.Before
  parts : gathering.error = none → ∀ segment, segment ∈ gathering.segments ↔
    ∃ arrival ∈ order, arrival.part? offset stop = some segment
  result : gathering.result =
    if gathering.awaited = 0 then some gathering.outcome else none

theorem gathers_expecting (offset stop count : Nat) :
    Gathers offset stop count [] (expecting offset stop count) := by
  rw [expecting_eq]
  refine ⟨⟨rfl, rfl⟩, rfl, rfl, fun _ => rfl, .nil, fun _ segment => ?_, rfl⟩
  simp

variable {offset stop count : Nat} {order : List Arrival} {arrival : Arrival}
  {gathering : Gathering}

theorem Gathers.ne_nil (h : Gathers offset stop count order gathering) (hw : stop < wordLimit)
    {segment : Segment} (hs : segment ∈ gathering.segments) : segment.data ≠ [] := by
  cases he : gathering.error with
  | some error =>
      rw [h.spoiled (he ▸ rfl)] at hs
      cases hs
  | none =>
      obtain ⟨arrival, _, hpart⟩ := (h.parts he segment).mp hs
      exact Arrival.ne_nil_of_part? hw hpart

-- What comes overlaps nothing that came.
theorem Gathers.segments_place (h : Gathers offset stop count order gathering)
    (hw : stop < wordLimit) (happart : ∀ other ∈ order, other.Apart offset stop arrival)
    (he : gathering.error = none) {segment : Segment}
    (hpart : arrival.part? offset stop = some segment) :
    (place segment gathering.segments).Pairwise Segment.Before ∧
    ∀ other, other ∈ place segment gathering.segments ↔
      other ∈ gathering.segments ∨ other = segment := by
  apply place_spec h.ordered (Arrival.ne_nil_of_part? hw hpart)
  · exact fun other ho => h.ne_nil hw ho
  · intro other ho
    obtain ⟨found, hfound, hother⟩ := (h.parts he other).mp ho
    exact happart found hfound other hother segment hpart

theorem findSome?_append_singleton (order : List Arrival) (arrival : Arrival) :
    (order ++ [arrival]).findSome? Arrival.failure? =
      (order.findSome? Arrival.failure?).or arrival.failure? := by
  rw [List.findSome?_append, List.findSome?_singleton]

-- As long as something is to come there is no result, also while it is put in.
theorem Gathers.result_receive (h : Gathers offset stop count order gathering)
    (hlt : order.length ≤ count) (arrival : Arrival) :
    0 < (gathering.receive arrival).awaited ∧ (gathering.receive arrival).result = none := by
  have hawaited := h.awaited
  have hpos : 0 < gathering.awaited := by omega
  rw [receive_eq]
  exact ⟨hpos, h.result.trans (if_neg (Nat.ne_of_gt hpos))⟩

theorem take_eq (hresult : gathering.result = none) (arrival : Arrival) :
    gathering.take arrival =
      { gathering.receive arrival with
        awaited := gathering.awaited - 1
        result :=
          if gathering.awaited - 1 = 0 then some (gathering.receive arrival).outcome
          else none } := by
  have hreceive : (gathering.receive arrival).awaited = gathering.awaited ∧
      (gathering.receive arrival).result = none := by
    rw [receive_eq]
    exact ⟨rfl, hresult⟩
  rw [take, arrive_eq_close _ hreceive.2, close, hreceive.1]
  split
  · rfl
  · simp only [hreceive.2]

theorem Gathers.take (h : Gathers offset stop count order gathering) (hw : stop < wordLimit)
    (hlt : order.length ≤ count) (happart : ∀ other ∈ order, other.Apart offset stop arrival) :
    Gathers offset stop count (order ++ [arrival]) (gathering.take arrival) := by
  have hawaited := h.awaited
  have hresult : gathering.result = none := h.result.trans (if_neg (by omega))
  obtain ⟨rfl, rfl⟩ := h.range
  rw [take_eq hresult, receive_eq]
  refine ⟨⟨rfl, rfl⟩, ?_, ?_, fun hs => ?_, ?_, fun hn segment => ?_, rfl⟩
  · rw [List.length_append, List.length_singleton]
    simp only
    omega
  · rw [findSome?_append_singleton, ← h.error]
  · simp only [Option.isSome_or, Bool.or_eq_true] at hs ⊢
    by_cases he : gathering.error.isSome
    · rw [if_pos he, h.spoiled he]
    · rw [if_neg he, if_pos (hs.resolve_left he)]
  · simp only
    by_cases he : gathering.error.isSome
    · rw [if_pos he]
      exact h.ordered
    · rw [if_neg he]
      split
      · exact .nil
      · cases hpart : arrival.part? gathering.offset gathering.stop with
        | none => exact h.ordered
        | some segment =>
            exact (h.segments_place hw happart (Option.not_isSome_iff_eq_none.mp he) hpart).1
  · simp only [Option.or_eq_none_iff] at hn ⊢
    rw [hn.1, hn.2]
    simp only [Option.isSome_none, Bool.false_eq_true, if_false, List.mem_append,
      List.mem_singleton, or_and_right, exists_or, exists_eq_left]
    rw [← h.parts hn.1 segment]
    cases hpart : arrival.part? gathering.offset gathering.stop with
    | none => simp
    | some found =>
        rw [Option.elim_some, (h.segments_place hw happart hn.1 hpart).2, Option.some.injEq,
          @eq_comm _ found]

-- So it is with any order in which the pages come.
theorem gathers_taken (hw : stop < wordLimit) (hlen : order.length ≤ count + 1)
    (hp : order.Pairwise (Arrival.Apart offset stop)) :
    Gathers offset stop count order (taken offset stop count order) := by
  induction order using List.reverseRecOn with
  | nil => exact gathers_expecting offset stop count
  | append_singleton order arrival ih =>
      rw [List.length_append, List.length_singleton] at hlen
      obtain ⟨hp, _, hlast⟩ := List.pairwise_append.mp hp
      rw [taken_append]
      exact (ih (by omega) hp).take hw (by omega)
        fun other ho => hlast other ho arrival List.mem_cons_self

end Gathering

end PageCache
