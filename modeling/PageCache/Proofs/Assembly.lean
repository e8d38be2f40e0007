import PageCache.Gathering
import PageCache.Proofs.Span

namespace PageCache

namespace Bytes

theorem slice_eq_nil {data : Bytes} {start stop : Nat} (h : stop ≤ start ∨ data.length ≤ start) :
    data.slice start stop = [] := by
  rw [← List.length_eq_zero_iff, length_slice]
  omega

theorem slice_append (data : Bytes) {start middle stop : Nat} (h : start ≤ middle)
    (hm : middle ≤ stop) :
    data.slice start middle ++ data.slice middle stop = data.slice start stop := by
  have htake : data.take middle = (data.take stop).take middle := by
    rw [List.take_take, Nat.min_eq_left hm]
  have hdrop : (data.take stop).drop middle =
      ((data.take stop).drop start).drop (middle - start) := by
    rw [List.drop_drop, Nat.add_sub_cancel' h]
  simp only [slice]
  rw [htake, hdrop, List.drop_take, List.take_append_drop]

theorem slice_slice (data : Bytes) (start stop first last : Nat) :
    (data.slice start stop).slice first last =
      data.slice (start + first) (min stop (start + last)) := by
  simp only [slice]
  rw [List.take_drop, List.take_take, List.drop_drop, Nat.min_comm]

-- The end of the data ends every slice.
theorem slice_congr {data : Bytes} {start stop other : Nat}
    (h : min stop data.length = min other data.length) :
    data.slice start stop = data.slice start other :=
  congrArg (List.drop start) (List.take_eq_take_iff.mpr h)

end Bytes

-- The reply that pages give for `[offset, stop)`: what each of them has of the range, up
-- to the first one whose bytes do not reach the end of the page or of the range.
def assembled (pageSize offset stop : Nat) : List (Nat × Bytes) → List Segment
  | [] => []
  | (page, data) :: rest =>
      let first := max offset page
      let last := min stop (page + data.length)
      let later :=
        if min stop (page + pageSize) ≤ page + data.length then
          assembled pageSize offset stop rest
        else []
      if first < last then ⟨first, data.slice (first - page) (last - page)⟩ :: later else later

-- Segments that follow each other without a gap, each with some bytes.
def Chained : Nat → List Segment → Prop
  | _, [] => True
  | next, segment :: rest =>
      segment.offset = next ∧ segment.data ≠ [] ∧ Chained (next + segment.data.length) rest

namespace Gathering

theorem contiguous_eq_nil {next : Nat} {segments : List Segment}
    (h : ∀ segment ∈ segments, next < segment.offset) : contiguous next segments = [] := by
  cases segments with
  | nil => rfl
  | cons first rest => exact if_neg (Nat.ne_of_gt (h first List.mem_cons_self))

theorem contiguous_subset (next : Nat) (segments : List Segment) :
    contiguous next segments ⊆ segments := by
  induction segments generalizing next with
  | nil => exact List.Subset.refl _
  | cons first rest ih =>
      rw [contiguous]
      split
      · exact List.cons_subset_cons first (ih _)
      · exact List.nil_subset _

theorem chained_contiguous {segments : List Segment}
    (h : ∀ segment ∈ segments, segment.data ≠ []) (next : Nat) :
    Chained next (contiguous next segments) := by
  induction segments generalizing next with
  | nil => trivial
  | cons first rest ih =>
      rw [List.forall_mem_cons] at h
      rw [contiguous]
      split
      · rename_i he
        exact ⟨he, h.1, ih h.2 _⟩
      · trivial

section Overlap

variable {offset stop page : Nat} {data : Bytes}

-- No range reaches past the last of the 64-bit offsets.
theorem overlap_eq (hw : stop < wordLimit) :
    overlap { offset := offset, stop := stop } page data =
      if max offset page < min stop (page + data.length) then
        some ⟨max offset page,
          data.slice (max offset page - page) (min stop (page + data.length) - page)⟩
      else none := by
  have he : min stop (addSat page data.length) = min stop (page + data.length) := by
    unfold addSat
    omega
  simp only [overlap, he]

theorem length_overlap (hw : stop < wordLimit) {segment : Segment}
    (h : overlap { offset := offset, stop := stop } page data = some segment) :
    segment.offset = max offset page ∧ max offset page < min stop (page + data.length) ∧
      segment.data.length = min stop (page + data.length) - max offset page := by
  rw [overlap_eq hw, Option.ite_none_right_eq_some, Option.some.injEq] at h
  obtain ⟨hlt, rfl⟩ := h
  refine ⟨rfl, hlt, ?_⟩
  rw [Bytes.length_slice]
  omega

end Overlap

-- What pages have of a range, in the order in which they are given.
def overlaps (offset stop : Nat) (pages : List (Nat × Bytes)) : List Segment :=
  pages.filterMap fun found => overlap { offset := offset, stop := stop } found.1 found.2

section Overlaps

variable {pageSize offset stop : Nat} {pages : List (Nat × Bytes)} {page count : Nat}

theorem overlaps_cons (hw : stop < wordLimit) (page : Nat) (data : Bytes)
    (rest : List (Nat × Bytes)) :
    overlaps offset stop ((page, data) :: rest) =
      if max offset page < min stop (page + data.length) then
        ⟨max offset page,
          data.slice (max offset page - page) (min stop (page + data.length) - page)⟩ ::
            overlaps offset stop rest
      else overlaps offset stop rest := by
  have hoverlap : overlap { offset := offset, stop := stop } page data = _ := overlap_eq hw
  split
  · rename_i hlt
    rw [if_pos hlt] at hoverlap
    exact List.filterMap_cons_some hoverlap
  · rename_i hlt
    rw [if_neg hlt] at hoverlap
    exact List.filterMap_cons_none hoverlap

theorem le_offset_of_mem_overlaps (hw : stop < wordLimit)
    (hp : pages.map (·.1) = List.range' page count pageSize) {segment : Segment}
    (hs : segment ∈ overlaps offset stop pages) : page ≤ segment.offset := by
  obtain ⟨found, hm, hs⟩ := List.mem_filterMap.mp hs
  have hfound : found.1 ∈ List.range' page count pageSize := hp ▸ List.mem_map_of_mem hm
  obtain ⟨i, _, hi⟩ := List.mem_range'.mp hfound
  rw [(length_overlap hw hs).1, hi]
  omega

theorem lt_stop_of_ne_nil (hp : pages.map (·.1) = List.range' page count pageSize)
    (hstop : ∀ found ∈ pages, found.1 < stop) (hne : pages ≠ []) : page < stop := by
  obtain ⟨first, rest, rfl⟩ := List.exists_cons_of_ne_nil hne
  cases count with
  | zero => cases hp
  | succ count =>
      rw [List.map_cons, List.range'_succ, List.cons.injEq] at hp
      exact hp.1 ▸ hstop first List.mem_cons_self

-- Pages that come one after the other, each no longer than a page. The first of them
-- that falls short leaves a gap to all that come later.
theorem contiguous_overlaps (hw : stop < wordLimit)
    (hp : pages.map (·.1) = List.range' page count pageSize) (ho : offset < page + pageSize)
    (hstop : ∀ found ∈ pages, found.1 < stop) (hlen : ∀ found ∈ pages, found.2.length ≤ pageSize) :
    contiguous (max offset page) (overlaps offset stop pages) =
      assembled pageSize offset stop pages := by
  induction pages generalizing page count with
  | nil => rfl
  | cons found rest ih =>
      obtain ⟨name, data⟩ := found
      cases count with
      | zero => cases hp
      | succ count =>
          rw [List.map_cons, List.range'_succ, List.cons.injEq] at hp
          obtain ⟨rfl, hp⟩ := hp
          simp only at ho hp
          rw [List.forall_mem_cons] at hstop hlen
          have hrest := ih hp (by omega) hstop.2 hlen.2
          rw [Nat.max_eq_right (Nat.le_of_lt ho)] at hrest
          -- what comes after this page is due if the page reaches it, and only then
          have hlater : ∀ next,
              (name + pageSize < stop → min stop (name + pageSize) ≤ name + data.length →
                next = name + pageSize) →
              (¬ min stop (name + pageSize) ≤ name + data.length → next < name + pageSize) →
              contiguous next (overlaps offset stop rest) =
                if min stop (name + pageSize) ≤ name + data.length then
                  assembled pageSize offset stop rest
                else [] := by
            intro next hnext hshort
            split
            · rename_i hreach
              by_cases hnil : rest = []
              · subst hnil
                rfl
              · rw [hnext (lt_stop_of_ne_nil hp hstop.2 hnil) hreach, hrest]
            · rename_i hreach
              exact contiguous_eq_nil fun segment hs =>
                Nat.lt_of_lt_of_le (hshort hreach) (le_offset_of_mem_overlaps hw hp hs)
          have hfirst := hlen.1
          simp only at hfirst
          rw [overlaps_cons hw, assembled]
          by_cases hlt : max offset name < min stop (name + data.length)
          · have hlen : (data.slice (max offset name - name)
                (min stop (name + data.length) - name)).length =
                min stop (name + data.length) - max offset name := by
              rw [Bytes.length_slice]
              omega
            simp only [hlt, if_true]
            rw [contiguous, if_pos rfl, hlen]
            congr 1
            exact hlater _ (by omega) (by omega)
          · simp only [hlt, if_false]
            exact hlater _ (by omega) (by omega)

theorem chained_overlaps (hw : stop < wordLimit) (next : Nat) :
    Chained next (contiguous next (overlaps offset stop pages)) := by
  refine chained_contiguous (fun segment hs => ?_) next
  obtain ⟨found, _, hs⟩ := List.mem_filterMap.mp hs
  obtain ⟨_, hlt, hlen⟩ := length_overlap hw hs
  rw [← List.length_pos_iff, hlen]
  exact Nat.sub_pos_of_lt hlt

end Overlaps

end Gathering

-- Pages that hold what a file has there give the bytes of the file.
theorem bytes_assembled (contents : Bytes) {pageSize offset stop : Nat} (hz : 0 < pageSize)
    {pages : List (Nat × Bytes)} {page count : Nat}
    (hp : pages.map (·.1) = List.range' page count pageSize) (ho : offset < page + pageSize)
    (hcover : stop ≤ page + pageSize * count)
    (hx : ∀ found ∈ pages, found.2 = contents.slice found.1 (found.1 + pageSize)) :
    ((assembled pageSize offset stop pages).map (·.data)).flatten =
      contents.slice (max offset page) stop := by
  induction pages generalizing page count with
  | nil =>
      cases count with
      | zero => exact (Bytes.slice_eq_nil (by omega)).symm
      | succ count => cases hp
  | cons found rest ih =>
      obtain ⟨name, data⟩ := found
      cases count with
      | zero => cases hp
      | succ count =>
          rw [List.map_cons, List.range'_succ, List.cons.injEq] at hp
          obtain ⟨rfl, hp⟩ := hp
          simp only at ho hp hcover
          rw [List.forall_mem_cons] at hx
          obtain ⟨hdata, hx⟩ := hx
          simp only at hdata
          have hlen : data.length = min (name + pageSize) contents.length - name := by
            rw [hdata, Bytes.length_slice]
          have hrest := ih hp (by omega) (by rw [Nat.mul_succ] at hcover; omega) hx
          rw [Nat.max_eq_right (Nat.le_of_lt ho)] at hrest
          -- the bytes after this page, as far as this page reaches them
          have hlater : ((if min stop (name + pageSize) ≤ name + data.length then
              assembled pageSize offset stop rest else []).map (·.data)).flatten =
              contents.slice (name + pageSize) stop := by
            split
            · exact hrest
            · exact (Bytes.slice_eq_nil (by omega)).symm
          unfold assembled
          by_cases hlt : max offset name < min stop (name + data.length)
          · have hseg : data.slice (max offset name - name) (min stop (name + data.length) - name) =
                contents.slice (max offset name) (min stop (name + pageSize)) := by
              generalize data.length = length at hlt hlen
              have hstart : name + (max offset name - name) = max offset name := by omega
              rw [hdata, Bytes.slice_slice, hstart]
              exact Bytes.slice_congr (by omega)
            simp only [hlt, if_true, List.map_cons, List.flatten_cons]
            rw [hlater, hseg]
            by_cases hstop : stop ≤ name + pageSize
            · rw [Nat.min_eq_left hstop, Bytes.slice_eq_nil (.inl hstop), List.append_nil]
            · rw [Nat.min_eq_right (by omega), Bytes.slice_append contents (by omega) (by omega)]
          · simp only [hlt, if_false]
            rw [hlater, Bytes.slice_eq_nil (by omega), Bytes.slice_eq_nil (by omega)]

section Span

variable (limits : Limits) {offset stop : Nat} {pages : List (Nat × Bytes)}

theorem contiguous_span (h : offset < stop) (hw : stop < wordLimit)
    (hp : pages.map (·.1) = limits.span offset stop)
    (hlen : ∀ found ∈ pages, found.2.length ≤ limits.pageSize) :
    Gathering.contiguous offset (Gathering.overlaps offset stop pages) =
      assembled limits.pageSize offset stop pages := by
  have hc := Gathering.contiguous_overlaps hw hp (limits.lt_pageOf_add_pageSize offset)
    (fun found hm => limits.lt_of_mem_span h (hp ▸ List.mem_map_of_mem hm)) hlen
  rwa [Nat.max_eq_left (limits.pageOf_le offset)] at hc

theorem bytes_span (h : offset < stop) (contents : Bytes)
    (hp : pages.map (·.1) = limits.span offset stop)
    (hx : ∀ found ∈ pages, found.2 = contents.slice found.1 (found.1 + limits.pageSize)) :
    ((assembled limits.pageSize offset stop pages).map (·.data)).flatten =
      contents.slice offset stop := by
  have hb := bytes_assembled contents limits.pageSize_pos hp
    (limits.lt_pageOf_add_pageSize offset) (limits.le_span_end h) hx
  rwa [Nat.max_eq_left (limits.pageOf_le offset)] at hb

end Span

end PageCache
