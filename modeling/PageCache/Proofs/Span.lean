import PageCache.Span
import Mathlib.Data.List.Basic

namespace PageCache

namespace Limits

theorem lt_pageOf_add_pageSize (limits : Limits) (offset : Nat) :
    offset < limits.pageOf offset + limits.pageSize := by
  have h := Nat.div_add_mod offset limits.pageSize
  have hm := Nat.mod_lt offset limits.pageSize_pos
  unfold pageOf
  omega

theorem pageSize_dvd_of_mem_span (limits : Limits) {offset stop page : Nat}
    (h : page ∈ limits.span offset stop) : limits.pageSize ∣ page := by
  obtain ⟨i, _, rfl⟩ := List.mem_range'.mp h
  exact Nat.dvd_add (limits.pageSize_dvd_pageOf offset) (Nat.dvd_mul_right _ _)

theorem lt_of_mem_span (limits : Limits) {offset stop page : Nat} (h : offset < stop)
    (hp : page ∈ limits.span offset stop) : page < stop := by
  obtain ⟨i, hi, rfl⟩ := List.mem_range'.mp hp
  have hle : offset / limits.pageSize + i ≤ (stop - 1) / limits.pageSize := by omega
  have hmul := Nat.mul_le_mul_left limits.pageSize hle
  have hdiv := Nat.mul_div_le (stop - 1) limits.pageSize
  rw [Nat.mul_add] at hmul
  unfold pageOf
  omega

-- The pages of a span are those that meet the range.
theorem mem_span_iff (limits : Limits) {offset stop page : Nat} (h : offset < stop) :
    page ∈ limits.span offset stop ↔
      limits.pageSize ∣ page ∧ page < stop ∧ offset < page + limits.pageSize := by
  constructor
  · intro hp
    refine ⟨limits.pageSize_dvd_of_mem_span hp, limits.lt_of_mem_span h hp, ?_⟩
    obtain ⟨i, _, rfl⟩ := List.mem_range'.mp hp
    have hfirst := limits.lt_pageOf_add_pageSize offset
    omega
  · rintro ⟨⟨index, rfl⟩, hstop, hoffset⟩
    have hfirst : offset / limits.pageSize ≤ index := by
      rw [← Nat.mul_succ, Nat.mul_comm] at hoffset
      exact Nat.le_of_lt_succ ((Nat.div_lt_iff_lt_mul limits.pageSize_pos).mpr hoffset)
    have hlast : index ≤ (stop - 1) / limits.pageSize := by
      rw [Nat.le_div_iff_mul_le limits.pageSize_pos, Nat.mul_comm]
      omega
    refine List.mem_range'.mpr ⟨index - offset / limits.pageSize, by omega, ?_⟩
    rw [pageOf, ← Nat.mul_add, Nat.add_sub_cancel' hfirst]

-- The pages of a span reach the end of the range.
theorem le_span_end (limits : Limits) {offset stop : Nat} (h : offset < stop) :
    stop ≤ limits.pageOf offset + limits.pageSize *
      ((stop - 1) / limits.pageSize + 1 - offset / limits.pageSize) := by
  have hle : offset / limits.pageSize ≤ (stop - 1) / limits.pageSize :=
    Nat.div_le_div_right (by omega)
  have hend := Nat.lt_mul_div_succ (stop - 1) limits.pageSize_pos
  have hsum : offset / limits.pageSize +
      ((stop - 1) / limits.pageSize + 1 - offset / limits.pageSize) =
      (stop - 1) / limits.pageSize + 1 := by omega
  rw [pageOf, ← Nat.mul_add, hsum]
  omega

-- Only the first page of a span can begin at the offset or before it.
theorem span_pairwise (limits : Limits) (offset stop : Nat) :
    (limits.span offset stop).Pairwise fun page later => page < later ∧ offset < later := by
  have hs : (limits.span offset stop).Pairwise (· < ·) :=
    List.pairwise_lt_range' limits.pageSize limits.pageSize_pos
  apply hs.imp_of_mem
  intro page later hp hl hlt
  refine ⟨hlt, ?_⟩
  obtain ⟨i, _, rfl⟩ := List.mem_range'.mp hp
  obtain ⟨j, _, rfl⟩ := List.mem_range'.mp hl
  have hj : 0 < j := by
    rcases Nat.eq_zero_or_pos j with rfl | hj
    · rw [Nat.mul_zero] at hlt
      omega
    · exact hj
  have hle := Nat.le_mul_of_pos_right limits.pageSize hj
  have ho := limits.lt_pageOf_add_pageSize offset
  omega

theorem nodup_span (limits : Limits) (offset stop : Nat) : (limits.span offset stop).Nodup :=
  (limits.span_pairwise offset stop).imp fun h => Nat.ne_of_lt h.1

-- A page has a byte at least, so that there are not more pages than bytes.
theorem length_span_lt (limits : Limits) (offset : Nat) {stop : Nat} (h : stop < wordLimit) :
    (limits.span offset stop).length < wordLimit := by
  have hlast : (stop - 1) / limits.pageSize ≤ stop - 1 := Nat.div_le_self ..
  have hone : 1 < wordLimit := by decide
  rw [span, List.length_range']
  refine Nat.lt_of_le_of_lt (Nat.sub_le _ _) ?_
  omega

end Limits

end PageCache
