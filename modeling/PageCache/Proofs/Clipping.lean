import PageCache.Proofs.Fitting
import PageCache.Proofs.Walking

namespace PageCache

namespace Word

-- The sum of two words, or the last of the words if the sum is past it.
def sumSat (first second : UInt64) : UInt64 :=
  (sum? first second).getD (.ofNat (wordLimit - 1))

-- What is left of a word, if another one can be taken off it.
def difference? (first second : UInt64) : Option UInt64 :=
  if second ≤ first then some (first - second) else none

-- The bytes at positions `[start, stop)`, if the data has all of these.
def slice? (data : Bytes) (start stop : UInt64) : Option Bytes :=
  if start ≤ stop ∧ stop.toNat ≤ data.length then some (data.slice start.toNat stop.toNat)
  else none

-- What a page has of a range, if anything, as words tell it. There is no answer if a difference
-- is no word, or if the page has not all of the bytes that are to be sliced out of it.
def clip? (offset stop page : UInt64) (data : Bytes) : Option (Option Segment) :=
  let start := max offset page
  let last := min stop (sumSat page (.ofNat data.length))
  if start < last then
    (difference? start page).bind fun first =>
      (difference? last page).bind fun final =>
        (slice? data first final).map fun bytes => some ⟨start.toNat, bytes⟩
  else some none

-- The segments that follow each other without a gap, as a loop over words finds them. It fails
-- if the place where the next one is due is no word.
def join? (next : UInt64) : List Segment → Option (List Segment)
  | [] => some []
  | segment :: rest =>
      if segment.offset = next.toNat then
        (sum? next (.ofNat segment.data.length)).bind fun due =>
          (join? due rest).map (segment :: ·)
      else some []

theorem exists_sum? {first second : UInt64} (h : first.toNat + second.toNat < wordLimit) :
    ∃ sum, sum? first second = some sum ∧ sum.toNat = first.toNat + second.toNat :=
  ⟨first + second, if_pos h, sum?_eq_some_iff.mp (if_pos h)⟩

theorem toNat_sumSat (first second : UInt64) :
    (sumSat first second).toNat = addSat first.toNat second.toNat := by
  unfold sumSat addSat
  by_cases h : first.toNat + second.toNat < wordLimit
  · obtain ⟨sum, hsum, hexact⟩ := exists_sum? h
    rw [hsum, Option.getD_some, hexact]
    omega
  · have hnone : sum? first second = none := if_neg h
    have hlast : (UInt64.ofNat (wordLimit - 1)).toNat = wordLimit - 1 :=
      UInt64.toNat_ofNat_of_lt' (by decide)
    rw [hnone, Option.getD_none, hlast]
    omega

theorem exists_difference? {first second : UInt64} (h : second ≤ first) :
    ∃ rest, difference? first second = some rest ∧ rest.toNat = first.toNat - second.toNat :=
  ⟨first - second, if_pos h, UInt64.toNat_sub_of_le first second h⟩

-- Each difference is a word, and the page has all of the bytes that are sliced out of it. The
-- end of the page may be past the last of the words, but the end of the range is not.
theorem clip?_eq (offset stop page : UInt64) {data : Bytes} (hl : data.length < wordLimit) :
    clip? offset stop page data =
      some (Gathering.overlap { offset := offset.toNat, stop := stop.toNat } page.toNat data) := by
  have hlength : (UInt64.ofNat data.length).toNat = data.length := UInt64.toNat_ofNat_of_lt' hl
  have hstart : (max offset page).toNat = max offset.toNat page.toNat := UInt64.toNat_max ..
  have hlast : (min stop (sumSat page (.ofNat data.length))).toNat =
      min stop.toNat (addSat page.toNat data.length) := by
    rw [UInt64.toNat_min, toNat_sumSat, hlength]
  unfold clip? Gathering.overlap
  generalize max offset page = start at hstart ⊢
  generalize min stop (sumSat page (.ofNat data.length)) = last at hlast ⊢
  simp only [UInt64.lt_iff_toNat_lt, ← hstart, ← hlast]
  split
  · rename_i hlt
    have hpage : page.toNat ≤ start.toNat := hstart ▸ Nat.le_max_right ..
    have hend : last.toNat ≤ page.toNat + data.length :=
      hlast ▸ Nat.le_trans (Nat.min_le_right ..) (Nat.min_le_left ..)
    obtain ⟨first, hfirst, hf⟩ := exists_difference? (UInt64.le_iff_toNat_le.mpr hpage)
    obtain ⟨final, hfinal, hg⟩ :=
      exists_difference? (UInt64.le_iff_toNat_le.mpr (hpage.trans (Nat.le_of_lt hlt)))
    have hslice : first ≤ final ∧ final.toNat ≤ data.length := by
      rw [UInt64.le_iff_toNat_le, hf, hg]
      omega
    rw [hfirst, Option.bind_some, hfinal, Option.bind_some, slice?, if_pos hslice, hf, hg]
    rfl
  · rfl

-- As long as each segment ends at a word, so does what follows without a gap.
theorem join?_eq {stop : Nat} (hw : stop < wordLimit) {segments : List Segment}
    (h : ∀ segment ∈ segments, segment.offset + segment.data.length ≤ stop) (next : UInt64) :
    join? next segments = some (Gathering.contiguous next.toNat segments) := by
  induction segments generalizing next with
  | nil => rfl
  | cons segment rest ih =>
      obtain ⟨hfirst, hrest⟩ := List.forall_mem_cons.mp h
      rw [join?, Gathering.contiguous]
      split
      · rename_i he
        have hlength : (UInt64.ofNat segment.data.length).toNat = segment.data.length :=
          UInt64.toNat_ofNat_of_lt' (Nat.lt_of_le_of_lt (by omega) hw)
        have hlt : next.toNat + (UInt64.ofNat segment.data.length).toNat < wordLimit := by
          rw [hlength, ← he]
          exact Nat.lt_of_le_of_lt hfirst hw
        obtain ⟨due, hsum, hdue⟩ := exists_sum? hlt
        rw [hsum, Option.bind_some, ih hrest, hdue, hlength, Option.map_some]
      · rfl

end Word

end PageCache
