import Mathlib.Algebra.GroupWithZero.Nat
import PageCache.Proofs.Span

namespace PageCache

-- From a page that begins before the end of the range, the next ones follow for as long as
-- they begin before it, too.
theorem range'_pages {size stop page : Nat} (hz : 0 < size) (hd : size ∣ page)
    (hp : page < stop) :
    List.range' page ((stop - 1) / size + 1 - page / size) size =
      page :: if page + size < stop then
        List.range' (page + size) ((stop - 1) / size + 1 - (page + size) / size) size else [] := by
  have hfirst : page / size ≤ (stop - 1) / size := Nat.div_le_div_right (by omega)
  have hcount : (stop - 1) / size + 1 - page / size = (stop - 1) / size - page / size + 1 := by
    omega
  rw [hcount, List.range'_succ, Nat.add_div_right page hz]
  split
  · congr 2
    omega
  · rename_i hlast
    have hsame : (stop - 1) / size = page / size := by
      obtain ⟨index, rfl⟩ := hd
      rw [Nat.mul_div_cancel_left index hz]
      refine Nat.div_eq_of_lt_le ?_ ?_
      · rw [Nat.mul_comm]
        omega
      · rw [Nat.succ_mul, Nat.mul_comm]
        omega
    rw [hsame, Nat.sub_self, List.range'_zero]

namespace Word

-- The page that holds an offset, as words tell it: the low bits are masked out.
def align (size offset : UInt64) : UInt64 := offset &&& ~~~(size - 1)

-- The sum of two words, if that is a word.
def sum? (first second : UInt64) : Option UInt64 :=
  if first.toNat + second.toNat < wordLimit then some (first + second) else none

-- The page that is looked up after this one: the next one in the file, if a word tells where
-- it begins and if that is before the end of the range.
def next? (size stop page : UInt64) : Option UInt64 := (sum? page size).filter (· < stop)

theorem sum?_eq_some_iff {first second sum : UInt64} :
    sum? first second = some sum ↔ sum.toNat = first.toNat + second.toNat := by
  have hadd := UInt64.toNat_add first second
  have hsum := sum.toNat_lt
  simp only [sum?, Option.ite_none_right_eq_some, Option.some.injEq]
  constructor
  · rintro ⟨hlt, rfl⟩
    rw [hadd]
    exact Nat.mod_eq_of_lt hlt
  · intro he
    have hlt : first.toNat + second.toNat < wordLimit := he ▸ hsum
    refine ⟨hlt, UInt64.toNat_inj.mp ?_⟩
    rw [hadd, he]
    exact Nat.mod_eq_of_lt hlt

theorem next?_eq_some_iff {size stop page next : UInt64} :
    next? size stop page = some next ↔
      next.toNat = page.toNat + size.toNat ∧ next.toNat < stop.toNat := by
  rw [next?, Option.filter_eq_some_iff, sum?_eq_some_iff, decide_eq_true_eq,
    UInt64.lt_iff_toNat_lt]

-- Words wrap around, but no page is passed over for it: the end of the range is a word.
theorem next?_eq_none_iff {size stop page : UInt64} :
    next? size stop page = none ↔ stop.toNat ≤ page.toNat + size.toNat := by
  have hstop := stop.toNat_lt
  rw [Option.eq_none_iff_forall_not_mem]
  constructor
  · intro h
    by_contra hlt
    refine h (.ofNat (page.toNat + size.toNat)) (next?_eq_some_iff.mpr ?_)
    have hword : page.toNat + size.toNat < UInt64.size := Nat.lt_trans (Nat.not_le.mp hlt) hstop
    rw [UInt64.toNat_ofNat_of_lt' hword]
    exact ⟨rfl, Nat.not_le.mp hlt⟩
  · intro h next hnext
    have hsome := next?_eq_some_iff.mp hnext
    omega

-- The pages that a loop over words looks up, one after the other.
def walk (size : UInt64) (hsize : 0 < size) (stop page : UInt64) : List UInt64 :=
  match _ : next? size stop page with
  | none => [page]
  | some next => page :: walk size hsize stop next
termination_by stop.toNat - page.toNat
decreasing_by
  rename_i hnext
  have hsome := next?_eq_some_iff.mp hnext
  have hpos : 0 < size.toNat := UInt64.lt_iff_toNat_lt.mp hsize
  omega

theorem walk_eq (size : UInt64) (hsize : 0 < size) (stop page : UInt64) :
    walk size hsize stop page =
      page :: (next? size stop page).elim [] (walk size hsize stop) := by
  rw [walk]
  split <;> rename_i hnext <;> rw [hnext]
  · rfl
  · rfl

-- The bits that are masked out and those that are left make up the offset.
theorem toNat_align_add (size offset : UInt64) :
    (align size offset).toNat + (offset &&& (size - 1)).toNat = offset.toNat := by
  let mask := (size - 1).toBitVec
  have hapart : (offset.toBitVec &&& ~~~mask) &&& (offset.toBitVec &&& mask) = 0#64 := by
    ext i
    cases hm : mask[i] <;> simp [hm]
  have hwhole : (offset.toBitVec &&& ~~~mask) ||| (offset.toBitVec &&& mask) = offset.toBitVec := by
    ext i
    cases hm : mask[i] <;> simp [hm]
  have hsum := BitVec.toNat_add_of_and_eq_zero hapart
  rw [BitVec.add_eq_or_of_and_eq_zero _ _ hapart, hwhole] at hsum
  exact hsum.symm

theorem toNat_align {size : UInt64} {exponent : Nat} (hs : size.toNat = 2 ^ exponent)
    (offset : UInt64) :
    (align size offset).toNat = size.toNat * (offset.toNat / size.toNat) := by
  have hlow : (offset &&& (size - 1)).toNat = offset.toNat % size.toNat := by
    have hone : (1 : UInt64) ≤ size := by
      rw [UInt64.le_iff_toNat_le, hs]
      exact Nat.one_le_two_pow
    rw [UInt64.toNat_and, UInt64.toNat_sub_of_le _ _ hone, hs]
    exact Nat.and_two_pow_sub_one_eq_mod _ _
  have hsum := toNat_align_add size offset
  have hdiv := Nat.div_add_mod offset.toNat size.toNat
  omega

theorem map_toNat_walk {size stop page : UInt64} (hsize : 0 < size)
    (hd : size.toNat ∣ page.toNat) (hp : page.toNat < stop.toNat) :
    (walk size hsize stop page).map UInt64.toNat =
      List.range' page.toNat
        ((stop.toNat - 1) / size.toNat + 1 - page.toNat / size.toNat) size.toNat := by
  have hpos : 0 < size.toNat := UInt64.lt_iff_toNat_lt.mp hsize
  induction page using walk.induct size hsize stop with
  | case1 page hnone =>
      have hlast : ¬ page.toNat + size.toNat < stop.toNat :=
        Nat.not_lt.mpr (next?_eq_none_iff.mp hnone)
      rw [range'_pages hpos hd hp, if_neg hlast, walk_eq, hnone]
      rfl
  | case2 page next hsome ih =>
      obtain ⟨hnext, hlt⟩ := next?_eq_some_iff.mp hsome
      have hrest := ih (hnext ▸ Nat.dvd_add hd (Nat.dvd_refl _)) hlt
      rw [hnext] at hrest hlt
      rw [range'_pages hpos hd hp, if_pos hlt, walk_eq, hsome, Option.elim_some,
        List.map_cons, hrest]

end Word

namespace Limits

variable {limits : Limits}

theorem toNat_pageSize (h : limits.pageExponent < 64) :
    (UInt64.ofNat limits.pageSize).toNat = limits.pageSize :=
  UInt64.toNat_ofNat_of_lt' (Nat.pow_lt_pow_right (by decide) h)

theorem ofNat_pageSize_pos (h : limits.pageExponent < 64) : 0 < UInt64.ofNat limits.pageSize := by
  rw [UInt64.lt_iff_toNat_lt, toNat_pageSize h]
  exact limits.pageSize_pos

-- The loop over words finds the pages of the span, up to the last one of all.
theorem span_eq_walk (h : limits.pageExponent < 64) {offset stop : Nat} (hl : offset < stop)
    (hw : stop < wordLimit) :
    let size := UInt64.ofNat limits.pageSize
    limits.span offset stop =
      (Word.walk size (ofNat_pageSize_pos h) (.ofNat stop) (Word.align size (.ofNat offset))).map
        UInt64.toNat := by
  intro size
  have hsize : size.toNat = limits.pageSize := toNat_pageSize h
  have hstop : (UInt64.ofNat stop).toNat = stop := UInt64.toNat_ofNat_of_lt' hw
  have hoffset : (UInt64.ofNat offset).toNat = offset :=
    UInt64.toNat_ofNat_of_lt' (Nat.lt_trans hl hw)
  have halign : (Word.align size (.ofNat offset)).toNat = limits.pageOf offset := by
    rw [Word.toNat_align (hsize.trans rfl), hsize, hoffset]
    rfl
  rw [Word.map_toNat_walk, halign, hsize, hstop]
  · rw [span, pageOf, Nat.mul_div_cancel_left _ limits.pageSize_pos]
  · rw [halign, hsize]
    exact limits.pageSize_dvd_pageOf offset
  · rw [halign, hstop]
    exact Nat.lt_of_le_of_lt (limits.pageOf_le offset) hl

end Limits

end PageCache
