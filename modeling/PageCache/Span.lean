import PageCache.Bytes
import PageCache.Config

namespace PageCache

namespace Limits

-- Pages are named by the offset of their first byte. This one holds `offset`.
def pageOf (limits : Limits) (offset : Nat) : Nat :=
  limits.pageSize * (offset / limits.pageSize)

-- The pages that meet `[offset, stop)`, in file order. The range is not empty.
def span (limits : Limits) (offset stop : Nat) : List Nat :=
  List.range' (limits.pageOf offset)
    ((stop - 1) / limits.pageSize + 1 - offset / limits.pageSize) limits.pageSize

theorem pageSize_pos (limits : Limits) : 0 < limits.pageSize :=
  Nat.pow_pos (by decide)

theorem pageOf_le (limits : Limits) (offset : Nat) : limits.pageOf offset ≤ offset :=
  Nat.mul_div_le offset limits.pageSize

theorem pageSize_dvd_pageOf (limits : Limits) (offset : Nat) :
    limits.pageSize ∣ limits.pageOf offset :=
  Nat.dvd_mul_right _ _

end Limits

end PageCache
