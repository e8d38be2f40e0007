import PageCache.Proofs.Conservation
import PageCache.Proofs.Transparency
import PageCache.Proofs.Waiters
import PageCache.Proofs.Walking

namespace PageCache

namespace Mount

variable {σ τ : Type}

theorem looked_read (backend : Backend σ τ) {mount : Mount σ τ} {plans : ReadId → Plan}
    (hs : mount.pool.Steady plans) (file : FileId) {offset length : Nat} (hl : 0 < length)
    (hw : offset + length < wordLimit) (turns : Turns) :
    (mount.read backend file offset length turns).1.pool.looked =
      mount.pool.looked ++ (mount.pool.limits.span offset (offset + length)).map (file, ·) := by
  unfold read
  rw [if_neg (Nat.ne_of_gt hl), if_pos hw]
  have hsound : (mount.opened ⟨file, offset, offset + length⟩).pool.Sound _ :=
    Pool.sound_startRead hs.sound file offset (offset + length)
  have hpolled := logs_poll backend hsound mount.pool.gatherings.size turns
  have hlogs := (Pool.logs_startRead mount.pool file offset (offset + length)).trans hpolled
  exact hlogs.looked.trans (congrArg _ (List.append_nil _))

-- A read with a range of its own is not refused: it leaves the lookup of its first page behind.
theorem read_ne_of_range (backend : Backend σ τ) {mount : Mount σ τ} {plans : ReadId → Plan}
    (hs : mount.pool.Steady plans) (file : FileId) {offset length : Nat}
    (hw : offset + length < wordLimit) (turns : Turns) :
    mount.read backend file offset length turns ≠
      (mount, .returned (.error .offsetOverflow)) := by
  intro he
  rcases Nat.eq_zero_or_pos length with rfl | hl
  · rw [read_zero] at he
    cases he
  · have hlooked := looked_read backend hs file hl hw turns
    rw [he, List.self_eq_append_right, List.map_eq_nil_iff] at hlooked
    have hfirst : mount.pool.limits.pageOf offset ∈
        mount.pool.limits.span offset (offset + length) :=
      (mount.pool.limits.mem_span_iff (by omega)).mpr ⟨mount.pool.limits.pageSize_dvd_pageOf offset,
        (mount.pool.limits.pageOf_le offset).trans_lt (by omega),
        mount.pool.limits.lt_pageOf_add_pageSize offset⟩
    rw [hlooked] at hfirst
    exact List.not_mem_nil hfirst

-- Storage may give an error of the same name, and a read that fails with the error of one of its
-- fetches passes it on.
theorem Returns.exists_given {backend : Backend σ τ} {limits : Limits} {storage : σ}
    {acts after : List (Act σ)} {file : FileId} {offset length : Nat} {error : Error}
    {final : Mount σ τ}
    (h : Returns backend (run backend (create limits storage) acts) file offset length after
      (.error error) final)
    (hm : ∀ requested received, error ≠ .malformedRead requested received) (hl : 0 < length)
    (hw : offset + length < wordLimit) :
    ∃ page ∈ limits.span offset (offset + length),
      backend.Gives ⟨file, page, limits.pageSize⟩ (.error error) := by
  obtain ⟨plans, hs, hlimits⟩ := exists_steady backend limits storage acts
  have hany := backend.allows_givesAnything limits.Asks
  have hserved := h.served (served_run (backend.givesAnything limits.Asks) trivial
    fun act _ => hany act) hlimits hs fun act _ => hany act
  obtain ⟨hlater, ⟨_, hafter⟩, htracks, _, hresult⟩ := h.kept hs hl hw
  rw [Plan.outcome_eq] at hresult
  split at hresult
  · rename_i cause hcause
    cases hresult
    obtain ⟨fetch, hfetch, ho⟩ := hafter.sound.backed.exists_failed hcause
    obtain ⟨page, hpart⟩ := Plan.mem_fetches.mp hfetch
    have hcall := htracks.calls page fetch hpart
    rw [hlater.limits, hlimits] at hcall
    obtain ⟨_, answer, hgives, hanswer⟩ := hserved.outcome hcall ho
    rw [Call.answer_of_failed hanswer.symm hm] at hgives
    refine ⟨page, ?_, hgives⟩
    have hpage := List.mem_map_of_mem (f := Part.page) hpart
    rwa [Pool.plan, Pool.map_page_partsFrom, hlimits] at hpage
  · cases hresult

-- A read is refused if its end is no 64-bit offset, and if so nothing comes of it, as of a read
-- of nothing. Else the pages that meet its range are looked up, each of them once and in file
-- order, and the loop over words that finds them comes to its end: it masks out the low bits of
-- the offset and goes on by checked sums, up to the page whose end is no word.
theorem span_of_read (backend : Backend σ τ) (limits : Limits) (storage : σ)
    (acts : List (Act σ)) (file : FileId) {offset : Nat} (length : Nat)
    (turns : Turns) (hsize : limits.pageExponent < 64) (ho : offset < wordLimit) :
    let mount := run backend (create limits storage) acts
    let started := mount.read backend file offset length turns
    let pages := limits.span offset (offset + length)
    let size := UInt64.ofNat limits.pageSize
    (started = (mount, .returned (.error .offsetOverflow)) ↔ wordLimit ≤ offset + length) ∧
    (length = 0 → started = (mount, .returned (.ok {}))) ∧
    (0 < length → offset + length < wordLimit →
      started.1.pool.looked = mount.pool.looked ++ pages.map (file, ·) ∧
      pages.Pairwise (· < ·) ∧
      (∀ page, page ∈ pages ↔ limits.pageSize ∣ page ∧ offset < page + limits.pageSize ∧
        page < offset + length) ∧
      pages = (Word.walk size (limits.ofNat_pageSize_pos hsize) (.ofNat (offset + length))
        (Word.align size (.ofNat offset))).map UInt64.toNat) ∧
    ∀ after final,
      Returns backend mount file offset length after (.error .offsetOverflow) final →
        wordLimit ≤ offset + length ∨ ∃ page ∈ pages,
          backend.Gives ⟨file, page, limits.pageSize⟩ (.error .offsetOverflow) := by
  intro mount started pages size
  obtain ⟨plans, hs, hlimits⟩ := exists_steady backend limits storage acts
  refine ⟨⟨fun he => ?_, fun hw => ?_⟩, ?_, fun hl hw => ?_, fun after final h => ?_⟩
  · by_contra hw
    exact read_ne_of_range backend hs file (Nat.not_le.mp hw) turns he
  · exact read_overflow backend mount file turns (by omega) (Nat.not_lt.mpr hw)
  · rintro rfl
    exact read_zero ..
  · have hlt : offset < offset + length := Nat.lt_add_of_pos_right hl
    have hlooked := looked_read backend hs file hl hw turns
    rw [hlimits] at hlooked
    refine ⟨hlooked, (limits.span_pairwise offset _).imp And.left, fun page => ?_,
      limits.span_eq_walk hsize hlt hw⟩
    rw [limits.mem_span_iff hlt, and_congr_right_iff]
    exact fun _ => and_comm
  · by_cases hw : wordLimit ≤ offset + length
    · exact .inl hw
    · rcases Nat.eq_zero_or_pos length with rfl | hl
      · obtain ⟨_, ⟨_, he⟩ | ⟨_, _, he, _⟩⟩ := h <;> rw [read_zero] at he <;> cases he
      · exact .inr (h.exists_given (fun _ _ he => nomatch he) hl (Nat.not_le.mp hw))

-- The second of these pages ends where the offsets do, with the last of which the range ends.
theorem span_of_last_read :
    fourByteLimits.pageExponent < 64 ∧ 18446744073709551610 < wordLimit ∧
    ((run Memory.backend (create fourByteLimits gatedStorage) []).read Memory.backend 0
        18446744073709551610 5 .all).1.pool.looked =
      (run Memory.backend (create fourByteLimits gatedStorage) []).pool.looked ++
        [(0, 18446744073709551608), (0, 18446744073709551612)] ∧
    [18446744073709551608, 18446744073709551612] =
      (Word.walk (.ofNat fourByteLimits.pageSize) (fourByteLimits.ofNat_pageSize_pos (by decide))
        (.ofNat 18446744073709551615)
        (Word.align (.ofNat fourByteLimits.pageSize)
          (.ofNat 18446744073709551610))).map UInt64.toNat ∧
    (run Memory.backend (create fourByteLimits gatedStorage) []).read Memory.backend 0
        18446744073709551610 6 .all =
      (run Memory.backend (create fourByteLimits gatedStorage) [],
        .returned (.error .offsetOverflow)) := by
  have hsize : fourByteLimits.pageExponent < 64 := by decide
  have ho : 18446744073709551610 < wordLimit := by decide
  obtain ⟨_, _, hspan, _⟩ :=
    span_of_read Memory.backend fourByteLimits gatedStorage [] 0 5 .all hsize ho
  obtain ⟨hrefused, _⟩ :=
    span_of_read Memory.backend fourByteLimits gatedStorage [] 0 6 .all hsize ho
  obtain ⟨hlooked, _, _, hwalk⟩ := hspan (by decide) (by decide)
  have hpages : fourByteLimits.span 18446744073709551610 (18446744073709551610 + 5) =
      [18446744073709551608, 18446744073709551612] := by
    decide +kernel
  rw [hpages] at hlooked hwalk
  refine ⟨hsize, ho, hlooked, hwalk, ?_⟩
  exact hrefused.mpr (by decide)

end Mount

end PageCache
