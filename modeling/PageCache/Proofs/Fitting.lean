import PageCache.Proofs.Assembly
import PageCache.Proofs.Plan

namespace PageCache

namespace Gathering

-- The range ends at a 64-bit offset, and nothing gathered so far reaches past it.
structure Fits (gathering : Gathering) : Prop where
  range : gathering.offset ≤ gathering.stop
  word : gathering.stop < wordLimit
  segments : ∀ segment ∈ gathering.segments,
    segment.offset + segment.data.length ≤ gathering.stop

-- What follows without a gap ends where its last segment does.
theorem contiguous_end_le {stop : Nat} {segments : List Segment}
    (h : ∀ segment ∈ segments, segment.offset + segment.data.length ≤ stop) {next : Nat}
    (hn : next ≤ stop) :
    next + Bytes.totalLength ((contiguous next segments).map (·.data)) ≤ stop := by
  induction segments generalizing next with
  | nil => simpa [contiguous, Bytes.totalLength] using hn
  | cons segment rest ih =>
      by_cases he : segment.offset = next
      · have hfirst : next + segment.data.length ≤ stop := he ▸ h segment List.mem_cons_self
        have hrest := ih (fun other ho => h other (List.mem_cons_of_mem _ ho)) hfirst
        simp only [contiguous, he, if_true, List.map_cons, Bytes.totalLength]
        omega
      · simpa [contiguous, he, Bytes.totalLength] using hn

theorem Fits.reply_end_le {gathering : Gathering} (h : gathering.Fits) :
    gathering.offset + gathering.reply.length ≤ gathering.stop :=
  contiguous_end_le h.segments h.range

-- So the end of the reply is a 64-bit offset.
theorem Fits.replyFits {gathering : Gathering} (h : gathering.Fits) :
    gathering.replyFits = true := by
  have hlt : gathering.offset + gathering.reply.length < wordLimit :=
    Nat.lt_of_le_of_lt h.reply_end_le h.word
  simp [Gathering.replyFits, hlt]

theorem mem_place {segment other : Segment} {segments : List Segment}
    (h : other ∈ place segment segments) : other = segment ∨ other ∈ segments := by
  induction segments with
  | nil => exact .inl (List.mem_singleton.mp h)
  | cons first rest ih =>
      unfold place at h
      split at h
      · exact List.mem_cons.mp h
      · split at h
        · rcases List.mem_cons.mp h with rfl | h
          · exact .inl rfl
          · exact .inr (List.mem_cons_of_mem _ h)
        · rcases List.mem_cons.mp h with rfl | h
          · exact .inr List.mem_cons_self
          · exact (ih h).imp_right (List.mem_cons_of_mem _)

theorem overlap_end_le {gathering : Gathering} {page : Nat} {data : Bytes} {segment : Segment}
    (h : gathering.overlap page data = some segment) :
    segment.offset + segment.data.length ≤ gathering.stop := by
  simp only [overlap, Option.ite_none_right_eq_some, Option.some.injEq] at h
  obtain ⟨hlt, rfl⟩ := h
  simp only [Bytes.length_slice]
  omega

theorem Fits.add {gathering : Gathering} (h : gathering.Fits) (page : Nat) (data : Bytes) :
    (gathering.add page data).Fits := by
  rw [add_eq]
  refine ⟨h.range, h.word, fun segment hs => ?_⟩
  simp only at hs
  split at hs
  · exact h.segments segment hs
  · cases ho : gathering.overlap page data with
    | none => exact h.segments segment (by simpa [ho] using hs)
    | some found =>
        rw [ho, Option.elim_some] at hs
        rcases mem_place hs with rfl | hs
        · exact overlap_end_le ho
        · exact h.segments segment hs

theorem Fits.spoil {gathering : Gathering} (h : gathering.Fits) (error : Error) :
    (gathering.spoil error).Fits := by
  rw [spoil_eq]
  refine ⟨h.range, h.word, fun segment hs => ?_⟩
  simp only at hs
  split at hs
  · exact h.segments segment hs
  · cases hs

-- The part of a page that is added starts within the range or with the page, so no sooner than
-- the page, and it ends past its start.
theorem sliceStarts_eq_true (gathering : Gathering) (page : Nat) (data : Bytes) :
    gathering.sliceStarts page data = true := by
  simp only [sliceStarts, Bool.or_eq_true, Bool.and_eq_true, decide_eq_true_eq]
  omega

-- The part of a page that is added lies within its bytes. The end of the part is cut off
-- at the end of the bytes, and once more at the last of the 64-bit offsets.
theorem sliceFits_eq_true (gathering : Gathering) (page : Nat) (data : Bytes) :
    gathering.sliceFits page data = true := by
  have hend : addSat page data.length ≤ page + data.length := Nat.min_le_left _ _
  have hstop : min gathering.stop (addSat page data.length) - page ≤ data.length := by omega
  simp [sliceFits, hstop]

end Gathering

namespace Plan

-- The read is of a range that 64-bit offsets can tell.
def Ranged (plan : Plan) : Prop := plan.offset ≤ plan.stop ∧ plan.stop < wordLimit

theorem Ranged.fits {plan : Plan} (h : plan.Ranged) (outcomes : FetchId → Option Outcome)
    (failures : List (FetchId × Error)) : (plan.gathering outcomes failures).Fits := by
  have hopened : (plan.opened outcomes failures).Fits := by
    refine ⟨h.1, h.2, fun segment hs => ?_⟩
    rw [opened_segments] at hs
    split at hs
    · cases hs
    · obtain ⟨part, _, hpart⟩ := List.mem_filterMap.mp hs
      obtain ⟨data, _, hdata⟩ := Option.bind_eq_some_iff.mp hpart
      exact Gathering.overlap_end_le hdata
  unfold gathering Gathering.close
  split
  · exact ⟨hopened.range, hopened.word, hopened.segments⟩
  · exact hopened

theorem awaited_gathering (plan : Plan) (outcomes : FetchId → Option Outcome)
    (failures : List (FetchId × Error)) :
    (plan.gathering outcomes failures).awaited =
      plan.parts.countP (·.isPending outcomes) + plan.hold := by
  unfold gathering Gathering.close
  split <;> rfl

end Plan

end PageCache
