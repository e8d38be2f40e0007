import PageCache.Proofs.Errands

namespace PageCache

-- The segments are the bytes that a read asks for as far as the file goes, cut to the size that is
-- set.
structure Memory.Serves (memory : Memory) (call : Call) (stored : StoredFile)
    (segments : List Bytes) : Prop where
  segmented : Memory.Segmented memory.segmentSize
    (stored.data.slice (min call.offset stored.data.length)
      (min (call.offset + call.length + memory.overread) stored.data.length)) segments
  contents : memory.overread = 0 →
    segments.flatten = memory.contents call.file call.offset call.length

namespace Bench

-- How a read that is past its gate is answered at this moment. A read under way fails if and only
-- if a failure is left for its place. With none left, a read of a file is served.
structure Exact (bench : Bench) : Prop where
  served : ∀ (call : Call) (gate : Option GateId) (stored : StoredFile),
    bench.gates.passes gate = true → bench.memory.failuresOf call.file call.offset = 0 →
    bench.memory.files.get? call.file = some stored →
    call.length + bench.memory.overread < wordLimit →
    (∀ size, bench.memory.segmentSize = some size → size < wordLimit) →
    ∃ segments,
      Memory.backend.poll (bench.gates, bench.memory) call gate =
        ((bench.gates, bench.memory), .finished (.ok ⟨segments, stored.attributes⟩)) ∧
      bench.memory.Serves call stored segments
  answered : ∀ (index : Nat) (call : Call) (gate : Option GateId),
    bench.reads[index]? = some (call, gate) → bench.gates.passes gate = true →
    ∃ answer, (bench.act (.poll index)).2 = some (call, answer) ∧
      (answer = .error Memory.injected ↔ 0 < bench.memory.failuresOf call.file call.offset)

-- What some errands come to at a place. Each read is counted when it starts, whatever becomes of
-- it. Failures that are added are used up one by one, by the reads of the place that are past
-- their gates, or are left.
structure Tallied (errands : List Errand) (file : FileId) (offset : Nat) : Prop where
  reads : (run {} errands).1.memory.readsOf file offset =
    (errands.map (·.started file offset)).sum
  failures : FitsAll {} errands →
    failed file offset (run {} errands).2 + (run {} errands).1.memory.failuresOf file offset =
      (errands.map (·.added file offset)).sum

end Bench

namespace Memory

-- Reads are answered exactly at any moment, and come to what was asked for in any run.
theorem exact_slices :
    (∀ bench : Bench, bench.Exact) ∧
    ∀ (errands : List Errand) (file : FileId) (offset : Nat),
      Bench.Tallied errands file offset := by
  refine ⟨fun bench => ⟨fun call gate stored hp hn hs hl hw => ?_,
    fun index call gate hread hp => ?_⟩, fun errands file offset => ⟨?_, fun hfits => ?_⟩⟩
  · have hwindow :=
      window_eq_slice_min stored.fits call.offset (call.length + bench.memory.overread)
    have hfits : (window stored.data call.offset (call.length + bench.memory.overread)).length <
        bufferLimit := by
      have hstored := stored.fits
      rw [window, Bytes.length_slice]
      omega
    refine ⟨_, poll_served hp hn hs hl, ?_, fun ho => ?_⟩
    · rw [Nat.add_assoc, ← hwindow]
      exact segmented_segments hfits hw
    · rw [flatten_segments, contents, hs, ho]
      rfl
  · refine ⟨_, congrArg Prod.snd (Bench.poll_of_passes hread hp), ?_⟩
    rcases Nat.eq_zero_or_pos (bench.memory.failuresOf call.file call.offset) with hn | hpos
    · rw [hn]
      exact iff_of_false (bench.memory.answer_of_none hn).2.2 (Nat.lt_irrefl 0)
    · rw [bench.memory.answer_of_pending hpos]
      exact iff_of_true rfl hpos
  · exact (Bench.reads_run {} file offset errands).trans (Nat.zero_add _)
  · exact (Bench.failures_run {} file offset hfits).trans (Nat.zero_add _)

-- Two reads of one place start, of which the first is held. The second fails, and then the first
-- is let go.
def heldErrands : List Errand :=
  [.insert 0 [1, 2, 3, 4, 5, 6, 7], .segmentSize (some 3), .overread 1, .fail 0 2 1, .hold 0 2,
    .start ⟨0, 2, 4⟩, .start ⟨0, 2, 4⟩, .poll 1, .poll 0, .release 0]

def heldBench : Bench := (Bench.run {} heldErrands).1

theorem exact_slices_of_held_read :
    Bench.FitsAll {} heldErrands ∧ heldBench.reads[0]? = some (⟨0, 2, 4⟩, some 0) ∧
    Bench.failed 0 2 (Bench.run {} heldErrands).2 + heldBench.memory.failuresOf 0 2 = 1 ∧
    heldBench.memory.readsOf 0 2 = 2 ∧
    (∃ answer, (heldBench.act (.poll 0)).2 = some (⟨0, 2, 4⟩, answer) ∧
      answer ≠ .error injected) ∧
    backend.poll (heldBench.gates, heldBench.memory) ⟨0, 2, 4⟩ (some 0) =
      ((heldBench.gates, heldBench.memory),
        .finished (.ok ⟨[[3, 4, 5], [6, 7]], ⟨7, 1000000000⟩⟩)) ∧
    Segmented (some 3) [3, 4, 5, 6, 7] [[3, 4, 5], [6, 7]] := by
  obtain ⟨hexact, htallied⟩ := exact_slices
  have hfits : Bench.FitsAll {} heldErrands := by
    simp only [heldErrands, Bench.FitsAll, Bench.Fits, true_and, and_true]
    decide
  have hread : heldBench.reads[0]? = some (⟨0, 2, 4⟩, some 0) := rfl
  have hpasses : heldBench.gates.passes (some 0) = true := rfl
  have hnone : heldBench.memory.failuresOf 0 2 = 0 := rfl
  obtain ⟨segments, hpoll, hserves⟩ := (hexact heldBench).served ⟨0, 2, 4⟩
    (some 0) ⟨[1, 2, 3, 4, 5, 6, 7], ⟨7, 1000000000⟩, by decide⟩ hpasses hnone rfl (by decide)
    (fun size hsize => by cases hsize; decide)
  obtain ⟨hreads, hfailures⟩ := htallied heldErrands 0 2
  obtain ⟨answer, hanswer, hinjected⟩ :=
    (hexact heldBench).answered 0 ⟨0, 2, 4⟩ (some 0) hread hpasses
  have hsegments : segments = [[3, 4, 5], [6, 7]] :=
    (hserves.segmented.sliced 3 rfl (by decide)).1.trans (by decide)
  subst hsegments
  refine ⟨hfits, hread, hfailures hfits, hreads, ⟨answer, hanswer, ?_⟩, hpoll, hserves.segmented⟩
  rw [Ne, hinjected]
  exact Nat.not_lt.mpr (Nat.le_of_eq hnone)

end Memory

end PageCache
