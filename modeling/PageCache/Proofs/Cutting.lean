import PageCache.Proofs.Transparency

namespace PageCache

namespace Bytes

theorem slice_drop (data : Bytes) (count start stop : Nat) :
    slice (data.drop count) start stop = data.slice (count + start) (count + stop) := by
  simp only [slice, List.take_drop, List.drop_drop]

end Bytes

namespace Memory

section Pieces

variable {size : Nat} {data : Bytes}

theorem ne_nil_of_mem_pieces {piece : Bytes} (h : piece ∈ pieces size data) : piece ≠ [] := by
  fun_induction pieces size data with
  | case1 => cases h
  | case2 first rest ih =>
      rcases List.mem_cons.mp h with rfl | h
      · exact List.cons_ne_nil _ _
      · exact ih h

theorem length_le_of_mem_pieces (hs : 0 < size) {piece : Bytes} (h : piece ∈ pieces size data) :
    piece.length ≤ size := by
  fun_induction pieces size data with
  | case1 => cases h
  | case2 first rest ih =>
      rcases List.mem_cons.mp h with rfl | h
      · rw [List.length_cons, List.length_take]
        omega
      · exact ih h

-- A piece that is not the last was not cut short by the end of the data.
theorem length_of_mem_dropLast_pieces (hs : 0 < size) {piece : Bytes}
    (h : piece ∈ (pieces size data).dropLast) : piece.length = size := by
  fun_induction pieces size data with
  | case1 => cases h
  | case2 first rest ih =>
      by_cases hlong : rest.drop (size - 1) = []
      · rw [hlong, pieces, List.dropLast_singleton] at h
        cases h
      · have hne : pieces size (rest.drop (size - 1)) ≠ [] := by
          intro he
          rw [← flatten_pieces size (rest.drop (size - 1)), he] at hlong
          exact hlong rfl
        rw [List.dropLast_cons_of_ne_nil hne] at h
        rcases List.mem_cons.mp h with rfl | h
        · rw [List.drop_eq_nil_iff] at hlong
          rw [List.length_cons, List.length_take]
          omega
        · exact ih h

end Pieces

-- Where pieces of a size begin in data of a length.
def cuts (size length : Nat) : List Nat := List.range' 0 ((length + size - 1) / size) size

theorem cuts_zero {size : Nat} (hs : 0 < size) : cuts size 0 = [] := by
  have hcount : (0 + size - 1) / size = 0 := Nat.div_eq_of_lt (by omega)
  rw [cuts, hcount]
  rfl

theorem cuts_of_pos {size length : Nat} (hs : 0 < size) (hl : 0 < length) :
    cuts size length = 0 :: (cuts size (length - size)).map (size + ·) := by
  have hcount : (length + size - 1) / size = (length - size + size - 1) / size + 1 := by
    rcases Nat.le_total length size with hle | hle
    · have hnone : (length - size + size - 1) / size = 0 := Nat.div_eq_of_lt (by omega)
      rw [hnone]
      exact Nat.div_eq_of_lt_le (by omega) (by omega)
    · rw [← Nat.add_div_right _ hs]
      congr 1
      omega
  rw [cuts, hcount, List.range'_succ, cuts, List.map_add_range', Nat.zero_add, Nat.add_zero]

theorem lt_of_mem_cuts {size length start : Nat} (hs : 0 < size) (h : start ∈ cuts size length) :
    start < length := by
  obtain ⟨index, hi, rfl⟩ := List.mem_range'.mp h
  have hle : size * (index + 1) ≤ length + size - 1 :=
    (Nat.mul_le_mul_left size hi).trans (Nat.mul_div_le _ _)
  rw [Nat.mul_succ] at hle
  omega

-- The end of a piece is computed before it is cut off at the end of the data. It is a word: the
-- first piece ends at the size, and any other begins no sooner than that.
theorem cut_add_lt {size length start : Nat} (hs : 0 < size) (hw : size < wordLimit)
    (fits : length < bufferLimit) (h : start ∈ cuts size length) : start + size < wordLimit := by
  have hlt := lt_of_mem_cuts hs h
  obtain ⟨index, _, rfl⟩ := List.mem_range'.mp h
  cases index with
  | zero => simpa using hw
  | succ index =>
      rw [Nat.mul_succ] at hlt ⊢
      unfold bufferLimit at fits
      unfold wordLimit
      omega

theorem pieces_of_ne_nil {size : Nat} (hs : 0 < size) {data : Bytes} (h : data ≠ []) :
    pieces size data = data.take size :: pieces size (data.drop size) := by
  obtain ⟨first, rest, rfl⟩ := List.exists_cons_of_ne_nil h
  rw [pieces, ← Nat.sub_add_cancel hs, List.drop_succ_cons, List.take_succ_cons,
    Nat.add_sub_cancel]

-- So each piece can be sliced out of the data on its own.
theorem pieces_eq_map {size : Nat} (hs : 0 < size) (data : Bytes) :
    pieces size data = (cuts size data.length).map fun start =>
      data.slice start (min data.length (start + size)) := by
  induction hl : data.length using Nat.strong_induction_on generalizing data with
  | _ length ih =>
    by_cases hdata : data = []
    · subst hdata
      rw [← hl, pieces, List.length_nil, cuts_zero hs, List.map_nil]
    · have hpos : 0 < length := hl ▸ List.length_pos_iff.mpr hdata
      have hfirst : data.take size = data.slice 0 (min length (0 + size)) := by
        rw [Bytes.slice, List.drop_zero]
        exact List.take_eq_take_iff.mpr (by omega)
      have hrest := ih (length - size) (by omega) (data.drop size) (by rw [List.length_drop, hl])
      rw [pieces_of_ne_nil hs hdata, cuts_of_pos hs hpos, List.map_cons, List.map_map, hrest,
        hfirst]
      congr 1
      refine List.map_congr_left fun start hstart => ?_
      have hlt := lt_of_mem_cuts hs hstart
      have hstop : size + min (length - size) (start + size) =
          min length (size + start + size) := by omega
      rw [Bytes.slice_drop, hstop]
      rfl

-- What the segments of an answer are: data, none of them empty. If a size is set, all of them but
-- the last have it, and each can be sliced out of the data on its own by sums that are words.
-- Else there is no more than one.
structure Segmented (segmentSize : Option Nat) (data : Bytes) (segments : List Bytes) : Prop where
  flatten : segments.flatten = data
  nonempty : ∀ segment ∈ segments, segment ≠ []
  sized : ∀ size, segmentSize = some size → 0 < size →
    (∀ segment ∈ segments.dropLast, segment.length = size) ∧
    (∀ segment ∈ segments, segment.length ≤ size)
  sliced : ∀ size, segmentSize = some size → 0 < size →
    (segments = (cuts size data.length).map fun start =>
      data.slice start (min data.length (start + size))) ∧
    ∀ start ∈ cuts size data.length, start + size < wordLimit
  whole : segmentSize = none ∨ segmentSize = some 0 → segments.length ≤ 1

theorem segmented_segments {segmentSize : Option Nat} {data : Bytes}
    (fits : data.length < bufferLimit) (hw : ∀ size, segmentSize = some size → size < wordLimit) :
    Segmented segmentSize data (segments segmentSize data) := by
  have hpieces : ∀ size, segmentSize = some size → 0 < size →
      segments segmentSize data = pieces size data := by
    rintro (_ | size) rfl hs
    · exact absurd hs (Nat.lt_irrefl 0)
    · rfl
  have hwhole : segmentSize = none ∨ segmentSize = some 0 →
      segments segmentSize data = if data.isEmpty then [] else [data] := by
    rintro (rfl | rfl) <;> rfl
  refine ⟨flatten_segments segmentSize data, fun segment h => ?_, fun size hsize hs => ?_,
    fun size hsize hs => ?_, fun hnone => ?_⟩
  · by_cases hsize : ∃ size, segmentSize = some size ∧ 0 < size
    · obtain ⟨size, hsize, hs⟩ := hsize
      rw [hpieces size hsize hs] at h
      exact ne_nil_of_mem_pieces h
    · have hnone : segmentSize = none ∨ segmentSize = some 0 := by
        rcases segmentSize with _ | _ | size
        · exact .inl rfl
        · exact .inr rfl
        · exact absurd ⟨size + 1, rfl, Nat.succ_pos size⟩ hsize
      rw [hwhole hnone] at h
      cases data with
      | nil => cases h
      | cons first rest => exact List.mem_singleton.mp h ▸ List.cons_ne_nil first rest
  · rw [hpieces size hsize hs]
    exact ⟨fun _ h => length_of_mem_dropLast_pieces hs h, fun _ h => length_le_of_mem_pieces hs h⟩
  · rw [hpieces size hsize hs]
    exact ⟨pieces_eq_map hs data, fun _ h => cut_add_lt hs (hw size hsize) fits h⟩
  · rw [hwhole hnone]
    split
    · exact Nat.zero_le 1
    · exact Nat.le_refl 1

-- Past its gate, and with no failure left for its place, a read of a file is served.
theorem poll_served {gates : Gates} {memory : Memory} {call : Call} {gate : Option GateId}
    {stored : StoredFile} (hp : gates.passes gate = true)
    (hn : memory.failuresOf call.file call.offset = 0)
    (hs : memory.files.get? call.file = some stored)
    (hl : call.length + memory.overread < wordLimit) :
    backend.poll (gates, memory) call gate =
      ((gates, memory), .finished (.ok ⟨segments memory.segmentSize
        (window stored.data call.offset (call.length + memory.overread)), stored.attributes⟩)) := by
  simp only [backend, hp, if_true, answer, hn, Nat.lt_irrefl, if_false, hs, hl]

-- In exact arithmetic the sum need not be cut off at the last of the words.
theorem window_eq_slice_min {data : Bytes} (fits : data.length < bufferLimit)
    (offset length : Nat) :
    window data offset length =
      data.slice (min offset data.length) (min (offset + length) data.length) := by
  have hstop : min (addSat (min offset data.length) length) data.length =
      min (offset + length) data.length := by
    unfold addSat wordLimit
    unfold bufferLimit at fits
    omega
  rw [window, hstop]

end Memory

end PageCache
