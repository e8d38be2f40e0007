import PageCache.Proofs.Clipping
import PageCache.Proofs.LongestRun

namespace PageCache

theorem Bytes.getElem?_slice (data : Bytes) (start stop index : Nat) :
    (data.slice start stop)[index]? =
      if start + index < stop then data[start + index]? else none := by
  rw [slice, List.getElem?_drop, List.getElem?_take]

theorem Reply.length_take_le (reply : Reply) (count : Nat) :
    (Reply.mk (reply.segments.take count)).length ≤ reply.length := by
  have hsplit : reply.bytes = (Reply.mk (reply.segments.take count)).bytes ++
      (Reply.mk (reply.segments.drop count)).bytes := by
    simp only [bytes]
    rw [← List.flatten_append, ← List.map_append, List.take_append_drop]
  rw [← length_bytes, ← length_bytes, hsplit, List.length_append]
  exact Nat.le_add_right ..

-- The byte that a segment has of a position in the file.
def Segment.byte? (segment : Segment) (position : Nat) : Option UInt8 :=
  if segment.offset ≤ position then segment.data[position - segment.offset]? else none

namespace Gathering

-- What is kept under an offset.
def kept? (gathering : Gathering) (offset : Nat) : Option Segment :=
  gathering.segments.find? (·.offset == offset)

-- The segments are in file order, no two of them under one offset.
def Ordered (gathering : Gathering) : Prop := gathering.segments.Pairwise (·.offset < ·.offset)

section Place

variable {segment : Segment} {segments : List Segment}

theorem find?_cons_offset (segment : Segment) (segments : List Segment) (key : Nat) :
    (segment :: segments).find? (·.offset == key) =
      if key = segment.offset then some segment else segments.find? (·.offset == key) := by
  rw [List.find?_cons]
  by_cases hkey : key = segment.offset
  · rw [if_pos hkey, beq_iff_eq.mpr hkey.symm]
  · rw [if_neg hkey, beq_eq_false_iff_ne.mpr (Ne.symm hkey)]

theorem find?_place (segment : Segment) (segments : List Segment) (key : Nat) :
    (place segment segments).find? (·.offset == key) =
      if key = segment.offset then some segment else segments.find? (·.offset == key) := by
  induction segments with
  | nil => exact find?_cons_offset segment [] key
  | cons first rest ih =>
      rw [place]
      split
      · exact find?_cons_offset segment (first :: rest) key
      · split
        · rename_i he
          rw [find?_cons_offset, find?_cons_offset first]
          split
          · rfl
          · rename_i hkey
            rw [if_neg (he ▸ hkey)]
        · rename_i hne
          rw [find?_cons_offset, ih, find?_cons_offset]
          by_cases hfirst : key = first.offset
          · rw [if_pos hfirst, if_neg (hfirst ▸ Ne.symm hne), if_pos hfirst]
          · rw [if_neg hfirst, if_neg hfirst]

theorem pairwise_place (h : segments.Pairwise (·.offset < ·.offset)) :
    (place segment segments).Pairwise (·.offset < ·.offset) := by
  induction segments with
  | nil => exact List.pairwise_singleton ..
  | cons first rest ih =>
      obtain ⟨hfirst, hrest⟩ := List.pairwise_cons.mp h
      rw [place]
      split
      · rename_i hlt
        refine List.pairwise_cons.mpr ⟨List.forall_mem_cons.mpr ⟨hlt, fun other ho => ?_⟩, h⟩
        exact hlt.trans (hfirst other ho)
      · rename_i hle
        split
        · rename_i he
          exact List.pairwise_cons.mpr ⟨fun other ho => he ▸ hfirst other ho, hrest⟩
        · rename_i hne
          refine List.pairwise_cons.mpr ⟨fun other ho => ?_, ih hrest⟩
          rcases mem_place ho with rfl | ho
          · omega
          · exact hfirst other ho

end Place

section Parts

variable {offset stop page : Nat} {data : Bytes}

-- The part of a page that is within a range has the bytes of the page at the positions within
-- the range, each where it was, and no others.
theorem byte?_part {position : Nat} {byte : UInt8} :
    (Segment.mk (max offset page)
      (data.slice (max offset page - page) (min stop (page + data.length) - page))).byte? position =
        some byte ↔
      Covers offset stop position page data ∧ data[position - page]? = some byte := by
  unfold Segment.byte? Covers
  simp only [Bytes.getElem?_slice]
  by_cases hstart : max offset page ≤ position
  · have hindex : max offset page - page + (position - max offset page) = position - page := by
      omega
    have hlt : position - page < min stop (page + data.length) - page ↔
        position < min stop (page + data.length) := by omega
    rw [if_pos hstart, hindex, Option.ite_none_right_eq_some, hlt, and_iff_right hstart]
  · rw [if_neg hstart]
    exact iff_of_false nofun fun h => hstart h.1.1

end Parts

-- What a gathering becomes when a page is added to it. If the page has bytes of the range, these
-- are kept under the position of the first of them, each at its own position, and what is kept
-- under another offset stays. If it has none, or after an error, nothing changes.
structure Fills (gathering : Gathering) (page : Nat) (data : Bytes) (filled : Gathering) :
    Prop where
  frame : filled = { gathering with segments := filled.segments }
  ordered : gathering.Ordered → filled.Ordered
  same : gathering.error.isSome ∨
    min gathering.stop (page + data.length) ≤ max gathering.offset page → filled = gathering
  part : gathering.error = none →
    max gathering.offset page < min gathering.stop (page + data.length) →
    ∃ part : Segment, part.offset = max gathering.offset page ∧
      (∀ position byte, part.byte? position = some byte ↔
        Covers gathering.offset gathering.stop position page data ∧
          data[position - page]? = some byte) ∧
      ∀ key, filled.kept? key =
        if key = max gathering.offset page then some part else gathering.kept? key

theorem fills_add {gathering : Gathering} (hw : gathering.stop < wordLimit) (page : Nat)
    (data : Bytes) : gathering.Fills page data (gathering.add page data) := by
  have hoverlap : gathering.overlap page data = _ := overlap_eq hw
  rw [add_eq]
  refine ⟨rfl, fun ho => ?_, fun hsame => ?_, fun he hlt => ?_⟩
  · unfold Ordered
    simp only
    split
    · exact ho
    · cases gathering.overlap page data with
      | none => exact ho
      | some segment => exact pairwise_place ho
  · rcases hsame with he | hle
    · rw [if_pos he]
    · rw [hoverlap, if_neg (Nat.not_lt.mpr hle), Option.elim_none, ite_self]
  · refine ⟨_, rfl, fun _ _ => byte?_part, fun key => ?_⟩
    rw [hoverlap, if_pos hlt, he]
    exact find?_place ..

theorem range_take (gathering : Gathering) (arrival : Arrival) :
    (gathering.take arrival).offset = gathering.offset ∧
    (gathering.take arrival).stop = gathering.stop := by
  rw [Gathering.take, receive_eq]
  simp only [arrive]
  split
  · exact ⟨rfl, rfl⟩
  · exact ⟨rfl, rfl⟩

theorem Fits.take {gathering : Gathering} (h : gathering.Fits) (arrival : Arrival) :
    (gathering.take arrival).Fits := by
  have hreceive : (gathering.receive arrival).Fits := by
    rcases arrival with ⟨page, error | data⟩ | _
    · exact h.spoil error
    · exact h.add page data
    · exact h
  simp only [Gathering.take, arrive]
  split
  · exact ⟨hreceive.range, hreceive.word, hreceive.segments⟩
  · exact ⟨hreceive.range, hreceive.word, hreceive.segments⟩

-- Whatever comes, in whatever order, and however much of it.
theorem fits_taken {offset stop : Nat} (hr : offset ≤ stop) (hw : stop < wordLimit) (count : Nat)
    (order : List Arrival) :
    let gathered := taken offset stop count order
    (gathered.offset = offset ∧ gathered.stop = stop) ∧ gathered.Fits := by
  induction order using List.reverseRecOn with
  | nil =>
      rw [taken, List.foldl_nil, expecting_eq]
      exact ⟨⟨rfl, rfl⟩, hr, hw, List.forall_mem_nil _⟩
  | append_singleton order arrival ih =>
      obtain ⟨⟨hoffset, hstop⟩, hfits⟩ := ih
      obtain ⟨hsame, hend⟩ := range_take (taken offset stop count order) arrival
      rw [taken_append]
      exact ⟨⟨hsame.trans hoffset, hend.trans hstop⟩, hfits.take arrival⟩

-- Each of the bytes that the pages have of a range is gathered once.
theorem exists_byte?_iff {size : Nat} {pages : List (Nat × Except Error Bytes)}
    {order : List Arrival} (h : Tiled size pages) {offset stop : Nat} (hw : stop < wordLimit)
    (hp : order.Perm (arrivals pages)) (hn : order.findSome? Arrival.failure? = none)
    {position : Nat} {byte : UInt8} :
    (∃ segment ∈ (taken offset stop pages.length order).segments,
      segment.byte? position = some byte) ↔
    ∃ page data, (page, .ok data) ∈ pages ∧ Covers offset stop position page data ∧
      data[position - page]? = some byte := by
  constructor
  · rintro ⟨segment, hs, hbyte⟩
    obtain ⟨page, data, hpage, _, rfl⟩ := (h.mem_segments_iff hw hp hn).mp hs
    exact ⟨page, data, hpage, byte?_part.mp hbyte⟩
  · rintro ⟨page, data, hpage, hcover, hbyte⟩
    refine ⟨_, (h.mem_segments_iff hw hp hn).mpr ⟨page, data, hpage, ⟨Nat.le_refl _, ?_⟩, rfl⟩,
      byte?_part.mpr ⟨hcover, hbyte⟩⟩
    exact hcover.1.trans_lt hcover.2

-- A page gives a range the bytes that it has of it. The slice that is taken for this starts at the
-- page or past it and ends within its bytes.
structure Gives (gathering : Gathering) (page : Nat) (data : Bytes) : Prop where
  starts : gathering.sliceStarts page data = true
  fits : gathering.sliceFits page data = true
  fills : gathering.Fills page data (gathering.add page data)

-- The reply is put together by sums of words that are never past the end of the range.
structure Joins (gathered : Gathering) (offset stop : UInt64) : Prop where
  within : ∀ joined,
    offset.toNat + (Reply.mk (gathered.reply.segments.take joined)).length ≤ stop.toNat
  joined : Word.join? offset gathered.segments = some gathered.reply.segments

-- Each byte that the pages have of a range is there once.
structure Keeps (gathered : Gathering) (offset stop : Nat)
    (pages : List (Nat × Except Error Bytes)) : Prop where
  apart : gathered.segments.Pairwise Segment.Before
  bytes : ∀ position byte,
    (∃ segment ∈ gathered.segments, segment.byte? position = some byte) ↔
    ∃ page data, (page, .ok data) ∈ pages ∧ Covers offset stop position page data ∧
      data[position - page]? = some byte

-- A page adds the bytes that it has of a range, also if it ends past the last of the words: its
-- end is cut off there, where no range reaches, and all else that is computed of words is exact.
-- So is the reply, whatever has come. If pages of one size have come, no byte is lost.
theorem bytes_of_parts :
    (∀ (gathering : Gathering) (page : Nat) (data : Bytes), gathering.stop < wordLimit →
      gathering.Gives page data) ∧
    (∀ (offset stop page : UInt64) (data : Bytes), data.length < wordLimit →
      Word.clip? offset stop page data =
        some (overlap { offset := offset.toNat, stop := stop.toNat } page.toNat data)) ∧
    (∀ (offset stop : UInt64) (count : Nat) (order : List Arrival), offset ≤ stop →
      (taken offset.toNat stop.toNat count order).Joins offset stop) ∧
    ∀ (size offset stop : Nat) (pages : List (Nat × Except Error Bytes)) (order : List Arrival),
      Tiled size pages → stop < wordLimit → order.Perm (arrivals pages) →
      (∀ found ∈ pages, found.2.isOk) →
      (taken offset stop pages.length order).Keeps offset stop pages := by
  refine ⟨fun gathering page data hw => ?_, fun offset stop page data hl => ?_,
    fun offset stop count order hr => ?_, fun size offset stop pages order h hw hp hok => ?_⟩
  · exact ⟨gathering.sliceStarts_eq_true page data, gathering.sliceFits_eq_true page data,
      fills_add hw page data⟩
  · exact Word.clip?_eq offset stop page hl
  · obtain ⟨⟨hoffset, hstop⟩, hfits⟩ :=
      fits_taken (UInt64.le_iff_toNat_le.mp hr) stop.toNat_lt count order
    generalize taken offset.toNat stop.toNat count order = gathered at hfits hoffset hstop ⊢
    refine ⟨fun joined => ?_, ?_⟩
    · have hle := gathered.reply.length_take_le joined
      have hend := hfits.reply_end_le
      omega
    · rw [Word.join?_eq stop.toNat_lt (hstop ▸ hfits.segments), reply, hoffset]
  · have hn := (findSome?_failure?_eq_none hp).mpr hok
    exact ⟨(h.gathers_all offset hw hp).ordered, fun _ _ => exists_byte?_iff h hw hp hn⟩

-- The second of these pages ends with the last byte that there can be, which no range reaches.
def lastPages : List (Nat × Except Error Bytes) :=
  [(18446744073709551608, .ok [1, 2, 3, 4]), (18446744073709551612, .ok [5, 6, 7, 8])]

def lastGathering : Gathering :=
  { offset := 18446744073709551610, stop := 18446744073709551615 }

theorem bytes_of_last_parts :
    18446744073709551615 < wordLimit ∧ Tiled 4 lastPages ∧
    lastGathering.Fills 18446744073709551612 [5, 6, 7, 8]
      (lastGathering.add 18446744073709551612 [5, 6, 7, 8]) ∧
    (lastGathering.add 18446744073709551612 [5, 6, 7, 8]).kept? 18446744073709551612 =
      some ⟨18446744073709551612, [5, 6, 7]⟩ ∧
    Word.clip? 18446744073709551610 18446744073709551615 18446744073709551612 [5, 6, 7, 8] =
      some (some ⟨18446744073709551612, [5, 6, 7]⟩) ∧
    Word.join? 18446744073709551610
        (taken 18446744073709551610 18446744073709551615 2 (arrivals lastPages).reverse).segments =
      some [⟨18446744073709551610, [3, 4]⟩, ⟨18446744073709551612, [5, 6, 7]⟩] ∧
    ∃ segment ∈
        (taken 18446744073709551610 18446744073709551615 2 (arrivals lastPages).reverse).segments,
      segment.byte? 18446744073709551614 = some 7 := by
  obtain ⟨hgives, hclip, hjoins, hkeeps⟩ := bytes_of_parts
  have hw : 18446744073709551615 < wordLimit := by decide
  have htiled : Tiled 4 lastPages := by
    refine ⟨by decide, by simp [lastPages], fun page data h => ?_⟩
    simp only [lastPages, List.mem_cons, Prod.mk.injEq, Except.ok.injEq, List.not_mem_nil,
      or_false] at h
    rcases h with ⟨_, rfl⟩ | ⟨_, rfl⟩ <;> decide
  have hadd := hgives lastGathering 18446744073709551612 [5, 6, 7, 8] hw
  have hjoin := hjoins 18446744073709551610 18446744073709551615 2 (arrivals lastPages).reverse
    (by decide)
  have hkept := hkeeps 4 18446744073709551610 18446744073709551615 lastPages _ htiled hw
    (List.reverse_perm _) (by simp [lastPages, Except.isOk, Except.toBool])
  refine ⟨hw, htiled, hadd.fills, by rfl, ?_, ?_, ?_⟩
  · exact hclip 18446744073709551610 18446744073709551615 18446744073709551612 [5, 6, 7, 8]
      (by decide)
  · exact hjoin.joined
  · exact (hkept.bytes 18446744073709551614 7).mpr
      ⟨18446744073709551612, [5, 6, 7, 8], by simp [lastPages], ⟨by decide, by decide⟩, rfl⟩

end Gathering

end PageCache
