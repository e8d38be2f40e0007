import PageCache.Reply.Cursor
import Mathlib.Data.List.Induction
import Mathlib.Data.Nat.Digits.Defs

namespace PageCache

namespace Bytes

theorem littleEndian_eq_ofDigits (data : Bytes) :
    data.littleEndian = Nat.ofDigits 256 (data.map UInt8.toNat) := by
  induction data with
  | nil => rfl
  | cons byte rest ih => rw [littleEndian, ih, List.map_cons, Nat.ofDigits_cons]

theorem bigEndian_eq_foldl (data : Bytes) :
    data.bigEndian = data.foldl (fun number byte => 256 * number + byte.toNat) 0 := by
  induction data using List.reverseRecOn with
  | nil => rfl
  | append_singleton data byte ih =>
      rw [bigEndian, List.reverse_concat, littleEndian, ← bigEndian, ih, List.foldl_append,
        Nat.add_comm]
      rfl

theorem littleEndian_lt (data : Bytes) : data.littleEndian < 256 ^ data.length := by
  rw [littleEndian_eq_ofDigits, ← List.length_map UInt8.toNat]
  refine Nat.ofDigits_lt_base_pow_length (by decide) fun digit hd => ?_
  obtain ⟨byte, _, rfl⟩ := List.mem_map.mp hd
  exact byte.toNat_lt

theorem bigEndian_lt (data : Bytes) : data.bigEndian < 256 ^ data.length := by
  rw [bigEndian, ← List.length_reverse]
  exact littleEndian_lt data.reverse

theorem signed_eq_bmod {data : Bytes} {number : Nat} (h : number < 256 ^ data.length) :
    data.signed number = Int.bmod number (256 ^ data.length) := by
  have hsize : Nat.pow 256 data.length = 256 ^ data.length := rfl
  rw [signed, hsize, Int.bmod]
  generalize 256 ^ data.length = size at h
  have hmod : (number : Int) % size = number :=
    Int.emod_eq_of_lt (Int.natCast_nonneg _) (by exact_mod_cast h)
  simp only [hmod]
  split <;> split <;> omega

end Bytes

namespace Cursor

section Chunks

variable {chunks : List Bytes}

theorem ne_nil_of_mem_dropBytes (h : ∀ chunk ∈ chunks, chunk ≠ []) {count : Nat} {chunk : Bytes}
    (hc : chunk ∈ dropBytes count chunks) : chunk ≠ [] := by
  induction chunks generalizing count with
  | nil => cases hc
  | cons first rest ih =>
      rw [List.forall_mem_cons] at h
      rw [dropBytes] at hc
      split at hc
      · rename_i hlt
        rcases List.mem_cons.mp hc with rfl | hc
        · exact mt List.drop_eq_nil_iff.mp (Nat.not_le.mpr hlt)
        · exact h.2 chunk hc
      · exact ih h.2 hc

theorem dropBytes_dropBytes (count more : Nat) (chunks : List Bytes) :
    dropBytes more (dropBytes count chunks) = dropBytes (count + more) chunks := by
  induction chunks generalizing count with
  | nil => rfl
  | cons first rest ih =>
      by_cases hlt : count < first.length
      · simp only [dropBytes, if_pos hlt, List.length_drop, List.drop_drop]
        by_cases hmore : count + more < first.length
        · rw [if_pos hmore, if_pos (by omega)]
        · rw [if_neg hmore, if_neg (by omega)]
          congr 1
          omega
      · simp only [dropBytes, if_neg hlt, ih]
        rw [if_neg (by omega)]
        congr 1
        omega

end Chunks

-- The cursor has these bytes still to come, in chunks that are not empty.
structure Holds (cursor : Cursor) (bytes : Bytes) : Prop where
  chunks : ∀ chunk ∈ cursor.chunks, chunk ≠ []
  flatten : cursor.chunks.flatten = bytes
  remaining : cursor.remaining = bytes.length

variable {cursor : Cursor} {bytes : Bytes}

theorem holds_ofChunks (chunks : List Bytes) : (ofChunks chunks).Holds chunks.flatten := by
  have hflatten : (chunks.filter (!·.isEmpty)).flatten = chunks.flatten :=
    List.flatten_filter_not_isEmpty
  refine ⟨fun chunk hc => ?_, hflatten, ?_⟩
  · simpa using (List.mem_filter.mp hc).2
  · rw [← hflatten, Bytes.length_flatten]
    rfl

theorem Holds.chunk_prefix (h : cursor.Holds bytes) : cursor.chunk <+: bytes := by
  obtain ⟨chunks, remaining⟩ := cursor
  obtain ⟨_, rfl, _⟩ := h
  cases chunks with
  | nil => exact List.nil_prefix
  | cons first rest => exact List.prefix_append first rest.flatten

theorem Holds.chunk_eq_nil_iff (h : cursor.Holds bytes) : cursor.chunk = [] ↔ bytes = [] := by
  constructor
  · intro hc
    obtain ⟨chunks, remaining⟩ := cursor
    cases chunks with
    | nil => exact h.flatten.symm
    | cons first rest => exact absurd hc (h.chunks first List.mem_cons_self)
  · rintro rfl
    exact List.prefix_nil.mp h.chunk_prefix

theorem Holds.skip (h : cursor.Holds bytes) (count : Nat) :
    (cursor.skip count).Holds (bytes.drop count) := by
  refine ⟨fun chunk hc => ne_nil_of_mem_dropBytes h.chunks hc, ?_, ?_⟩
  · rw [Cursor.skip, flatten_dropBytes, h.flatten]
  · rw [Cursor.skip, h.remaining, List.length_drop]

theorem Holds.read (h : cursor.Holds bytes) (count : Nat) :
    cursor.read count =
      if count ≤ bytes.length then .ok (bytes.take count, cursor.skip count)
      else .error ⟨bytes.length, count⟩ := by
  rw [Cursor.read, h.remaining, takeBytes_eq, h.flatten]

theorem skip_skip (cursor : Cursor) (count more : Nat) :
    (cursor.skip count).skip more = cursor.skip (count + more) := by
  simp only [Cursor.skip, dropBytes_dropBytes, Nat.sub_sub]

-- Some bytes are copied by no more than a look at the chunk and a skip, as often as it takes.
inductive Copies : Cursor → Nat → Bytes → Cursor → Prop where
  | done (cursor : Cursor) : Copies cursor 0 [] cursor
  | next {cursor last : Cursor} {count : Nat} {bytes : Bytes} (h : 0 < count)
      (later : Copies (cursor.skip (cursor.chunk.take count).length)
        (count - (cursor.chunk.take count).length) bytes last) :
      Copies cursor count (cursor.chunk.take count ++ bytes) last

theorem Copies.unique {last other : Cursor} {count : Nat} {found : Bytes}
    (h : Copies cursor count bytes last) (ho : Copies cursor count found other) :
    found = bytes ∧ other = last := by
  induction h generalizing found other with
  | done cursor =>
      cases ho with
      | done => exact ⟨rfl, rfl⟩
      | next hpos _ => exact absurd hpos (Nat.lt_irrefl 0)
  | next hpos _ ih =>
      cases ho with
      | done => exact absurd hpos (Nat.lt_irrefl 0)
      | next _ later =>
          obtain ⟨rfl, rfl⟩ := ih later
          exact ⟨rfl, rfl⟩

theorem Holds.skip_zero (h : cursor.Holds bytes) : cursor.skip 0 = cursor := by
  obtain ⟨chunks, remaining⟩ := cursor
  cases chunks with
  | nil => rfl
  | cons first rest =>
      have hpos : 0 < first.length := List.length_pos_iff.mpr (h.chunks first List.mem_cons_self)
      simp only [Cursor.skip, dropBytes, if_pos hpos, List.drop_zero, Nat.sub_zero]

-- As long as bytes remain there are some in the chunk, so each look at it brings the copy on.
theorem Holds.copies (h : cursor.Holds bytes) {count : Nat} (hc : count ≤ bytes.length) :
    Copies cursor count (bytes.take count) (cursor.skip count) := by
  induction count using Nat.strong_induction_on generalizing cursor bytes with
  | _ count ih =>
    rcases Nat.eq_zero_or_pos count with rfl | hpos
    · rw [h.skip_zero]
      exact .done cursor
    · have hchunk : 0 < cursor.chunk.length := by
        rw [List.length_pos_iff, Ne, h.chunk_eq_nil_iff, ← List.length_eq_zero_iff]
        omega
      have hpart : cursor.chunk.take count <+: bytes :=
        (List.take_prefix count cursor.chunk).trans h.chunk_prefix
      have hlen : (cursor.chunk.take count).length = min count cursor.chunk.length :=
        List.length_take
      generalize hp : (cursor.chunk.take count).length = length at hlen
      have hrest := ih (count - length) (by omega) (h.skip length)
        (by rw [List.length_drop]; omega)
      rw [skip_skip, Nat.add_sub_cancel' (by omega)] at hrest
      have hbytes : bytes.take count =
          cursor.chunk.take count ++ (bytes.drop length).take (count - length) := by
        rw [List.prefix_iff_eq_take.mp hpart, hp, ← List.take_add, Nat.add_sub_cancel' (by omega)]
      rw [hbytes]
      exact .next hpos (hp ▸ hrest)

-- To read is to see that enough bytes remain and then to copy them.
theorem Holds.read_eq_ok_iff (h : cursor.Holds bytes) {count : Nat} {found : Bytes}
    {last : Cursor} :
    cursor.read count = .ok (found, last) ↔
      count ≤ cursor.remaining ∧ Copies cursor count found last := by
  rw [h.read, h.remaining]
  constructor
  · intro hr
    split at hr
    · rename_i hc
      cases hr
      exact ⟨hc, h.copies hc⟩
    · cases hr
  · rintro ⟨hc, hcopies⟩
    obtain ⟨rfl, rfl⟩ := (h.copies hc).unique hcopies
    exact if_pos hc

-- How many of the bytes that are left an operation uses up.
def Op.used (left : Bytes) : Op → Nat
  | .remaining | .hasRemaining | .chunk => 0
  | .skip count => min count left.length
  | .take count | .bigEndian count | .littleEndian count | .signedBigEndian count
  | .signedLittleEndian count => if count ≤ left.length then count else 0

-- What is left of a string of bytes after some operations.
def Op.left (bytes : Bytes) (ops : List Op) : Bytes :=
  ops.foldl (fun left op => left.drop (op.used left)) bytes

-- The numbers that bytes are the digits of, the most significant or the least significant first.
def ofBig (bytes : Bytes) : Nat := bytes.foldl (fun number byte => 256 * number + byte.toNat) 0

def ofLittle (bytes : Bytes) : Nat := Nat.ofDigits 256 (bytes.map UInt8.toNat)

-- The next bytes, decoded, or the shortage of them.
def next (left : Bytes) (count : Nat) (decode : Bytes → Value) : Except Shortage Value :=
  if count ≤ left.length then .ok (decode (left.take count)) else .error ⟨left.length, count⟩

-- What an operation gives when these bytes are left.
def Op.Gives (left : Bytes) : Op → Except Shortage Value → Prop
  | .remaining, found => found = .ok (.number left.length)
  | .hasRemaining, found => found = .ok (.flag (!left.isEmpty))
  | .chunk, found =>
      ∃ chunk, found = .ok (.data chunk) ∧ chunk <+: left ∧ (chunk = [] ↔ left = [])
  | .skip _, found => found = .ok .done
  | .take count, found => found = next left count .data
  | .bigEndian width, found => found = next left width fun bytes => .number (ofBig bytes)
  | .littleEndian width, found => found = next left width fun bytes => .number (ofLittle bytes)
  | .signedBigEndian width, found =>
      found = next left width fun bytes => .integer (Int.bmod (ofBig bytes) (256 ^ bytes.length))
  | .signedLittleEndian width, found =>
      found =
        next left width fun bytes => .integer (Int.bmod (ofLittle bytes) (256 ^ bytes.length))

-- The cursor that an operation leaves behind. A shortage leaves it as it was.
def after (cursor : Cursor) (op : Op) : Cursor :=
  match cursor.step op with
  | .ok (_, rest) => rest
  | .error _ => cursor

-- An operation that reads gives the next bytes and uses them up, or nothing of either.
theorem Holds.decode_gives (h : cursor.Holds bytes) (count : Nat) (value : Bytes → Value) :
    (cursor.decode count value).map (·.1) = next bytes count value ∧
    (match cursor.decode count value with
      | .ok (_, rest) => rest
      | .error _ => cursor).Holds (bytes.drop (if count ≤ bytes.length then count else 0)) := by
  simp only [decode, h.read, next]
  split
  · exact ⟨rfl, h.skip count⟩
  · exact ⟨rfl, h⟩

theorem Holds.step_gives (h : cursor.Holds bytes) (op : Op) :
    op.Gives bytes ((cursor.step op).map (·.1)) ∧
    (cursor.after op).Holds (bytes.drop (op.used bytes)) := by
  cases op with
  | remaining =>
      refine ⟨?_, h⟩
      rw [Op.Gives, step, h.remaining]
      rfl
  | hasRemaining =>
      refine ⟨?_, h⟩
      rw [Op.Gives, step, h.remaining]
      cases bytes <;> rfl
  | chunk => exact ⟨⟨cursor.chunk, rfl, h.chunk_prefix, h.chunk_eq_nil_iff⟩, h⟩
  | skip count =>
      refine ⟨rfl, ?_⟩
      have hdrop : bytes.drop (min count bytes.length) = bytes.drop count := by
        rcases Nat.le_total count bytes.length with hle | hle
        · rw [Nat.min_eq_left hle]
        · rw [Nat.min_eq_right hle, List.drop_length, List.drop_eq_nil_of_le hle]
      rw [Op.used, hdrop]
      exact h.skip count
  | take count => exact h.decode_gives count .data
  | bigEndian width =>
      obtain ⟨hgives, hleft⟩ := h.decode_gives width fun bytes => .number bytes.bigEndian
      refine ⟨?_, hleft⟩
      simp only [Op.Gives, ofBig, ← Bytes.bigEndian_eq_foldl]
      exact hgives
  | littleEndian width =>
      obtain ⟨hgives, hleft⟩ := h.decode_gives width fun bytes => .number bytes.littleEndian
      refine ⟨?_, hleft⟩
      simp only [Op.Gives, ofLittle, ← Bytes.littleEndian_eq_ofDigits]
      exact hgives
  | signedBigEndian width =>
      obtain ⟨hgives, hleft⟩ := h.decode_gives width fun bytes =>
        .integer (bytes.signed bytes.bigEndian)
      refine ⟨?_, hleft⟩
      simp only [Op.Gives, ofBig, ← Bytes.bigEndian_eq_foldl,
        ← Bytes.signed_eq_bmod (Bytes.bigEndian_lt _)]
      exact hgives
  | signedLittleEndian width =>
      obtain ⟨hgives, hleft⟩ := h.decode_gives width fun bytes =>
        .integer (bytes.signed bytes.littleEndian)
      refine ⟨?_, hleft⟩
      simp only [Op.Gives, ofLittle, ← Bytes.littleEndian_eq_ofDigits,
        ← Bytes.signed_eq_bmod (Bytes.littleEndian_lt _)]
      exact hgives

theorem Holds.foldl_after (h : cursor.Holds bytes) (ops : List Op) :
    (ops.foldl Cursor.after cursor).Holds (Op.left bytes ops) := by
  induction ops generalizing cursor bytes with
  | nil => exact h
  | cons op ops ih => exact ih (h.step_gives op).2

-- The values of a list of operations are those of its operations, each on the cursor that the
-- ones before it leave behind.
theorem eq_step_of_trace {ops : List Op} {index : Nat} {found : Except Shortage (Value × Cursor)}
    (h : (cursor.trace ops)[index]? = some found) :
    ∃ op, ops[index]? = some op ∧ found = ((ops.take index).foldl Cursor.after cursor).step op := by
  induction ops generalizing cursor index with
  | nil => cases h
  | cons op ops ih =>
      cases hstep : cursor.step op with
      | error shortage =>
          simp only [trace, hstep] at h
          cases index with
          | zero => exact ⟨op, rfl, (Option.some.inj h).symm.trans hstep.symm⟩
          | succ index => cases h
      | ok stepped =>
          simp only [trace, hstep] at h
          cases index with
          | zero => exact ⟨op, rfl, (Option.some.inj h).symm.trans hstep.symm⟩
          | succ index =>
              obtain ⟨later, hlater, hfound⟩ := ih h
              refine ⟨later, hlater, ?_⟩
              rw [hfound, List.take_succ_cons, List.foldl_cons, Cursor.after, hstep]

-- What can be seen of a cursor is the string of bytes that it has left, however they are cut into
-- chunks. It shows a beginning of the string, an operation gives what the string gives, and to
-- read takes no more than to look at chunks and to skip them.
structure Flat (cursor : Cursor) (left : Bytes) : Prop where
  remaining : cursor.remaining = left.length
  chunk : cursor.chunk <+: left
  shown : cursor.chunk = [] ↔ left = []
  gives : ∀ op : Op, op.Gives left ((cursor.step op).map (·.1))
  copies : ∀ count found last, cursor.read count = .ok (found, last) ↔
    count ≤ cursor.remaining ∧ Copies cursor count found last

theorem Holds.flat (h : cursor.Holds bytes) : cursor.Flat bytes where
  remaining := h.remaining
  chunk := h.chunk_prefix
  shown := h.chunk_eq_nil_iff
  gives op := (h.step_gives op).1
  copies _ _ _ := h.read_eq_ok_iff

-- To read a reply to its end gives all its bytes.
theorem read_reply (reply : Reply) :
    ∃ last, reply.cursor.read reply.length = .ok (reply.bytes, last) ∧ last.remaining = 0 := by
  have hreply : reply.cursor.Holds reply.bytes := holds_ofChunks _
  refine ⟨reply.cursor.skip reply.length, ?_, ?_⟩
  · rw [hreply.read, reply.length_bytes, if_pos (Nat.le_refl _), List.take_of_length_le]
    exact Nat.le_of_eq reply.length_bytes
  · rw [(hreply.skip reply.length).remaining, List.length_drop, reply.length_bytes, Nat.sub_self]

-- A cursor over chunks is one flat string of bytes, of which operations leave a part. The values
-- that they give on the way are those of what was left then, and a reply is the string of its
-- bytes.
theorem flat_of_chunks (chunks : List Bytes) (ops : List Op) :
    (ops.foldl Cursor.after (ofChunks chunks)).Flat (Op.left chunks.flatten ops) ∧
    (∀ index found, ((ofChunks chunks).trace ops)[index]? = some found →
      ∃ op : Op, ops[index]? = some op ∧
        op.Gives (Op.left chunks.flatten (ops.take index)) (found.map (·.1))) ∧
    ∀ reply : Reply, ∃ last,
      reply.cursor.read reply.length = .ok (reply.bytes, last) ∧ last.remaining = 0 := by
  have hchunks := holds_ofChunks chunks
  refine ⟨(hchunks.foldl_after ops).flat, fun index found h => ?_, read_reply⟩
  obtain ⟨op, hop, rfl⟩ := eq_step_of_trace h
  exact ⟨op, hop, ((hchunks.foldl_after (ops.take index)).step_gives op).1⟩

-- The number is read from the end of one chunk and the start of another. More is wanted then than
-- there is.
theorem flat_of_uneven_chunks :
    let cursor := (ofChunks [[1, 2], [], [3, 4, 5]]).after (.skip 1)
    ((ofChunks [[1, 2], [], [3, 4, 5]]).trace [.skip 1, .bigEndian 2, .take 3])[1]? =
      some (.ok (.number 515, ⟨[[4, 5]], 2⟩)) ∧
    ((ofChunks [[1, 2], [], [3, 4, 5]]).trace [.skip 1, .bigEndian 2, .take 3])[2]? =
      some (.error ⟨2, 3⟩) ∧
    Op.Gives [2, 3, 4, 5] (.bigEndian 2) (.ok (.number 515)) ∧
    Op.Gives [4, 5] (.take 3) (.error ⟨2, 3⟩) ∧
    2 ≤ cursor.remaining ∧ Copies cursor 2 [2, 3] ⟨[[4, 5]], 2⟩ := by
  intro cursor
  obtain ⟨hflat, _⟩ := flat_of_chunks [[1, 2], [], [3, 4, 5]] [.skip 1]
  obtain ⟨_, htrace, _⟩ :=
    flat_of_chunks [[1, 2], [], [3, 4, 5]] [.skip 1, .bigEndian 2, .take 3]
  obtain ⟨_, hnumber, hgives⟩ := htrace 1 (.ok (.number 515, ⟨[[4, 5]], 2⟩)) rfl
  obtain ⟨_, htake, hshort⟩ := htrace 2 (.error ⟨2, 3⟩) rfl
  cases hnumber
  cases htake
  exact ⟨rfl, rfl, hgives, hshort, (hflat.copies 2 [2, 3] ⟨[[4, 5]], 2⟩).mp rfl⟩

-- Two bytes of two chunks, of which the number is a negative one.
example : (ofChunks [[255], [254]]).step (.signedBigEndian 2) = .ok (.integer (-2), ⟨[], 0⟩) :=
  rfl

end Cursor

end PageCache
