import PageCache.Proofs.ReadOutcome

namespace PageCache

-- An answer that succeeds holds what the file has at the place.
def Exact (contents : FileId → Bytes) (call : Call) (answer : Except Error Fetched) : Prop :=
  ∀ fetched, answer = .ok fetched →
    fetched.bytes = (contents call.file).slice call.offset (call.offset + call.length)

theorem Exact.outcome {contents : FileId → Bytes} {call : Call} {answer : Except Error Fetched}
    (h : Exact contents call answer) {data : Bytes} {attributes : Attributes}
    (ho : call.outcome answer = .ok (data, attributes)) :
    data = (contents call.file).slice call.offset (call.offset + call.length) := by
  obtain ⟨fetched, rfl, _, rfl, _⟩ := Call.outcome_eq_ok_iff.mp ho
  exact h fetched rfl

namespace Memory

theorem flatten_segments (segmentSize : Option Nat) (data : Bytes) :
    (segments segmentSize data).flatten = data := by
  unfold segments
  split
  · exact flatten_pieces _ data
  · cases data <;> simp

-- The bytes of a file, none if there is no such file.
def bytesOf (files : Assoc FileId StoredFile) (file : FileId) : Bytes :=
  match files.get? file with
  | none => []
  | some stored => stored.data

theorem exact_answer {memory : Memory} (ho : memory.overread = 0) (call : Call) :
    Exact (bytesOf memory.files) call (memory.answer call).2 := by
  intro fetched hf
  unfold answer at hf
  simp only at hf
  split at hf
  · cases hf
  · split at hf
    · cases hf
    · rename_i stored hstored
      split at hf
      · cases hf
        simp only [Fetched.bytes, flatten_segments, bytesOf, ho, hstored, Nat.add_zero,
          window_eq stored.fits]
      · cases hf

theorem files_answer (memory : Memory) (call : Call) :
    (memory.answer call).1.files = memory.files ∧
    (memory.answer call).1.overread = memory.overread := by
  unfold answer
  simp only
  split
  · exact ⟨rfl, rfl⟩
  · split
    · exact ⟨rfl, rfl⟩
    · split <;> exact ⟨rfl, rfl⟩

-- Memory serves the files that it has, as long as they are not replaced and it gives no
-- more than it is asked for.
def serving (files : Assoc FileId StoredFile) (asks : Call → Prop) :
    backend.Serving asks (Exact (bytesOf files)) where
  good state := state.2.files = files ∧ state.2.overread = 0
  held _ _ := True
  start _ _ hg _ := ⟨hg, trivial⟩
  poll state call gate hg _ _ := by
    obtain ⟨rfl, ho⟩ := hg
    obtain ⟨hfiles, hover⟩ := files_answer state.2 call
    simp only [backend]
    split
    · refine ⟨⟨hfiles, hover.trans ho⟩, fun _ _ => trivial, fun answer ha => ?_⟩
      cases ha
      exact exact_answer ho call
    · exact ⟨⟨rfl, ho⟩, fun _ _ => trivial, fun _ ha => nomatch ha⟩

end Memory

namespace Mount

variable {σ τ : Type}

theorem read_zero (backend : Backend σ τ) (mount : Mount σ τ) (file : FileId) (offset : Nat)
    (turns : Turns) : mount.read backend file offset 0 turns = (mount, .returned (.ok {})) := rfl

theorem read_overflow (backend : Backend σ τ) (mount : Mount σ τ) (file : FileId)
    {offset length : Nat} (turns : Turns) (hl : 0 < length)
    (hw : ¬ offset + length < wordLimit) :
    mount.read backend file offset length turns = (mount, .returned (.error .offsetOverflow)) := by
  unfold read
  rw [if_neg (Nat.ne_of_gt hl), if_neg hw]

-- What has been started and has returned with bytes lies within the 64-bit offsets.
theorem Returns.ok_cases {backend : Backend σ τ} {mount final : Mount σ τ} {file : FileId}
    {offset length : Nat} {acts : List (Act σ)} {reply : Reply}
    (h : Returns backend mount file offset length acts (.ok reply) final) :
    length = 0 ∧ reply = {} ∨ 0 < length ∧ offset + length < wordLimit := by
  rcases Nat.eq_zero_or_pos length with rfl | hl
  · rcases h with ⟨turns, ⟨_, he⟩ | ⟨id, _, he, _⟩⟩
    · rw [read_zero] at he
      cases he
      exact .inl ⟨rfl, rfl⟩
    · rw [read_zero] at he
      cases he
  · refine .inr ⟨hl, ?_⟩
    by_contra hw
    rcases h with ⟨turns, ⟨_, he⟩ | ⟨id, _, he, _⟩⟩
    · rw [read_overflow backend mount file turns hl hw] at he
      cases he
    · rw [read_overflow backend mount file turns hl hw] at he
      cases he

-- A reply is made of pages, each of them from a fetch. If those hold what the file has at their
-- places, then so does the reply.
theorem Returns.bytes_of_pages {backend : Backend σ τ} {mount final : Mount σ τ}
    {plans : ReadId → Plan} {file : FileId} {offset length : Nat} {acts : List (Act σ)}
    {reply : Reply} (h : Returns backend mount file offset length acts (.ok reply) final)
    (hs : mount.pool.Steady plans) (contents : Bytes)
    (hx : ∀ page fetch data attributes, mount.pool.Sources file page fetch →
      final.pool.call? fetch = some ⟨file, page, mount.pool.limits.pageSize⟩ →
      final.pool.outcome? fetch = some (.ok (data, attributes)) →
        data = contents.slice page (page + mount.pool.limits.pageSize)) :
    reply.bytes = contents.slice offset (offset + length) ∧ Chained offset reply.segments := by
  rcases h.ok_cases with ⟨rfl, rfl⟩ | ⟨hl, hw⟩
  · exact ⟨(Bytes.slice_eq_nil (.inl (Nat.le_refl _))).symm, trivial⟩
  · obtain ⟨hspan, _, hsegments⟩ := h.reply hs hl hw
    have hexact : ∀ found ∈ (mount.pool.plan file offset (offset + length)).pages
        final.pool.outcome?,
        found.2 = contents.slice found.1 (found.1 + mount.pool.limits.pageSize) := by
      intro found hm
      obtain ⟨part, hp, he⟩ := List.mem_filterMap.mp hm
      obtain ⟨fetch, data, attributes, hsource, hc, ho, hdata⟩ := h.answered hs hl hw hp
      rw [hdata, Option.map_some, Option.some.injEq] at he
      subst he
      exact hx part.page fetch data attributes hsource hc ho
    have hlen : ∀ found ∈ (mount.pool.plan file offset (offset + length)).pages
        final.pool.outcome?, found.2.length ≤ mount.pool.limits.pageSize := by
      intro found hm
      rw [hexact found hm, Bytes.length_slice]
      omega
    have hlt : offset < offset + length := Nat.lt_add_of_pos_right hl
    refine ⟨?_, hsegments ▸ Gathering.chained_overlaps hw offset⟩
    rw [Reply.bytes, hsegments, contiguous_span _ hlt hw hspan hlen,
      bytes_span _ hlt contents hspan hexact]

-- Whatever happens in between, a read that succeeds returns what the file holds.
theorem bytes_of_read {backend : Backend σ τ} {limits : Limits} {contents : FileId → Bytes}
    (serving : backend.Serving limits.Asks (Exact contents)) {storage : σ}
    (hg : serving.good storage) {before after : List (Act σ)}
    (hb : ∀ act ∈ before, serving.Allows act) (ha : ∀ act ∈ after, serving.Allows act)
    {file : FileId} {offset length : Nat} {reply : Reply} {final : Mount σ τ}
    (h : Returns backend (run backend (create limits storage) before) file offset length after
      (.ok reply) final) :
    reply.bytes = (contents file).slice offset (offset + length) ∧
    reply.length = ((contents file).slice offset (offset + length)).length ∧
    Chained offset reply.segments := by
  obtain ⟨plans, hs, hlimits⟩ := exists_steady backend limits storage before
  have hserved := h.served (served_run serving hg hb) hlimits hs ha
  obtain ⟨hbytes, hchain⟩ := h.bytes_of_pages hs (contents file)
    fun page fetch data attributes _ hc ho => by
      obtain ⟨_, answer, hgives, he⟩ := hserved.outcome hc ho
      exact hgives.outcome he.symm
  exact ⟨hbytes, by rw [← Reply.length_bytes, hbytes], hchain⟩

theorem allows_untilReleased : ∀ act ∈ untilReleased,
    (Memory.serving gatedStorage.2.files fourByteLimits.Asks).Allows act := by
  simp only [untilReleased, List.forall_mem_cons]
  exact ⟨trivial, trivial, fun _ hg => hg, fun _ hm => (List.not_mem_nil hm).elim⟩

theorem bytes_of_gated_read :
    (Memory.serving gatedStorage.2.files fourByteLimits.Asks).good gatedStorage ∧
    (∀ act ∈ untilReleased, (Memory.serving gatedStorage.2.files fourByteLimits.Asks).Allows act) ∧
    Returns Memory.backend (run Memory.backend gatedMount []) 0 1 8 untilReleased
      (.ok ⟨[⟨1, [2, 3, 4]⟩, ⟨4, [5, 6, 7, 8]⟩, ⟨8, [9]⟩]⟩) gatedFinal ∧
    Reply.bytes ⟨[⟨1, [2, 3, 4]⟩, ⟨4, [5, 6, 7, 8]⟩, ⟨8, [9]⟩]⟩ =
      (Memory.bytesOf gatedStorage.2.files 0).slice 1 9 ∧
    Chained 1 [⟨1, [2, 3, 4]⟩, ⟨4, [5, 6, 7, 8]⟩, ⟨8, [9]⟩] := by
  have hr : Returns Memory.backend (run Memory.backend gatedMount []) 0 1 8 untilReleased
      (.ok ⟨[⟨1, [2, 3, 4]⟩, ⟨4, [5, 6, 7, 8]⟩, ⟨8, [9]⟩]⟩) gatedFinal :=
    ⟨.all, .inr ⟨0, .all, rfl, rfl⟩⟩
  obtain ⟨hbytes, _, hchain⟩ :=
    bytes_of_read (Memory.serving gatedStorage.2.files fourByteLimits.Asks)
      (⟨rfl, rfl⟩ : _ ∧ gatedStorage.2.overread = 0) (fun _ hm => (List.not_mem_nil hm).elim)
      allows_untilReleased hr
  exact ⟨⟨rfl, rfl⟩, allows_untilReleased, hr, hbytes, hchain⟩

end Mount

end PageCache
