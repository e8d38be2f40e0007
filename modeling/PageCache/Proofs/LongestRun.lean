import PageCache.Proofs.Arrivals
import Mathlib.Data.List.Nodup

namespace PageCache

section Runs

variable {offset stop size : Nat} {pages : List (Nat × Except Error Bytes)}

-- Whether a page with these bytes has the one at a position of the range.
def Covers (offset stop position page : Nat) (data : Bytes) : Prop :=
  max offset page ≤ position ∧ position < min stop (page + data.length)

-- All that one of the pages has of the range.
def IsPart (offset stop : Nat) (pages : List (Nat × Except Error Bytes)) (segment : Segment) :
    Prop :=
  ∃ page data, (page, .ok data) ∈ pages ∧ Covers offset stop segment.offset page data ∧
    segment = ⟨max offset page,
      data.slice (max offset page - page) (min stop (page + data.length) - page)⟩

-- The longest run of bytes from the offset on: part after part with no gap between them, up to
-- a byte that no page has of the range.
structure LongestRun (offset stop : Nat) (pages : List (Nat × Except Error Bytes))
    (reply : Reply) : Prop where
  chained : Chained offset reply.segments
  parts : ∀ segment ∈ reply.segments, IsPart offset stop pages segment
  longest : ∀ page data, (page, .ok data) ∈ pages →
    ¬ Covers offset stop (offset + reply.length) page data

-- Pages of one size: each is there once, begins at a multiple of the size and has no more bytes
-- than that.
structure Tiled (size : Nat) (pages : List (Nat × Except Error Bytes)) : Prop where
  nodup : (pages.map (·.1)).Nodup
  aligned : ∀ found ∈ pages, size ∣ found.1
  short : ∀ page data, (page, .ok data) ∈ pages → data.length ≤ size

theorem Tiled.add_le (h : Tiled size pages) {found next : Nat × Except Error Bytes}
    (hf : found ∈ pages) (hn : next ∈ pages) (hlt : found.1 < next.1) :
    found.1 + size ≤ next.1 := by
  by_contra hlast
  have hle := Nat.le_of_lt_add_of_dvd (Nat.lt_of_not_le hlast) (h.aligned next hn)
    (h.aligned found hf)
  omega

-- No byte is on two pages.
theorem Tiled.eq_of_covers (h : Tiled size pages) {position page other : Nat} {data bytes : Bytes}
    (hp : (page, .ok data) ∈ pages) (ho : (other, .ok bytes) ∈ pages)
    (hc : Covers offset stop position page data) (hd : Covers offset stop position other bytes) :
    page = other ∧ data = bytes := by
  have hshort := h.short page data hp
  have hshorter := h.short other bytes ho
  unfold Covers at hc hd
  have hpage : page = other := by
    rcases Nat.lt_trichotomy page other with hlt | he | hlt
    · have hle := h.add_le hp ho hlt
      omega
    · exact he
    · have hle := h.add_le ho hp hlt
      omega
  subst hpage
  have hfound := List.inj_on_of_nodup_map h.nodup hp ho rfl
  cases hfound
  exact ⟨rfl, rfl⟩

-- A byte of the range that a page has is due next as long as a run has not come to it.
theorem segments_unique (h : Tiled size pages) {segments others : List Segment} {next : Nat}
    (hc : Chained next segments) (hd : Chained next others)
    (hp : ∀ segment ∈ segments, IsPart offset stop pages segment)
    (hq : ∀ segment ∈ others, IsPart offset stop pages segment)
    (hl : ∀ page data, (page, .ok data) ∈ pages →
      ¬ Covers offset stop (next + Bytes.totalLength (segments.map (·.data))) page data)
    (hm : ∀ page data, (page, .ok data) ∈ pages →
      ¬ Covers offset stop (next + Bytes.totalLength (others.map (·.data))) page data) :
    segments = others := by
  induction segments generalizing others next with
  | nil =>
      cases others with
      | nil => rfl
      | cons other rest =>
          obtain ⟨page, data, hpage, hcover, _⟩ := hq other List.mem_cons_self
          exact absurd (hd.1 ▸ hcover) (hl page data hpage)
  | cons segment rest ih =>
      obtain ⟨page, data, hpage, hcover, hsegment⟩ := hp segment List.mem_cons_self
      cases others with
      | nil => exact absurd (hc.1 ▸ hcover) (hm page data hpage)
      | cons other later =>
          obtain ⟨found, bytes, hfound, hcovered, hother⟩ := hq other List.mem_cons_self
          obtain ⟨rfl, rfl⟩ := h.eq_of_covers hpage hfound (hc.1 ▸ hcover) (hd.1 ▸ hcovered)
          obtain rfl : segment = other := hsegment.trans hother.symm
          rw [List.forall_mem_cons] at hp hq
          simp only [List.map_cons, Bytes.totalLength, ← Nat.add_assoc] at hl hm
          rw [ih hc.2.2 hd.2.2 hp.2 hq.2 hl hm]

theorem LongestRun.unique (h : Tiled size pages) {reply other : Reply}
    (hr : LongestRun offset stop pages reply) (ho : LongestRun offset stop pages other) :
    other = reply := by
  obtain ⟨segments⟩ := reply
  obtain ⟨others⟩ := other
  exact congrArg Reply.mk
    (segments_unique h ho.chained hr.chained ho.parts hr.parts ho.longest hr.longest)

end Runs

-- What comes to a gathering of these pages, in one of the orders in which it may come.
def arrivals (pages : List (Nat × Except Error Bytes)) : List Arrival :=
  .lookedUp :: pages.map fun found => .settled found.1 found.2

section Arrivals

variable {offset stop size : Nat} {pages : List (Nat × Except Error Bytes)}

theorem part?_settled (hw : stop < wordLimit) (page : Nat) (data : Bytes) :
    (Arrival.settled page (.ok data)).part? offset stop =
      if max offset page < min stop (page + data.length) then
        some ⟨max offset page,
          data.slice (max offset page - page) (min stop (page + data.length) - page)⟩
      else none :=
  Gathering.overlap_eq hw

theorem isPart_iff (hw : stop < wordLimit) {segment : Segment} :
    IsPart offset stop pages segment ↔
      ∃ arrival ∈ arrivals pages, arrival.part? offset stop = some segment := by
  constructor
  · rintro ⟨page, data, hp, ⟨_, hlt⟩, rfl⟩
    refine ⟨.settled page (.ok data), List.mem_cons_of_mem _ (List.mem_map.mpr ⟨_, hp, rfl⟩), ?_⟩
    rw [part?_settled hw, if_pos hlt]
  · rintro ⟨arrival, ha, hpart⟩
    rcases List.mem_cons.mp ha with rfl | ha
    · cases hpart
    · obtain ⟨⟨page, error | data⟩, hp, rfl⟩ := List.mem_map.mp ha
      · cases hpart
      · rw [part?_settled hw, Option.ite_none_right_eq_some, Option.some.injEq] at hpart
        obtain ⟨hlt, rfl⟩ := hpart
        exact ⟨page, data, hp, ⟨Nat.le_refl _, hlt⟩, rfl⟩

theorem Tiled.before (h : Tiled size pages) (hw : stop < wordLimit)
    {found next : Nat × Except Error Bytes} {segment other : Segment} (hf : found ∈ pages)
    (hn : next ∈ pages) (hlt : found.1 < next.1)
    (hs : (Arrival.settled found.1 found.2).part? offset stop = some segment)
    (ho : (Arrival.settled next.1 next.2).part? offset stop = some other) :
    segment.Before other := by
  have hle := h.add_le hf hn hlt
  obtain ⟨page, error | data⟩ := found
  · cases hs
  obtain ⟨later, error | bytes⟩ := next
  · cases ho
  have hshort := h.short page data hf
  have hend := Gathering.length_overlap hw hs
  have hstart := Gathering.length_overlap hw ho
  simp only [Segment.Before] at hle ⊢
  omega

theorem Tiled.pairwise_arrivals (h : Tiled size pages) (hw : stop < wordLimit) :
    (arrivals pages).Pairwise (Arrival.Apart offset stop) := by
  rw [arrivals, List.pairwise_cons, List.pairwise_map]
  constructor
  · intro _ _ segment hs
    cases hs
  · refine (List.pairwise_map.mp h.nodup).imp_of_mem fun hf hn hne => ?_
    intro segment hs other ho
    rcases Nat.lt_or_gt_of_ne hne with hlt | hlt
    · exact .inl (h.before hw hf hn hlt hs ho)
    · exact .inr (h.before hw hn hf hlt ho hs)

theorem Tiled.gathers (h : Tiled size pages) (offset : Nat) (hw : stop < wordLimit)
    {order rest : List Arrival} (hp : (order ++ rest).Perm (arrivals pages)) :
    Gathering.Gathers offset stop pages.length order
      (Gathering.taken offset stop pages.length order) := by
  have hlen := hp.length_eq
  rw [List.length_append, arrivals, List.length_cons, List.length_map] at hlen
  apply Gathering.gathers_taken hw (by omega)
  exact (List.pairwise_append.mp
    (hp.symm.pairwise (h.pairwise_arrivals hw) Arrival.Apart.symm)).1

theorem Tiled.gathers_all (h : Tiled size pages) (offset : Nat) (hw : stop < wordLimit)
    {order : List Arrival} (hp : order.Perm (arrivals pages)) :
    Gathering.Gathers offset stop pages.length order
      (Gathering.taken offset stop pages.length order) := by
  have happend : (order ++ []).Perm (arrivals pages) := by rwa [List.append_nil]
  exact h.gathers offset hw happend

theorem Tiled.mem_segments_iff (h : Tiled size pages) (hw : stop < wordLimit)
    {order : List Arrival} (hp : order.Perm (arrivals pages))
    (hn : order.findSome? Arrival.failure? = none) {segment : Segment} :
    segment ∈ (Gathering.taken offset stop pages.length order).segments ↔
      IsPart offset stop pages segment := by
  have hg := h.gathers_all offset hw hp
  rw [hg.parts (hg.error.trans hn), isPart_iff hw]
  simp only [hp.mem_iff]

-- What follows without a gap ends at a byte that no page has: had one of them the byte, its part
-- of the range would be there and could neither end sooner nor begin later.
theorem Tiled.longestRun (h : Tiled size pages) (offset : Nat) (hw : stop < wordLimit)
    {order : List Arrival} (hp : order.Perm (arrivals pages))
    (hn : order.findSome? Arrival.failure? = none) :
    LongestRun offset stop pages (Gathering.taken offset stop pages.length order).reply := by
  have hg := h.gathers_all offset hw hp
  have hmem : ∀ segment, segment ∈ (Gathering.taken offset stop pages.length order).segments ↔
      IsPart offset stop pages segment := fun _ => h.mem_segments_iff hw hp hn
  generalize Gathering.taken offset stop pages.length order = gathering at hg hmem ⊢
  obtain ⟨rfl, rfl⟩ := hg.range
  refine ⟨Gathering.chained_contiguous (fun _ hs => hg.ne_nil hw hs) _, fun segment hs => ?_,
    fun page data hpage hcover => ?_⟩
  · exact (hmem segment).mp (Gathering.contiguous_subset _ _ hs)
  · have hlt : max gathering.offset page < min gathering.stop (page + data.length) :=
      hcover.1.trans_lt hcover.2
    have hpart := (hmem _).mpr ⟨page, data, hpage, ⟨Nat.le_refl _, hlt⟩, rfl⟩
    have hfrom : ∀ segment ∈ gathering.segments, gathering.offset ≤ segment.offset := by
      intro segment hs
      obtain ⟨_, _, _, _, rfl⟩ := (hmem segment).mp hs
      exact Nat.le_max_left _ _
    have hend := Gathering.le_contiguous_end_or_lt hg.ordered hfrom hpart
    rw [Bytes.length_slice] at hend
    unfold Covers at hcover
    unfold Gathering.reply Reply.length at hcover
    simp only at hend hcover
    omega

end Arrivals

section Results

variable {offset stop size : Nat} {pages : List (Nat × Except Error Bytes)} {order : List Arrival}

theorem findSome?_failure?_eq_none (hp : order.Perm (arrivals pages)) :
    order.findSome? Arrival.failure? = none ↔ ∀ found ∈ pages, found.2.isOk := by
  rw [List.findSome?_eq_none_iff]
  simp only [hp.mem_iff, arrivals, List.forall_mem_cons, List.forall_mem_map]
  constructor
  · rintro ⟨_, h⟩ ⟨page, error | data⟩ hf
    · cases h _ hf
    · rfl
  · intro h
    refine ⟨rfl, ?_⟩
    rintro ⟨page, error | data⟩ hf
    · cases h _ hf
    · rfl

theorem Tiled.result_taken (h : Tiled size pages) (hw : stop < wordLimit)
    (hp : order.Perm (arrivals pages)) :
    (Gathering.taken offset stop pages.length order).awaited = 0 ∧
    (Gathering.taken offset stop pages.length order).result =
      some (match order.findSome? Arrival.failure? with
        | some error => .error error
        | none => .ok (Gathering.taken offset stop pages.length order).reply) := by
  have hg := h.gathers_all offset hw hp
  have hcount := hg.awaited
  have hlen := hp.length_eq
  rw [arrivals, List.length_cons, List.length_map] at hlen
  have hdone : (Gathering.taken offset stop pages.length order).awaited = 0 := by omega
  rw [hg.result, if_pos hdone, Gathering.outcome, hg.error]
  exact ⟨hdone, rfl⟩

-- The last arrival makes the result, and none before it does.
theorem Tiled.result_take (h : Tiled size pages) (hw : stop < wordLimit) {first rest : List Arrival}
    {arrival : Arrival} (hp : (first ++ arrival :: rest).Perm (arrivals pages)) :
    let before := Gathering.taken offset stop pages.length first
    let received := before.receive arrival
    before.result = none ∧ received.result = none ∧ 0 < received.awaited ∧
      (received.arrive.result.isSome ↔ rest = []) := by
  intro before received
  have hlen := hp.length_eq
  rw [arrivals, List.length_append, List.length_cons, List.length_cons, List.length_map] at hlen
  have hbefore := h.gathers offset hw hp
  have hsplit : ((first ++ [arrival]) ++ rest).Perm (arrivals pages) := by
    rwa [List.append_assoc, List.singleton_append]
  have hafter := h.gathers offset hw hsplit
  rw [Gathering.taken_append] at hafter
  obtain ⟨hpos, hnone⟩ := hbefore.result_receive (by omega) arrival
  have hcount := hbefore.awaited
  have hleft := hafter.awaited
  rw [List.length_append, List.length_singleton] at hleft
  refine ⟨hbefore.result.trans (if_neg (by omega)), hnone, hpos, ?_⟩
  have hresult : received.arrive.result = _ := hafter.result
  rw [hresult, ← List.length_eq_zero_iff]
  split
  · simp only [Option.isSome_some, true_iff]
    omega
  · simp only [Option.isSome_none, Bool.false_eq_true, false_iff]
    omega

-- However the pages and the word that they are looked up come in, the last of them makes the
-- result, and nothing before it does. The reply is the same for all orders if no page failed.
-- If one did, the result is the error of the one that came first.
theorem result_of_arrivals (h : Tiled size pages) (offset : Nat) (hw : stop < wordLimit) :
    (∀ order : List Arrival, order.Perm (arrivals pages) →
      (∀ first arrival rest, order = first ++ arrival :: rest →
        let before := Gathering.taken offset stop pages.length first
        let received := before.receive arrival
        before.result = none ∧ received.result = none ∧ 0 < received.awaited ∧
        (received.arrive.result.isSome ↔ rest = [])) ∧
      (Gathering.taken offset stop pages.length order).awaited = 0) ∧
    ((∀ found ∈ pages, found.2.isOk) →
      ∃ whole, LongestRun offset stop pages whole ∧
        (∀ other, LongestRun offset stop pages other → other = whole) ∧
        ∀ order : List Arrival, order.Perm (arrivals pages) →
          (Gathering.taken offset stop pages.length order).result = some (.ok whole)) ∧
    ((¬ ∀ found ∈ pages, found.2.isOk) →
      ∀ order : List Arrival, order.Perm (arrivals pages) →
        ∃ error, order.findSome? Arrival.failure? = some error ∧
          (Gathering.taken offset stop pages.length order).result = some (.error error) ∧
          (Gathering.taken offset stop pages.length order).segments = []) := by
  refine ⟨fun order hp => ⟨?_, (h.result_taken hw hp).1⟩, fun hok => ?_, fun hfailed order hp => ?_⟩
  · rintro first arrival rest rfl
    exact h.result_take hw hp
  · have hnone := fun {order : List Arrival} (hp : order.Perm (arrivals pages)) =>
      (findSome?_failure?_eq_none hp).mpr hok
    have hwhole := h.longestRun offset hw (.refl _) (hnone (.refl _))
    refine ⟨_, hwhole, fun other ho => hwhole.unique h ho, fun order hp => ?_⟩
    have hreply := hwhole.unique h (h.longestRun offset hw hp (hnone hp))
    rw [(h.result_taken hw hp).2, hnone hp, hreply]
  · obtain ⟨error, herror⟩ : ∃ error, order.findSome? Arrival.failure? = some error :=
      Option.ne_none_iff_exists'.mp (mt (findSome?_failure?_eq_none hp).mp hfailed)
    have hg := h.gathers_all offset hw hp
    refine ⟨error, herror, ?_, hg.spoiled (hg.error.trans herror ▸ rfl)⟩
    rw [(h.result_taken hw hp).2, herror]

-- A page is four bytes long, and the second of these is a byte short.
def shortPages : List (Nat × Except Error Bytes) :=
  [(0, .ok [1, 2, 3, 4]), (4, .ok [5, 6, 7]), (8, .ok [9, 10])]

def failedPages : List (Nat × Except Error Bytes) :=
  [(0, .error .canceled), (4, .ok [5, 6, 7]), (8, .error .offsetOverflow)]

theorem result_of_backward_arrivals :
    Tiled 4 shortPages ∧ Tiled 4 failedPages ∧ 10 < wordLimit ∧
    LongestRun 2 10 shortPages ⟨[⟨2, [3, 4]⟩, ⟨4, [5, 6, 7]⟩]⟩ ∧
    (Gathering.taken 2 10 3 (arrivals shortPages).reverse).result =
      some (.ok ⟨[⟨2, [3, 4]⟩, ⟨4, [5, 6, 7]⟩]⟩) ∧
    (Gathering.taken 2 10 3 (arrivals failedPages).reverse).result =
      some (.error .offsetOverflow) := by
  have htiled : Tiled 4 shortPages := by
    refine ⟨by decide, by simp [shortPages], fun page data h => ?_⟩
    simp only [shortPages, List.mem_cons, Prod.mk.injEq, Except.ok.injEq, List.not_mem_nil,
      or_false] at h
    rcases h with ⟨_, rfl⟩ | ⟨_, rfl⟩ | ⟨_, rfl⟩ <;> decide
  have hfailed : Tiled 4 failedPages := by
    refine ⟨by decide, by simp [failedPages], fun page data h => ?_⟩
    simp only [failedPages, List.mem_cons, Prod.mk.injEq, reduceCtorEq, and_false, false_or,
      Except.ok.injEq, List.not_mem_nil, or_false] at h
    obtain ⟨_, rfl⟩ := h
    decide
  have hw : 10 < wordLimit := by decide
  obtain ⟨_, hsame, _⟩ := result_of_arrivals htiled 2 hw
  obtain ⟨_, _, hfirst⟩ := result_of_arrivals hfailed 2 hw
  obtain ⟨whole, hwhole, _, hresult⟩ := hsame (by simp [shortPages, Except.isOk, Except.toBool])
  obtain ⟨error, herror, hspoiled, _⟩ :=
    hfirst (by simp [failedPages, Except.isOk, Except.toBool]) _ (List.reverse_perm _)
  cases herror
  have hreply := hresult _ (List.reverse_perm _)
  have hvalue : (Gathering.taken 2 10 3 (arrivals shortPages).reverse).result =
      some (.ok ⟨[⟨2, [3, 4]⟩, ⟨4, [5, 6, 7]⟩]⟩) := by rfl
  obtain rfl : whole = _ := by
    simpa only [Option.some.injEq, Except.ok.injEq] using hreply.symm.trans hvalue
  exact ⟨htiled, hfailed, hw, hwhole, hvalue, hspoiled⟩

end Results

end PageCache
