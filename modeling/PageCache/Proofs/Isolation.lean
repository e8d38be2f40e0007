import PageCache.Proofs.Isolating
import PageCache.Proofs.Sparing

namespace PageCache

-- The number that a read of the file has among the reads of the file alone.
def number (file : FileId) (started : List FileId) (id : ReadId) : ReadId :=
  (started.take id).count file

theorem number_append (file : FileId) {started : List FileId} (more : List FileId) {id : ReadId}
    (hid : id ≤ started.length) : number file (started ++ more) id = number file started id := by
  rw [number, List.take_append_of_le_length hid, number]

theorem number_length (file : FileId) (started : List FileId) :
    number file started started.length = (started.filter (· == file)).length := by
  rw [number, List.take_length, List.count_eq_length_filter]

theorem getElem?_concat_eq_some_iff {started : List FileId} {file : FileId} (other : FileId)
    {id : ReadId} :
    (started ++ [other])[id]? = some file ↔
      started[id]? = some file ∨ id = started.length ∧ other = file := by
  rcases Nat.lt_trichotomy id started.length with hlt | rfl | hgt
  · simp [List.getElem?_append_left hlt, hlt.ne]
  · simp
  · have hend : (started ++ [other])[id]? = none :=
      List.getElem?_eq_none (by rwa [List.length_append, List.length_singleton])
    simp [hend, hgt.ne', Nat.le_of_lt hgt]

-- The file that an operation is about, when these are the files of which reads have started.
def Op.file? (started : List FileId) : Op → Option FileId
  | .read file _ _ _ => some file
  | .poll id _ => started[id]?
  | .drop id => started[id]?
  | .invalidate file => some file
  | .revalidate file _ => some file
  | .release file => some file
  | .prune => none

-- Whether it is about this file, or about all of them.
def Op.regards (file : FileId) (started : List FileId) : Op → Bool
  | .prune => true
  | op => op.file? started == some file

theorem Op.regards_iff {file : FileId} {started : List FileId} {op : Op} :
    op.regards file started = true ↔ op.file? started = some file ∨ op = .prune := by
  cases op <;> simp [regards]

-- The same operation on a read that has another number.
def Op.renumber (number : ReadId → ReadId) : Op → Op
  | .poll id turns => .poll (number id) turns
  | .drop id => .drop (number id)
  | op => op

namespace Act

variable {σ : Type}

-- The act as it is when nothing is ever asked about other files, unless it is about one of them.
def within? (file : FileId) (started : List FileId) : Act σ → Option (Act σ)
  | .change become => some (.change become)
  | .ask op =>
      if op.regards file started then
        some (.ask (op.renumber (number file started)))
      else none

theorem within?_eq_some_iff {file : FileId} {started : List FileId} {op : Op} {own : Act σ} :
    (Act.ask op).within? file started = some own ↔
      (op.file? started = some file ∨ op = .prune) ∧
        .ask (op.renumber (number file started)) = own := by
  rw [within?, Option.ite_none_right_eq_some, Option.some.injEq, Op.regards_iff]

theorem within?_eq_none_iff {file : FileId} {started : List FileId} {op : Op} :
    (Act.ask op : Act σ).within? file started = none ↔
      op.file? started ≠ some file ∧ op ≠ .prune := by
  rw [within?, ite_eq_right_iff, Op.regards_iff, ← not_or]
  exact ⟨fun h ho => Option.some_ne_none _ (h ho), fun h ho => absurd ho h⟩

theorem starts_read (file : FileId) (offset length : Nat) (turns : Turns) :
    (Act.ask (.read file offset length turns) : Act σ).starts =
      if 0 < length ∧ offset + length < wordLimit then [file] else [] := by
  rw [starts, extent?]
  split <;> rfl

end Act

-- The files of which reads start, in order.
def startsOf {σ : Type} (acts : List (Act σ)) : List FileId := acts.flatMap Act.starts

-- What remains of a run without whatever is about other files.
def isolate {σ : Type} (file : FileId) (started : List FileId) : List (Act σ) → List (Act σ)
  | [] => []
  | act :: rest =>
      (act.within? file started).toList ++ isolate file (started ++ act.starts) rest

section Isolate

variable {σ : Type} {file : FileId} {started : List FileId}

theorem isolate_append (file : FileId) (started : List FileId) (first second : List (Act σ)) :
    isolate file started (first ++ second) =
      isolate file started first ++ isolate file (started ++ startsOf first) second := by
  induction first generalizing started with
  | nil => simp [isolate, startsOf]
  | cons act rest ih =>
      simp only [List.cons_append, isolate, ih, startsOf, List.flatMap_cons, List.append_assoc]

theorem startsOf_append (first second : List (Act σ)) :
    startsOf (first ++ second) = startsOf first ++ startsOf second := List.flatMap_append

-- The reads that remain are those of the file.
theorem startsOf_within (act : Act σ) :
    startsOf (act.within? file started).toList = act.starts.filter (· == file) := by
  cases act with
  | change become => rfl
  | ask op =>
      cases op with
      | read other offset length turns =>
          by_cases he : other = file
          · subst he
            rw [Act.within?_eq_some_iff.mpr ⟨.inl rfl, rfl⟩]
            simp only [Option.toList_some, startsOf, List.flatMap_singleton, Op.renumber,
              Act.starts_read]
            split <;> simp
          · have hnone : (Act.ask (.read other offset length turns) : Act σ).within? file started =
                none := Act.within?_eq_none_iff.mpr ⟨fun hs => he (Option.some.inj hs), by nofun⟩
            rw [hnone, Act.starts_read]
            split <;> simp [startsOf, he]
      | _ =>
          simp only [Act.within?, Op.renumber]
          split <;> rfl

theorem startsOf_isolate (acts : List (Act σ)) :
    startsOf (isolate file started acts) = (startsOf acts).filter (· == file) := by
  induction acts generalizing started with
  | nil => rfl
  | cons act rest ih =>
      rw [isolate, startsOf_append, startsOf_within, ih]
      simp only [startsOf, List.flatMap_cons, List.filter_append]

end Isolate

namespace Pool

variable {τ : Type} {pool mirror : Pool τ}

-- An operation finds nothing to evict, should it come to that.
def Roomy (pool : Pool τ) (op : Op) : Prop :=
  ∀ swept ∈ pool.swept? op, swept.pagesUsed ≤ swept.limits.lowWatermark

theorem Roomy.read {file : FileId} {offset length : Nat}
    {turns : Turns} (h : pool.Roomy (.read file offset length turns)) (hl : 0 < length)
    (hw : offset + length < wordLimit)
    (hf : pool.fetches.size < (pool.lookupSpan file offset (offset + length)).fetches.size) :
    (pool.lookupSpan file offset (offset + length)).pagesUsed ≤
      (pool.lookupSpan file offset (offset + length)).limits.pageBudget := by
  by_contra hover
  refine hover ((h _ ?_).trans (Limits.lowWatermark_le _))
  rw [swept?]
  exact Option.mem_def.mpr (if_pos ⟨hl, hw, hf, Nat.lt_of_not_le hover⟩)

theorem Roomy.prune (h : pool.Roomy .prune) : pool.pagesUsed ≤ pool.limits.lowWatermark :=
  h pool rfl

-- All fetches to come are numbered as if they were of the file.
def onward (fetch : FetchId → FetchId) (pool mirror : Pool τ) (id : FetchId) : FetchId :=
  if id < pool.fetches.size then fetch id else mirror.fetches.size + (id - pool.fetches.size)

theorem aligned_onward (read : ReadId → ReadId) (fetch : FetchId → FetchId)
    (pool mirror : Pool τ) : Aligned ⟨read, onward fetch pool mirror⟩ pool mirror := by
  intro more
  have hle : ¬ pool.fetches.size + more < pool.fetches.size := by omega
  simp only [onward, if_neg hle, Nat.add_sub_cancel_left]

section Start

variable {file : FileId} {started : List FileId} {fetch next : FetchId → FetchId}
  {plans others : ReadId → Plan}

-- The reads that have started so far keep their numbers.
theorem Mirrors.onward
    (h : Mirrors file (started[·]? = some file) ⟨number file started, fetch⟩ pool mirror)
    (hn : pool.Named started plans) (more : List FileId)
    (hf : ∀ id < pool.fetches.size, next id = fetch id) :
    Mirrors file (started[·]? = some file) ⟨number file (started ++ more), next⟩ pool mirror := by
  have hsound := hn.steady.sound
  refine h.renumber hsound (fun id hid => hn.known hid) (fun id hid read hr wait hw => ?_)
    (fun id hid => number_append file more (hn.size ▸ hid.le)) hf
  obtain ⟨hlive, rfl⟩ := hsound.leased.live?_eq_some_iff.mp hr
  have hfile := (hn.file_iff file _ (hn.known hid)).mp hid
  exact ((hsound.lease_file hlive).trans hfile) ▸ hsound.owns_of_wait hlive hw

-- A read of the file starts here and there, and takes the next number.
theorem Mirrors.begin
    (h : Mirrors file (started[·]? = some file) ⟨number file started, fetch⟩ pool mirror)
    (hn : pool.Named started plans) (ho : mirror.Named (started.filter (· == file)) others)
    (ha : pool.Accounted) (hb : mirror.Accounted) {offset length : Nat} (hl : 0 < length)
    (hw : offset + length < wordLimit) {turns : Turns}
    (hr : pool.Roomy (.read file offset length turns)) :
    Mirrors file ((started ++ [file])[·]? = some file)
      ⟨number file (started ++ [file]), Pool.onward fetch pool mirror⟩
      (pool.startRead file offset (offset + length))
      (mirror.startRead file offset (offset + length)) := by
  have honward : Mirrors file (started[·]? = some file)
      ⟨number file (started ++ [file]), Pool.onward fetch pool mirror⟩ pool mirror :=
    h.onward hn [file] fun id hid => if_pos hid
  have hnumber : number file (started ++ [file]) pool.gatherings.size =
      mirror.gatherings.size := by
    rw [hn.size, number_append file [file] le_rfl, number_length, ho.size]
  have hgrown : ∀ id, (started ++ [file])[id]? = some file ↔
      started[id]? = some file ∨ id = pool.gatherings.size := by
    intro id
    rw [getElem?_concat_eq_some_iff, hn.size, and_iff_left rfl]
  have haligned := aligned_onward (number file (started ++ [file])) fetch pool mirror
  have hknown : ∀ id, started[id]? = some file → id < pool.gatherings.size := fun _ => hn.known
  have hsound := hn.steady.sound
  have hmirrored := ho.steady.sound
  obtain ⟨hlooked, _⟩ := honward.lookupSpan haligned hnumber hgrown hknown hsound.leased
    hmirrored.leased offset (offset + length)
  obtain ⟨hpool, hcount⟩ := (moves_lookupSpan pool file offset length turns).preserve
    (fun _ _ hm => hm.accounted) hsound.ordered ha
  obtain ⟨himage, hcounted⟩ := (moves_lookupSpan mirror file offset length turns).preserve
    (fun _ _ hm => hm.accounted) hmirrored.ordered hb
  exact honward.startRead haligned hnumber hgrown hknown hsound.leased hmirrored.leased
    (fun hf => hr.read hl hw hf) (hlooked.pagesUsed_le hpool himage hcount hcounted)

end Start

end Pool

namespace Mount

section Reading

variable {σ τ : Type} {backend : Backend σ τ} {file : FileId} {offset length : Nat}

-- A read takes a number, and is polled for the first time.
theorem act_read (backend : Backend σ τ) (mount : Mount σ τ) (file : FileId) (hl : 0 < length)
    (hw : offset + length < wordLimit) (turns : Turns) :
    mount.act backend (.ask (.read file offset length turns)) =
      let polled := (mount.opened ⟨file, offset, offset + length⟩).poll backend
        mount.pool.gatherings.size turns
      (polled.1, some polled.2) := by
  simp only [Mount.act, step, read, hl.ne', hw, if_false, if_true]
  rfl

-- A read of nothing, or past the last offset, says so at once.
theorem exists_act_read (backend : Backend σ τ) (file : FileId) (turns : Turns)
    (h : (Act.ask (.read file offset length turns) : Act σ).extent? = none) :
    ∃ result, ∀ mount : Mount σ τ, mount.act backend (.ask (.read file offset length turns)) =
      (mount, some (.returned result)) := by
  by_cases hl : length = 0
  · exact ⟨.ok {}, fun mount => by simp only [Mount.act, step, read, hl, if_true]⟩
  · have hw : ¬ offset + length < wordLimit := fun hw => by
      simp [Act.extent?, Nat.pos_of_ne_zero hl, hw] at h
    exact ⟨.error .offsetOverflow, fun mount => by
      simp only [Mount.act, step, read, hl, hw, if_false]⟩

-- A poll tells of no read but its own.
theorem renumber_poll (backend : Backend σ τ) (mount : Mount σ τ) {id : ReadId}
    {first second : ReadId → ReadId} (h : first id = second id) (turns : Turns) :
    (mount.poll backend id turns).2.renumber first =
      (mount.poll backend id turns).2.renumber second := by
  unfold poll
  split
  · rfl
  · simp only
    split
    · rfl
    · exact congrArg Answer.pending h

end Reading

variable {σ τ : Type} {backend : Backend σ τ} {mount mirror : Mount (σ × List Glance) τ}
  {file : FileId} {started : List FileId} {fetch : FetchId → FetchId}
  {plans others : ReadId → Plan} {act own : Act σ}

section Within

variable
  (h : mount.Mirrors file (started[·]? = some file) ⟨number file started, fetch⟩ mirror)
  (hn : mount.pool.Named started plans)
  (ho : mirror.pool.Named (started.filter (· == file)) others)
  (ha : mount.pool.Accounted) (hb : mirror.pool.Accounted)

include h hn ho ha hb

theorem Mirrors.read {offset length : Nat} {turns : Turns} (hl : 0 < length)
    (hw : offset + length < wordLimit)
    (hr : mount.pool.Roomy (.read file offset length turns))
    (hg : Agree file (mount.act backend.watching (.ask (.read file offset length turns))).1
      (mirror.act backend.watching (.ask (.read file offset length turns))).1) :
    (mount.act backend.watching (.ask (.read file offset length turns))).1.Mirrors file
        ((started ++ [file])[·]? = some file)
        ⟨number file (started ++ [file]), Pool.onward fetch mount.pool mirror.pool⟩
        (mirror.act backend.watching (.ask (.read file offset length turns))).1 ∧
      (mirror.act backend.watching (.ask (.read file offset length turns))).2 =
        (mount.act backend.watching (.ask (.read file offset length turns))).2.map
          (·.renumber (number file started)) := by
  let extent : Extent := ⟨file, offset, offset + length⟩
  have hopened : (mount.opened extent).Mirrors file ((started ++ [file])[·]? = some file)
      ⟨number file (started ++ [file]), Pool.onward fetch mount.pool mirror.pool⟩
      (mirror.opened extent) :=
    h.of_pool (h.pool.begin hn ho ha hb hl hw hr) rfl rfl (Pool.logs_startRead ..).launches
      (Pool.logs_startRead ..).launches
  have hnumber : number file started mount.pool.gatherings.size =
      mirror.pool.gatherings.size := by
    rw [hn.size, number_length, ho.size]
  have hsame : number file (started ++ [file]) mount.pool.gatherings.size =
      number file started mount.pool.gatherings.size :=
    number_append file [file] hn.size.le
  have hwhole := hn.startRead file offset (offset + length)
  have halone := ho.startRead file offset (offset + length)
  have hid : (started ++ [file])[mount.pool.gatherings.size]? = some file := by
    rw [hn.size, List.getElem?_concat_length]
  rw [act_read backend.watching mount file hl hw turns,
    act_read backend.watching mirror file hl hw turns] at hg ⊢
  rw [← hnumber, ← hsame] at hg ⊢
  obtain ⟨hpolled, hanswer⟩ := hopened.poll hwhole.steady.sound halone.steady.sound
    (hwhole.file_iff file) hid hg
  refine ⟨hpolled, congrArg some (hanswer.trans ?_)⟩
  exact renumber_poll backend.watching (mount.opened extent) hsame turns

-- What starts no read does the same here and there, if it is about the file.
theorem Mirrors.idle_within (hextent : act.extent? = none)
    (hr : ∀ op, act = .ask op → mount.pool.Roomy op)
    (hw : act.within? file started = some own)
    (hg : Agree file (mount.act backend.watching act.watched).1
      (mirror.act backend.watching own.watched).1) :
    (mount.act backend.watching act.watched).1.Mirrors file (started[·]? = some file)
        ⟨number file started, fetch⟩ (mirror.act backend.watching own.watched).1 ∧
      (mirror.act backend.watching own.watched).2 =
        (mount.act backend.watching act.watched).2.map (·.renumber (number file started)) := by
  have hsound := hn.steady.sound
  have hmirrored := ho.steady.sound
  cases act with
  | change become =>
      cases hw
      exact ⟨⟨h.pool, h.glances, h.launches⟩, rfl⟩
  | ask op =>
      have hroomy := hr op rfl
      cases op with
      | read other offset length turns =>
          obtain ⟨_, rfl⟩ := Act.within?_eq_some_iff.mp hw
          obtain ⟨result, hsame⟩ := exists_act_read backend.watching (σ := σ × List Glance) other
            turns hextent
          simp only [Act.watched, Op.renumber, hsame]
          exact ⟨h, rfl⟩
      | poll id turns =>
          obtain ⟨hid | ⟨⟨⟩⟩, rfl⟩ := Act.within?_eq_some_iff.mp hw
          obtain ⟨hpolled, hanswer⟩ := h.poll hsound hmirrored (hn.file_iff file) hid hg
          exact ⟨hpolled, congrArg some hanswer⟩
      | drop id =>
          obtain ⟨hid | ⟨⟨⟩⟩, rfl⟩ := Act.within?_eq_some_iff.mp hw
          have hends := h.pool.endRead hid hsound.leased hmirrored.leased fun read hread he =>
            (hsound.lease_file hread).trans ((hn.file_iff file _ (he ▸ hn.known hid)).mp (he ▸ hid))
          have hlive := congrArg Option.isSome (h.pool.waits id hid)
          rw [Option.isSome_map, Option.isSome_map] at hlive
          exact ⟨h.of_pool hends rfl rfl (Pool.sheds_endRead ..).launches
            (Pool.sheds_endRead ..).launches, congrArg (fun flag => some (Answer.flag flag)) hlive⟩
      | invalidate other =>
          obtain ⟨hfile | ⟨⟨⟩⟩, rfl⟩ := Act.within?_eq_some_iff.mp hw
          obtain rfl : other = file := Option.some.inj hfile
          obtain ⟨hdone, hanswer⟩ := h.pool.invalidate
          exact ⟨h.of_pool hdone rfl rfl (Pool.sheds_invalidate ..).launches
            (Pool.sheds_invalidate ..).launches,
            congrArg (fun count => some (Answer.number count)) hanswer⟩
      | revalidate other attributes =>
          obtain ⟨hfile | ⟨⟨⟩⟩, rfl⟩ := Act.within?_eq_some_iff.mp hw
          obtain rfl : other = file := Option.some.inj hfile
          obtain ⟨hdone, hanswer⟩ := h.pool.revalidate attributes
          exact ⟨h.of_pool hdone rfl rfl (Pool.sheds_revalidate ..).launches
            (Pool.sheds_revalidate ..).launches,
            congrArg (fun flag => some (Answer.flag flag)) hanswer⟩
      | release other =>
          obtain ⟨hfile | ⟨⟨⟩⟩, rfl⟩ := Act.within?_eq_some_iff.mp hw
          obtain rfl : other = file := Option.some.inj hfile
          obtain ⟨hdone, hanswer⟩ := h.pool.release
          exact ⟨h.of_pool hdone rfl rfl (Pool.sheds_release ..).launches
            (Pool.sheds_release ..).launches,
            congrArg (fun flag => some (Answer.flag flag)) hanswer⟩
      | prune =>
          cases hw
          have hevict := Pool.evict_of_le hroomy.prune
          have hsame : mirror.pool.evict = (mirror.pool, 0) := by
            refine Pool.evict_of_le (le_trans ?_ (h.pool.limits ▸ hroomy.prune))
            exact h.pool.pagesUsed_le hsound.ordered hmirrored.ordered ha hb
          simp only [Act.watched, Mount.act, step, hevict, hsame]
          exact ⟨h, rfl⟩

-- An act on the file does the same here and there.
theorem Mirrors.act_within (hr : ∀ op, act = .ask op → mount.pool.Roomy op)
    (hw : act.within? file started = some own)
    (hg : Agree file (mount.act backend.watching act.watched).1
      (mirror.act backend.watching own.watched).1) :
    (∃ fetch, (mount.act backend.watching act.watched).1.Mirrors file
        ((started ++ act.starts)[·]? = some file) ⟨number file (started ++ act.starts), fetch⟩
        (mirror.act backend.watching own.watched).1) ∧
      (mirror.act backend.watching own.watched).2 =
        (mount.act backend.watching act.watched).2.map (·.renumber (number file started)) := by
  cases hextent : act.extent? with
  | some extent =>
      obtain ⟨other, offset, length, turns, rfl, hl, hlimit, rfl⟩ :=
        Act.exists_read_of_extent hextent
      obtain ⟨hfile | ⟨⟨⟩⟩, rfl⟩ := Act.within?_eq_some_iff.mp hw
      obtain rfl : other = file := Option.some.inj hfile
      obtain ⟨hread, hanswer⟩ := h.read hn ho ha hb hl hlimit (hr _ rfl) hg
      rw [Act.starts_of_extent hextent]
      exact ⟨⟨_, hread⟩, hanswer⟩
  | none =>
      obtain ⟨hnext, hanswer⟩ := h.idle_within hn ho ha hb hextent hr hw hg
      rw [Act.starts_of_none hextent, List.append_nil]
      exact ⟨⟨fetch, hnext⟩, hanswer⟩

end Within

-- A read of another file takes a number, and does nothing to this one.
theorem Mirrors.read_beyond
    (h : mount.Mirrors file (started[·]? = some file) ⟨number file started, fetch⟩ mirror)
    (hn : mount.pool.Named started plans) {other : FileId} (hne : file ≠ other)
    {offset length : Nat} {turns : Turns} (hl : 0 < length) (hw : offset + length < wordLimit)
    (hr : mount.pool.Roomy (.read other offset length turns)) :
    (mount.act backend.watching (.ask (.read other offset length turns))).1.Mirrors file
      ((started ++ [other])[·]? = some file) ⟨number file (started ++ [other]), fetch⟩ mirror := by
  let opened := mount.opened ⟨other, offset, offset + length⟩
  have hmine : ∀ id : ReadId, (started ++ [other])[id]? = some file ↔
      started[id]? = some file := fun id => by
    simp [getElem?_concat_eq_some_iff, hne.symm]
  have hlast : ¬ started[mount.pool.gatherings.size]? = some file := fun hid =>
    (hn.known hid).false
  have honward : mount.Mirrors file (started[·]? = some file)
      ⟨number file (started ++ [other]), fetch⟩ mirror :=
    ⟨h.pool.onward hn [other] fun _ _ => rfl, h.glances, h.launches⟩
  have hopened : mount.Apart file (started[·]? = some file) opened :=
    .of_pool (Pool.apart_startRead hlast hne fun hf => hr.read hl hw hf) rfl
      (Pool.logs_startRead ..).launches
  have hwhole : opened.pool.Named _ _ := hn.startRead other offset (offset + length)
  have hpolled : opened.Apart file (started[·]? = some file)
      (opened.poll backend.watching mount.pool.gatherings.size turns).1 :=
    apart_poll hwhole.steady.sound
      (fun id hid => (hmine id).symm.trans (hwhole.file_iff file id hid)) hlast turns
  simp only [act_read backend.watching mount other hl hw turns, hmine]
  exact (honward.apart hopened).apart hpolled

-- Nor does what starts no read, if it is about another file.
theorem apart_act (hn : mount.pool.Named started plans) (hextent : act.extent? = none)
    (hw : act.within? file started = none) :
    mount.Apart file (started[·]? = some file) (mount.act backend.watching act.watched).1 := by
  have hsound := hn.steady.sound
  cases act with
  | change become => cases hw
  | ask op =>
      obtain ⟨hfile, hprune⟩ := Act.within?_eq_none_iff.mp hw
      cases op with
      | read other offset length turns =>
          obtain ⟨result, hsame⟩ := exists_act_read backend.watching (σ := σ × List Glance) other
            turns hextent
          simp only [Act.watched, hsame]
          exact .refl ..
      | poll id turns => exact apart_poll hsound (hn.file_iff file) hfile turns
      | drop id =>
          refine .of_pool (Pool.apart_endRead hfile hsound.leased ?_) rfl
            (Pool.sheds_endRead ..).launches
          intro read hread he hl
          have hplan := hl.trans (hsound.lease_file hread)
          exact hfile (he ▸ (hn.file_iff file _ (hsound.leased.known read hread)).mpr hplan.symm)
      | invalidate other =>
          have hne : file ≠ other := fun he => hfile (congrArg some he.symm)
          exact .of_pool (Pool.apart_invalidate _ hne) rfl (Pool.sheds_invalidate ..).launches
      | revalidate other attributes =>
          have hne : file ≠ other := fun he => hfile (congrArg some he.symm)
          exact .of_pool (Pool.apart_revalidate _ hne attributes) rfl
            (Pool.sheds_revalidate ..).launches
      | release other =>
          have hne : file ≠ other := fun he => hfile (congrArg some he.symm)
          exact .of_pool (Pool.apart_release _ hne) rfl (Pool.sheds_release ..).launches
      | prune => exact absurd rfl hprune

-- An act on another file does nothing to this one.
theorem Mirrors.act_beyond
    (h : mount.Mirrors file (started[·]? = some file) ⟨number file started, fetch⟩ mirror)
    (hn : mount.pool.Named started plans) (hr : ∀ op, act = .ask op → mount.pool.Roomy op)
    (hw : act.within? file started = none) :
    (mount.act backend.watching act.watched).1.Mirrors file
      ((started ++ act.starts)[·]? = some file) ⟨number file (started ++ act.starts), fetch⟩
      mirror := by
  cases hextent : act.extent? with
  | some extent =>
      obtain ⟨other, offset, length, turns, rfl, hl, hlimit, rfl⟩ :=
        Act.exists_read_of_extent hextent
      obtain ⟨hfile, _⟩ := Act.within?_eq_none_iff.mp hw
      rw [Act.starts_of_extent hextent]
      exact h.read_beyond hn (fun he => hfile (congrArg some he.symm)) hl hlimit (hr _ rfl)
  | none =>
      rw [Act.starts_of_none hextent, List.append_nil]
      exact h.apart (apart_act hn hextent hw)

end Mount

end PageCache
