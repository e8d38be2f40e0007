import Mathlib.Data.List.Induction
import PageCache.Proofs.Abandoning
import PageCache.Proofs.Bystanding
import PageCache.Proofs.Watching

namespace PageCache

namespace Pool

variable {τ : Type} {pool next : Pool τ} {lease : Lease}

theorem Holds.of_files (h : pool.Holds lease) (hf : next.files = pool.files) :
    next.Holds lease := by
  rwa [Holds, hf]

theorem call?_of_fetches (hf : next.fetches = pool.fetches) : next.call? = pool.call? := by
  funext fetch
  rw [call?, hf, call?]

theorem live_resolve (pool : Pool τ) (lease : Lease) (wait : Wait) (outcome : Outcome) :
    (pool.resolve lease wait outcome).live = pool.live := by
  have hsame := resolve_crowd pool 0 0 pool.live lease wait outcome
  rw [crowd_zero] at hsame
  rw [congrArg live hsame, live_crowd]

variable {plans : ReadId → Plan} {read : LiveRead}

theorem Sound.lease_file (h : pool.Sound plans) (hr : read ∈ pool.live) :
    read.lease.file = (plans read.id).file :=
  ((h.tracked read.id (h.leased.known read hr)).reading read hr rfl).file

-- What a read waits for are fetches of its file.
theorem Sound.owns_of_wait (h : pool.Sound plans) (hr : read ∈ pool.live) {wait : Wait}
    (hw : wait ∈ read.waits) : pool.Owns read.lease.file wait.fetch := by
  have htracks := h.tracked read.id (h.leased.known read hr)
  have hplanned := (htracks.reading read hr rfl).planned wait hw
  exact ⟨_, htracks.calls wait.page wait.fetch hplanned, (h.lease_file hr).symm⟩

end Pool

-- The same answer about a read that has another number.
def Answer.renumber (number : ReadId → ReadId) : Answer → Answer
  | pending id => pending (number id)
  | returned result => returned result
  | .number value => .number value
  | flag value => flag value
  | unknown => unknown

namespace Mount

variable {σ τ : Type} {backend : Backend σ τ} {mount next mirror : Mount (σ × List Glance) τ}
  {file : FileId} {mine : ReadId → Prop} {numbers : Numbering} {plans others : ReadId → Plan}
  {id : ReadId} {lease image : Lease}

-- The reads of a file, and what they wait for, are the same in a mount of their own.
structure Mirrors (file : FileId) (mine : ReadId → Prop) (numbers : Numbering)
    (mount mirror : Mount (σ × List Glance) τ) : Prop where
  pool : Pool.Mirrors file mine numbers mount.pool mirror.pool
  glances : glancesOf file mirror.storage.2 = glancesOf file mount.storage.2
  launches : mirror.pool.launches = mount.pool.launchesOf file

-- Storage is not asked for anything, neither here nor there.
theorem Mirrors.of_pool {grown : ReadId → Prop} {changed : Numbering}
    {image : Mount (σ × List Glance) τ} (h : mount.Mirrors file mine numbers mirror)
    (hp : Pool.Mirrors file grown changed next.pool image.pool)
    (hn : next.storage = mount.storage) (hi : image.storage = mirror.storage)
    (hl : next.pool.launches = mount.pool.launches)
    (hm : image.pool.launches = mirror.pool.launches) :
    next.Mirrors file grown changed image :=
  ⟨hp, by rw [hn, hi, h.glances], by rw [hm, h.launches, Pool.launchesOf, Pool.launchesOf, hl]⟩

-- As far as both have been polled for the file, storage says the same here and there.
def Agree (file : FileId) (mount mirror : Mount (σ × List Glance) τ) : Prop :=
  glancesOf file mount.storage.2 <:+ glancesOf file mirror.storage.2 ∨
    glancesOf file mirror.storage.2 <:+ glancesOf file mount.storage.2

theorem Grows.glancesOf (h : mount.Grows next) (file : FileId) :
    glancesOf file mount.storage.2 <:+ glancesOf file next.storage.2 :=
  (h.filter _).map _

theorem Agree.of_grows {later : Mount (σ × List Glance) τ} (h : Agree file next later)
    (hm : mount.Grows next) (hl : mirror.Grows later) : Agree file mount mirror := by
  rcases h with h | h
  · exact List.suffix_or_suffix_of_suffix ((hm.glancesOf file).trans h) (hl.glancesOf file)
  · exact List.suffix_or_suffix_of_suffix (hm.glancesOf file) ((hl.glancesOf file).trans h)

-- A poll is put on the list.
theorem glances_poll (storage : σ × List Glance) (call : Call) (token : τ) :
    (backend.watching.poll storage call token).1.2 =
      (call, (backend.watching.poll storage call token).2.answer?) :: storage.2 := rfl

theorem Agree.answer? (hg : glancesOf file mirror.storage.2 = glancesOf file mount.storage.2)
    {call : Call} (hfile : call.file = file) {answer other : Option (Except Error Fetched)}
    (ha : glancesOf file ((call, answer) :: mount.storage.2) <:+
        glancesOf file ((call, other) :: mirror.storage.2) ∨
      glancesOf file ((call, other) :: mirror.storage.2) <:+
        glancesOf file ((call, answer) :: mount.storage.2)) : other = answer := by
  simp only [glancesOf_cons, if_pos hfile, hg] at ha
  rcases ha with ha | ha
  · exact (List.cons.inj (ha.eq_of_length rfl)).1.symm
  · exact (List.cons.inj (ha.eq_of_length rfl)).1

theorem Mirrors.advance (h : mount.Mirrors file mine numbers mirror) {fetch : FetchId}
    {call : Call} (hc : mount.pool.call? fetch = some call) (hfile : call.file = file)
    (token other : τ)
    (ha : Agree file (mount.advance backend.watching fetch call token).1
      (mirror.advance backend.watching (numbers.fetch fetch) call other).1) :
    (mount.advance backend.watching fetch call token).1.Mirrors file mine numbers
        (mirror.advance backend.watching (numbers.fetch fetch) call other).1 ∧
      (mirror.advance backend.watching (numbers.fetch fetch) call other).2 =
        (mount.advance backend.watching fetch call token).2 := by
  have hstorage : ∀ (known : Mount (σ × List Glance) τ) (fetch : FetchId) (token : τ),
      (known.advance backend.watching fetch call token).1.storage =
        (backend.watching.poll known.storage call token).1 := by
    intro known fetch token
    unfold Mount.advance
    simp only
    split <;> rfl
  have hanswer : (backend.watching.poll mirror.storage call other).2.answer? =
      (backend.watching.poll mount.storage call token).2.answer? := by
    refine Agree.answer? h.glances hfile ?_
    rw [← glances_poll, ← glances_poll, ← hstorage mount fetch, ← hstorage mirror]
    exact ha
  have hglances : glancesOf file (backend.watching.poll mirror.storage call other).1.2 =
      glancesOf file (backend.watching.poll mount.storage call token).1.2 := by
    rw [glances_poll, glances_poll, glancesOf_cons, glancesOf_cons, hanswer, h.glances]
  rcases advance_cases backend.watching mount fetch call token with
    ⟨rest, hrest, hmount⟩ | ⟨answer, hdone, hmount⟩ <;>
  rcases advance_cases backend.watching mirror (numbers.fetch fetch) call other with
    ⟨left, hleft, hmirror⟩ | ⟨reply, hreply, hmirror⟩
  · rw [hmount, hmirror]
    exact ⟨⟨h.pool.withPhase hc hfile (.running call rest left), hglances, h.launches⟩, rfl⟩
  · rw [hrest, hreply] at hanswer
    cases hanswer
  · rw [hdone, hleft] at hanswer
    cases hanswer
  · rw [hdone, hreply] at hanswer
    cases hanswer
    rw [hmount, hmirror]
    exact ⟨⟨h.pool.withPhase hc hfile (.complete call _), hglances, h.launches⟩, rfl⟩

-- A fetch of the file is driven equally far here and there.
theorem Mirrors.drive (backend : Backend σ τ) (h : mount.Mirrors file mine numbers mirror)
    {fetch : FetchId} (hw : mount.pool.Owns file fetch)
    (ha : Agree file (mount.drive backend.watching fetch).1
      (mirror.drive backend.watching (numbers.fetch fetch)).1) :
    (mount.drive backend.watching fetch).1.Mirrors file mine numbers
        (mirror.drive backend.watching (numbers.fetch fetch)).1 ∧
      (mirror.drive backend.watching (numbers.fetch fetch)).2 =
        (mount.drive backend.watching fetch).2 := by
  obtain ⟨found, hfound, hfile⟩ := Pool.owns_iff.mp hw
  obtain ⟨image, himage, hlike⟩ := h.pool.fetch fetch found hfound hfile
  have hc : mount.pool.call? fetch = some found.call := by
    rw [Pool.call?, hfound, Option.map_some]
  unfold Mount.drive at ha ⊢
  rw [hfound, himage] at ha ⊢
  cases hlike with
  | idle call =>
      have hlaunched : (mount.launch backend.watching fetch call).1.Mirrors file mine numbers
          (mirror.launch backend.watching (numbers.fetch fetch) call).1 := by
        refine ⟨h.pool.emit _ _, h.glances, ?_⟩
        have hstarted : ∀ (known : Mount (σ × List Glance) τ) (fetch : FetchId),
            (known.launch backend.watching fetch call).1.pool.launches =
              call.place :: known.pool.launches := fun _ _ => rfl
        have hkept : (call.place.1 == file) = true := beq_iff_eq.mpr hfile
        rw [Pool.launchesOf, hstarted, hstarted, List.filter_cons, if_pos hkept, h.launches,
          Pool.launchesOf]
      exact hlaunched.advance hc hfile _ _ ha
  | running call token other => exact h.advance hc hfile token other ha
  | complete call outcome => exact ⟨h, rfl⟩

theorem Mirrors.pollWait (h : mount.Mirrors file mine numbers mirror)
    (hb : mount.pool.Belongs file mine) (hp : mount.pool.Holds lease) (hm : mirror.pool.Holds image)
    (hl : lease.file = file) (hi : image.file = file) (hid : mine id)
    (hwaits : ∀ read, mount.pool.live? id = some read →
      ∀ wait ∈ read.waits, mount.pool.Owns file wait.fetch)
    {wait : Wait} (hw : mount.pool.Owns file wait.fetch)
    (ha : Agree file (pollWait backend.watching id lease mount wait)
      (pollWait backend.watching (numbers.read id) image mirror (wait.renumber numbers))) :
    (pollWait backend.watching id lease mount wait).Mirrors file mine numbers
      (pollWait backend.watching (numbers.read id) image mirror (wait.renumber numbers)) := by
  have hstorage : ∀ (known : Mount (σ × List Glance) τ) (id : ReadId) (lease : Lease)
      (wait : Wait), (Mount.pollWait backend.watching id lease known wait).storage =
        (known.drive backend.watching wait.fetch).1.storage := by
    intro known id lease wait
    unfold Mount.pollWait
    simp only
    split <;> rfl
  obtain ⟨hdriven, houtcome⟩ := h.drive backend hw
    (by rwa [Agree, hstorage, hstorage] at ha)
  have haside := (aside_drive backend.watching mount wait.fetch).1
  have hmirrored := (aside_drive backend.watching mirror (numbers.fetch wait.fetch)).1
  have hfetch : (wait.renumber numbers).fetch = numbers.fetch wait.fetch := rfl
  unfold Mount.pollWait
  simp only [hfetch, houtcome]
  cases (mount.drive backend.watching wait.fetch).2 with
  | none => exact hdriven
  | some outcome =>
      have hresolved := hdriven.pool.resolve (hb.of_files haside.files haside.calls)
        (hp.of_files haside.files) (hm.of_files hmirrored.files) hl hi
        (hw.congr haside.calls) outcome
      have hcalls : ((mount.drive backend.watching wait.fetch).1.pool.resolve lease wait
          outcome).call? = mount.pool.call? := by
        rw [← haside.calls]
        exact Pool.call?_of_fetches (Pool.fetches_resolve ..)
      have hlaunches : ∀ (known : Pool τ) (id : ReadId) (lease : Lease) (wait : Wait),
          ((known.resolve lease wait outcome).observe id wait).launches = known.launches :=
        fun known _ lease wait => (Pool.logs_resolve known lease wait outcome).launches
      refine ⟨hresolved.observe hid (fun read hr known hk => ?_) (hw.congr hcalls),
        hdriven.glances, ?_⟩
      · rw [Pool.live?_of_live (Pool.live_resolve ..), Pool.live?_of_live (live_drive ..)] at hr
        exact (hwaits read hr known hk).congr hcalls
      · rw [Pool.launchesOf, hlaunches, hlaunches]
        exact hdriven.launches

-- A read waits for the same pages here and there.
theorem Mirrors.awaited? (h : mount.Mirrors file mine numbers mirror) (hid : mine id)
    (page : Nat) : (mirror.pool.awaited? (numbers.read id) page).map (·.2) =
      (mount.pool.awaited? id page).map fun found => found.2.renumber numbers := by
  have hwaits := h.pool.waits id hid
  unfold Pool.awaited?
  cases hlive : mount.pool.live? id with
  | none =>
      rw [hlive, Option.map_none, Option.map_eq_none_iff] at hwaits
      rw [hwaits]
      rfl
  | some read =>
      rw [hlive, Option.map_some, Option.map_eq_some_iff] at hwaits
      obtain ⟨own, hown, hsame⟩ := hwaits
      simp only [hown, Option.bind_some, hsame, List.find?_map, Option.map_map]
      rfl

theorem Mirrors.takeTurn (h : mount.Mirrors file mine numbers mirror)
    (hs : mount.pool.Sound plans) (ho : mirror.pool.Sound others)
    (hmine : ∀ id < mount.pool.gatherings.size, mine id ↔ (plans id).file = file) (hid : mine id)
    (page : Nat)
    (ha : Agree file (takeTurn backend.watching id mount page)
      (takeTurn backend.watching (numbers.read id) mirror page)) :
    (takeTurn backend.watching id mount page).Mirrors file mine numbers
      (takeTurn backend.watching (numbers.read id) mirror page) := by
  have hawaited := h.awaited? hid page
  unfold Mount.takeTurn at ha ⊢
  cases hw : mount.pool.awaited? id page with
  | none =>
      rw [hw, Option.map_none, Option.map_eq_none_iff] at hawaited
      rw [hawaited]
      exact h
  | some found =>
      obtain ⟨lease, wait⟩ := found
      rw [hw, Option.map_some, Option.map_eq_some_iff] at hawaited
      obtain ⟨⟨image, own⟩, hfound, rfl⟩ := hawaited
      rw [hw, hfound] at ha
      rw [hfound]
      obtain ⟨read, hl, rfl, hwait, _⟩ := exists_of_awaited? hw
      obtain ⟨twin, htwin, rfl, _⟩ := exists_of_awaited? hfound
      obtain ⟨hr, rfl⟩ := hs.leased.live?_eq_some_iff.mp hl
      obtain ⟨hown, _⟩ := ho.leased.live?_eq_some_iff.mp htwin
      have hfile : read.lease.file = file :=
        (hs.lease_file hr).trans ((hmine _ (hs.leased.known read hr)).mp hid)
      have howns : ∀ wait ∈ read.waits, mount.pool.Owns file wait.fetch := fun wait hw =>
        hfile ▸ hs.owns_of_wait hr hw
      refine h.pollWait (hs.belongs fun id hlt => (hmine id hlt).mpr)
        (hs.leased.current read hr) (ho.leased.current twin hown) hfile
        (h.pool.lease_file ho.leased hown) hid (fun left hleft => ?_) (howns wait hwait) ha
      cases hl.symm.trans hleft
      exact howns

-- The reads are sound after a turn as before it, and there are as many.
theorem sound_takeTurn (backend : Backend σ τ) {mount : Mount σ τ} (hs : mount.pool.Sound plans)
    (id : ReadId) (page : Nat) :
    (takeTurn backend id mount page).pool.Sound plans ∧
      (takeTurn backend id mount page).pool.gatherings.size = mount.pool.gatherings.size := by
  rcases takeTurn_cases backend mount id page with ⟨_, ht⟩ | ⟨read, hl, wait, hw, _, ht⟩
  · rw [ht]
    exact ⟨hs, rfl⟩
  · obtain ⟨hr, rfl⟩ := hs.leased.live?_eq_some_iff.mp hl
    have hpolled := polled_pollWait backend hs hr hw
    rw [ht]
    exact ⟨hpolled.sound, hpolled.size⟩

theorem Mirrors.takeTurns (h : mount.Mirrors file mine numbers mirror)
    (hs : mount.pool.Sound plans) (ho : mirror.pool.Sound others)
    (hmine : ∀ id < mount.pool.gatherings.size, mine id ↔ (plans id).file = file) (hid : mine id)
    (pages : List Nat)
    (ha : Agree file (pages.foldl (Mount.takeTurn backend.watching id) mount)
      (pages.foldl (Mount.takeTurn backend.watching (numbers.read id)) mirror)) :
    (pages.foldl (Mount.takeTurn backend.watching id) mount).Mirrors file mine numbers
      (pages.foldl (Mount.takeTurn backend.watching (numbers.read id)) mirror) := by
  induction pages generalizing mount mirror with
  | nil => exact h
  | cons page rest ih =>
      obtain ⟨hsound, hsize⟩ := sound_takeTurn backend.watching hs id page
      obtain ⟨himage, _⟩ := sound_takeTurn backend.watching ho (numbers.read id) page
      have hnow : Agree file (Mount.takeTurn backend.watching id mount page)
          (Mount.takeTurn backend.watching (numbers.read id) mirror page) :=
        ha.of_grows (grows_takeTurns ..) (grows_takeTurns ..)
      exact ih (h.takeTurn hs ho hmine hid page hnow) hsound himage (hsize ▸ hmine) ha

theorem storage_poll (backend : Backend σ τ) (mount : Mount σ τ) {read : LiveRead}
    (hl : mount.pool.live? read.id = some read) (turns : Turns) :
    (mount.poll backend read.id turns).1.storage =
      ((turns (read.waits.map (·.page))).foldl (Mount.takeTurn backend read.id) mount).storage := by
  rw [poll_eq backend mount hl]
  simp only
  split <;> rfl

-- A poll of a read of the file comes equally far here and there.
theorem Mirrors.poll (h : mount.Mirrors file mine numbers mirror)
    (hs : mount.pool.Sound plans) (ho : mirror.pool.Sound others)
    (hmine : ∀ id < mount.pool.gatherings.size, mine id ↔ (plans id).file = file) (hid : mine id)
    {turns : Turns}
    (ha : Agree file (mount.poll backend.watching id turns).1
      (mirror.poll backend.watching (numbers.read id) turns).1) :
    (mount.poll backend.watching id turns).1.Mirrors file mine numbers
        (mirror.poll backend.watching (numbers.read id) turns).1 ∧
      (mirror.poll backend.watching (numbers.read id) turns).2 =
        (mount.poll backend.watching id turns).2.renumber numbers.read := by
  have hwaits := h.pool.waits id hid
  cases hlive : mount.pool.live? id with
  | none =>
      rw [hlive, Option.map_none, Option.map_eq_none_iff] at hwaits
      unfold Mount.poll
      rw [hlive, hwaits]
      exact ⟨h, rfl⟩
  | some read =>
      rw [hlive, Option.map_some, Option.map_eq_some_iff] at hwaits
      obtain ⟨own, hfound, hownWaits⟩ := hwaits
      obtain ⟨hr, rfl⟩ := hs.leased.live?_eq_some_iff.mp hlive
      obtain ⟨hown, hownId⟩ := ho.leased.live?_eq_some_iff.mp hfound
      -- the same pages are waited for, so the turns are the same
      have hpages : own.waits.map (·.page) = read.waits.map (·.page) := by
        rw [hownWaits, List.map_map]
        rfl
      let pages := turns (read.waits.map (·.page))
      rw [← hownId] at hfound ha ⊢
      rw [Agree, storage_poll backend.watching mount hlive,
        storage_poll backend.watching mirror hfound, hpages, hownId] at ha
      have hpolled := h.takeTurns hs ho hmine hid pages ha
      have hreached := swept_takeTurns backend.watching pages hs hr
      have hmirrored := swept_takeTurns backend.watching pages ho hown
      rw [poll_eq backend.watching mount hlive, poll_eq backend.watching mirror hfound, hpages]
      rw [← hownId] at hpolled
      generalize (turns (read.waits.map (·.page))).foldl
        (Mount.takeTurn backend.watching read.id) mount = polled at hreached hpolled
      generalize (turns (read.waits.map (·.page))).foldl
        (Mount.takeTurn backend.watching own.id) mirror = image at hmirrored hpolled
      obtain ⟨left, hleft, hleftId, hleftLease, _⟩ := hreached.left
      have hlast := hpolled.pool.waits read.id hid
      have hempty : (image.pool.live? own.id).all (·.waits.isEmpty) =
          (polled.pool.live? read.id).all (·.waits.isEmpty) := by
        rw [hreached.sound.leased.live?_eq_some_iff.mpr ⟨hleft, hleftId⟩, ← hownId,
          Option.map_some, Option.map_eq_some_iff] at hlast
        obtain ⟨twin, htwin, hsame⟩ := hlast
        rw [hreached.sound.leased.live?_eq_some_iff.mpr ⟨hleft, hleftId⟩, htwin, Option.all_some,
          Option.all_some, hsame, List.isEmpty_map]
      have hends := hpolled.pool.endRead hid hreached.sound.leased hmirrored.sound.leased
        fun known hk hknown => (hreached.sound.lease_file hk).trans
          ((hmine _ (hknown ▸ hs.leased.known read hr)).mp (hknown ▸ hid))
      have hresult := hpolled.pool.result hid
      rw [← hownId] at hends hresult
      simp only [hempty, hresult]
      split
      · exact ⟨hpolled.of_pool hends rfl rfl (Pool.sheds_endRead ..).launches
          (Pool.sheds_endRead ..).launches, rfl⟩
      · exact ⟨hpolled, congrArg Answer.pending hownId⟩

end Mount

end PageCache
