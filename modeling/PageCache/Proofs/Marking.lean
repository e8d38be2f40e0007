import PageCache.Proofs.FaultStamps

namespace PageCache

namespace FileCache

-- Which file it is, and whether it is to go with the last read of it.
def mark (cached : FileCache) : Nat × Bool := (cached.serial, cached.released)

theorem mark_load (cached : FileCache) (page : Nat) (fetch : FetchId) (data : Bytes)
    (attributes : Attributes) : (cached.load page fetch data attributes).mark = cached.mark := by
  unfold load
  simp only
  split <;> rfl

theorem mark_refresh (cached : FileCache) (attributes : Attributes) :
    (cached.refresh attributes).mark = cached.mark := by
  unfold refresh
  simp only
  split <;> rfl

end FileCache

namespace Pool

variable {τ : Type} {pool middle next : Pool τ} {op : Op} {file : FileId} {cached left : FileCache}

-- No mark is set or taken off but by a release of the file. A file that is there now has been
-- there all the while, or was added since and has no mark.
structure Marks (op : Op) (pool next : Pool τ) : Prop where
  serials : pool.serials ≤ next.serials
  file : ∀ file left, op ≠ .release file → next.files.find? file = some left →
    (∃ cached, pool.files.find? file = some cached ∧ left.mark = cached.mark) ∨
      pool.serials ≤ left.serial ∧ left.released = false

theorem Marks.trans (h : Marks op pool middle) (hn : Marks op middle next) :
    Marks op pool next where
  serials := h.serials.trans hn.serials
  file file left ho hf := by
    rcases hn.file file left ho hf with ⟨halfway, hm, hmark⟩ | ⟨hge, hr⟩
    · rcases h.file file halfway ho hm with ⟨cached, hc, hfirst⟩ | ⟨hge, hr⟩
      · exact .inl ⟨cached, hc, hmark.trans hfirst⟩
      · obtain ⟨hserial, hreleased⟩ : left.serial = halfway.serial ∧
            left.released = halfway.released := Prod.ext_iff.mp hmark
        exact .inr ⟨hserial ▸ hge, hreleased.trans hr⟩
    · exact .inr ⟨h.serials.trans hge, hr⟩

-- Files that stay are told from others by their serial numbers.
theorem Marks.released_eq (h : Marks op pool next) (ho : op ≠ .release file)
    (hf : pool.files.find? file = some cached) (hlt : cached.serial < pool.serials)
    (hl : next.files.find? file = some left) (hs : left.serial = cached.serial) :
    left.released = cached.released := by
  rcases h.file file left ho hl with ⟨found, hfound, hmark⟩ | ⟨hge, _⟩
  · cases hf.symm.trans hfound
    exact congrArg Prod.snd hmark
  · omega

theorem Marks.of_files (hf : next.files = pool.files) (hs : pool.serials ≤ next.serials) :
    Marks op pool next :=
  ⟨hs, fun _ left _ hl => .inl ⟨left, hf ▸ hl, rfl⟩⟩

theorem Updates.marks {change : FileCache → FileCache} (h : pool.Updates next file change)
    (hs : pool.serials ≤ next.serials) (hc : ∀ cached, (change cached).mark = cached.mark) :
    Marks op pool next where
  serials := hs
  file other left _ hf := by
    rw [h.find? other] at hf
    split at hf
    · obtain ⟨cached, hcached, rfl⟩ := Option.map_eq_some_iff.mp hf
      exact .inl ⟨cached, hcached, hc cached⟩
    · exact .inl ⟨left, hf, rfl⟩

theorem marks_enter (pool : Pool τ) (file : FileId) : Marks op pool (pool.enter file) where
  serials := (ages_enter pool file).serials
  file other left _ hf := by
    rw [find?_enter] at hf
    split at hf
    · rename_i he
      cases hf
      rw [he, resident]
      cases pool.files.find? file with
      | some cached => exact .inl ⟨cached, rfl, rfl⟩
      | none => exact .inr ⟨Nat.le_refl _, rfl⟩
    · exact .inl ⟨left, hf, rfl⟩

theorem Move.marks (h : Move op pool next) : Marks op pool next := by
  have hserials := h.ages.serials
  cases h with
  | aside h => exact .of_files h.files hserials
  | enter => exact marks_enter pool _
  | create => exact Updates.marks ⟨fun other => find?_modifyFile ..⟩ hserials fun _ => rfl
  | wait => exact (updates_modifyFile ..).marks hserials fun _ => rfl
  | use => exact (updates_modifyFile ..).marks hserials fun _ => rfl
  | load hp =>
      obtain ⟨cached, hf, _⟩ := Option.bind_eq_some_iff.mp hp
      exact (updates_load hf ..).marks hserials fun cached => cached.mark_load ..
  | fail => exact (updates_dropPages ..).marks hserials fun _ => rfl
  | evict => exact (updates_dropPages ..).marks hserials fun _ => rfl
  | remove hf =>
      refine ⟨hserials, fun other left _ hl => .inl ⟨left, ?_, rfl⟩⟩
      rw [files_removeFile hf] at hl
      exact (LruMap.find?_of_erase hl).2
  | part => exact (updates_modifyFile ..).marks hserials fun _ => rfl
  | mark file h =>
      refine ⟨hserials, fun other left ho hl => .inl ⟨left, ?_, rfl⟩⟩
      have hne : other ≠ file := fun he => ho (he ▸ h)
      rwa [find?_modifyFile, if_neg hne] at hl
  | invalidate => exact (updates_invalidate ..).marks hserials fun _ => rfl
  | revalidate => exact (updates_revalidate ..).marks hserials fun cached => cached.mark_refresh _

theorem Moves.marks (h : Moves op pool next) : Marks op pool next := by
  induction h with
  | refl => exact .of_files rfl (Nat.le_refl _)
  | tail _ hlast ih => exact ih.trans hlast.marks

-- A release takes a file that nobody reads, and marks one that somebody does.
theorem release_cases (pool : Pool τ) (file : FileId) :
    pool.files.find? file = none ∧ pool.release file = (pool, false) ∨
    ∃ cached, pool.files.find? file = some cached ∧
      (cached.isIdle = true ∧ pool.release file = (pool.removeFile file, true) ∨
        cached.isIdle = false ∧ pool.release file =
          (pool.modifyFile file fun cached => { cached with released := true }, false)) := by
  unfold release
  cases hf : pool.files.find? file with
  | none => exact .inl ⟨rfl, rfl⟩
  | some cached =>
      refine .inr ⟨cached, rfl, ?_⟩
      cases hidle : cached.isIdle with
      | true => exact .inl ⟨rfl, if_pos hidle⟩
      | false => exact .inr ⟨rfl, if_neg (by simp [hidle])⟩

end Pool

end PageCache
