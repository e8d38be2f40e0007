import Mathlib.Data.List.Dedup
import PageCache.Proofs.Shedding

namespace PageCache

section History

variable {α : Type} [DecidableEq α] {kept history : List α} {name : α}

-- Each name of a history stands where it was used last.
theorem dedup_concat (history : List α) (name : α) :
    (history ++ [name]).dedup = (history.dedup.filter fun other => other ≠ name) ++ [name] := by
  induction history with
  | nil => simp
  | cons first rest ih =>
      rw [List.cons_append]
      by_cases hr : first ∈ rest
      · rw [List.dedup_cons_of_mem (List.mem_append_left _ hr), List.dedup_cons_of_mem hr, ih]
      · by_cases he : first = name
        · subst he
          rw [List.dedup_cons_of_mem (by simp), List.dedup_cons_of_notMem hr, ih,
            List.filter_cons_of_neg (by simp)]
        · rw [List.dedup_cons_of_notMem (by simp [hr, he]), List.dedup_cons_of_notMem hr, ih,
            List.filter_cons_of_pos (by simpa using he), List.cons_append]

theorem dedup_concat_concat (history : List α) (name : α) :
    (history ++ [name] ++ [name]).dedup = (history ++ [name]).dedup := by
  simp only [dedup_concat, List.filter_append, List.filter_filter, Bool.and_self]
  simp

theorem concat_sublist_dedup (h : kept.Sublist history.dedup) (hn : name ∉ kept) :
    (kept ++ [name]).Sublist (history ++ [name]).dedup := by
  have hkept : (kept.filter fun other => other ≠ name) = kept :=
    List.filter_eq_self.mpr fun other ho => by
      have hne : other ≠ name := fun he => hn (he ▸ ho)
      simpa using hne
  rw [dedup_concat, ← hkept]
  exact (h.filter _).append (.refl _)

-- What is left of a list without repetitions is told by its members.
theorem eq_filter_of_sublist {names : List α} (h : kept.Sublist names) (hn : names.Nodup) :
    kept = names.filter (· ∈ kept) := by
  induction h with
  | slnil => rfl
  | @cons kept names name hsub ih =>
      rw [List.nodup_cons] at hn
      have hname : name ∉ kept := fun hm => hn.1 (hsub.subset hm)
      rw [List.filter_cons_of_neg (by simpa using hname)]
      exact ih hn.2
  | @cons_cons kept names name hsub ih =>
      rw [List.nodup_cons] at hn
      rw [List.filter_cons_of_pos (by simp)]
      congr 1
      refine (ih hn.2).trans (List.filter_congr fun other ho => ?_)
      have hne : other ≠ name := fun he => hn.1 (he ▸ ho)
      simp [hne]

end History

namespace LruMap.Ordered

variable {α : Type} {map : LruMap α} {history : List Nat}

theorem keys_insert_sublist (h : map.Ordered) (hk : map.keys.Sublist history.dedup) (key : Nat)
    (value : α) : (map.insert key value).keys.Sublist (history ++ [key]).dedup := by
  rw [keys_insert]
  refine concat_sublist_dedup ((map.keys_erase_sublist key).trans hk) fun hm => ?_
  obtain ⟨found, hf⟩ := (h.erase key).mem_keys.mp hm
  rw [find?_erase_self] at hf
  cases hf

theorem keys_touch_sublist (h : map.Ordered) (hk : map.keys.Sublist history.dedup) {key : Nat}
    {value : α} (hf : map.find? key = some value) :
    (map.touch key).keys.Sublist (history ++ [key]).dedup := by
  have htouch : map.touch key = map.insert key value := by
    simp only [LruMap.touch, hf]
  rw [htouch]
  exact h.keys_insert_sublist hk key value

end LruMap.Ordered

-- Those uses that are of pages of the file.
def usesOf (file : FileId) (uses : List (FileId × Nat)) : List Nat :=
  uses.filterMap fun use => if use.1 = file then some use.2 else none

-- The pages of each file that have been used, and some more that are used later on.
def addUses (past : FileId → List Nat) (more : List (FileId × Nat)) (file : FileId) : List Nat :=
  past file ++ usesOf file more

theorem addUses_nil (past : FileId → List Nat) : addUses past [] = past := by
  funext file
  exact List.append_nil _

theorem addUses_append (past : FileId → List Nat) (first rest : List (FileId × Nat)) :
    addUses past (first ++ rest) = addUses (addUses past first) rest := by
  funext file
  simp only [addUses, usesOf, List.filterMap_append, List.append_assoc]

namespace Pool

variable {τ : Type} {pool next : Pool τ} {reads : List FileId} {past : FileId → List Nat}
  {file : FileId} {lease : Lease}

-- Files stand in the order of their last reads, and pages in that of their last uses.
structure Follows (pool : Pool τ) (reads : List FileId) (past : FileId → List Nat) : Prop where
  files : pool.files.keys.Sublist reads.dedup
  pages : ∀ file, (pool.pagesOf file).Sublist (past file).dedup

theorem Ordered.follows (h : pool.Ordered) : pool.Follows pool.files.keys pool.pagesOf where
  files := h.files.nodup_keys.dedup.symm ▸ .refl _
  pages file := (h.nodup_pagesOf file).dedup.symm ▸ .refl _

theorem Follows.sheds (h : pool.Follows reads past) (hs : pool.Sheds next) :
    next.Follows reads past :=
  ⟨hs.files.trans h.files, fun file => (hs.pages file).trans (h.pages file)⟩

theorem Follows.of_files (h : pool.Follows reads past) (hf : next.files = pool.files) :
    next.Follows reads past :=
  ⟨hf ▸ h.files, fun file => pagesOf_of_files hf ▸ h.pages file⟩

theorem Follows.files_eq (h : pool.Follows reads past) (ho : pool.Ordered) :
    pool.files.keys = reads.dedup.filter fun file => pool.files.contains file := by
  refine (eq_filter_of_sublist h.files reads.nodup_dedup).trans (List.filter_congr fun file _ => ?_)
  rw [LruMap.contains_eq_isSome, Bool.eq_iff_iff, decide_eq_true_iff, ho.files.mem_keys,
    Option.isSome_iff_exists]

theorem Follows.pages_eq (h : pool.Follows reads past) (ho : pool.Ordered) (file : FileId) :
    pool.pagesOf file =
      (past file).dedup.filter fun page => (pool.pageAt? file page).isSome := by
  refine (eq_filter_of_sublist (h.pages file) (past file).nodup_dedup).trans
    (List.filter_congr fun page _ => ?_)
  rw [Bool.eq_iff_iff, decide_eq_true_iff, ho.mem_pagesOf]

-- A page that is put in its place comes last in the order of use.
theorem Follows.insert (h : pool.Follows reads past) (ho : pool.Ordered) (page : Nat)
    {change : FileCache → FileCache}
    (hc : ∀ cached, pool.files.find? file = some cached →
      ∃ value, (change cached).pages = cached.pages.insert page value) :
    (pool.modifyFile file change).Follows reads (addUses past [(file, page)]) where
  files := h.files
  pages other := by
    have hpages := h.pages other
    simp only [pagesOf, find?_modifyFile] at hpages ⊢
    by_cases he : other = file
    · subst he
      have huses : usesOf other [(other, page)] = [page] := by simp [usesOf]
      rw [if_pos rfl, addUses, huses]
      cases hf : pool.files.find? other with
      | none => exact List.nil_sublist _
      | some cached =>
          obtain ⟨value, hvalue⟩ := hc cached hf
          rw [hf] at hpages
          simp only [Option.map_some, hvalue]
          exact (ho.pages other cached hf).keys_insert_sublist hpages page value
    · have huses : usesOf other [(file, page)] = [] := by simp [usesOf, Ne.symm he]
      rw [if_neg he, addUses, huses, List.append_nil]
      exact hpages

-- The pages that a lookup uses: those that are loaded, and those that it creates.
def touched (pool : Pool τ) (file : FileId) (pages : List Nat) : List (FileId × Nat) :=
  (pages.filter fun page => (pool.pageAt? file page).all Page.isLoaded).map (file, ·)

theorem Ordered.lookup (h : pool.Ordered) (id : ReadId) (lease : Lease) (page : Nat) :
    (lookup id lease pool page).Ordered := by
  unfold Pool.lookup
  split
  · have hused : (pool.modifyFile lease.file fun cached =>
        { cached with pages := cached.pages.touch page }).Ordered :=
      h.modifyFile lease.file fun _ _ hc => hc.touch page
    exact hused.of_files (aside_addPage ..).files
  · exact (h.join id lease _).of_files rfl
  · exact (h.createPage lease.file page).join id lease _

theorem Follows.lookup (h : pool.Follows reads past) (ho : pool.Ordered) (hl : pool.Holds lease)
    (id : ReadId) (page : Nat) :
    (lookup id lease pool page).Follows reads (addUses past (pool.touched lease.file [page])) := by
  unfold Pool.lookup
  rw [page?_eq_pageAt? page hl]
  split
  · rename_i fetch data hp
    have htouched : pool.touched lease.file [page] = [(lease.file, page)] := by
      simp [touched, hp, Page.isLoaded, Page.data?]
    let used := pool.modifyFile lease.file fun cached =>
      { cached with pages := cached.pages.touch page }
    have hused : used.Follows reads (addUses past [(lease.file, page)]) := by
      refine h.insert ho page fun cached hf => ⟨.loaded fetch data, ?_⟩
      rw [pageAt?, hf, Option.bind_some] at hp
      simp only [LruMap.touch, hp]
    have hemitted : (used.emit (.pageHit lease.file page fetch)).Follows reads
        (addUses past [(lease.file, page)]) := hused.of_files rfl
    rw [htouched]
    exact hemitted.sheds (sheds_addPage ..)
  · rename_i fetch waiters hp
    have htouched : pool.touched lease.file [page] = [] := by
      simp [touched, hp, Page.isLoaded, Page.data?]
    rw [htouched, addUses_nil]
    exact (h.sheds (sheds_join _ _ _ _)).of_files rfl
  · rename_i hp
    have htouched : pool.touched lease.file [page] = [(lease.file, page)] := by
      simp [touched, hp]
    have hinserted : (pool.modifyFile lease.file fun cached =>
        { cached with
          pages := cached.pages.insert page (.fetching pool.fetches.size []) }).Follows reads
        (addUses past [(lease.file, page)]) := h.insert ho page fun _ _ => ⟨_, rfl⟩
    have hcreated : (pool.createPage lease.file page).Follows reads
        (addUses past [(lease.file, page)]) := hinserted.of_files rfl
    rw [htouched]
    exact hcreated.sheds (sheds_join ..)

-- One page after another is looked up, and each is found as it was at first.
theorem Follows.lookups (id : ReadId) {pages : List Nat} (hn : pages.Nodup)
    (h : pool.Follows reads past) (ho : pool.Ordered) (hl : pool.Holds lease) :
    (pages.foldl (Pool.lookup id lease) pool).Follows reads
      (addUses past (pool.touched lease.file pages)) := by
  induction pages generalizing pool past with
  | nil =>
      rw [touched, List.filter_nil, List.map_nil, addUses_nil]
      exact h
  | cons page rest ih =>
      rw [List.nodup_cons] at hn
      have hrest : (Pool.lookup id lease pool page).touched lease.file rest =
          pool.touched lease.file rest := by
        unfold touched
        congr 1
        refine List.filter_congr fun name hname => ?_
        rw [pageAt?_lookup_of_ne hl id page lease.file fun he => hn.1 (he ▸ hname)]
      have hlater := ih hn.2 (h.lookup ho hl id page) (ho.lookup id lease page) (hl.lookup id page)
      rw [hrest, ← addUses_append] at hlater
      have hsplit : pool.touched lease.file (page :: rest) =
          pool.touched lease.file [page] ++ pool.touched lease.file rest := by
        simp only [touched, ← List.map_append, ← List.filter_append, List.singleton_append]
      rw [hsplit]
      exact hlater

theorem pagesOf_enter (pool : Pool τ) (file : FileId) :
    (pool.enter file).pagesOf = pool.pagesOf := by
  funext other
  simp only [pagesOf, find?_enter]
  by_cases he : other = file
  · subst he
    rw [if_pos rfl, resident]
    cases pool.files.find? other with
    | none => rfl
    | some cached => rfl
  · rw [if_neg he]

-- The file that a read is of comes last in the order of files, be it new or not.
theorem Follows.enter (h : pool.Follows reads past) (ho : pool.Ordered) (file : FileId) :
    (pool.enter file).Follows (reads ++ [file]) past where
  files := by
    unfold Pool.enter
    simp only [LruMap.keys_modify]
    split
    · rename_i hc
      obtain ⟨cached, hf⟩ := Option.isSome_iff_exists.mp
        ((LruMap.contains_eq_isSome ..).symm.trans hc)
      exact ho.files.keys_touch_sublist h.files hf
    · have hinserted := ho.files.keys_insert_sublist h.files file { serial := pool.serials }
      have htouched := (ho.files.insert file { serial := pool.serials }).keys_touch_sublist
        hinserted (LruMap.find?_insert_self ..)
      rw [dedup_concat_concat] at htouched
      exact htouched
  pages other := by
    rw [pagesOf_enter]
    exact h.pages other

theorem Follows.startRead (h : pool.Follows reads past) (ho : pool.Ordered) (file : FileId)
    (offset stop : Nat) :
    (pool.startRead file offset stop).Follows (reads ++ [file])
      (addUses past (pool.touched file (pool.limits.span offset stop))) := by
  have hregistered : (pool.registered file offset stop).Follows (reads ++ [file]) past :=
    (h.enter ho file).of_files rfl
  have hordered : (pool.registered file offset stop).Ordered := (ho.enter file).of_files rfl
  have hholds : (pool.registered file offset stop).Holds
      ⟨file, (pool.resident file).serial⟩ := by
    have hfind := find?_enter pool file file
    rw [if_pos rfl] at hfind
    exact ⟨_, hfind, rfl⟩
  have hlooked := hregistered.lookups pool.gatherings.size (pool.limits.nodup_span offset stop)
    hordered hholds
  have htouched : (pool.registered file offset stop).touched file
      (pool.limits.span offset stop) = pool.touched file (pool.limits.span offset stop) := by
    simp only [touched, (alike_registered pool file offset stop).pageAt?]
  rw [htouched] at hlooked
  have hspan : (pool.lookupSpan file offset stop).Follows (reads ++ [file])
      (addUses past (pool.touched file (pool.limits.span offset stop))) := by
    rw [lookupSpan_eq]
    exact hlooked.of_files (files_require ..)
  unfold Pool.startRead
  simp only
  split
  · exact hspan.sheds ((sheds_enforceBudget _).trans (sheds_arrive _ _))
  · exact hspan.sheds (sheds_arrive _ _)

theorem pairwise_touched (pool : Pool τ) (file : FileId) {pages : List Nat}
    (h : pages.Pairwise (· < ·)) : ((pool.touched file pages).map (·.2)).Pairwise (· < ·) := by
  rw [touched, List.map_map]
  change ((pages.filter _).map fun page => page).Pairwise (· < ·)
  rw [List.map_id']
  exact h.filter _

-- The page that a fetch loads when its outcome is seen, if it still waits for the fetch and
-- that has not failed.
def loads? (pool : Pool τ) (lease : Lease) (wait : Wait) (outcome : Outcome) :
    Option (FileId × Nat) :=
  match pool.page? lease wait.page, outcome with
  | some (.fetching fetch _), .ok _ =>
      if fetch = wait.fetch then some (lease.file, wait.page) else none
  | _, _ => none

theorem loads?_error (pool : Pool τ) (lease : Lease) (wait : Wait) (error : Error) :
    pool.loads? lease wait (.error error) = none := by
  unfold loads?
  split
  · rename_i he
    cases he
  · rfl

theorem Follows.resolve (h : pool.Follows reads past) (ho : pool.Ordered) (lease : Lease)
    (wait : Wait) (outcome : Outcome) :
    (pool.resolve lease wait outcome).Follows reads
      (addUses past (pool.loads? lease wait outcome).toList) := by
  have hsheds : ∀ {resolved : Pool τ}, pool.Sheds resolved →
      resolved.Follows reads (addUses past []) := fun hs => by
    rw [addUses_nil]
    exact h.sheds hs
  unfold Pool.resolve loads?
  cases pool.page? lease wait.page with
  | none => exact hsheds (sheds_emit pool rfl)
  | some found =>
      cases found with
      | loaded fetch data => exact hsheds (sheds_emit pool rfl)
      | fetching fetch waiters =>
          by_cases he : fetch = wait.fetch
          · cases outcome with
            | error error =>
                simp only [if_pos he]
                exact hsheds (sheds_giveUp ..)
            | ok answer =>
                have hinstalled : (pool.install lease.file wait answer.1 answer.2).Follows reads
                    (addUses past [(lease.file, wait.page)]) :=
                  h.insert ho wait.page fun _ _ => ⟨_, rfl⟩
                simp only [if_pos he]
                exact hinstalled.sheds (sheds_store ..)
          · cases outcome with
            | error error =>
                simp only [if_neg he]
                exact hsheds (sheds_emit pool rfl)
            | ok answer =>
                simp only [if_neg he]
                exact hsheds (sheds_emit pool rfl)

end Pool

end PageCache
