import PageCache.Proofs.Crowding
import PageCache.Proofs.Updates

namespace PageCache

namespace LruMap

variable {α β : Type}

-- Other values under the same keys, which were last used at the same times.
def map (change : α → β) (source : LruMap α) : LruMap β where
  slots := source.slots.map fun slot => ⟨slot.key, slot.stamp, change slot.value⟩
  order := source.order
  next := source.next

section Map

variable (change : α → β) (source : LruMap α) (key : Nat)

@[simp] theorem keys_map : (source.map change).keys = source.keys := rfl

@[simp] theorem size_map : (source.map change).size = source.size := List.length_map _

theorem slot?_map : (source.map change).slot? key =
    (source.slot? key).map fun slot => ⟨slot.key, slot.stamp, change slot.value⟩ := by
  simp only [slot?, map, List.find?_map]
  rfl

@[simp] theorem find?_map : (source.map change).find? key = (source.find? key).map change := by
  simp only [find?, slot?_map, Option.map_map]
  rfl

theorem erase_map : (source.map change).erase key = (source.erase key).map change := by
  rw [erase_eq, erase_eq, slot?_map]
  simp only [map, List.filter_map, Option.map_map, LruMap.mk.injEq, and_true]
  refine ⟨rfl, List.filter_congr fun entry _ => ?_⟩
  cases source.slot? key <;> rfl

theorem eraseAll_map (keys : List Nat) :
    (source.map change).eraseAll keys = (source.eraseAll keys).map change := by
  simp only [eraseAll]
  induction keys generalizing source with
  | nil => rfl
  | cons key rest ih => rw [List.foldl_cons, erase_map, ih, List.foldl_cons]

theorem insert_map (value : α) :
    (source.map change).insert key (change value) = (source.insert key value).map change := by
  unfold insert
  rw [erase_map]
  rfl

theorem touch_map : (source.map change).touch key = (source.touch key).map change := by
  unfold touch
  rw [find?_map]
  cases source.find? key with
  | none => rfl
  | some value => exact insert_map ..

theorem modify_map {first : α → α} {second : β → β}
    (h : ∀ value, second (change value) = change (first value)) :
    (source.map change).modify key second = (source.modify key first).map change := by
  simp only [modify, map, List.map_map, LruMap.mk.injEq, and_true]
  refine List.map_congr_left fun slot _ => ?_
  simp only [Function.comp_apply]
  split
  · rw [h]
  · rfl

end Map

theorem Ordered.map_congr {source : LruMap α} (h : source.Ordered) {first second : α → β}
    (hc : ∀ key value, source.find? key = some value → first value = second value) :
    source.map first = source.map second := by
  simp only [map, LruMap.mk.injEq, and_true]
  refine List.map_congr_left fun slot hs => ?_
  rw [hc slot.key slot.value ((find?_eq_some_iff h).mpr ⟨slot, hs, rfl, rfl⟩)]

end LruMap

-- Other numbers for reads and for fetches.
structure Numbering where
  read : ReadId → ReadId
  fetch : FetchId → FetchId

variable {numbers : Numbering}

def Wait.renumber (numbers : Numbering) (wait : Wait) : Wait :=
  { wait with fetch := numbers.fetch wait.fetch }

namespace Page

def renumber (numbers : Numbering) : Page → Page
  | fetching fetch waiters => fetching (numbers.fetch fetch) (waiters.map numbers.read)
  | loaded fetch data => loaded (numbers.fetch fetch) data

theorem isWaited_renumber (page : Page) : (page.renumber numbers).isWaited = page.isWaited := by
  cases page with
  | fetching fetch waiters => cases waiters <;> rfl
  | loaded fetch data => rfl

theorem isLoaded_renumber (page : Page) : (page.renumber numbers).isLoaded = page.isLoaded := by
  cases page <;> rfl

theorem wait_renumber (page : Page) (id : ReadId) :
    (page.renumber numbers).wait (numbers.read id) = (page.wait id).renumber numbers := by
  cases page with
  | fetching fetch waiters => simp only [renumber, wait, List.map_append, List.map_cons,
      List.map_nil]
  | loaded fetch data => rfl

end Page

namespace FileCache

-- All of a file but its serial number.
def anonymous (cached : FileCache) : FileCache := { cached with serial := 0 }

-- The same with other numbers for the reads and fetches that its pages tell of.
def renumber (numbers : Numbering) (cached : FileCache) : FileCache :=
  { cached with
    serial := 0
    pages := cached.pages.map (Page.renumber numbers) }

-- What two files have in common that differ in these numbers only.
structure Twins (numbers : Numbering) (cached other : FileCache) : Prop where
  readers : other.readers = cached.readers
  released : other.released = cached.released
  pages : other.pages = cached.pages.map (Page.renumber numbers)
  attributes : other.attributes = cached.attributes

theorem twins_of_anonymous {cached other : FileCache}
    (h : other.anonymous = cached.renumber numbers) : cached.Twins numbers other := by
  simp only [anonymous, renumber, FileCache.mk.injEq, true_and] at h
  exact ⟨h.1, h.2.1, h.2.2.1, h.2.2.2⟩

variable (cached : FileCache)

theorem isWaited_renumber (page : Nat) :
    (cached.renumber numbers).isWaited page = cached.isWaited page := by
  unfold isWaited
  simp only [renumber, LruMap.find?_map]
  cases cached.pages.find? page with
  | none => rfl
  | some found => exact found.isWaited_renumber

theorem unwaited_renumber : (cached.renumber numbers).unwaited = cached.unwaited := by
  unfold unwaited
  simp only [isWaited_renumber]
  rfl

theorem Twins.unwaited {cached other : FileCache} (h : cached.Twins numbers other) :
    other.unwaited = cached.unwaited := by
  have hsame : (cached.renumber numbers).unwaited = cached.unwaited := cached.unwaited_renumber
  rw [← hsame]
  unfold FileCache.unwaited isWaited
  rw [h.pages]
  rfl

theorem drop_renumber (pages : List Nat) :
    (cached.drop pages).renumber numbers = (cached.renumber numbers).drop pages := by
  simp only [drop, renumber, LruMap.eraseAll_map]

theorem forget_renumber : cached.forget.renumber numbers = (cached.renumber numbers).forget := by
  unfold forget
  rw [drop_renumber, unwaited_renumber]
  rfl

theorem refresh_renumber (attributes : Attributes) :
    (cached.refresh attributes).renumber numbers =
      (cached.renumber numbers).refresh attributes := by
  have hstale : (cached.renumber numbers).isStale attributes = cached.isStale attributes := rfl
  unfold refresh
  rw [hstale, unwaited_renumber]
  simp only
  split
  · rw [drop_renumber]
    rfl
  · rfl

theorem load_renumber (page : Nat) (fetch : FetchId) (data : Bytes) (attributes : Attributes) :
    (cached.load page fetch data attributes).renumber numbers =
      (cached.renumber numbers).load page (numbers.fetch fetch) data attributes := by
  let stored : FileCache :=
    { cached with
      pages := cached.pages.insert page (.loaded fetch data)
      attributes := some attributes }
  have hstored : { cached.renumber numbers with
      pages := (cached.renumber numbers).pages.insert page (.loaded (numbers.fetch fetch) data)
      attributes := some attributes } = stored.renumber numbers := by
    simp only [stored, renumber]
    rw [← LruMap.insert_map]
    rfl
  have hstale : (cached.renumber numbers).isStale attributes = cached.isStale attributes := rfl
  unfold load
  simp only
  rw [hstored, hstale, unwaited_renumber]
  split
  · rw [drop_renumber]
  · rfl

theorem refresh_anonymous (attributes : Attributes) :
    (cached.refresh attributes).anonymous = cached.anonymous.refresh attributes := by
  have hstale : cached.anonymous.isStale attributes = cached.isStale attributes := rfl
  unfold refresh
  rw [hstale]
  split <;> rfl

theorem load_anonymous (page : Nat) (fetch : FetchId) (data : Bytes) (attributes : Attributes) :
    (cached.load page fetch data attributes).anonymous =
      cached.anonymous.load page fetch data attributes := by
  have hstale : cached.anonymous.isStale attributes = cached.isStale attributes := rfl
  unfold load
  rw [hstale]
  split <;> rfl

end FileCache

end PageCache
