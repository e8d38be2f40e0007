import PageCache.Memory
import PageCache.Proofs.Outcome

namespace PageCache

namespace Mount

variable {σ τ : Type}

-- What a read returns is settled by the pages of its span as they are when it starts and
-- by the fetches that it finds there or creates. It fails if one of those does, with the
-- error of the first that failed. Else it gives what the pages have of its range, up to
-- the first that does not reach its end.
theorem result_of_read (backend : Backend σ τ) (limits : Limits) (storage : σ)
    (before after : List (Act σ)) {file : FileId} {offset length : Nat} (hl : 0 < length)
    (hw : offset + length < wordLimit) {result : Except Error Reply} {final : Mount σ τ}
    (h : Returns backend (run backend (create limits storage) before) file offset length after
      result final) :
    let plan := (run backend (create limits storage) before).pool.plan file offset
      (offset + length)
    let outcomes := final.pool.outcome?
    plan.parts.map (·.page) = limits.span offset (offset + length) ∧
    (∀ page fetch, ⟨page, .fetch fetch⟩ ∈ plan.parts →
      let call : Call := ⟨file, page, limits.pageSize⟩
      final.pool.call? fetch = some call ∧
      ∃ answer, backend.Gives call answer ∧ outcomes fetch = some (call.outcome answer)) ∧
    (∀ fetch error,
      (fetch, error) ∈ final.pool.failures ↔ outcomes fetch = some (.error error)) ∧
    ((∃ error, result = .error error) ↔
      ∃ fetch ∈ plan.fetches, ∃ error, outcomes fetch = some (.error error)) ∧
    (∀ error, result = .error error → plan.failure? final.pool.failures = some error) ∧
    ∀ reply, result = .ok reply →
      (plan.pages outcomes).map (·.1) = limits.span offset (offset + length) ∧
      reply.segments =
        assembled limits.pageSize offset (offset + length) (plan.pages outcomes) := by
  intro plan outcomes
  obtain ⟨plans, hs, hlimits⟩ := exists_steady backend limits storage before
  have hany := backend.allows_givesAnything limits.Asks
  have hserved := h.served (served_run (backend.givesAnything limits.Asks) trivial
    fun act _ => hany act) hlimits hs fun act _ => hany act
  obtain ⟨hlater, ⟨_, hafter⟩, htracks, hdone, hresult⟩ := h.kept hs hl hw
  have hpages : plan.parts.map (·.page) = limits.span offset (offset + length) := by
    rw [← hlimits]
    exact Pool.map_page_partsFrom ..
  refine ⟨hpages, ?_, hafter.sound.backed.failed, h.failed_iff hs hl hw, ?_, ?_⟩
  · intro page fetch hp
    have hc := htracks.calls page fetch hp
    rw [hlater.limits, hlimits] at hc
    obtain ⟨outcome, ho⟩ :=
      Option.ne_none_iff_exists'.mp (hdone fetch (Plan.mem_fetches.mpr ⟨page, hp⟩))
    obtain ⟨_, answer, hgives, rfl⟩ := hserved.outcome hc ho
    exact ⟨hc, answer, hgives, ho⟩
  · rintro error rfl
    rw [Plan.outcome_eq] at hresult
    split at hresult
    · rename_i cause hcause
      cases hresult
      exact hcause
    · cases hresult
  · rintro reply rfl
    obtain ⟨hspan, hsource, hsegments⟩ := h.reply hs hl hw
    rw [hlimits] at hspan hsource
    refine ⟨hspan, ?_⟩
    rw [hsegments, contiguous_span limits (Nat.lt_add_of_pos_right hl) hw hspan]
    intro found hm
    obtain ⟨fetch, attributes, _, ho⟩ := hsource found hm
    have hsized := hafter.sound.backed.sized fetch _ _ ho
    rwa [hlater.limits, hlimits] at hsized

end Mount

-- A file of ten bytes, and a gate that holds back the read of its second page of four.
def gatedStorage : Gates × Memory :=
  ({}, (({} : Memory).insert 0 [1, 2, 3, 4, 5, 6, 7, 8, 9, 10]).hold 0 4 0)

def fourByteLimits : Limits := ⟨2, 2, 1, by decide⟩

-- What goes on until the gate is released.
def untilReleased : List (Act (Gates × Memory)) :=
  [.ask .prune, .ask (.invalidate 0), .change fun storage => (storage.1.release 0, storage.2)]

namespace Mount

def gatedMount : Mount (Gates × Memory) (Option GateId) := create fourByteLimits gatedStorage

def gatedRead : LiveRead := ⟨0, ⟨0, 0⟩, [⟨4, 1⟩]⟩

-- What has become of the mount some time after the read.
abbrev gatedRun (acts : List (Act (Gates × Memory))) : Mount (Gates × Memory) (Option GateId) :=
  run Memory.backend (create fourByteLimits gatedStorage) (.ask (.read 0 1 8 .all) :: acts)

def gatedFinal : Mount (Gates × Memory) (Option GateId) :=
  (((gatedMount.read Memory.backend 0 1 8 .all).1.run Memory.backend untilReleased).poll
    Memory.backend 0 .all).1

theorem result_of_gated_read :
    0 < 8 ∧ 1 + 8 < wordLimit ∧
    Returns Memory.backend (run Memory.backend gatedMount []) 0 1 8 untilReleased
      (.ok ⟨[⟨1, [2, 3, 4]⟩, ⟨4, [5, 6, 7, 8]⟩, ⟨8, [9]⟩]⟩) gatedFinal ∧
    ((gatedMount.pool.plan 0 1 9).pages gatedFinal.pool.outcome?).map (·.1) =
      fourByteLimits.span 1 9 ∧
    [⟨1, [2, 3, 4]⟩, ⟨4, [5, 6, 7, 8]⟩, ⟨8, [9]⟩] =
      assembled 4 1 9 ((gatedMount.pool.plan 0 1 9).pages gatedFinal.pool.outcome?) := by
  have hr : Returns Memory.backend (run Memory.backend gatedMount []) 0 1 8 untilReleased
      (.ok ⟨[⟨1, [2, 3, 4]⟩, ⟨4, [5, 6, 7, 8]⟩, ⟨8, [9]⟩]⟩) gatedFinal :=
    ⟨.all, .inr ⟨0, .all, rfl, rfl⟩⟩
  have hw : 1 + 8 < wordLimit := by decide
  obtain ⟨_, _, _, _, _, hok⟩ := result_of_read Memory.backend fourByteLimits gatedStorage []
    untilReleased (Nat.succ_pos 7) hw hr
  exact ⟨Nat.succ_pos 7, hw, hr, hok _ rfl⟩

end Mount

end PageCache
