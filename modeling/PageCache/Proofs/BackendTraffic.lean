import PageCache.Proofs.Issuing
import PageCache.Proofs.Transparency

namespace PageCache

namespace Pool

variable {τ : Type} {pool : Pool τ}

-- When no fetch is left to be launched, only a read that creates pages starts any.
theorem Launched.begins_eq {σ : Type} (h : pool.Launched) {act : Act σ}
    (hr : ∀ file offset length turns, act = .ask (.read file offset length turns) →
      length = 0 ∨ wordLimit ≤ offset + length) : pool.begins act = [] := by
  cases act with
  | change become => rfl
  | ask op =>
      cases op with
      | read file offset length turns =>
          have hnone : ¬ (0 < length ∧ offset + length < wordLimit) := by
            rcases hr file offset length turns rfl with rfl | hw
            · exact fun hread => Nat.lt_irrefl 0 hread.1
            · exact fun hread => Nat.not_lt_of_le hw hread.2
          rw [begins, if_neg hnone]
      | poll id turns => exact h.started_eq id turns
      | _ => rfl

end Pool

namespace Mount

variable {σ τ : Type}

-- Storage is asked for whole pages and nothing else. A read asks for the pages of its span that
-- the file does not hold when it starts, for each of them once and in file order, whatever
-- becomes of them before the poll is over. No other act asks for anything, and neither does the
-- read when it is polled again, in whatever turns.
theorem backend_traffic (backend : Backend σ τ) (limits : Limits) (storage : σ)
    (acts : List (Act σ)) (hp : ∀ act ∈ acts, act.Prompt) :
    let pool := (run backend (create limits storage) acts).pool
    let sent := issued backend (create limits storage)
    (∀ file offset length turns, 0 < length → offset + length < wordLimit → turns.Prompt →
      ∃ pages : List Nat,
        sent (acts ++ [.ask (.read file offset length turns)]) =
          sent acts ++ pages.map (⟨file, ·, limits.pageSize⟩) ∧
        pages.Pairwise (· < ·) ∧
        ∀ page, page ∈ pages ↔ (limits.pageSize ∣ page ∧ page < offset + length ∧
          offset < page + limits.pageSize) ∧ pool.pageAt? file page = none) ∧
    (∀ act, (∀ file offset length turns, act = .ask (.read file offset length turns) →
      length = 0 ∨ wordLimit ≤ offset + length) → sent (acts ++ [act]) = sent acts) ∧
    ∀ call ∈ sent acts, call.length = limits.pageSize ∧ limits.pageSize ∣ call.offset := by
  intro pool sent
  refine ⟨fun file offset length turns hl hw ht => ?_, fun act hact => ?_, fun call hcall => ?_⟩
  · have hlt : offset < offset + length := Nat.lt_add_of_pos_right hl
    refine ⟨_, issued_read backend limits storage acts hp file hl hw ht, ?_, fun page => ?_⟩
    · exact ((limits.span_pairwise offset _).imp And.left).filter _
    · rw [Pool.absent, List.mem_filter, limits.mem_span_iff hlt, Option.isNone_iff_eq_none]
  · obtain ⟨_, hlaunched⟩ := issued_eq_calls backend limits storage hp
    simp only [sent, issued_append, hlaunched.begins_eq hact, List.append_nil]
  · exact asks_of_issued backend limits storage acts hcall

theorem gated_backend_traffic :
    let sent := issued Memory.backend (create fourByteLimits gatedStorage)
    (∀ act ∈ [Act.ask (.read 0 1 8 .all)], (act : Act (Gates × Memory)).Prompt) ∧
    (∃ pages : List Nat, sent [.ask (.read 0 1 8 .all), .ask (.read 0 2 14 .all)] =
        sent [.ask (.read 0 1 8 .all)] ++ pages.map (⟨0, ·, 4⟩) ∧
      12 ∈ pages ∧ 4 ∉ pages) ∧
    sent [.ask (.read 0 1 8 .all), .ask (.poll 0 .all)] = sent [.ask (.read 0 1 8 .all)] ∧
    ⟨0, 8, 4⟩ ∈ sent [.ask (.read 0 1 8 .all)] ∧ 4 ∣ 8 := by
  intro sent
  have hp : ∀ act ∈ [Act.ask (.read 0 1 8 .all)], (act : Act (Gates × Memory)).Prompt :=
    List.forall_mem_singleton.mpr Turns.prompt_all
  obtain ⟨hread, hothers, hpages⟩ :=
    backend_traffic Memory.backend fourByteLimits gatedStorage [.ask (.read 0 1 8 .all)] hp
  obtain ⟨pages, hsent, _, hmem⟩ := hread 0 2 14 .all (by decide) (by decide) Turns.prompt_all
  have hcall : ⟨0, 8, 4⟩ ∈ sent [.ask (.read 0 1 8 .all)] := by decide
  refine ⟨hp, ⟨pages, hsent, (hmem 12).mpr ⟨by decide, rfl⟩, fun hm => ?_⟩,
    hothers (.ask (.poll 0 .all)) (fun _ _ _ _ he => nomatch he), hcall, (hpages _ hcall).2⟩
  exact nomatch ((hmem 4).mp hm).2

end Mount

end PageCache
