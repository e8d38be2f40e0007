import Mathlib.Algebra.GroupWithZero.Nat
import PageCache.Proofs.Cutting

namespace PageCache

namespace Memory

-- The failure that is injected into reads.
def injected : Error := .readFailed ⟨.other, some "injected failure"⟩

section Steps

variable (memory : Memory) (file : FileId) (offset : Nat)

theorem failuresOf_fail (other : FileId) (place times : Nat)
    (h : memory.failuresOf other place + times < wordLimit) :
    (memory.fail other place times).failuresOf file offset =
      memory.failuresOf file offset + if other = file ∧ place = offset then times else 0 := by
  rw [fail, if_pos h]
  by_cases he : other = file ∧ place = offset
  · obtain ⟨rfl, rfl⟩ := he
    simp [failuresOf, Assoc.get?_set_self]
  · have hne : (file, offset) ≠ (other, place) := fun heq => he (by cases heq; exact ⟨rfl, rfl⟩)
    rw [if_neg he, failuresOf, Assoc.get?_set_of_ne _ _ hne]
    rfl

-- A read past its gate fails if a failure is left for its place, which is then used up. No other
-- answer is like this one.
theorem answer_of_pending {call : Call} (h : 0 < memory.failuresOf call.file call.offset) :
    memory.answer call =
      ({ memory with
          failures := memory.failures.set (call.file, call.offset)
            (memory.failuresOf call.file call.offset - 1) },
        .error injected) := by
  simp only [answer, h, if_true]
  rfl

theorem answer_of_none {call : Call} (h : memory.failuresOf call.file call.offset = 0) :
    (memory.answer call).1.failures = memory.failures ∧
    (memory.answer call).1.reads = memory.reads ∧ (memory.answer call).2 ≠ .error injected := by
  simp only [answer, h, Nat.lt_irrefl, if_false]
  split
  · exact ⟨rfl, rfl, by simp [injected]⟩
  · split
    · exact ⟨rfl, rfl, by simp⟩
    · exact ⟨rfl, rfl, by simp [injected]⟩

-- A failure is used up by each read of the place that fails so, and by nothing else.
theorem failuresOf_answer (call : Call) :
    ((memory.answer call).1.failuresOf file offset +
      if call.file = file ∧ call.offset = offset ∧ (memory.answer call).2 = .error injected
        then 1 else 0) = memory.failuresOf file offset := by
  rcases Nat.eq_zero_or_pos (memory.failuresOf call.file call.offset) with hn | hp
  · obtain ⟨hfailures, _, hne⟩ := memory.answer_of_none hn
    rw [if_neg (fun h => hne h.2.2), Nat.add_zero, failuresOf, hfailures]
    rfl
  · rw [memory.answer_of_pending hp]
    by_cases he : call.file = file ∧ call.offset = offset
    · obtain ⟨rfl, rfl⟩ := he
      simp only [failuresOf, Assoc.get?_set_self, Option.getD_some, and_self, if_true] at hp ⊢
      omega
    · have hne : (file, offset) ≠ (call.file, call.offset) :=
        fun heq => he (by cases heq; exact ⟨rfl, rfl⟩)
      rw [if_neg (fun h => he ⟨h.1, h.2.1⟩), Nat.add_zero, failuresOf,
        Assoc.get?_set_of_ne _ _ hne]
      rfl

theorem reads_answer (call : Call) : (memory.answer call).1.reads = memory.reads := by
  rcases Nat.eq_zero_or_pos (memory.failuresOf call.file call.offset) with hn | hp
  · exact (memory.answer_of_none hn).2.1
  · rw [memory.answer_of_pending hp]

end Steps

end Memory

-- A memory with its gates, and the reads of it that are under way, each with the gate that it may
-- wait at.
structure Bench where
  gates : Gates := {}
  memory : Memory := {}
  reads : List (Call × Option GateId) := []

-- What can be done to a memory. A read under way is told by its place among them.
inductive Errand where
  | insert (file : FileId) (data : Bytes)
  | fail (file : FileId) (offset times : Nat)
  | hold (file : FileId) (offset : Nat)
  | release (gate : GateId)
  | segmentSize (size : Option Nat)
  | overread (extra : Nat)
  | start (call : Call)
  | poll (index : Nat)
  | drop (index : Nat)

namespace Errand

-- How many failures it adds at a place.
def added (file : FileId) (offset : Nat) : Errand → Nat
  | .fail other place times => if other = file ∧ place = offset then times else 0
  | _ => 0

-- How many reads of a place it starts.
def started (file : FileId) (offset : Nat) : Errand → Nat
  | .start call => if call.file = file ∧ call.offset = offset then 1 else 0
  | _ => 0

end Errand

namespace Bench

-- Polls a read. If it is answered it is no longer under way.
def poll (bench : Bench) (index : Nat) : Bench × Option (Call × Except Error Fetched) :=
  match bench.reads[index]? with
  | none => (bench, none)
  | some (call, gate) =>
      let polled := Memory.backend.poll (bench.gates, bench.memory) call gate
      match polled.2 with
      | .waiting gate => (⟨polled.1.1, polled.1.2, bench.reads.set index (call, gate)⟩, none)
      | .finished answer =>
          (⟨polled.1.1, polled.1.2, bench.reads.eraseIdx index⟩, some (call, answer))

-- What an errand makes of the bench, and the read that it answers, if it does.
def act (bench : Bench) : Errand → Bench × Option (Call × Except Error Fetched)
  | .insert file data => ({ bench with memory := bench.memory.insert file data }, none)
  | .fail file offset times => ({ bench with memory := bench.memory.fail file offset times }, none)
  | .hold file offset =>
      let made := bench.gates.make
      ({ bench with gates := made.1, memory := bench.memory.hold file offset made.2 }, none)
  | .release gate => ({ bench with gates := bench.gates.release gate }, none)
  | .segmentSize size => ({ bench with memory := { bench.memory with segmentSize := size } }, none)
  | .overread extra => ({ bench with memory := { bench.memory with overread := extra } }, none)
  | .start call =>
      let started := Memory.backend.start (bench.gates, bench.memory) call
      (⟨started.1.1, started.1.2, bench.reads ++ [(call, started.2)]⟩, none)
  | .poll index => bench.poll index
  | .drop index => ({ bench with reads := bench.reads.eraseIdx index }, none)

-- The bench after some errands, and the reads answered in the course of them.
def run (bench : Bench) : List Errand → Bench × List (Call × Except Error Fetched)
  | [] => (bench, [])
  | errand :: rest =>
      let acted := bench.act errand
      let later := acted.1.run rest
      (later.1, acted.2.toList ++ later.2)

-- How many reads of a place were answered with an injected failure.
def failed (file : FileId) (offset : Nat) (answers : List (Call × Except Error Fetched)) : Nat :=
  answers.countP fun answered => decide (answered.1.file = file ∧ answered.1.offset = offset ∧
    answered.2 = .error Memory.injected)

-- No count of failures passes 64 bits.
def Fits (bench : Bench) : Errand → Prop
  | .fail file offset times => bench.memory.failuresOf file offset + times < wordLimit
  | _ => True

def FitsAll (bench : Bench) : List Errand → Prop
  | [] => True
  | errand :: rest => bench.Fits errand ∧ (bench.act errand).1.FitsAll rest

section Polls

variable {bench : Bench} {index : Nat} {call : Call} {gate : Option GateId}

theorem poll_of_passes (h : bench.reads[index]? = some (call, gate))
    (hp : bench.gates.passes gate = true) :
    bench.poll index =
      (⟨bench.gates, (bench.memory.answer call).1, bench.reads.eraseIdx index⟩,
        some (call, (bench.memory.answer call).2)) := by
  simp only [poll, h, Memory.backend, hp, if_true]

-- A read that is not under way, or is held, is not answered, and nothing comes of the poll.
theorem poll_of_held (h : ∀ call gate, bench.reads[index]? = some (call, gate) →
    bench.gates.passes gate = false) : bench.poll index = (bench, none) := by
  unfold poll
  split
  · rfl
  · rename_i call gate hread
    simp only [Memory.backend, h call gate hread, Bool.false_eq_true, if_false]
    obtain ⟨hlt, hread⟩ := List.getElem?_eq_some_iff.mp hread
    rw [← hread, List.set_getElem_self]

end Polls

section Accounts

variable (bench : Bench) (file : FileId) (offset : Nat)

-- Whatever is done, a poll either answers a read or does nothing.
theorem poll_cases (index : Nat) :
    bench.poll index = (bench, none) ∨
    ∃ call, bench.poll index =
      (⟨bench.gates, (bench.memory.answer call).1, bench.reads.eraseIdx index⟩,
        some (call, (bench.memory.answer call).2)) := by
  by_cases h : ∀ call gate, bench.reads[index]? = some (call, gate) →
      bench.gates.passes gate = false
  · exact .inl (poll_of_held h)
  · simp only [not_forall, Bool.not_eq_false] at h
    obtain ⟨call, gate, hread, hp⟩ := h
    exact .inr ⟨call, poll_of_passes hread hp⟩

theorem failures_act {errand : Errand} (h : bench.Fits errand) :
    failed file offset (bench.act errand).2.toList +
        (bench.act errand).1.memory.failuresOf file offset =
      bench.memory.failuresOf file offset + errand.added file offset := by
  cases errand with
  | fail other place times =>
      rw [Nat.add_comm]
      exact bench.memory.failuresOf_fail file offset other place times h
  | insert other data =>
      have hfailures : (bench.memory.insert other data).failuresOf file offset =
          bench.memory.failuresOf file offset := by
        unfold Memory.insert
        split <;> rfl
      exact (Nat.zero_add _).trans hfailures
  | poll index =>
      simp only [act]
      rcases bench.poll_cases index with he | ⟨call, he⟩
      · rw [he]
        exact Nat.zero_add _
      · have hanswer := bench.memory.failuresOf_answer file offset call
        rw [he, failed, Option.toList_some, List.countP_singleton, Nat.add_comm]
        simp only [decide_eq_true_eq]
        exact hanswer
  | _ => exact Nat.zero_add _

theorem reads_act (errand : Errand) :
    (bench.act errand).1.memory.readsOf file offset =
      bench.memory.readsOf file offset + errand.started file offset := by
  cases errand with
  | fail other place times =>
      simp only [act, Memory.fail]
      split <;> rfl
  | insert other data =>
      simp only [act, Memory.insert]
      split <;> rfl
  | start call =>
      simp only [act, Memory.backend, Memory.arrive, Memory.readsOf, List.count_cons,
        Errand.started, beq_iff_eq, Prod.mk.injEq]
  | poll index =>
      simp only [act]
      rcases bench.poll_cases index with he | ⟨call, he⟩
      · rw [he]
        rfl
      · rw [he, Memory.readsOf, Memory.reads_answer]
        rfl
  | _ => rfl

-- What was added is used up or left.
theorem failures_run {errands : List Errand} (h : bench.FitsAll errands) :
    failed file offset (bench.run errands).2 +
        (bench.run errands).1.memory.failuresOf file offset =
      bench.memory.failuresOf file offset + (errands.map (·.added file offset)).sum := by
  induction errands generalizing bench with
  | nil => exact Nat.zero_add _
  | cons errand rest ih =>
      have hfirst := bench.failures_act file offset h.1
      have hrest := ih (bench.act errand).1 h.2
      rw [List.map_cons, List.sum_cons]
      simp only [run, failed, List.countP_append] at hfirst hrest ⊢
      omega

theorem reads_run (errands : List Errand) :
    (bench.run errands).1.memory.readsOf file offset =
      bench.memory.readsOf file offset + (errands.map (·.started file offset)).sum := by
  induction errands generalizing bench with
  | nil => rfl
  | cons errand rest ih =>
      have hfirst := bench.reads_act file offset errand
      have hrest := ih (bench.act errand).1
      rw [List.map_cons, List.sum_cons]
      simp only [run]
      omega

end Accounts

end Bench

end PageCache
