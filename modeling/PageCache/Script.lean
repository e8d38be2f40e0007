import PageCache.Assoc
import PageCache.Backend
import PageCache.Gates

namespace PageCache

-- One prepared answer, and the gate it waits at.
structure Cue where
  gate : Option GateId
  answer : Except Error Fetched

-- Storage that answers the reads of a place with prepared answers, one after the
-- other.
structure Script where
  cues : Assoc (FileId × Nat) (List Cue) := {}

namespace Script

def cuesOf (script : Script) (file : FileId) (offset : Nat) : List Cue :=
  (script.cues.get? (file, offset)).getD []

def append (script : Script) (file : FileId) (offset : Nat) (cue : Cue) : Script :=
  ⟨script.cues.set (file, offset) (script.cuesOf file offset ++ [cue])⟩

-- A place with no answer left is not found.
def take (script : Script) (call : Call) : Script × Cue :=
  match script.cuesOf call.file call.offset with
  | [] => (script, ⟨none, .error (.readFailed ⟨.notFound, none⟩)⟩)
  | cue :: rest => (⟨script.cues.set (call.file, call.offset) rest⟩, cue)

-- A read takes its answer when it starts.
def backend : Backend (Gates × Script) Cue where
  start state call :=
    let taken := state.2.take call
    ((state.1, taken.1), taken.2)
  poll state _ cue :=
    if state.1.passes cue.gate then (state, .finished cue.answer) else (state, .waiting cue)

end Script

end PageCache
