import PageCache.Memory
import PageCache.Script

namespace PageCache

namespace Session

-- Which storage the cache of a session reads.
inductive Source where
  | memory
  | script
  deriving DecidableEq

-- The storage of a session: both kinds are there, and share their gates.
structure Stage where
  source : Source
  gates : Gates := {}
  memory : Memory := {}
  script : Script := {}

inductive Ticket where
  | memory (gate : Option GateId)
  | script (cue : Cue)

namespace Stage

-- A read of the memory, whatever the source.
def startMemory (stage : Stage) (call : Call) : Stage × Option GateId :=
  let started := Memory.backend.start (stage.gates, stage.memory) call
  ({ stage with memory := started.1.2 }, started.2)

def pollMemory (stage : Stage) (call : Call) (gate : Option GateId) :
    Stage × Progress (Option GateId) :=
  let polled := Memory.backend.poll (stage.gates, stage.memory) call gate
  ({ stage with memory := polled.1.2 }, polled.2)

def startScript (stage : Stage) (call : Call) : Stage × Cue :=
  let started := Script.backend.start (stage.gates, stage.script) call
  ({ stage with script := started.1.2 }, started.2)

def pollScript (stage : Stage) (call : Call) (cue : Cue) : Stage × Progress Cue :=
  let polled := Script.backend.poll (stage.gates, stage.script) call cue
  ({ stage with script := polled.1.2 }, polled.2)

def backend : Backend Stage Ticket where
  start stage call :=
    match stage.source with
    | .memory =>
        let started := stage.startMemory call
        (started.1, .memory started.2)
    | .script =>
        let started := stage.startScript call
        (started.1, .script started.2)
  poll stage call
    | .memory gate =>
        let polled := stage.pollMemory call gate
        (polled.1, polled.2.map .memory)
    | .script cue =>
        let polled := stage.pollScript call cue
        (polled.1, polled.2.map .script)

end Stage

end Session

end PageCache
