import PageCache.Mount
import PageCache.Reply.Cursor
import PageCache.Session.Stage

namespace PageCache

-- A task reads through the cache, or straight from the memory. A task that was never
-- polled has done nothing yet.
inductive Session.Task where
  | read (file : FileId) (offset length : Nat)
  | reading (id : ReadId)
  | fetch (call : Call)
  | fetching (call : Call) (gate : Option GateId)

-- Where a task stands after it was polled.
inductive Session.Standing where
  | missing
  | pending
  | replied (reply : Reply)
  | fetched (fetched : Fetched)
  | failed (error : Error)

-- A cache worked by hand: tasks, gates and replies have names.
structure Session where
  mount : Mount (Session.Stage × List Call) Session.Ticket
  tasks : Assoc String Session.Task := {}
  gates : Assoc String GateId := {}
  replies : Assoc String Reply := {}

namespace Session

def create (limits : Limits) (source : Source) : Session :=
  { mount := Mount.create limits ({ source := source }, []) }

def pool (session : Session) : Pool Ticket := session.mount.pool

def stage (session : Session) : Stage := session.mount.storage.1

-- The reads of storage that the cache has started, the latest first.
def calls (session : Session) : List Call := session.mount.storage.2

def withStage (session : Session) (stage : Stage) : Session :=
  { session with mount := { session.mount with storage := (stage, session.calls) } }

def withMemory (session : Session) (memory : Memory) : Session :=
  session.withStage { session.stage with memory := memory }

def ask (session : Session) (op : Op) : Session × Answer :=
  let stepped := session.mount.step Stage.backend.recording op
  ({ session with mount := stepped.1 }, stepped.2)

-- Makes a gate under a name. A gate that had the name is released.
def makeGate (session : Session) (name : String) : Session × GateId :=
  let freed := match session.gates.get? name with
    | none => session.stage.gates
    | some gate => session.stage.gates.release gate
  let made := freed.make
  ({ session.withStage { session.stage with gates := made.1 } with
      gates := session.gates.set name made.2 }, made.2)

-- Releases a gate, which gives up its name. Gives whether there was one.
def releaseGate (session : Session) (name : String) : Session × Bool :=
  match session.gates.get? name with
  | none => (session, false)
  | some gate =>
      ({ session.withStage { session.stage with gates := session.stage.gates.release gate } with
          gates := session.gates.erase name }, true)

-- What a read through the cache has come to, and the task that goes on with it.
def readStanding : Answer → Standing × Option Task
  | .pending id => (.pending, some (.reading id))
  | .returned (.ok reply) => (.replied reply, none)
  | .returned (.error error) => (.failed error, none)
  | _ => (.missing, none)

-- Takes a read of the memory as far as it can go.
def pollFetch (session : Session) (call : Call) (gate : Option GateId) :
    Session × Standing × Option Task :=
  let polled := session.stage.pollMemory call gate
  (session.withStage polled.1,
    match polled.2 with
    | .waiting gate => (.pending, some (.fetching call gate))
    | .finished (.ok fetched) => (.fetched fetched, none)
    | .finished (.error error) => (.failed error, none))

-- Takes a task as far as it can go. A read polls all that it waits for, in file order.
def pollTask (session : Session) : Task → Session × Standing × Option Task
  | .read file offset length =>
      let asked := session.ask (.read file offset length .all)
      (asked.1, readStanding asked.2)
  | .reading id =>
      let asked := session.ask (.poll id .all)
      (asked.1, readStanding asked.2)
  | .fetch call =>
      let started := session.stage.startMemory call
      (session.withStage started.1).pollFetch call started.2
  | .fetching call gate => session.pollFetch call gate

def dropTask (session : Session) : Task → Session
  | .reading id => (session.ask (.drop id)).1
  | _ => session

-- A reply is kept under the name of its task.
def keep (session : Session) (name : String) : Standing → Session
  | .replied reply => { session with replies := session.replies.set name reply }
  | _ => session

-- Polls a task once. If it is not done by then, it is dropped.
def pollOnce (session : Session) (name : String) (task : Task) : Session × Standing :=
  let polled := session.pollTask task
  let left := polled.2.2.elim polled.1 polled.1.dropTask
  (left.keep name polled.2.1, polled.2.1)

-- Polls the task of a name. It keeps the name until it is done.
def poll (session : Session) (name : String) : Session × Standing :=
  match session.tasks.get? name with
  | none => (session, .missing)
  | some task =>
      let polled := session.pollTask task
      let tasks := polled.2.2.elim (session.tasks.erase name) (session.tasks.set name)
      ({ polled.1 with tasks := tasks }.keep name polled.2.1, polled.2.1)

-- Polls every task, in the order of their names.
def pollAll (session : Session) : Session × List (String × Standing) :=
  let names := (session.tasks.entries.map (·.1)).mergeSort fun a b => decide (a ≤ b)
  names.foldl
    (fun all name =>
      let polled := all.1.poll name
      (polled.1, all.2 ++ [(name, polled.2)]))
    (session, [])

-- Drops the task of a name. Gives whether there was one.
def drop (session : Session) (name : String) : Session × Bool :=
  match session.tasks.get? name with
  | none => (session, false)
  | some task =>
      ({ session with tasks := session.tasks.erase name }.dropTask task, true)

-- Gives a name to a new task. A task that had the name is dropped.
def start (session : Session) (name : String) (task : Task) : Session :=
  let freed := (session.drop name).1
  { freed with tasks := freed.tasks.set name task }

end Session

end PageCache
