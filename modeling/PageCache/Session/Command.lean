import PageCache.Counters.Exposition
import PageCache.Session

namespace PageCache

namespace Session

-- What a session can be told to do.
inductive Command where
  | read (name : String) (file : FileId) (offset length : Nat)
  | fetch (call : Call)
  | start (name : String) (task : Task) (polled : Bool)
  | poll (name : String)
  | pollAll
  | drop (name : String)
  | ask (op : Op)
  | revalidateStored (file : FileId)
  | stat (file : FileId)
  | contains (file : FileId) (offsets : List Nat)
  | limits
  | exposition
  | reply (name : String)
  | equal (left right : String)
  | cursor (name : String) (ops : List Cursor.Op)
  | insert (file : FileId) (data : Bytes)
  | fail (file : FileId) (offset times : Nat)
  | hold (file : FileId) (offset : Nat) (gate : String)
  | segmentSize (size : Option Nat)
  | overread (extra : Nat)
  | attributes (file : FileId)
  | contents (file : FileId) (offset length : Nat)
  | readsOf (file : FileId) (offset : Nat)
  | totalReads
  | script (file : FileId) (offset : Nat) (gate : Option String) (answer : Except Error Fetched)
  | releaseGate (gate : String)

inductive Finding where
  | nothing
  | number (value : Nat)
  | flag (value : Bool)
  | flags (values : List Bool)
  | data (value : Bytes)
  | text (value : String)
  | attributes (value : Option Attributes)
  | limits (pageSize pageBudget : Nat)
  | standing (value : Standing)
  | standings (values : List (String × Standing))
  | created
  | noFile
  | noReply
  | cursor (trace : List (Except Cursor.Shortage (Cursor.Value × Cursor)))

def Finding.ofAnswer : Answer → Finding
  | .number value => .number value
  | .flag value => .flag value
  | answer => .standing (readStanding answer).1

def obey (session : Session) : Command → Session × Finding
  | .read name file offset length =>
      let polled := session.pollOnce name (.read file offset length)
      (polled.1, .standing polled.2)
  | .fetch call =>
      let polled := session.pollOnce "" (.fetch call)
      (polled.1, .standing polled.2)
  | .start name task false => (session.start name task, .created)
  | .start name task true =>
      let polled := (session.start name task).poll name
      (polled.1, .standing polled.2)
  | .poll name =>
      let polled := session.poll name
      (polled.1, .standing polled.2)
  | .pollAll =>
      let polled := session.pollAll
      (polled.1, .standings polled.2)
  | .drop name =>
      let dropped := session.drop name
      (dropped.1, .flag dropped.2)
  | .ask op =>
      let asked := session.ask op
      (asked.1, .ofAnswer asked.2)
  | .revalidateStored file =>
      match session.stage.memory.attributes? file with
      | none => (session, .noFile)
      | some attributes =>
          let asked := session.ask (.revalidate file attributes)
          (asked.1, .ofAnswer asked.2)
  | .stat file => (session, .attributes (session.pool.attributes? file))
  | .contains file offsets => (session, .flags (offsets.map (session.pool.contains file)))
  | .limits =>
      (session, .limits session.pool.limits.pageSize session.pool.limits.pageBudget)
  | .exposition => (session, .text session.pool.counters.exposition)
  | .reply name =>
      (session, (session.replies.get? name).elim .noReply fun reply => .standing (.replied reply))
  | .equal left right =>
      let same :=
        match session.replies.get? left, session.replies.get? right with
        | some left, some right => decide (left = right)
        | _, _ => false
      (session, .flag same)
  | .cursor name ops =>
      (session, (session.replies.get? name).elim .noReply fun reply =>
        .cursor (reply.cursor.trace ops))
  | .insert file data => (session.withMemory (session.stage.memory.insert file data), .nothing)
  | .fail file offset times =>
      (session.withMemory (session.stage.memory.fail file offset times), .nothing)
  | .hold file offset gate =>
      let made := session.makeGate gate
      (made.1.withMemory (made.1.stage.memory.hold file offset made.2), .nothing)
  | .segmentSize size =>
      (session.withMemory { session.stage.memory with segmentSize := size }, .nothing)
  | .overread extra =>
      (session.withMemory { session.stage.memory with overread := extra }, .nothing)
  | .attributes file => (session, .attributes (session.stage.memory.attributes? file))
  | .contents file offset length =>
      (session, .data (session.stage.memory.contents file offset length))
  | .readsOf file offset => (session, .number (session.stage.memory.readsOf file offset))
  | .totalReads => (session, .number session.stage.memory.totalReads)
  | .script file offset gate answer =>
      match gate with
      | none =>
          (session.withStage { session.stage with
              script := session.stage.script.append file offset ⟨none, answer⟩ }, .nothing)
      | some name =>
          let made := session.makeGate name
          (made.1.withStage { made.1.stage with
              script := made.1.stage.script.append file offset ⟨some made.2, answer⟩ }, .nothing)
  | .releaseGate gate =>
      let released := session.releaseGate gate
      (released.1, .flag released.2)

-- What a command did: its finding, the state it left, the reads of storage that the
-- cache started and the events, in the order in which they happened.
structure Report where
  finding : Finding
  pagesUsed : Nat
  counters : Counters
  calls : List Call
  events : List Event

-- The events since the journal had the given length.
def eventsSince (session : Session) (length : Nat) : List Event :=
  (session.pool.journal.take (session.pool.journal.length - length)).reverse

def callsSince (session : Session) (length : Nat) : List Call :=
  (session.calls.take (session.calls.length - length)).reverse

-- Why a session cannot go on: a count passed 64 bits, or the cache found one of the
-- facts broken that it relies on.
def failure? (session : Session) (events : List Event) : Option String :=
  if session.stage.memory.overflowed then some "attempt to add with overflow"
  else (events.findSome? Event.breach?).map Breach.message

def step (session : Session) (command : Command) : Session × Except String Report :=
  let obeyed := session.obey command
  let next := obeyed.1
  let events := next.eventsSince session.pool.journal.length
  (next,
    match next.failure? events with
    | some message => .error message
    | none =>
        .ok {
          finding := obeyed.2
          pagesUsed := next.pool.pagesUsed
          counters := next.pool.counters
          calls := next.callsSince session.calls.length
          events := events })

-- The reports of a list of commands. A failure is the last of them.
def run (session : Session) : List Command → List (Except String Report)
  | [] => []
  | command :: rest =>
      match session.step command with
      | (_, .error message) => [.error message]
      | (next, .ok report) => .ok report :: next.run rest

end Session

end PageCache
