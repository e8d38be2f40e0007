namespace PageCache

-- The kinds of failure that storage reports.
inductive IoKind where
  | notFound
  | permissionDenied
  | timedOut
  | interrupted
  | unexpectedEof
  | invalidData
  | wouldBlock
  | other
  deriving DecidableEq

namespace IoKind

def name : IoKind → String
  | notFound => "NotFound"
  | permissionDenied => "PermissionDenied"
  | timedOut => "TimedOut"
  | interrupted => "Interrupted"
  | unexpectedEof => "UnexpectedEof"
  | invalidData => "InvalidData"
  | wouldBlock => "WouldBlock"
  | other => "Other"

def describe : IoKind → String
  | notFound => "entity not found"
  | permissionDenied => "permission denied"
  | timedOut => "timed out"
  | interrupted => "operation interrupted"
  | unexpectedEof => "unexpected end of file"
  | invalidData => "invalid data"
  | wouldBlock => "operation would block"
  | other => "other error"

end IoKind

-- A failure of storage. The text, where there is one, takes the place of
-- the description of the kind.
structure IoError where
  kind : IoKind
  text : Option String := none
  deriving DecidableEq

def IoError.message (error : IoError) : String := error.text.getD error.kind.describe

-- Why a read through the cache failed.
inductive Error where
  | readFailed (cause : IoError)
  | malformedRead (requested received : Nat)
  | offsetOverflow
  | canceled
  deriving DecidableEq

namespace Error

def message : Error → String
  | readFailed cause => "read failed: " ++ cause.message
  | malformedRead requested received =>
      "malformed read: requested " ++ toString requested ++ " bytes, received " ++
        toString received
  | offsetOverflow => "offset overflow"
  | canceled => "canceled"

end Error

end PageCache
