import PageCache.Error
import PageCache.Error.Unprintable

namespace PageCache

namespace Error

-- Inside quotes a character stands for itself, except the quote, the backslash and
-- those that do not print.
def quoteChar (c : Char) : List Char :=
  if c = '"' then ['\\', '"']
  else if c = '\\' then ['\\', '\\']
  else if c = '\n' then ['\\', 'n']
  else if c = '\r' then ['\\', 'r']
  else if c = '\t' then ['\\', 't']
  else if c.toNat = 0 then ['\\', '0']
  else if isUnprintable c then ['\\', 'u', '\x7b'] ++ Nat.toDigits 16 c.toNat ++ ['\x7d']
  else [c]

def quote (text : String) : String :=
  String.ofList (['"'] ++ text.toList.flatMap quoteChar ++ ['"'])

end Error

def IoError.detail (error : IoError) : String :=
  match error.text with
  | none => "Kind(" ++ error.kind.name ++ ")"
  | some text =>
      "Custom \x7b kind: " ++ error.kind.name ++ ", error: " ++ Error.quote text ++ " \x7d"

-- The error with the names of its parts, for the log.
def Error.detail : Error → String
  | readFailed cause => "ReadFailed(" ++ cause.detail ++ ")"
  | malformedRead requested received =>
      "MalformedRead \x7b requested: " ++ toString requested ++ ", received: " ++
        toString received ++ " \x7d"
  | offsetOverflow => "OffsetOverflow"
  | canceled => "Canceled"

end PageCache
