namespace PageCache

abbrev GateId := Nat

-- Gates hold reads of storage back. A gate is shut when it is made, and once
-- released it stays so.
structure Gates where
  made : Nat := 0
  released : List GateId := []

namespace Gates

def make (gates : Gates) : Gates × GateId := ({ gates with made := gates.made + 1 }, gates.made)

def release (gates : Gates) (gate : GateId) : Gates :=
  { gates with released := gate :: gates.released }

-- Whether a read held by this gate, or by none, may go on.
def passes (gates : Gates) : Option GateId → Bool
  | none => true
  | some gate => gates.released.contains gate

end Gates

end PageCache
