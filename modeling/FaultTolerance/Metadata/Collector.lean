import FaultTolerance.Metadata.Item

/-! A store of descriptors in which the first one of a name stays and later ones are dropped.
What was kept comes out in the order in which it was added. -/
namespace FaultTolerance

structure Collector where
  properties : List ItemMetadata := []
  hints : List ItemHint := []
  deriving DecidableEq, Repr, Inhabited

namespace Collector

/-- Adds a property unless one of its name is there; tells whether it was added. -/
def addProperty (c : Collector) (item : ItemMetadata) : Bool × Collector :=
  if c.properties.any (·.name == item.name) then (false, c)
  else (true, { c with properties := c.properties ++ [item] })

def hasHint (c : Collector) (name : String) : Bool := c.hints.any (·.name == name)

/-- Adds a hint unless one of its name is there; tells whether it was added. -/
def addHint (c : Collector) (hint : ItemHint) : Bool × Collector :=
  if c.hasHint hint.name then (false, c)
  else (true, { c with hints := c.hints ++ [hint] })

def toProjectInfo (c : Collector) : ProjectInfo :=
  { properties := c.properties, hints := c.hints }

end Collector
end FaultTolerance
