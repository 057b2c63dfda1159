import Bmac.Core.Dict
import Bmac.Core.Text

/-!
# `zpool status`

`bmac-adapters/src/zpool.rs`: one pool as `zpool status -P` shows it, its vdevs in sections by class.
Reading the text is left out.
-/

namespace Bmac.Adapters

open Bmac.Core

/-- The allocation class a top-level vdev belongs to. -/
inductive VdevClass where
  | data | logs | cache | spares | special | dedup
  deriving DecidableEq

namespace VdevClass

def asStr : VdevClass → String
  | data => "data"
  | logs => "logs"
  | cache => "cache"
  | spares => "spares"
  | special => "special"
  | dedup => "dedup"

end VdevClass

/-- One row of the config tree: a vdev, a `replacing-N` or `spare-N` grouping, or a leaf device. -/
inductive ConfigNode where
  | mk (name : String) (state : Option String) (children : List ConfigNode)

def hasPrefix (start text : String) : Bool := (Text.stripStart start text).isSome

namespace ConfigNode

def name : ConfigNode → String
  | mk name _ _ => name

def state : ConfigNode → Option String
  | mk _ state _ => state

def children : ConfigNode → List ConfigNode
  | mk _ _ children => children

mutual

def leaves : ConfigNode → List ConfigNode
  | mk name state [] => [mk name state []]
  | mk _ _ (child :: children) => leaves child ++ leavesAll children

def leavesAll : List ConfigNode → List ConfigNode
  | [] => []
  | node :: rest => leaves node ++ leavesAll rest

end

/-- Whether a member of this vdev is being replaced. -/
def replacing (node : ConfigNode) : Bool := node.children.any fun child => hasPrefix "replacing-" child.name

end ConfigNode

/-- The top-level vdevs of one allocation class. -/
structure Section where
  «class» : VdevClass
  vdevs : List ConfigNode

/-- `zpool status -P -p` for one pool. -/
structure PoolStatus where
  pool : String
  header : Dict (List String)
  /-- Data vdevs first, then the auxiliary classes in the order listed. -/
  sections : List Section

namespace PoolStatus

def vdevs (status : PoolStatus) («class» : VdevClass) : List ConfigNode :=
  match status.sections.find? (·.class = «class») with
  | some «section» => «section».vdevs
  | none => []

end PoolStatus

end Bmac.Adapters
