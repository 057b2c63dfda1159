import Bmac.Adapters.Layout
import Bmac.Base.Checks
import Bmac.Base.Indent

/-!
# Reading `zpool status`

`bmac-adapters/src/zpool.rs`: `parseStatus` reads the text of one pool, with the error counts and notes
that the layout has no use for, and `splitPools` takes a text of several pools apart. The config rows make
a tree by their indents: `nest` is the stack machine of `Indent` on them.
-/

namespace Bmac.Adapters.Status

open Bmac.Base Bmac.Base.Indent Bmac.Base.Lines Bmac.Core

def statusKeys : List String :=
  ["pool", "state", "status", "action", "see", "scan", "remove", "checkpoint", "expand", "config", "errors"]

def fromSection : String → Option VdevClass
  | "logs" => some .logs
  | "cache" => some .cache
  | "spares" => some .spares
  | "special" => some .special
  | "dedup" => some .dedup
  | _ => none

structure ErrorCounts where
  read : Nat
  write : Nat
  checksum : Nat

/-- A row of the config tree by itself. -/
structure ConfigRow where
  name : String
  state : Option String
  counts : Option ErrorCounts
  note : String

abbrev ConfigNode := Rose ConfigRow

/-- The top-level vdevs of one allocation class. -/
structure Section where
  «class» : VdevClass
  vdevs : List ConfigNode

structure PoolStatus where
  pool : String
  root : ConfigNode
  header : Dict (List String)
  sections : List Section

/-! ## Lines -/

/-- The text after `"<key>:"` in a line that starts so after blanks, at most `blanks` of them if given. -/
def afterKey (key : String) (blanks : Option Nat) (line : List Char) : Option (List Char) :=
  let body := line.dropWhile Text.isWhitespace
  if blanks.all (line.length - body.length ≤ ·) then List.isPrefixOf? (key.toList ++ [':']) body else none

/-- `STATUS_KEY_RE`: the key of a line and the text after it. -/
def statusKey (line : List Char) : Option (String × List Char) :=
  statusKeys.findSome? fun key => (afterKey key (some 8) line).map fun value =>
    match value with
    | c :: rest => if Text.isWhitespace c then (key, rest) else (key, value)
    | [] => (key, [])

/-- `POOL_LINE_RE` -/
def isPoolLine (line : List Char) : Bool :=
  (afterKey "pool" none line).any fun rest => rest.head?.any Text.isWhitespace

def trim (line : List Char) : String := Text.trim (String.ofList line)

/-! ## The sections of a text -/

/-- What is read of a text line by line. -/
structure Scan where
  header : Dict (List String) := []
  configLines : List (List Char) := []
  current : Option String := none

namespace Scan

/-- `entry(key).or_default()`, with one more line if there is one. -/
def note (s : Scan) (key : String) (value : Option String) : Dict (List String) :=
  s.header.insert key ((s.header.get? key).getD [] ++ value.toList)

/-- A line of the section that was begun last. -/
def extend (s : Scan) (line : List Char) : Scan :=
  match s.current with
  | some "config" => { s with configLines := s.configLines ++ [line] }
  | some key => if trim line = "" then s else { s with header := s.note key (some (trim line)) }
  | none => s

def begin (s : Scan) (key : String) (value : List Char) : Scan :=
  let shown := if trim value = "" then none else some (trim value)
  { s with
    header := if key = "config" then s.header else s.note key shown
    current := some key }

def add (s : Scan) (line : List Char) : Scan :=
  match statusKey line with
  | some (key, value) =>
    -- the rows of the config section start with a tab, and are rows whatever they look like
    if s.current = some "config" ∧ line.head? = some '\t' then s.extend line else s.begin key value
  | none => s.extend line

end Scan

/-! ## The config tree -/

/-- A row has counts when its third field is a number; spares print a note there instead. -/
def configNode (tokens : List String) : Except String ConfigRow := do
  let name := tokens.headD ""
  let count (text : String) : Except String Nat :=
    ofOption (parseU64 text)
      s!"error count {text.quote} of {name} is not a number; run zpool status with -p"
  match tokens.drop 2 with
  | read :: write :: checksum :: note =>
    if read.toList.head?.any Text.isDigit then
      let counts : ErrorCounts := ⟨← count read, ← count write, ← count checksum⟩
      return ⟨name, tokens[1]?, some counts, Text.join " " note⟩
    else
      return ⟨name, tokens[1]?, none, Text.join " " (read :: write :: checksum :: note)⟩
  | note => return ⟨name, tokens[1]?, none, Text.join " " note⟩

/-- Builds the tree from rows in listing order: a row belongs to the nearest earlier row with a smaller
indent. -/
def nest (rows : List (Nat × ConfigNode)) : List ConfigNode := Indent.nest rows

/-- What is read of the config lines. -/
structure Config where
  root : Option ConfigNode := none
  /-- The rows of each section, by their indents. -/
  sections : List (VdevClass × List (Nat × ConfigNode)) := []

namespace Config

def place (pool : String) (c : Config) (indent : Nat) (node : ConfigRow) : Except String Config :=
  if indent = 0 then
    if node.name = pool then
      .ok { root := some (.leaf node), sections := c.sections ++ [(.data, [])] }
    else
      match fromSection node.name with
      | some «class» => .ok { c with sections := c.sections ++ [(«class», [])] }
      | none => .error s!"unexpected zpool config entry: {node.name}"
  else
    match c.sections.getLast? with
    | some («class», rows) =>
      .ok { c with sections := c.sections.dropLast ++ [(«class», rows ++ [(indent, .leaf node)])] }
    | none => .error "zpool config lists devices before the pool"

def add (pool : String) (c : Config) (line : List Char) : Except String Config :=
  if trim line = "" then .ok c
  else
    let body := if line.head? = some '\t' then line.tail else line
    let tokens := splitWhitespace body
    if tokens[0]? = some "NAME" ∧ tokens[1]? = some "STATE" then .ok c
    else do
      let node ← configNode tokens
      c.place pool (body.takeWhile (· = ' ')).length node

end Config

/-- The vdevs of a class go to its section, the last if there was none. -/
def merge («class» : VdevClass) (vdevs : List ConfigNode) : List Section → List Section
  | [] => [⟨«class», vdevs⟩]
  | s :: rest =>
    if s.class = «class» then ⟨s.class, s.vdevs ++ vdevs⟩ :: rest else s :: merge «class» vdevs rest

/-- `zpool status -P [-p] <pool>` -/
def parseStatus (text : String) : Except String PoolStatus := do
  let scan := (lines text.toList).foldl Scan.add {}
  let pool ← ofOption ((scan.header.get? "pool").bind (·.head?)) "zpool status output has no pool line"
  let config ← scan.configLines.foldlM (Config.add pool) {}
  let merged := config.sections.foldl (fun merged (c, rows) => merge c (nest rows) merged) []
  let sections := if merged.any (·.class = .data) then merged else ⟨.data, []⟩ :: merged
  return {
    pool
    root := config.root.getD (.leaf ⟨pool, none, none, ""⟩)
    header := scan.header
    sections }

/-! ## Several pools -/

def addToBlocks (blocks : List (List Char)) (line : List Char) : List (List Char) :=
  if isPoolLine line || blocks.isEmpty then blocks ++ [line ++ ['\n']]
  else blocks.dropLast ++ [blocks.getLastD [] ++ line ++ ['\n']]

def splitPools (text : String) : List String :=
  let blocks := (lines text.toList).foldl addToBlocks []
  (blocks.filter fun block => (lines block).any isPoolLine).map String.ofList

end Bmac.Adapters.Status
