import GrokPi.Shared.Forest
import GrokPi.Shared.InsertionMap
import GrokPi.Shared.Json

set_option autoImplicit false

namespace GrokPi.SessionLog

def string (value : Json) (names : List Text) : Option Text :=
  names.findSome? fun name => (value.get name).bind Json.asText

def idOf (entry : Json) : Option Text := string entry ["id".toList]

-- A `parentId` that is no string hides a `parent_id`.
def parentLink (entry : Json) : Option Text :=
  ((entry.get "parentId".toList).or (entry.get "parent_id".toList)).bind Json.asText

structure FlatEntry where
  entry : Json
  id : Text
  parent : Option Text

def flatEntry (entry : Json) : Option FlatEntry :=
  (idOf entry).map fun id =>
    { entry := entry
      id := id
      parent := parentLink entry }

def flatEntries (entries : List Json) : List FlatEntry := entries.filterMap flatEntry

section Links

variable (nodes : List FlatEntry)

def indexById (id : Text) : Option Nat :=
  ((InsertionMap.lastBy (fun entry : FlatEntry × Nat => entry.1.id) nodes.zipIdx).get id).map Prod.snd

/-- An entry that names itself or no entry as its parent is a root. -/
def parentOf : List (Option Nat) :=
  nodes.map fun node => (node.parent.filter (· ≠ node.id)).bind (indexById nodes)

def parentAt (index : Nat) : Option Nat := ((parentOf nodes)[index]?).join

def children (index : Nat) : List Nat :=
  (List.range nodes.length).filter fun child => (parentOf nodes)[child]? = some (some index)

def roots : List Nat := (List.range nodes.length).filter fun index => (parentOf nodes)[index]? = some none

def push (depth : Nat) (items : List Nat) (stack : List (Nat × Nat)) : List (Nat × Nat) :=
  items.reverse.foldl (fun stack item => (item, depth) :: stack) stack

def drain : Nat → List (Nat × Nat) → List (Nat × Nat) × List (Nat × Nat)
  | 0, stack => ([], stack)
  | _ + 1, [] => ([], [])
  | fuel + 1, (index, depth) :: rest =>
      let (popped, left) := drain fuel (push (depth + 1) (children nodes index) rest)
      ((index, depth) :: popped, left)

-- Every node is popped at most once.
def traversal : List (Nat × Nat) × List (Nat × Nat) := drain nodes nodes.length (push 0 (roots nodes) [])

def activePath (leafId : Option Text) : List Nat :=
  Forest.ascend (parentAt nodes) (nodes.length + 1) [] (leafId.bind (indexById nodes))

end Links

section Labels

def applyLabel (labels : InsertionMap Text (Text × Option Text)) (node : FlatEntry) :
    InsertionMap Text (Text × Option Text) :=
  if string node.entry ["type".toList] ≠ some "label".toList then labels
  else
    match string node.entry ["targetId".toList] with
    | none => labels
    | some target =>
        match string node.entry ["label".toList] with
        | some label => labels.set target (label, string node.entry ["timestamp".toList])
        | none => labels.erase target

def labelsOf (nodes : List FlatEntry) : InsertionMap Text (Text × Option Text) := nodes.foldl applyLabel []

abbrev ToolCalls := InsertionMap Text (Text × Json)

def collectToolCall (out : ToolCalls) (part : Json) : ToolCalls :=
  if (part.get "type".toList).bind Json.asText ≠ some "toolCall".toList then out
  else
    match string part ["id".toList] with
    | none => out
    | some id =>
        out.set id ((string part ["name".toList]).getD "tool".toList, (part.get "arguments".toList).getD (.object []))

def collectToolCalls (message : Json) (out : ToolCalls) : ToolCalls :=
  match (message.get "content".toList).bind Json.asItems with
  | none => out
  | some parts => parts.foldl collectToolCall out

def toolCallsOf (nodes : List FlatEntry) : ToolCalls :=
  nodes.foldl (fun out node =>
    if string node.entry ["type".toList] = some "message".toList then
      collectToolCalls ((node.entry.get "message".toList).getD node.entry) out
    else out) []

end Labels

section Rows

structure Display where
  role : Text
  preview : Text
  detail : Text
  hasText : Bool
  deriving DecidableEq

structure TreeRow where
  id : Text
  parentId : Option Text
  depth : Nat
  isLeaf : Bool
  isCurrent : Bool
  onActivePath : Bool
  display : Display
  label : Option Text
  labelTimestamp : Option Text
  entryType : Text
  timestamp : Option Text
  childIds : List Text
  deriving DecidableEq

structure SessionTree where
  leafId : Option Text
  rows : List TreeRow
  deriving DecidableEq

variable (display : Json → Text → ToolCalls → Display)

def idAt (nodes : List FlatEntry) (index : Nat) : Text := (nodes[index]?.map FlatEntry.id).getD []

def treeRow (nodes : List FlatEntry) (leafId : Option Text) (index depth : Nat) (node : FlatEntry) : TreeRow :=
  let entryType := (string node.entry ["type".toList]).getD "unknown".toList
  let label := (labelsOf nodes).get node.id
  let childIds := (children nodes index).map (idAt nodes)
  { id := node.id
    parentId := (parentAt nodes index).map (idAt nodes)
    depth := depth
    isLeaf := childIds.isEmpty
    isCurrent := leafId = some node.id
    onActivePath := index ∈ activePath nodes leafId
    display := display node.entry entryType (toolCallsOf nodes)
    label := label.map Prod.fst
    labelTimestamp := label.bind Prod.snd
    entryType := entryType
    timestamp := string node.entry ["timestamp".toList]
    childIds := childIds }

def buildSessionTree (entries : List Json) (leafId : Option Text) : SessionTree :=
  let nodes := flatEntries entries
  { leafId := leafId
    rows := (traversal nodes).1.filterMap fun (index, depth) =>
      nodes[index]?.map (treeRow display nodes leafId index depth) }

end Rows

end GrokPi.SessionLog
