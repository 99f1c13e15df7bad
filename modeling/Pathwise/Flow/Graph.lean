import Pathwise.Flow.Basic
import Pathwise.Ordered.Set

/-!
# Flows as graphs

The text of a flow in the DOT language: a node for every instruction, branching
ones in a shape of their own and coloured if their outcome never varied, and edges
for what falls through, jumps, or is transferred. A node for the exit collects the
paths that leave the flow.
-/

namespace Pathwise

/-- The branching instructions whose outcome never varied. -/
structure ConstantBranches where
  alwaysTrue : OrdSet Nat
  alwaysFalse : OrdSet Nat
  deriving DecidableEq

instance : Inhabited ConstantBranches := ⟨⟨∅, ∅⟩⟩

/-- Shapes, styles and colours of a graph. -/
structure GraphStyle where
  nodeShape : String
  branchShape : String
  exitShape : String
  fallthroughStyle : String
  jumpStyle : String
  transferStyle : String
  alwaysTrueColor : String
  alwaysFalseColor : String
  deriving DecidableEq, Repr

/-- The style of a graph unless another is asked for. -/
def GraphStyle.usual : GraphStyle where
  nodeShape := "box"
  branchShape := "diamond"
  exitShape := "doublecircle"
  fallthroughStyle := "solid"
  jumpStyle := "dashed"
  transferStyle := "dotted"
  alwaysTrueColor := "palegreen"
  alwaysFalseColor := "lightcoral"

namespace Flow

/-- A label with backslashes and quotes escaped. -/
def escapeLabel (label : String) : String :=
  Text.replaceChar '"' "\\\"" (Text.replaceChar '\\' "\\\\" label)

/-- The name of the node at an index; past the last instruction is the exit. -/
def nodeName (flow : Flow) (index : Nat) : String :=
  if flow.size ≤ index then "exit" else toString index

/-- The line of a node. -/
def nodeLine (style : GraphStyle) (consts : ConstantBranches) (index : Nat) (i : Instr) : String :=
  let label := "label=\"" ++ escapeLabel (toString index ++ ": " ++ i.text) ++ "\"];\n"
  if !i.isBranching then toString index ++ " [" ++ label
  else
    let shape := toString index ++ " [shape=" ++ style.branchShape ++ ", "
    let filled (color : String) := shape ++ "style=filled, fillcolor=" ++ color ++ ", " ++ label
    if index ∈ consts.alwaysTrue then filled style.alwaysTrueColor
    else if index ∈ consts.alwaysFalse then filled style.alwaysFalseColor
    else shape ++ label

/-- The line of an edge. -/
def edgeLine (index : Nat) (target style : String) : String :=
  toString index ++ " -> " ++ target ++ " [style=" ++ style ++ "];\n"

/-- The style of an edge to a successor. -/
def successorStyle (style : GraphStyle) (index : Nat) (i : Instr) (target : Nat) : String :=
  match i with
  | .goto _ => style.jumpStyle
  | _ => if target = index + 1 then style.fallthroughStyle else style.jumpStyle

/-- Whether every path ends at the instruction. -/
def leaves : Instr → Bool
  | .ret => true
  | .transfer t => t.targets.isEmpty
  | _ => false

/-- The lines of the edges from an instruction. -/
def edgeLines (flow : Flow) (style : GraphStyle) (index : Nat) (i : Instr) : List String :=
  ((i.successors index).map fun t =>
      edgeLine index (flow.nodeName t) (successorStyle style index i t)) ++
    (i.transferTargets.map fun t => edgeLine index (flow.nodeName t) style.transferStyle) ++
    (if leaves i then [edgeLine index "exit" style.transferStyle] else [])

/-- The text of the flow as a graph. -/
def graph (flow : Flow) (style : GraphStyle) (consts : ConstantBranches) : String :=
  let numbered := flow.instrs.toList.zipIdx
  "digraph \x7b\n" ++ "node [shape=" ++ style.nodeShape ++ "];\n" ++
    "exit [shape=" ++ style.exitShape ++ ", label=\"exit\"];\n" ++
    String.join (numbered.map fun p => nodeLine style consts p.2 p.1) ++
    String.join (numbered.flatMap fun p => flow.edgeLines style p.2 p.1) ++ "\x7d\n"

end Flow

end Pathwise
