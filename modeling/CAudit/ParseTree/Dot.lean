import CAudit.ParseTree

/-! Parse trees drawn as a graph in the DOT language: nodes numbered in pre-order, then edges. -/
namespace CAudit.ParseTree

/-- One character inside a quoted label. Carriage returns are left out. -/
def labelChar (c : Char) : List Char :=
  if c = '\\' then ['\\', '\\']
  else if c = '"' then ['\\', '"']
  else if c = '\n' then ['\\', 'n']
  else if c = '\r' then []
  else [c]

def labelText (s : String) : List Char := s.toList.flatMap labelChar

/-- The label of a node. A terminal shows its value below its name, in parentheses and quotes. -/
def label (t : ParseTree) : List Char :=
  match t.value, t.isTerminal with
  | some v, true =>
    labelText t.name ++ ['\\', 'n', '(', '\\', '"'] ++ labelText v ++ ['\\', '"', ')']
  | _, _ => labelText t.name

/-- A node with its number and the number of its parent. -/
structure Vertex where
  id : Nat
  parent : Option Nat
  tree : ParseTree

def underParent (id : Nat) (ts : List ParseTree) : List (ParseTree × Option Nat) :=
  ts.map fun t => (t, some id)

theorem underParent_trees (id : Nat) (ts : List ParseTree) :
    (underParent id ts).map (·.1) = ts := by
  simp [underParent, Function.comp_def]

/-- Numbers the nodes under a stack of subtrees and their parents, from `id` on. -/
def verticesFrom (id : Nat) (pending : List (ParseTree × Option Nat)) : List Vertex :=
  match pending with
  | [] => []
  | (t, parent) :: ts =>
    ⟨id, parent, t⟩ :: verticesFrom (id + 1) (underParent id t.children ++ ts)
termination_by sizeAll (pending.map (·.1))
decreasing_by
  rw [List.map_append, underParent_trees, sizeAll_append, List.map_cons, sizeAll, size_eq]
  dsimp only
  omega

/-- The nodes of a tree in pre-order, numbered from zero. -/
def vertices (t : ParseTree) : List Vertex := verticesFrom 0 [(t, none)]

def nodeName (id : Nat) : String := "node" ++ id.repr

def Vertex.nodeLine (v : Vertex) : String :=
  "    " ++ nodeName v.id ++ " [label=\"" ++ String.ofList v.tree.label ++ "\", shape=" ++
    (if v.tree.isTerminal then "box" else "ellipse") ++ ", style=filled, fillcolor=" ++
    (if v.tree.isTerminal then "lightblue" else "lightgray") ++ "];\n"

def Vertex.edgeLine? (v : Vertex) : Option String :=
  v.parent.map fun p => "    " ++ nodeName p ++ " -> " ++ nodeName v.id ++ ";\n"

/-- The drawing: a header, a line for each node, an empty line, a line for each edge. -/
def dot (t : ParseTree) : String :=
  let vs := t.vertices
  let edges := vs.filterMap (·.edgeLine?)
  String.join
    (["digraph ParseTree \x7b\n", "    rankdir=TB;\n", "    splines=true;\n"] ++
      vs.map (·.nodeLine) ++ (if edges.isEmpty then [] else ["\n"]) ++ edges ++ ["\x7d\n"])

end CAudit.ParseTree
