import CAudit.Token
import CAudit.Json.Writer
import CAudit.Json.Record

/-! Parse trees as they are shown and exchanged: nodes with a name, perhaps a value, and
children. -/
namespace CAudit

/-- Grammar constructs are named after the construct. Terminals are named after the kind of their
token and have its lexeme as value. -/
structure ParseTree where
  name : String
  value : Option String
  isTerminal : Bool
  children : List ParseTree
  deriving Repr

namespace ParseTree

def nonTerminal (name : String) (children : List ParseTree) : ParseTree :=
  ⟨name, none, false, children⟩

def terminal (t : Token) : ParseTree := ⟨t.kind.name, some t.lexeme, true, []⟩

/-- The node on one line. -/
def describe (t : ParseTree) : String :=
  match t.value with
  | some v => t.name ++ " (" ++ v ++ ")"
  | none => t.name

def addChild (t child : ParseTree) : ParseTree := { t with children := t.children ++ [child] }

def rename (t : ParseTree) (name : String) : ParseTree := { t with name := name }

def childrenNamed (t : ParseTree) (name : String) : List ParseTree :=
  t.children.filter (·.name == name)

def child? (t : ParseTree) (name : String) : Option ParseTree :=
  t.children.find? (·.name == name)

mutual

/-- The nodes of a tree, each before its children. -/
def nodes (t : ParseTree) : List ParseTree :=
  match t with
  | ⟨n, v, b, ts⟩ => ⟨n, v, b, ts⟩ :: nodesAll ts

def nodesAll (ts : List ParseTree) : List ParseTree :=
  match ts with
  | [] => []
  | t :: ts => t.nodes ++ nodesAll ts

end

mutual

def size (t : ParseTree) : Nat :=
  match t with
  | ⟨_, _, _, ts⟩ => sizeAll ts + 1

def sizeAll (ts : List ParseTree) : Nat :=
  match ts with
  | [] => 0
  | t :: ts => t.size + sizeAll ts

end

mutual

/-- The number of nodes on the longest path from the root to a leaf. -/
def height (t : ParseTree) : Nat :=
  match t with
  | ⟨_, _, _, ts⟩ => heightAll ts + 1

def heightAll (ts : List ParseTree) : Nat :=
  match ts with
  | [] => 0
  | t :: ts => max t.height (heightAll ts)

end

mutual

/-- The nodes with their depth, each before its children. -/
def outline (depth : Nat) (t : ParseTree) : List (Nat × ParseTree) :=
  match t with
  | ⟨n, v, b, ts⟩ => (depth, ⟨n, v, b, ts⟩) :: outlineAll (depth + 1) ts

def outlineAll (depth : Nat) (ts : List ParseTree) : List (Nat × ParseTree) :=
  match ts with
  | [] => []
  | t :: ts => t.outline depth ++ outlineAll depth ts

end

theorem size_eq (t : ParseTree) : t.size = sizeAll t.children + 1 := by
  cases t
  rw [size]

theorem sizeAll_append (ts us : List ParseTree) :
    sizeAll (ts ++ us) = sizeAll ts + sizeAll us := by
  induction ts with
  | nil => simp [sizeAll]
  | cons t ts ih =>
    rw [List.cons_append, sizeAll, sizeAll, ih]
    omega

theorem sizeAll_reverse (ts : List ParseTree) : sizeAll ts.reverse = sizeAll ts := by
  induction ts with
  | nil => rfl
  | cons t ts ih =>
    rw [List.reverse_cons, sizeAll_append, ih, sizeAll, sizeAll, sizeAll]
    omega

/-- A walk through a tree: the subtrees still to be visited, the next one first. -/
structure Walk where
  pending : List ParseTree

def walk (t : ParseTree) : Walk := ⟨[t]⟩

/-- The node at which the walk stands, and the walk from there on: its children come next. -/
def Walk.next? (w : Walk) : Option (ParseTree × Walk) :=
  match w.pending with
  | [] => none
  | t :: ts => some (t, ⟨t.children ++ ts⟩)

theorem Walk.next?_size {w v : Walk} {t : ParseTree} (h : w.next? = some (t, v)) :
    sizeAll v.pending < sizeAll w.pending := by
  unfold Walk.next? at h
  split at h
  · cases h
  · next u us hp =>
    cases h
    rw [hp, sizeAll_append, sizeAll, size_eq]
    omega

/-- The nodes that the walk visits, in its order. -/
def Walk.toList (w : Walk) : List ParseTree :=
  match _h : w.next? with
  | none => []
  | some (t, v) => t :: v.toList
termination_by sizeAll w.pending
decreasing_by exact Walk.next?_size (by assumption)

/-- Counts the nodes under a stack of subtrees; the last child is visited first. -/
def countFrom (count : Nat) (pending : List ParseTree) : Nat :=
  match pending with
  | [] => count
  | t :: ts => countFrom (count + 1) (t.children.reverse ++ ts)
termination_by sizeAll pending
decreasing_by
  rw [List.unattach_reverse, List.unattach_attach, sizeAll_append, sizeAll_reverse, sizeAll,
    size_eq]
  omega

def nodeCount (t : ParseTree) : Nat := countFrom 0 [t]

/-- The values of the terminals that have one, in the order of the walk. -/
def terminalValues (t : ParseTree) : List String :=
  (t.walk.toList.filter (·.isTerminal)).filterMap (·.value)

/-- The subtree at a path of child indexes. -/
def at? (t : ParseTree) : List Nat → Option ParseTree
  | [] => some t
  | i :: path =>
    match t.children[i]? with
    | some c => c.at? path
    | none => none

/-- The tree with the subtree at a path changed. -/
def modifyAt (f : ParseTree → ParseTree) (t : ParseTree) : List Nat → ParseTree
  | [] => f t
  | i :: path => { t with children := t.children.modify i fun c => c.modifyAt f path }

mutual

/-- The JSON form of a tree; a missing value is left out. -/
def toJson (t : ParseTree) : Json :=
  match t with
  | ⟨n, v, b, ts⟩ =>
    .object ([("name", .string n)] ++ (v.map fun s => ("value", Json.string s)).toList ++
      [("is_terminal", .bool b), ("children", .array (toJsonAll ts))])

def toJsonAll (ts : List ParseTree) : List Json :=
  match ts with
  | [] => []
  | t :: ts => t.toJson :: toJsonAll ts

end

/-- A tree that is being read. -/
structure Draft where
  name : Option String := none
  value : Option (Option String) := none
  isTerminal : Option Bool := none
  children : Option (List ParseTree) := none

open Json.Reader in
/-- The shape of a tree whose children are read by `items`. -/
def shape (items : Json.Reader (List ParseTree)) : Shape Draft ParseTree where
  fields :=
    [⟨"name", (·.name.isSome), fun d => do return { d with name := some (← string) },
        fun _ => none⟩,
      ⟨"value", (·.value.isSome), fun d => do return { d with value := some (← nullable string) },
        some⟩,
      ⟨"is_terminal", (·.isTerminal.isSome),
        fun d => do return { d with isTerminal := some (← bool) }, fun _ => none⟩,
      ⟨"children", (·.children.isSome), fun d => do return { d with children := some (← items) },
        some⟩]
  empty := {}
  finish d := do return ⟨← d.name, d.value.join, ← d.isTerminal, d.children.getD []⟩

/-- A tree in JSON, with `room` more arrays and objects to open. -/
def read : Nat → Json.Reader ParseTree
  | 0 => Json.Reader.record 0 (shape (Json.Reader.list 0 fun _ => .error .malformed))
  | 1 => Json.Reader.record 1 (shape (Json.Reader.list 0 fun _ => .error .malformed))
  | room + 2 => Json.Reader.record (room + 2) (shape (Json.Reader.list (room + 1) (read room)))

end ParseTree

end CAudit
