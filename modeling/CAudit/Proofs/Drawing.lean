import CAudit.Proofs.Lines
import CAudit.Proofs.QuotedLabel

/-! The drawing of a tree, line by line: a header, the nodes in pre-order, and for each node but the
root the edge from its parent. -/
namespace CAudit.ParseTree

/-- How the node of a terminal looks, and how the others do. -/
def look (n : ParseTree) : String :=
  if n.isTerminal then "shape=box, style=filled, fillcolor=lightblue"
  else "shape=ellipse, style=filled, fillcolor=lightgray"

def nodeText (number : Nat) (n : ParseTree) : String :=
  "    node" ++ number.repr ++ " [label=\"" ++ String.ofList n.label ++ "\", " ++ n.look ++ "];"

def edgeText (parent child : Nat) : String :=
  "    node" ++ parent.repr ++ " -> node" ++ child.repr ++ ";"

/-- The edges to the nodes at some places. -/
def edgeTexts (t : ParseTree) (ps : List (List Nat)) : List String :=
  ps.map fun p => edgeText (t.numberAt p.dropLast) (t.numberAt p)

/-- The lines of the drawing. Nodes are numbered in pre-order, and the root is the only node without
an edge. -/
def drawing (t : ParseTree) : List String :=
  ["digraph ParseTree \x7b", "    rankdir=TB;", "    splines=true;"] ++
    (t.nodes.zipIdx.map fun (n, i) => nodeText i n) ++
    (if t.children.isEmpty then [] else "" :: t.edgeTexts t.places.tail) ++ ["\x7d"]

theorem nodeLine_eq (v : Vertex) : v.nodeLine = nodeText v.id v.tree ++ "\n" := by
  apply String.toList_inj.1
  unfold Vertex.nodeLine nodeText look nodeName
  cases v.tree.isTerminal <;> simp

theorem edgeLine?_eq (v : Vertex) :
    v.edgeLine? = v.parent.map fun p => edgeText p v.id ++ "\n" := by
  unfold Vertex.edgeLine? edgeText nodeName
  congr 1
  funext p
  apply String.toList_inj.1
  simp

theorem zipIdx_nodes (t : ParseTree) : t.nodes.zipIdx = t.vertices.map fun v => (v.tree, v.id) := by
  rw [List.zipIdx_eq_zip_range', length_nodes, ← List.range_eq_range', ← vertices_id,
    ← vertices_tree, List.zip_map']

theorem nodeLines_eq (t : ParseTree) : t.vertices.map (·.nodeLine) =
    (t.nodes.zipIdx.map fun (n, i) => nodeText i n).map (· ++ "\n") := by
  rw [zipIdx_nodes, List.map_map, List.map_map]
  exact List.map_congr_left fun v _ => nodeLine_eq v

theorem parents_and_numbers (t : ParseTree) : (t.vertices.map fun v => (v.parent, v.id)) =
    t.places.map fun p =>
      (if p = [] then none else some (t.numberAt p.dropLast), t.numberAt p) := by
  rw [← List.zip_map', ← List.zip_map', vertices_parent, vertices_id, map_numberAt_places]

theorem filterMap_places (t : ParseTree) {ps : List (List Nat)} (h : ∀ p ∈ ps, p ≠ []) :
    (ps.filterMap fun p => (if p = [] then none else some (t.numberAt p.dropLast)).map
      fun parent => edgeText parent (t.numberAt p) ++ "\n") = (t.edgeTexts ps).map (· ++ "\n") := by
  induction ps with
  | nil => rfl
  | cons p ps ih =>
    obtain ⟨hp, hps⟩ := List.forall_mem_cons.1 h
    rw [List.filterMap_cons, ih hps, if_neg hp]
    rfl

theorem edgeLines_eq (t : ParseTree) : t.vertices.filterMap (·.edgeLine?) =
    (t.edgeTexts t.places.tail).map (· ++ "\n") := by
  have hpairs : t.vertices.filterMap (·.edgeLine?) =
      (t.vertices.map fun v => (v.parent, v.id)).filterMap
        fun v => v.1.map fun p => edgeText p v.2 ++ "\n" := by
    rw [List.filterMap_map, funext edgeLine?_eq]
    rfl
  have hchildren : ∀ p ∈ placesAll 0 t.children, p ≠ [] := by
    intro p hp
    obtain ⟨i, u, q, -, -, rfl⟩ := mem_placesAll.1 hp
    exact List.cons_ne_nil _ _
  rw [hpairs, parents_and_numbers, List.filterMap_map, places_eq, List.tail_cons,
    ← filterMap_places t hchildren, List.filterMap_cons_none (by rfl)]
  rfl

theorem placesAll_isEmpty (k : Nat) (ts : List ParseTree) :
    (placesAll k ts).isEmpty = ts.isEmpty := by
  cases ts with
  | nil => rfl
  | cons t ts => simp [placesAll, places_eq]

theorem dot_eq_join (t : ParseTree) : t.dot = String.join (t.drawing.map (· ++ "\n")) := by
  have hempty : ((t.edgeTexts t.places.tail).map (· ++ "\n")).isEmpty = t.children.isEmpty := by
    rw [List.isEmpty_map, edgeTexts, List.isEmpty_map, places_eq, List.tail_cons, placesAll_isEmpty]
  unfold dot drawing
  dsimp only
  rw [nodeLines_eq, edgeLines_eq, hempty]
  cases hchildren : t.children.isEmpty with
  | true =>
    rw [hchildren, List.isEmpty_iff] at hempty
    rw [hempty]
    simp
  | false => simp

theorem not_mem_repr {d : Char} (hd : d = '\n' ∨ d = '\r') (n : Nat) : d ∉ n.repr.toList := by
  rw [Nat.toList_repr]
  intro hmem
  have hdigit := Nat.isDigit_of_mem_toDigits (by decide) (by decide) hmem
  rcases hd with rfl | rfl <;> exact absurd hdigit (by decide)

theorem not_mem_nodeText {d : Char} (hd : d = '\n' ∨ d = '\r') (i : Nat) (n : ParseTree) :
    d ∉ (nodeText i n).toList := by
  have hnumber := not_mem_repr hd i
  have hlabel := not_mem_label hd n
  have hlook : d ∉ n.look.toList := by
    unfold look
    rcases hd with rfl | rfl <;> split <;> decide
  have hopen : d ∉ "    node".toList ∧ d ∉ " [label=\"".toList ∧ d ∉ "\", ".toList ∧
      d ∉ "];".toList := by
    rcases hd with rfl | rfl <;> decide
  simp only [nodeText, String.toList_append, String.toList_ofList, List.mem_append, not_or]
  exact ⟨⟨⟨⟨⟨⟨hopen.1, hnumber⟩, hopen.2.1⟩, hlabel⟩, hopen.2.2.1⟩, hlook⟩, hopen.2.2.2⟩

theorem not_mem_edgeText {d : Char} (hd : d = '\n' ∨ d = '\r') (i j : Nat) :
    d ∉ (edgeText i j).toList := by
  have hopen : d ∉ "    node".toList ∧ d ∉ " -> node".toList ∧ d ∉ ";".toList := by
    rcases hd with rfl | rfl <;> decide
  simp only [edgeText, String.toList_append, List.mem_append, not_or]
  exact ⟨⟨⟨⟨hopen.1, not_mem_repr hd i⟩, hopen.2.1⟩, not_mem_repr hd j⟩, hopen.2.2⟩

theorem not_mem_drawing {d : Char} (hd : d = '\n' ∨ d = '\r') {t : ParseTree} {line : String}
    (h : line ∈ t.drawing) : d ∉ line.toList := by
  unfold drawing at h
  rw [List.mem_append, List.mem_append, List.mem_append] at h
  rcases h with ((hhead | hnode) | hedge) | hlast
  · simp only [List.mem_cons, List.not_mem_nil, or_false] at hhead
    rcases hd with rfl | rfl <;> rcases hhead with rfl | rfl | rfl <;> decide
  · obtain ⟨⟨n, i⟩, -, rfl⟩ := List.mem_map.1 hnode
    exact not_mem_nodeText hd i n
  · split at hedge
    · cases hedge
    · rcases List.mem_cons.1 hedge with rfl | hedge
      · exact List.not_mem_nil
      · obtain ⟨p, -, rfl⟩ := List.mem_map.1 hedge
        exact not_mem_edgeText hd _ _
  · rw [List.mem_singleton] at hlast
    subst hlast
    rcases hd with rfl | rfl <;> decide

/-- The drawing shows the tree: read line by line it is a header, a line for each node in pre-order,
an edge to each node but the root from the number of its parent, and a closing brace. -/
theorem dot_draws_tree (t : ParseTree) :
    t.dot = String.join (t.drawing.map (· ++ "\n")) ∧ Text.lines t.dot = t.drawing ∧
      (∀ line ∈ t.drawing, '\n' ∉ line.toList ∧ '\r' ∉ line.toList) ∧
      t.nodes.length = t.nodeCount ∧ t.places.map t.at? = t.nodes.map some ∧
      t.places.map t.numberAt = List.range t.nodeCount := by
  have hlines : ∀ line ∈ t.drawing, '\n' ∉ line.toList ∧ '\r' ∉ line.toList := fun line hline =>
    ⟨not_mem_drawing (.inl rfl) hline, not_mem_drawing (.inr rfl) hline⟩
  have hread : Text.lines t.dot = t.drawing := by
    rw [dot_eq_join]
    exact Text.lines_join hlines
  rw [nodeCount_eq_size]
  exact ⟨dot_eq_join t, hread, hlines, length_nodes t, map_at?_places t, map_numberAt_places t⟩

end CAudit.ParseTree
