import CAudit.ParseTree.Dot

/-! Nodes by their places. A place is the path of child indexes from the root, and the parent of a
node is the node at the place without its last index. Numbering the nodes with a stack gives each
node its position in pre-order, and its parent the position of the parent's place. -/
namespace CAudit.ParseTree

theorem tree_induction {P : ParseTree → Prop}
    (node : ∀ name value isTerminal children, (∀ t ∈ children, P t) →
      P ⟨name, value, isTerminal, children⟩) (t : ParseTree) : P t := by
  refine @ParseTree.rec P (fun ts => ∀ t ∈ ts, P t) node ?_ ?_ t
  · intro t ht
    cases ht
  · intro t ts ht hts
    exact List.forall_mem_cons.2 ⟨ht, hts⟩

theorem length_nodes (t : ParseTree) : t.nodes.length = t.size := by
  induction t using tree_induction with
  | node name value isTerminal ts ih =>
    have hall : (nodesAll ts).length = sizeAll ts := by
      induction ts with
      | nil => rfl
      | cons t ts hts =>
        obtain ⟨ht, hrest⟩ := List.forall_mem_cons.1 ih
        rw [nodesAll, sizeAll, List.length_append, ht, hts hrest]
    rw [nodes, size, List.length_cons, hall]

theorem countFrom_eq (count : Nat) (pending : List ParseTree) :
    countFrom count pending = count + sizeAll pending := by
  fun_induction countFrom count pending with
  | case1 count => rfl
  | case2 count t ts ih =>
    rw [List.unattach_reverse, List.unattach_attach] at ih
    rw [ih, sizeAll_append, sizeAll_reverse, sizeAll, size_eq]
    omega

theorem nodeCount_eq_size (t : ParseTree) : t.nodeCount = t.size := by
  rw [nodeCount, countFrom_eq, sizeAll, sizeAll]
  omega

mutual

/-- The places of a tree in pre-order. -/
def places (t : ParseTree) : List (List Nat) :=
  match t with
  | ⟨_, _, _, ts⟩ => [] :: placesAll 0 ts

/-- The places of trees that are children from the index `k` on. -/
def placesAll (k : Nat) (ts : List ParseTree) : List (List Nat) :=
  match ts with
  | [] => []
  | t :: ts => t.places.map (k :: ·) ++ placesAll (k + 1) ts

end

theorem places_eq (t : ParseTree) : t.places = [] :: placesAll 0 t.children := by
  cases t
  rw [places]

theorem mem_placesAll {k : Nat} {ts : List ParseTree} {p : List Nat} :
    p ∈ placesAll k ts ↔ ∃ i t q, ts[i]? = some t ∧ q ∈ t.places ∧ p = (k + i) :: q := by
  induction ts generalizing k with
  | nil => simp [placesAll]
  | cons t ts ih =>
    rw [placesAll, List.mem_append, List.mem_map, ih]
    constructor
    · rintro (⟨q, hq, rfl⟩ | ⟨i, u, q, hu, hq, rfl⟩)
      · exact ⟨0, t, q, rfl, hq, rfl⟩
      · exact ⟨i + 1, u, q, hu, hq, by rw [Nat.add_right_comm, Nat.add_assoc]⟩
    · rintro ⟨i, u, q, hu, hq, rfl⟩
      cases i with
      | zero =>
        cases hu
        exact .inl ⟨q, hq, rfl⟩
      | succ i => exact .inr ⟨i, u, q, hu, hq, by rw [Nat.add_right_comm, Nat.add_assoc]⟩

theorem at?_cons (t : ParseTree) (i : Nat) (p : List Nat) :
    t.at? (i :: p) = t.children[i]?.bind (·.at? p) := by
  rw [at?]
  cases t.children[i]? <;> rfl

/-- The places of a tree are the paths that lead to a node. -/
theorem mem_places {t : ParseTree} {p : List Nat} : p ∈ t.places ↔ (t.at? p).isSome = true := by
  induction p generalizing t with
  | nil => simp [places_eq, at?]
  | cons i p ih =>
    have hne : i :: p ≠ [] := List.cons_ne_nil i p
    rw [places_eq, List.mem_cons, or_iff_right hne, mem_placesAll, at?_cons]
    constructor
    · rintro ⟨j, u, q, hu, hq, heq⟩
      obtain ⟨rfl, rfl⟩ := List.cons.inj heq
      rw [Nat.zero_add, hu]
      exact ih.1 hq
    · intro h
      cases hu : t.children[i]? with
      | none => simp [hu] at h
      | some u =>
        rw [hu] at h
        exact ⟨i, u, p, hu, ih.2 h, by rw [Nat.zero_add]⟩

theorem at?_append (t : ParseTree) (p q : List Nat) :
    t.at? (p ++ q) = (t.at? p).bind (·.at? q) := by
  induction p generalizing t with
  | nil => rfl
  | cons i p ih =>
    rw [List.cons_append, at?_cons, at?_cons]
    cases t.children[i]? with
    | none => rfl
    | some u => exact ih u

/-- With a place, a tree has the place of the parent. -/
theorem dropLast_mem_places {t : ParseTree} {p : List Nat} (h : p ∈ t.places) :
    p.dropLast ∈ t.places := by
  rcases List.eq_nil_or_concat p with rfl | ⟨q, k, rfl⟩
  · exact h
  · rw [List.concat_eq_append, mem_places, at?_append] at h
    rw [List.concat_eq_append, List.dropLast_concat, mem_places]
    cases hq : t.at? q with
    | none => simp [hq] at h
    | some u => rfl

theorem length_places (t : ParseTree) : t.places.length = t.size := by
  induction t using tree_induction with
  | node name value isTerminal ts ih =>
    have hall (k : Nat) : (placesAll k ts).length = sizeAll ts := by
      induction ts generalizing k with
      | nil => rfl
      | cons t ts hts =>
        obtain ⟨ht, hrest⟩ := List.forall_mem_cons.1 ih
        rw [placesAll, sizeAll, List.length_append, List.length_map, ht, hts hrest]
    rw [places, size, List.length_cons, hall]

/-- Places and nodes are listed in the same order. -/
theorem map_at?_places (t : ParseTree) : t.places.map t.at? = t.nodes.map some := by
  induction t using tree_induction with
  | node name value isTerminal ts ih =>
    -- the children from some index on, in front of which others may stand
    have hall (front : List ParseTree) :
        (placesAll front.length ts).map (at? ⟨name, value, isTerminal, front ++ ts⟩) =
          (nodesAll ts).map some := by
      induction ts generalizing front with
      | nil => rfl
      | cons t ts hts =>
        obtain ⟨ht, hrest⟩ := List.forall_mem_cons.1 ih
        have hchild : (at? ⟨name, value, isTerminal, front ++ t :: ts⟩ ∘ (front.length :: ·)) =
            t.at? := by
          funext p
          rw [Function.comp_apply, at?_cons]
          simp
        have hnext := hts hrest (front ++ [t])
        rw [List.length_append, List.length_singleton, List.append_assoc,
          List.singleton_append] at hnext
        rw [placesAll, nodesAll, List.map_append, List.map_append, List.map_map, hchild, ht, hnext]
    have hchildren := hall []
    rw [List.length_nil, List.nil_append] at hchildren
    rw [places, nodes, List.map_cons, List.map_cons, hchildren]
    rfl

/-- The number of the node at a place: its position in pre-order. -/
def numberAt (t : ParseTree) (p : List Nat) : Nat := t.places.idxOf p

theorem nodup_places (t : ParseTree) : t.places.Nodup := by
  induction t using tree_induction with
  | node name value isTerminal ts ih =>
    have hall (k : Nat) : (placesAll k ts).Nodup := by
      induction ts generalizing k with
      | nil => exact List.nodup_nil
      | cons t ts hts =>
        obtain ⟨ht, hrest⟩ := List.forall_mem_cons.1 ih
        rw [placesAll]
        refine List.nodup_append.2 ⟨?_, hts hrest (k + 1), ?_⟩
        · exact List.Pairwise.map _ (fun p q hne heq => hne (List.cons.inj heq).2) ht
        · rintro p hp q hq rfl
          obtain ⟨p, -, rfl⟩ := List.mem_map.1 hp
          obtain ⟨i, u, q, -, -, heq⟩ := mem_placesAll.1 hq
          have hindex := (List.cons.inj heq).1
          omega
    rw [places]
    refine List.nodup_cons.2 ⟨?_, hall 0⟩
    intro hnil
    obtain ⟨i, u, q, -, -, heq⟩ := mem_placesAll.1 hnil
    cases heq

/-- Numbers count the places from zero on. -/
theorem map_numberAt_places (t : ParseTree) : t.places.map t.numberAt = List.range t.size := by
  apply List.ext_getElem
  · rw [List.length_map, length_places, List.length_range]
  · intro i hi hrange
    rw [List.getElem_map, List.getElem_range]
    exact (nodup_places t).idxOf_getElem i (by simpa using hi)

theorem nodesAll_append (ts us : List ParseTree) :
    nodesAll (ts ++ us) = nodesAll ts ++ nodesAll us := by
  induction ts with
  | nil => rfl
  | cons t ts ih => rw [List.cons_append, nodesAll, nodesAll, ih, List.append_assoc]

theorem nodes_eq (t : ParseTree) : t.nodes = t :: nodesAll t.children := by
  cases t
  rw [nodes]

theorem verticesFrom_id (id : Nat) (pending : List (ParseTree × Option Nat)) :
    (verticesFrom id pending).map (·.id) = List.range' id (sizeAll (pending.map (·.1))) := by
  fun_induction verticesFrom id pending with
  | case1 id => rfl
  | case2 id t parent ts ih =>
    rw [List.map_cons, ih, List.map_append, underParent_trees, sizeAll_append, List.map_cons,
      sizeAll, size_eq, Nat.add_right_comm, List.range'_succ]

theorem verticesFrom_tree (id : Nat) (pending : List (ParseTree × Option Nat)) :
    (verticesFrom id pending).map (·.tree) = nodesAll (pending.map (·.1)) := by
  fun_induction verticesFrom id pending with
  | case1 id => rfl
  | case2 id t parent ts ih =>
    rw [List.map_cons, ih, List.map_append, underParent_trees, nodesAll_append, List.map_cons,
      nodesAll, nodes_eq, List.cons_append]

theorem idxOf_map_cons (k : Nat) (p : List Nat) (ps : List (List Nat)) :
    (ps.map (k :: ·)).idxOf (k :: p) = ps.idxOf p := by
  induction ps with
  | nil => rfl
  | cons q ps ih =>
    rw [List.map_cons, List.idxOf_cons, List.idxOf_cons, ih]
    by_cases h : q = p <;> simp [h]

/-- The number of the parent of a place, for a tree whose own number is `id`. -/
def parentFrom (id : Nat) (parent : Option Nat) (t : ParseTree) (p : List Nat) : Option Nat :=
  if p = [] then parent else some (id + t.numberAt p.dropLast)

/-- The number of the parent of a place among children whose numbers start at `id`. -/
def parentAmong (id parent : Nat) (ps : List (List Nat)) (p : List Nat) : Option Nat :=
  some (if p.dropLast = [] then parent else id + ps.idxOf p.dropLast)

theorem parentAmong_first {t : ParseTree} {p : List Nat} (hp : p ∈ t.places) (id parent k : Nat)
    (more : List (List Nat)) :
    parentAmong id parent (t.places.map (k :: ·) ++ more) (k :: p) =
      parentFrom id (some parent) t p := by
  unfold parentAmong parentFrom
  by_cases hnil : p = []
  · rw [hnil]
    rfl
  · have hmem : k :: p.dropLast ∈ t.places.map (k :: ·) :=
      List.mem_map_of_mem (dropLast_mem_places hp)
    rw [List.dropLast_cons_of_ne_nil hnil, if_neg (List.cons_ne_nil _ _), if_neg hnil,
      List.idxOf_append, if_pos hmem, idxOf_map_cons]
    rfl

theorem parentAmong_later {t : ParseTree} {k : Nat} {ts : List ParseTree} {p : List Nat}
    (hp : p ∈ placesAll (k + 1) ts) (id parent : Nat) :
    parentAmong id parent (t.places.map (k :: ·) ++ placesAll (k + 1) ts) p =
      parentAmong (id + t.size) parent (placesAll (k + 1) ts) p := by
  unfold parentAmong
  by_cases hnil : p.dropLast = []
  · rw [if_pos hnil, if_pos hnil]
  · have hmem : p.dropLast ∉ t.places.map (k :: ·) := by
      intro hmem
      obtain ⟨q, -, hq⟩ := List.mem_map.1 hmem
      obtain ⟨i, u, r, -, -, rfl⟩ := mem_placesAll.1 hp
      cases r with
      | nil => exact hnil rfl
      | cons j r =>
        have hindex := (List.cons.inj hq).1
        omega
    rw [if_neg hnil, if_neg hnil, List.idxOf_append, if_neg hmem, List.length_map, length_places]
    congr 1
    omega

theorem parentFrom_child {t : ParseTree} {p : List Nat} (hp : p ∈ placesAll 0 t.children) (id : Nat)
    (parent : Option Nat) :
    parentFrom id parent t p = parentAmong (id + 1) id (placesAll 0 t.children) p := by
  obtain ⟨i, u, q, -, -, rfl⟩ := mem_placesAll.1 hp
  unfold parentFrom parentAmong numberAt
  rw [if_neg (List.cons_ne_nil _ _), places_eq, List.idxOf_cons]
  by_cases hnil : ((0 + i) :: q).dropLast = []
  · rw [if_pos hnil, hnil]
    rfl
  · have hne : ([] == ((0 + i) :: q).dropLast) = false := beq_false_of_ne (Ne.symm hnil)
    rw [if_neg hnil, hne, cond_false]
    congr 1
    omega

/-- Behind a subtree on the stack the walk goes on with the numbers that the subtree leaves. -/
theorem verticesFrom_parent (t : ParseTree) (id : Nat) (parent : Option Nat)
    (pending : List (ParseTree × Option Nat)) :
    (verticesFrom id ((t, parent) :: pending)).map (·.parent) =
      t.places.map (parentFrom id parent t) ++
        (verticesFrom (id + t.size) pending).map (·.parent) := by
  induction t using tree_induction generalizing id parent pending with
  | node name value isTerminal ts ih =>
    have hall (id par k : Nat) : (verticesFrom id (underParent par ts ++ pending)).map (·.parent) =
        (placesAll k ts).map (parentAmong id par (placesAll k ts)) ++
        (verticesFrom (id + sizeAll ts) pending).map (·.parent) := by
      induction ts generalizing id k with
      | nil => rfl
      | cons t ts hts =>
        obtain ⟨ht, hrest⟩ := List.forall_mem_cons.1 ih
        have hfirst := List.map_congr_left fun p (hp : p ∈ t.places) =>
          parentAmong_first hp id par k (placesAll (k + 1) ts)
        have hlater := List.map_congr_left fun p (hp : p ∈ placesAll (k + 1) ts) =>
          parentAmong_later (t := t) hp id par
        have hcons : underParent par (t :: ts) ++ pending =
            (t, some par) :: (underParent par ts ++ pending) := rfl
        rw [hcons, ht, hts hrest (id + t.size) (k + 1), placesAll, sizeAll, List.map_append,
          List.map_map, List.append_assoc, ← Nat.add_assoc, ← hfirst, hlater]
        rfl
    have hchildren := List.map_congr_left fun p (hp : p ∈ placesAll 0 ts) =>
      parentFrom_child (t := ⟨name, value, isTerminal, ts⟩) hp id parent
    rw [verticesFrom, List.map_cons, hall (id + 1) id 0, places, List.map_cons, List.cons_append,
      size, hchildren, Nat.add_assoc id, Nat.add_comm 1]
    rfl

theorem vertices_id (t : ParseTree) : t.vertices.map (·.id) = List.range t.size := by
  rw [vertices, verticesFrom_id, List.map_singleton, sizeAll, sizeAll, Nat.add_zero,
    List.range_eq_range']

theorem vertices_tree (t : ParseTree) : t.vertices.map (·.tree) = t.nodes := by
  rw [vertices, verticesFrom_tree, List.map_singleton, nodesAll, nodesAll, List.append_nil]

theorem vertices_parent (t : ParseTree) : t.vertices.map (·.parent) =
    t.places.map fun p => if p = [] then none else some (t.numberAt p.dropLast) := by
  rw [vertices, verticesFrom_parent, verticesFrom, List.map_nil, List.append_nil]
  apply List.map_congr_left
  intro p _
  rw [parentFrom, Nat.zero_add]

/-- The number of a node is its position in pre-order. -/
theorem vertices_getElem? {t n : ParseTree} {i : Nat} (h : t.nodes[i]? = some n) :
    ∃ parent, t.vertices[i]? = some ⟨i, parent, n⟩ := by
  rw [← vertices_tree, List.getElem?_map] at h
  obtain ⟨v, hv, rfl⟩ := Option.map_eq_some_iff.1 h
  have hid : (t.vertices.map (·.id))[i]? = some v.id := by
    rw [List.getElem?_map, hv, Option.map_some]
  rw [vertices_id] at hid
  obtain ⟨hlt, hi⟩ := List.getElem?_eq_some_iff.1 hid
  rw [List.getElem_range] at hi
  subst hi
  exact ⟨v.parent, hv⟩

end CAudit.ParseTree
