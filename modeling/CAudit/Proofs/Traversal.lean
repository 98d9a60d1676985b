import CAudit.Proofs.PreOrder

/-! Walks with a stack against the recursions they stand for. What is still to come from a walk
depends on its stack only, so each walk is described for every stack: the one that lists the nodes
goes through the pending subtrees in pre-order, the one that counts takes the last child first and
still meets every node once. -/
namespace CAudit.ParseTree

/-- The nodes that a walk gives, one call after the other, up to the call that gives none. -/
inductive Walk.Yields : Walk → List ParseTree → Prop
  | done {w : Walk} (h : w.next? = none) : Yields w []
  | step {w v : Walk} {t : ParseTree} {ns : List ParseTree} (h : w.next? = some (t, v))
      (hv : Yields v ns) : Yields w (t :: ns)

theorem Walk.yields_toList (w : Walk) : w.Yields w.toList := by
  fun_induction Walk.toList w with
  | case1 w h => exact .done h
  | case2 w t v h ih => exact .step h ih

theorem Walk.next?_eq_none {w : Walk} (h : w.next? = none) : w.pending = [] := by
  unfold Walk.next? at h
  split at h
  · assumption
  · cases h

theorem Walk.next?_eq_some {w v : Walk} {t : ParseTree} (h : w.next? = some (t, v)) :
    ∃ ts, w.pending = t :: ts ∧ v.pending = t.children ++ ts := by
  unfold Walk.next? at h
  split at h
  · cases h
  · next u us hp =>
    cases h
    exact ⟨us, hp, rfl⟩

/-- The stack holds whole subtrees: their nodes in pre-order are what is to come. -/
theorem Walk.Yields.eq_nodesAll {w : Walk} {ns : List ParseTree} (h : w.Yields ns) :
    ns = nodesAll w.pending := by
  induction h with
  | done h => rw [Walk.next?_eq_none h, nodesAll]
  | step h _ ih =>
    obtain ⟨ts, hw, hv⟩ := Walk.next?_eq_some h
    rw [ih, hw, hv, nodesAll_append, nodesAll, nodes_eq, List.cons_append]

theorem Walk.toList_eq_nodesAll (w : Walk) : w.toList = nodesAll w.pending :=
  w.yields_toList.eq_nodesAll

theorem Walk.yields_iff {w : Walk} {ns : List ParseTree} :
    w.Yields ns ↔ ns = nodesAll w.pending := by
  constructor
  · exact Walk.Yields.eq_nodesAll
  · rintro rfl
    rw [← w.toList_eq_nodesAll]
    exact w.yields_toList

theorem nodesAll_walk (t : ParseTree) : nodesAll t.walk.pending = t.nodes := by
  rw [walk, nodesAll, nodesAll, List.append_nil]

/-- The nodes that the counting walk takes from a stack, in its order. -/
inductive Tally : List ParseTree → List ParseTree → Prop
  | nil : Tally [] []
  | cons {t : ParseTree} {ts ns : List ParseTree} (h : Tally (t.children.reverse ++ ts) ns) :
      Tally (t :: ts) (t :: ns)

theorem Tally.countFrom_eq {pending ns : List ParseTree} (h : Tally pending ns) (count : Nat) :
    countFrom count pending = count + ns.length := by
  induction h generalizing count with
  | nil => rw [countFrom, List.length_nil, Nat.add_zero]
  | cons _ ih =>
    rw [countFrom, ih, List.length_cons]
    omega

mutual

/-- The nodes of a tree, each before its children, and the subtrees of these from the last one to
the first. -/
def nodesLastFirst (t : ParseTree) : List ParseTree :=
  match t with
  | ⟨n, v, b, ts⟩ => ⟨n, v, b, ts⟩ :: nodesLastFirstAll ts

def nodesLastFirstAll (ts : List ParseTree) : List ParseTree :=
  match ts with
  | [] => []
  | t :: ts => nodesLastFirstAll ts ++ t.nodesLastFirst

end

theorem nodesLastFirst_eq (t : ParseTree) :
    t.nodesLastFirst = t :: nodesLastFirstAll t.children := by
  cases t
  rw [nodesLastFirst]

theorem nodesLastFirstAll_eq_flatMap (ts : List ParseTree) :
    nodesLastFirstAll ts = ts.reverse.flatMap nodesLastFirst := by
  induction ts with
  | nil => rfl
  | cons t ts ih => rw [nodesLastFirstAll, ih, List.reverse_cons, List.flatMap_append,
      List.flatMap_singleton]

theorem Tally.eq_flatMap {pending ns : List ParseTree} (h : Tally pending ns) :
    ns = pending.flatMap nodesLastFirst := by
  induction h with
  | nil => rfl
  | cons _ ih =>
    rw [ih, List.flatMap_append, ← nodesLastFirstAll_eq_flatMap, List.flatMap_cons,
      nodesLastFirst_eq, List.cons_append]

/-- The counting walk ends on every stack: each node that it takes leaves less on the stack. -/
theorem exists_tally (pending : List ParseTree) : ∃ ns, Tally pending ns := by
  fun_induction countFrom 0 pending with
  | case1 => exact ⟨[], .nil⟩
  | case2 _ t ts ih =>
    rw [List.unattach_reverse, List.unattach_attach] at ih
    obtain ⟨ns, hns⟩ := ih
    exact ⟨t :: ns, .cons hns⟩

theorem tally_iff {t : ParseTree} {ns : List ParseTree} :
    Tally [t] ns ↔ ns = t.nodesLastFirst := by
  have hone : [t].flatMap nodesLastFirst = t.nodesLastFirst := List.flatMap_singleton _ _
  constructor
  · intro h
    rw [h.eq_flatMap, hone]
  · rintro rfl
    obtain ⟨ns, hns⟩ := exists_tally [t]
    rw [← hone, ← hns.eq_flatMap]
    exact hns

/-- Both orders list the same nodes. -/
theorem nodesLastFirst_perm (t : ParseTree) : t.nodesLastFirst.Perm t.nodes := by
  induction t using tree_induction with
  | node name value isTerminal ts ih =>
    have hall : (nodesLastFirstAll ts).Perm (nodesAll ts) := by
      induction ts with
      | nil => exact .refl _
      | cons t ts hts =>
        obtain ⟨ht, hrest⟩ := List.forall_mem_cons.1 ih
        rw [nodesLastFirstAll, nodesAll]
        exact ((hts hrest).append ht).trans List.perm_append_comm
    rw [nodesLastFirst, nodes]
    exact hall.cons _

mutual

/-- The values of the terminals that have one, subtree after subtree from left to right. -/
def values (t : ParseTree) : List String :=
  match t with
  | ⟨_, v, b, ts⟩ => (if b then v.toList else []) ++ valuesAll ts

def valuesAll (ts : List ParseTree) : List String :=
  match ts with
  | [] => []
  | t :: ts => t.values ++ valuesAll ts

end

theorem values_nodes (t : ParseTree) :
    (t.nodes.filter (·.isTerminal)).filterMap (·.value) = t.values := by
  induction t using tree_induction with
  | node name value isTerminal ts ih =>
    have hall : ((nodesAll ts).filter (·.isTerminal)).filterMap (·.value) = valuesAll ts := by
      induction ts with
      | nil => rfl
      | cons t ts hts =>
        obtain ⟨ht, hrest⟩ := List.forall_mem_cons.1 ih
        rw [nodesAll, valuesAll, List.filter_append, List.filterMap_append, ht, hts hrest]
    rw [nodes, values, ← hall]
    cases isTerminal <;> cases value <;> simp

/-- The walk in pre-order gives the nodes in pre-order and then ends. The counting walk ends too; it
takes the last child first and counts as many nodes as the other one gives. The values of the
terminals come out subtree after subtree. -/
theorem walks_follow_recursion (t : ParseTree) :
    (∀ ns, t.walk.Yields ns ↔ ns = t.nodes) ∧ t.walk.toList = t.nodes ∧
      (∀ ns, Tally [t] ns ↔ ns = t.nodesLastFirst) ∧ t.nodesLastFirst.Perm t.nodes ∧
      t.nodeCount = t.nodesLastFirst.length ∧ t.nodeCount = t.walk.toList.length ∧
      t.terminalValues = t.values := by
  have hlist : t.walk.toList = t.nodes := by rw [Walk.toList_eq_nodesAll, nodesAll_walk]
  have hcount : t.nodeCount = t.nodesLastFirst.length := by
    rw [nodeCount, (tally_iff.2 rfl).countFrom_eq, Nat.zero_add]
  refine ⟨fun ns => ?_, hlist, fun ns => tally_iff, nodesLastFirst_perm t, hcount, ?_, ?_⟩
  · rw [Walk.yields_iff, nodesAll_walk]
  · rw [hcount, hlist, (nodesLastFirst_perm t).length_eq]
  · rw [terminalValues, hlist, values_nodes]

/-- The two walks meet children in opposite orders. -/
example :
    let leaf (name : String) : ParseTree := ⟨name, none, true, []⟩
    let t : ParseTree := ⟨"r", none, false, [leaf "a", leaf "b"]⟩
    t.nodes.map (·.name) = ["r", "a", "b"] ∧ t.nodesLastFirst.map (·.name) = ["r", "b", "a"] :=
  ⟨rfl, rfl⟩

end CAudit.ParseTree
