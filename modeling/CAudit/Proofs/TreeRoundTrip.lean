import CAudit.ParseTree
import CAudit.Proofs.JsonRecord

/-! Parse trees are read back from their JSON text. Each level of the tree opens an object and the
array of its children, so a tree is given back up to half the levels that the reader opens, and
refused beyond. -/
namespace CAudit.ParseTree
open Json Json.Reader

theorem toJsonAll_eq_map (ts : List ParseTree) : toJsonAll ts = ts.map toJson := by
  induction ts with
  | nil => rfl
  | cons t ts ih => rw [toJsonAll, List.map_cons, ih]

/-- The members of a node, with the text of its children. -/
def membersText (n : String) (v : Option String) (b : Bool) (children : List Char) : List Char :=
  stringText "name" ++ ':' :: (stringText n ++
    (v.elim [] (fun s => ',' :: (stringText "value" ++ ':' :: stringText s)) ++
      ',' :: (stringText "is_terminal" ++ ':' :: (compactText (.bool b) ++
        ',' :: (stringText "children" ++ ':' :: children)))))

theorem compactText_toJson (n : String) (v : Option String) (b : Bool) (ts : List ParseTree) :
    compactText (toJson ⟨n, v, b, ts⟩) =
      '{' :: membersText n v b (compactText (.array (toJsonAll ts))) ++ ['}'] := by
  cases v <;> simp [toJson, compactText, compactMembers, membersText]

section
variable {items : Json.Reader (List ParseTree)} {d : Draft}

/-- The value is read if there is one, and stays missing otherwise. -/
theorem membersFrom_value (hd : d.value = none) (v : Option String) (more : List Char) :
    membersFrom (shape items).member d false
      (v.elim [] (fun s => ',' :: (stringText "value" ++ ':' :: stringText s)) ++ more) =
    membersFrom (shape items).member { d with value := v.map some } false more := by
  cases v with
  | none =>
    obtain ⟨name, value, isTerminal, children⟩ := d
    cases hd
    rfl
  | some s =>
    have hkey : (shape items).member d "value" =
        .ok (do return { d with value := some (← nullable string) }) := by
      rw [Shape.member]
      simp [shape, hd]
    have hread := ((takes_string s).nullable (by decide) (by decide)).map
      fun s => { d with value := some s }
    rw [Option.elim_some, List.cons_append, List.append_assoc, List.cons_append]
    exact membersFrom_member false hkey hread more

theorem membersFrom_shape {children : List Char} {e : Except Fault (List ParseTree)}
    (h : Takes items children e) (n : String) (v : Option String) (b : Bool) (rest : List Char) :
    membersFrom (shape items).member (shape items).empty true
      (membersText n v b children ++ '}' :: rest) =
    (e.map fun ts => (⟨some n, v.map some, some b, some ts⟩ : Draft)).map fun d => (d, rest) := by
  simp only [membersText, List.append_assoc, List.cons_append]
  have hname : (shape items).member {} "name" =
      .ok (do return { ({} : Draft) with name := some (← string) }) := rfl
  refine (membersFrom_member true hname ((takes_string n).map _) _).trans ?_
  refine (membersFrom_value rfl v _).trans ?_
  have hterminal : (shape items).member ⟨some n, v.map some, none, none⟩ "is_terminal" =
      .ok (do return ⟨some n, v.map some, some (← bool), none⟩) := rfl
  refine (membersFrom_member false hterminal ((takes_bool b).map _) _).trans ?_
  have hchildren : (shape items).member ⟨some n, v.map some, some b, none⟩ "children" =
      .ok (do return ⟨some n, v.map some, some b, some (← items)⟩) := rfl
  refine (membersFrom_member false hchildren (h.map _) _).trans ?_
  cases e with
  | error => rfl
  | ok ts => exact membersFrom_close (objectTurn_close blank_nil false rest)

/-- A node with a fault in its children has this fault. -/
theorem takes_node {ts : List ParseTree} {e : Except Fault (List ParseTree)}
    (h : Takes items (compactText (.array (toJsonAll ts))) e) (n : String) (v : Option String)
    (b : Bool) (room : Nat) :
    Takes (record (room + 1) (shape items)) (compactText (toJson ⟨n, v, b, ts⟩))
      (e.map fun us => ⟨n, v, b, us⟩) := by
  have hrecord := takes_record (fun d => ⟨n, v, b, d.children.getD []⟩)
    (membersFrom_shape h n v b) ?_ room
  · rw [compactText_toJson]
    cases e <;> exact hrecord
  · intro d hd
    obtain ⟨ts, -, rfl⟩ := of_map_eq_ok hd
    cases v <;> rfl

end

/-- The tree, unless it is higher than half the room. -/
def within (room : Nat) (t : ParseTree) : Except Fault ParseTree :=
  if 2 * t.height ≤ room then .ok t else .error .malformed

theorem mapM_within (room : Nat) (ts : List ParseTree) :
    ts.mapM (within room) = if 2 * heightAll ts ≤ room then .ok ts else .error .malformed := by
  induction ts with
  | nil => rw [heightAll, if_pos (Nat.zero_le room), List.mapM_nil]; rfl
  | cons t ts ih =>
    have hmax : 2 * max t.height (heightAll ts) ≤ room ↔
        2 * t.height ≤ room ∧ 2 * heightAll ts ≤ room := by omega
    rw [List.mapM_cons, ih, heightAll, within]
    simp only [hmax]
    by_cases ht : 2 * t.height ≤ room
    · by_cases hts : 2 * heightAll ts ≤ room
      · rw [if_pos ht, if_pos hts, if_pos ⟨ht, hts⟩]
        rfl
      · rw [if_pos ht, if_neg hts, if_neg (not_and_of_not_right _ hts)]
        rfl
    · rw [if_neg ht, if_neg (not_and_of_not_left _ ht)]
      rfl

theorem takes_children {room : Nat}
    (h : ∀ t, Takes (read room) (compactText t.toJson) (within room t)) (ts : List ParseTree) :
    Takes (list (room + 1) (read room)) (compactText (.array (toJsonAll ts)))
      (ts.mapM (within room)) := by
  rw [toJsonAll_eq_map, compactText, compactItems_eq, List.map_map]
  refine takes_list (fun t _ => ⟨h t, ?_⟩) room
  obtain ⟨n, v, b, us⟩ := t
  exact ⟨'{', _, compactText_toJson n v b us, by decide, by decide⟩

/-- A tree is read from its text if there is room for two levels a node. -/
theorem takes_read (room : Nat) (t : ParseTree) :
    Takes (read room) (compactText t.toJson) (within room t) := by
  induction room using read.induct generalizing t with
  | case1 =>
    obtain ⟨n, v, b, ts⟩ := t
    rw [read, compactText_toJson, within, if_neg (by rw [height]; omega)]
    exact takes_record_zero _
  | case2 =>
    obtain ⟨n, v, b, ts⟩ := t
    rw [read, within, if_neg (by rw [height]; omega)]
    exact takes_node (takes_list_zero _ _) n v b 0
  | case3 room ih =>
    -- one level for the object of the node, one for the array of its children
    obtain ⟨n, v, b, ts⟩ := t
    have hnode := takes_node (takes_children ih ts) n v b (room + 1)
    have hwithin : within (room + 2) ⟨n, v, b, ts⟩ =
        (ts.mapM (within room)).map fun us => ⟨n, v, b, us⟩ := by
      have hheight : 2 * (heightAll ts + 1) ≤ room + 2 ↔ 2 * heightAll ts ≤ room := by omega
      rw [mapM_within, within, height]
      simp only [hheight]
      split <;> rfl
    rwa [read, hwithin]

/-- The JSON text of a tree gives the tree back up to 63 nodes on a path, and is refused as no JSON
from 64 on. -/
theorem whole_read_compact (t : ParseTree) :
    ((read maxNesting).whole t.toJson.compact).mapError Fault.category =
      if t.height ≤ 63 then .ok t else .error "Syntax" := by
  have hread : read maxNesting t.toJson.compact.toList =
      (within maxNesting t).map fun u => (u, []) := by
    simpa [compact] using takes_read maxNesting t []
  have hheight : 2 * t.height ≤ maxNesting ↔ t.height ≤ 63 := by
    rw [maxNesting]
    omega
  rw [whole, hread, within]
  by_cases ht : t.height ≤ 63
  · rw [if_pos (hheight.2 ht), if_pos ht]
    rfl
  · rw [if_neg fun h => ht (hheight.1 h), if_neg ht]
    rfl

end CAudit.ParseTree
