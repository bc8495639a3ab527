import Lox.Machine
import Lox.Proofs.Scope.Exact
import Lox.Proofs.Tree.Identity
import Mathlib.Data.List.Nodup

namespace Lox

mutual

theorem Expr.map_id_nodes (L : Lexical) : (e : Expr) → (e.nodes L).map Node.id = e.ids
  | .literal _ | .variable _ _ | .this _ _ | .super _ _ _ => by simp [Expr.nodes, Expr.ids]
  | .grouping e => by simp [Expr.nodes, Expr.ids, e.map_id_nodes]
  | .unary _ e => by simp [Expr.nodes, Expr.ids, e.map_id_nodes]
  | .binary e₁ _ e₂ => by simp [Expr.nodes, Expr.ids, e₁.map_id_nodes, e₂.map_id_nodes]
  | .logical e₁ _ e₂ => by simp [Expr.nodes, Expr.ids, e₁.map_id_nodes, e₂.map_id_nodes]
  | .assign _ _ e => by simp [Expr.nodes, Expr.ids, e.map_id_nodes]
  | .call e _ es => by simp [Expr.nodes, Expr.ids, e.map_id_nodes, map_id_nodesOfAll L es]
  | .get e _ => by simp [Expr.nodes, Expr.ids, e.map_id_nodes]
  | .set e₁ _ e₂ => by simp [Expr.nodes, Expr.ids, e₁.map_id_nodes, e₂.map_id_nodes]
  | .function f => by simp [Expr.nodes, Expr.ids, f.map_id_nodes]

theorem map_id_nodesOfAll (L : Lexical) :
    (es : List Expr) → (nodesOfAll L es).map Node.id = idsOfAll es
  | [] => rfl
  | e :: es => by simp [nodesOfAll, idsOfAll, e.map_id_nodes, map_id_nodesOfAll L es]

theorem Function.map_id_nodes (L : Lexical) : (f : Function) → (f.nodes L).map Node.id = f.ids
  | ⟨_, body⟩ => by simp [Function.nodes, Function.ids, map_id_nodesOfStatements _ body]

theorem Stmt.map_id_nodes (L : Lexical) : (s : Stmt) → (s.nodes L).map Node.id = s.ids
  | .var _ none | .break _ | .return _ none => by simp [Stmt.nodes, Stmt.ids]
  | .expression e => by simp [Stmt.nodes, Stmt.ids, e.map_id_nodes]
  | .print e => by simp [Stmt.nodes, Stmt.ids, e.map_id_nodes]
  | .var _ (some e) => by simp [Stmt.nodes, Stmt.ids, e.map_id_nodes]
  | .block ss => by simp [Stmt.nodes, Stmt.ids, map_id_nodesOfStatements _ ss]
  | .ifElse e s none => by simp [Stmt.nodes, Stmt.ids, e.map_id_nodes, s.map_id_nodes]
  | .ifElse e s (some s') => by
    simp [Stmt.nodes, Stmt.ids, e.map_id_nodes, s.map_id_nodes, s'.map_id_nodes]
  | .while e s => by simp [Stmt.nodes, Stmt.ids, e.map_id_nodes, s.map_id_nodes]
  | .return _ (some e) => by simp [Stmt.nodes, Stmt.ids, e.map_id_nodes]
  | .function ⟨_, f⟩ => by simp [Stmt.nodes, Stmt.ids, Method.ids, f.map_id_nodes]
  | .class _ none ms => by simp [Stmt.nodes, Stmt.ids, map_id_nodesOfMethods _ ms]
  | .class _ (some e) ms => by
    simp [Stmt.nodes, Stmt.ids, e.map_id_nodes, map_id_nodesOfMethods _ ms]

theorem map_id_nodesOfStatements (L : Lexical) :
    (ss : List Stmt) → (nodesOfStatements L ss).map Node.id = idsOfStatements ss
  | [] => rfl
  | s :: ss => by
    simp [nodesOfStatements, idsOfStatements, s.map_id_nodes, map_id_nodesOfStatements _ ss]

theorem map_id_nodesOfMethods (L : Lexical) :
    (ms : List Method) → (nodesOfMethods L ms).map Node.id = idsOfMethods ms
  | [] => rfl
  | ⟨_, f⟩ :: ms => by
    simp [nodesOfMethods, idsOfMethods, Method.ids, f.map_id_nodes, map_id_nodesOfMethods L ms]

end

/-- The nodes of a program, which stands in no scope. -/
def nodesOfProgram (program : List Stmt) : List Node := nodesOfStatements [] program

/-- An accepted program has misused no name, so its addresses are those of its places. -/
theorem addresses_of_resolve {lint : Lint} {program : List Stmt} {r : Resolution}
    (h : resolve lint program = .ok r) (hf : FormedStatements false program) :
    r.addresses = (nodesOfProgram program).filterMap Node.entry? ∧
      ∀ node ∈ nodesOfProgram program, node.Ready := by
  obtain ⟨hclean, haddresses⟩ := clean_of_resolve h
  have hfound := walkStatements_surveys .top ⟨[], #[]⟩ [] false program .nil hclean hf
    (by simp [Lexical.ExpectsAll])
  refine ⟨haddresses.trans (hfound.entries.trans ?_), hfound.ready⟩
  simp [Walk.entries, nodesOfProgram]

/-- No name of an accepted program has been declared twice in a scope. -/
theorem distinct_of_resolve {lint : Lint} {program : List Stmt} {r : Resolution}
    (h : resolve lint program = .ok r) (hf : FormedStatements false program) :
    ∀ node ∈ nodesOfProgram program, node.context.Distinct := by
  have hfound := walkStatements_surveys .top ⟨[], #[]⟩ [] false program .nil
    (clean_of_resolve h).1 hf (by simp [Lexical.ExpectsAll])
  exact (hfound.distinct (by simp [Walk.Distinct, Walk.labels])).2

theorem getElem?_note_of_notMem {entries : List (Nat × Address)} {id : Nat}
    (h : ∀ a, (id, a) ∉ entries) (t : Std.TreeMap Nat Address) :
    (entries.foldl (fun t (id, a) => t.insert id a) t)[id]? = t[id]? := by
  induction entries generalizing t with
  | nil => rfl
  | cons entry entries ih =>
    obtain ⟨id', a⟩ := entry
    have hne : id' ≠ id := by
      rintro rfl
      exact h a (by simp)
    rw [List.foldl_cons, ih fun a ha => h a (by simp [ha])]
    rw [Std.TreeMap.getElem?_insert]
    simp [hne]

theorem getElem?_note_of_mem {entries : List (Nat × Address)} {id : Nat} {a : Address}
    (hnodup : (entries.map Prod.fst).Nodup) (h : (id, a) ∈ entries)
    (t : Std.TreeMap Nat Address) :
    (entries.foldl (fun t (id, a) => t.insert id a) t)[id]? = some a := by
  induction entries generalizing t with
  | nil => simp at h
  | cons entry entries ih =>
    rw [List.map_cons, List.nodup_cons] at hnodup
    rcases List.mem_cons.mp h with rfl | h
    · have hnot : ∀ a', (id, a') ∉ entries := fun a' ha' =>
        hnodup.1 (List.mem_map.mpr ⟨_, ha', rfl⟩)
      rw [List.foldl_cons, getElem?_note_of_notMem hnot]
      simp
    · rw [List.foldl_cons]
      exact ih hnodup.2 h _

theorem nodup_entries {nodes : List Node} (h : (nodes.map Node.id).Nodup) :
    ((nodes.filterMap Node.entry?).map Prod.fst).Nodup := by
  have hsub : ((nodes.filterMap Node.entry?).map Prod.fst).Sublist (nodes.map Node.id) := by
    clear h
    induction nodes with
    | nil => exact .slnil
    | cons node nodes ih =>
      cases ha : node.address? with
      | none =>
        rw [List.filterMap_cons_none (by simp [Node.entry?, ha])]
        exact .cons _ ih
      | some a =>
        rw [List.filterMap_cons_some (b := (node.id, a)) (by simp [Node.entry?, ha])]
        exact .cons_cons _ ih
  exact h.sublist hsub

namespace Machine

/-- The notes of nodes with identities of their own agree with their places, and do not touch the
notes of other nodes. -/
theorem addresses_note (m : Machine) {nodes : List Node} (hnodup : (nodes.map Node.id).Nodup) :
    (∀ id, id ∉ nodes.map Node.id →
      (m.noteAddresses (nodes.filterMap Node.entry?)).addresses[id]? = m.addresses[id]?) ∧
    ∀ node ∈ nodes, m.addresses[node.id]? = none →
      (m.noteAddresses (nodes.filterMap Node.entry?)).addresses[node.id]? = node.address? := by
  have hentry : ∀ {id a}, (id, a) ∈ nodes.filterMap Node.entry? →
      ∃ node ∈ nodes, node.id = id ∧ node.address? = some a := by
    intro id a hmem
    obtain ⟨node, hnode, he⟩ := List.mem_filterMap.mp hmem
    obtain ⟨a', ha', heq⟩ := Option.map_eq_some_iff.mp he
    obtain ⟨rfl, rfl⟩ := Prod.mk.inj heq
    exact ⟨node, hnode, rfl, ha'⟩
  refine ⟨fun id hid => ?_, fun node hnode hnone => ?_⟩
  · refine getElem?_note_of_notMem (fun a ha => ?_) _
    obtain ⟨node, hnode, rfl, -⟩ := hentry ha
    exact hid (List.mem_map.mpr ⟨node, hnode, rfl⟩)
  · cases ha : node.address? with
    | none =>
      refine (getElem?_note_of_notMem (fun a hmem => ?_) _).trans hnone
      obtain ⟨other, hother, hid, ha'⟩ := hentry hmem
      obtain rfl := List.inj_on_of_nodup_map hnodup hother hnode hid
      simp [ha] at ha'
    | some a =>
      refine getElem?_note_of_mem (nodup_entries hnodup) (List.mem_filterMap.mpr ?_) _
      exact ⟨node, hnode, by simp [Node.entry?, ha]⟩

end Machine

end Lox
