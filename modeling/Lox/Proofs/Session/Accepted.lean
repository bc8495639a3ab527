import Lox.Proofs.Machine.Flow
import Lox.Proofs.Scope.Regular
import Lox.Proofs.Scope.Table
import Lox.Proofs.Session.Requests
import Lox.Proofs.Tree.Formed

namespace Lox

open Grammar

/-- A whole source has the faults of its characters, and then those of its grammar. -/
theorem readProgram_result (source : String) (firstId : Nat) :
    (readProgram source firstId).result =
      match faults (scan source), (read program (tokens (scan source)) firstId).result with
      | [], result => result
      | ds, .ok _ => .error ds
      | ds, .error more => .error (ds ++ more) := by
  unfold readProgram readSource
  dsimp only
  cases faults (scan source) with
  | nil => rfl
  | cons d ds => cases (read program (tokens (scan source)) firstId).result <;> rfl

theorem readProgram_nextId (source : String) (firstId : Nat) :
    (readProgram source firstId).nextId =
      (read program (tokens (scan source)) firstId).nextId := by
  simp only [readProgram, readSource]
  split <;> rfl

theorem readProgram_eq_ok {source : String} {firstId : Nat} {p : List Stmt}
    (h : (readProgram source firstId).result = .ok p) :
    faults (scan source) = [] ∧
      (read program (tokens (scan source)) firstId).result = .ok p := by
  rw [readProgram_result] at h
  split at h
  next hfaults => exact ⟨hfaults, h⟩
  next => simp at h
  next => simp at h

/-- No reading takes identities back, not even one that fails. -/
theorem le_nextId (source : String) (firstId : Nat) :
    firstId ≤ (readProgram source firstId).nextId := by
  rw [readProgram_nextId]
  exact (read_program_spec _ firstId).nextId

theorem derives_of_readProgram {source : String} {firstId : Nat} {p : List Stmt}
    (h : (readProgram source firstId).result = .ok p) :
    Derives true false .declarations (untilEnd (tokens (scan source))) p :=
  ((read_program_spec _ firstId).tree p (readProgram_eq_ok h).2).1

theorem written_of_mem_untilEnd {source : String} {t : Token}
    (h : t ∈ untilEnd (tokens (scan source))) : t.Written := by
  have hend : t.kind ≠ .eof := by simpa using List.mem_takeWhile_imp h
  exact (written_of_mem_tokens ((List.takeWhile_prefix _).mem h)).resolve_left hend

theorem formed_of_readProgram {source : String} {firstId : Nat} {p : List Stmt}
    (h : (readProgram source firstId).result = .ok p) : FormedStatements false p :=
  (derives_of_readProgram h).formed fun _ => written_of_mem_untilEnd

theorem fresh_of_readProgram {source : String} {firstId : Nat} {p : List Stmt}
    (h : (readProgram source firstId).result = .ok p) :
    Fresh firstId (readProgram source firstId).nextId ((nodesOfProgram p).map Node.id) := by
  rw [nodesOfProgram, map_id_nodesOfStatements, idsOfStatements_eq_flatMap, readProgram_nextId]
  exact ((read_program_spec _ firstId).tree p (readProgram_eq_ok h).2).2

namespace Session

/-- The nodes of an accepted program have identities of their own, its addresses are those of their
places, and no variable is named in its own initializer without a function in between. A `this` is
in a method and a `super` in one of a subclass, and there is no `return` outside its functions. -/
structure Accepted (s : Session) (source : String) (program : List Stmt) (r : Resolution) :
    Prop where
  formed : FormedStatements false program
  fresh : Fresh s.nextId (readProgram source s.nextId).nextId ((nodesOfProgram program).map Node.id)
  addresses : r.addresses = (nodesOfProgram program).filterMap Node.entry?
  ready : ∀ node ∈ nodesOfProgram program, node.Ready
  regular : ∀ node ∈ nodesOfProgram program, node.Regular
  returnless : ReturnlessStatements program

/-- What is noted are nodes of the program. -/
theorem Accepted.range {s : Session} {source : String} {program : List Stmt} {r : Resolution}
    (h : s.Accepted source program r) :
    ∀ x ∈ r.addresses, s.nextId ≤ x.1 ∧ x.1 < (readProgram source s.nextId).nextId := by
  intro x hx
  rw [h.addresses] at hx
  obtain ⟨node, hnode, he⟩ := List.mem_filterMap.mp hx
  obtain ⟨a, -, rfl⟩ := Option.map_eq_some_iff.mp he
  exact h.fresh.range _ (List.mem_map_of_mem hnode)

theorem accepted_of_check {s : Session} {source : String} {program : List Stmt} {r : Resolution}
    (h : s.check source = .ok (program, r)) : s.Accepted source program r := by
  obtain ⟨hread, hresolve⟩ := check_eq_ok.mp h
  have hformed := formed_of_readProgram hread
  obtain ⟨haddresses, hready⟩ := addresses_of_resolve hresolve hformed
  exact ⟨hformed, fresh_of_readProgram hread, haddresses, hready,
    regular_of_resolve hresolve hformed, returnless_of_resolve hresolve⟩

end Session

end Lox
