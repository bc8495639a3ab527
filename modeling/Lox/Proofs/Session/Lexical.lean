import Lox.Proofs.Scope.Lint
import Lox.Proofs.Session.Accepted

namespace Lox

/-- A record is written for exactly the nodes whose name has been declared before in a scope around
them, and holds the innermost of these scopes with the place of the name in it. -/
theorem bindings_lexical {source : String} {firstId : Nat} {program : List Stmt} {lint : Lint}
    {r : Resolution} (hread : (readProgram source firstId).result = .ok program)
    (hresolve : resolve lint program = .ok r) :
    (nodesOfProgram program).map Node.id = idsOfStatements program ∧
      (∀ node ∈ nodesOfProgram program, node.Bound r.addresses) ∧
      ∀ x ∈ r.addresses, ∃ node ∈ nodesOfProgram program, node.id = x.1 := by
  have hformed := formed_of_readProgram hread
  have hnodup := (fresh_of_readProgram hread).nodup
  have haddresses := (addresses_of_resolve hresolve hformed).1
  have hregular := regular_of_resolve hresolve hformed
  have hdistinct := distinct_of_resolve hresolve hformed
  refine ⟨map_id_nodesOfStatements [] program, fun node hnode => ?_, fun x hx => ?_⟩
  · rw [haddresses]
    exact Node.bound_of_regular hnodup hnode (hregular node hnode) (hdistinct node hnode)
  · rw [haddresses] at hx
    obtain ⟨node, hnode, he⟩ := List.mem_filterMap.mp hx
    obtain ⟨a, -, rfl⟩ := Option.map_eq_some_iff.mp he
    exact ⟨node, hnode, rfl⟩

/-- A closure that does not see the local declared behind it, and a `super` in a closure. -/
theorem bindings_lexical_shadow :
    let source := "var a; { fun f() { return a; } var a = fun () { return a; }; }
      class B < B0 { m(x) { return fun () { return super.m(x) + this.y; }; } }"
    ∃ program r, (readProgram source 0).result = .ok program ∧ resolve .warn program = .ok r ∧
      (∀ node ∈ nodesOfProgram program, node.Bound r.addresses) ∧ r.addresses.length = 4 := by
  intro source
  have hchecked : ((readProgram source 0).result.bind fun program =>
      (resolve .warn program).map fun r => r.addresses.length).toOption = some 4 := by
    decide +kernel
  cases hread : (readProgram source 0).result with
  | error ds =>
    rw [hread] at hchecked
    cases hchecked
  | ok program =>
    cases hresolve : resolve .warn program with
    | error ds =>
      rw [hread] at hchecked
      simp [Except.bind, hresolve, Except.map, Except.toOption] at hchecked
    | ok r =>
      rw [hread] at hchecked
      have hlength : r.addresses.length = 4 := by
        simpa [Except.bind, hresolve, Except.map, Except.toOption] using hchecked
      exact ⟨program, r, rfl, hresolve, (bindings_lexical hread hresolve).2.1, hlength⟩

/-- One report is made for each declaration in a scope that no node of the program reads, and the
report is all that depends on how unread locals are taken. -/
theorem unread_exact {source : String} {firstId : Nat} {program : List Stmt}
    (hread : (readProgram source firstId).result = .ok program) :
    (∀ r, resolve .allow program = .ok r →
      let reports := (unreadDeclarations program).map Declaration.report
      r = ⟨r.addresses, []⟩ ∧ resolve .warn program = .ok ⟨r.addresses, reports⟩ ∧
        (reports = [] → resolve .deny program = .ok ⟨r.addresses, []⟩) ∧
        (reports ≠ [] → resolve .deny program = .error reports)) ∧
      ∀ ds, resolve .allow program = .error ds →
        ∀ lint, ∃ ds', resolve lint program = .error ds' :=
  ⟨fun _ hresolve => resolve_of_allow hresolve (formed_of_readProgram hread),
    fun _ herror => resolve_error herror⟩

/-- A parameter that is only read in a closure, and a local, a function and a class that are not
read. -/
theorem unread_exact_closure :
    let source := "fun f(a) { var b = 1; { class C {} b = 2; } fun g() { return a; } }"
    let reports : List Diagnostic := ["C", "b", "g"].map fun name => ⟨1, .scope (.unused name)⟩
    ∃ program r, (readProgram source 0).result = .ok program ∧ resolve .allow program = .ok r ∧
      (unreadDeclarations program).map Declaration.report = reports ∧
      resolve .deny program = .error reports := by
  intro source reports
  have hchecked : ((readProgram source 0).result.bind fun program =>
      (resolve .warn program).map Resolution.warnings).toOption = some reports := by
    decide +kernel
  cases hread : (readProgram source 0).result with
  | error ds =>
    rw [hread] at hchecked
    cases hchecked
  | ok program =>
    obtain ⟨hok, herror⟩ := unread_exact hread
    rw [hread] at hchecked
    cases hresolve : resolve .allow program with
    | error ds =>
      obtain ⟨ds', hwarn⟩ := herror ds hresolve .warn
      simp [Except.bind, hwarn, Except.map, Except.toOption] at hchecked
    | ok r =>
      obtain ⟨-, hwarn, -, hdeny⟩ := hok r hresolve
      have hreports : (unreadDeclarations program).map Declaration.report = reports := by
        simpa [Except.bind, hwarn, Except.map, Except.toOption] using hchecked
      rw [hreports] at hdeny
      exact ⟨program, r, rfl, hresolve, hreports, hdeny (by simp [reports])⟩

end Lox
