import Lox.Proofs.Grammar.Minting
import Lox.Proofs.Scope.Succession
import Lox.Proofs.Tree.Same

namespace Lox

namespace Resolver

/-- What is recorded on the way are addresses of nodes among these, in their order. -/
def Records (r r' : Resolver) (ids : List Nat) : Prop :=
  ∃ l, r'.addresses.toList = r.addresses.toList ++ l ∧ (l.map Prod.fst).Sublist ids

variable {r r' r'' : Resolver} {ids ids' : List Nat}

theorem records_nothing (h : r'.addresses = r.addresses) : Records r r' ids :=
  ⟨[], by rw [h, List.append_nil], List.nil_sublist _⟩

theorem Records.trans (h : Records r r' ids) (h' : Records r' r'' ids') :
    Records r r'' (ids ++ ids') := by
  obtain ⟨l, hl, hsub⟩ := h
  obtain ⟨l', hl', hsub'⟩ := h'
  refine ⟨l ++ l', by rw [hl', hl, List.append_assoc], ?_⟩
  rw [List.map_append]
  exact hsub.append hsub'

/-- Steps that record nothing may come first. -/
theorem Records.behind (h : Records r' r'' ids) (he : r'.addresses = r.addresses) :
    Records r r'' ids := by
  obtain ⟨l, hl, hsub⟩ := h
  exact ⟨l, he ▸ hl, hsub⟩

/-- Steps that record nothing may follow. -/
theorem Records.then (h : Records r r' ids) (he : r''.addresses = r'.addresses) :
    Records r r'' ids := by
  obtain ⟨l, hl, hsub⟩ := h
  exact ⟨l, he ▸ hl, hsub⟩

theorem records_refer (r : Resolver) (id : Nat) (name : Token) (uses : Bool) :
    Records r (r.refer id name uses) [id] := by
  unfold refer
  split
  · exact records_nothing rfl
  next a _ => exact ⟨[(id, a)], by simp [record], by simp⟩

theorem addresses_leave (r : Resolver) : r.leave.addresses = r.addresses := by
  have hunread : ∀ (ds : List Diagnostic) (r : Resolver),
      (ds.foldl unread r).addresses = r.addresses := by
    intro ds
    induction ds with
    | nil => exact fun _ => rfl
    | cons d ds ih =>
      intro r
      rw [List.foldl_cons, ih]
      unfold unread
      split <;> rfl
  unfold leave
  split
  · rfl
  · dsimp only
    split
    · rfl
    · exact hunread _ _

theorem addresses_declare (r : Resolver) (name : Token) :
    (r.declare name).addresses = r.addresses := by
  unfold declare
  split
  · rfl
  · split <;> rfl

theorem addresses_define (r : Resolver) (name : Token) :
    (r.define name).addresses = r.addresses := by
  unfold define
  split <;> rfl

theorem addresses_introduce (r : Resolver) (name : Token) :
    (r.introduce name).addresses = r.addresses :=
  (addresses_define _ name).trans (addresses_declare r name)

theorem addresses_introduceAll (names : List Token) (r : Resolver) :
    (names.foldl introduce r).addresses = r.addresses := by
  induction names generalizing r with
  | nil => rfl
  | cons name names ih => exact (ih _).trans (addresses_introduce r name)

theorem addresses_leaveFunction (r : Resolver) (keyword : Token) :
    (r.leaveFunction keyword).addresses = r.addresses := by
  unfold leaveFunction
  split <;> rfl

theorem addresses_returnValue (r : Resolver) (keyword : Token) :
    (r.returnValue keyword).addresses = r.addresses := by
  unfold returnValue
  split <;> rfl

theorem addresses_checkSuperclass (r : Resolver) (name : Token) (superclass : Expr) :
    (r.checkSuperclass name superclass).addresses = r.addresses := by
  unfold checkSuperclass
  split <;> rfl

theorem records_readVariable (r : Resolver) (id : Nat) (name : Token) :
    Records r (r.readVariable id name) [id] :=
  (records_refer _ _ _ _).behind (by split <;> rfl)

theorem records_assignVariable (r : Resolver) (id : Nat) (name : Token) :
    Records r (r.assignVariable id name) [id] :=
  (records_refer _ _ _ _).behind (by split <;> rfl)

theorem records_readThis (r : Resolver) (id : Nat) (keyword : Token) :
    Records r (r.readThis id keyword) [id] := by
  unfold readThis
  split
  · exact records_nothing rfl
  · exact records_refer _ _ _ _

theorem records_readSuper (r : Resolver) (id : Nat) (keyword : Token) :
    Records r (r.readSuper id keyword) [id] := by
  unfold readSuper
  split
  · exact records_nothing rfl
  · exact records_nothing rfl
  · exact records_refer _ _ _ _

end Resolver

open Resolver in
mutual

theorem Expr.resolve_records (r : Resolver) : (e : Expr) → Records r (e.resolve r) e.ids
  | .literal _ => records_nothing rfl
  | .grouping e | .unary _ e | .get e _ => e.resolve_records r
  | .binary e₁ _ e₂ | .logical e₁ _ e₂ => (e₁.resolve_records r).trans (e₂.resolve_records _)
  | .variable id name => records_readVariable r id name
  | .assign id name e => (e.resolve_records r).trans (records_assignVariable _ id name)
  | .call e _ es => (e.resolve_records r).trans (resolveArguments_records _ es)
  | .set e₁ _ e₂ => (e₂.resolve_records r).trans (e₁.resolve_records _)
  | .this id keyword => records_readThis r id keyword
  | .super id keyword _ => records_readSuper r id keyword
  | .function f => f.resolve_records r _

theorem resolveArguments_records (r : Resolver) :
    (es : List Expr) → Records r (resolveArguments r es) (idsOfAll es)
  | [] => records_nothing rfl
  | e :: es => (e.resolve_records r).trans (resolveArguments_records _ es)

theorem Function.resolve_records (r : Resolver) (kind : FunctionContext) :
    (f : Function) → Records r (f.resolve kind r) f.ids
  | ⟨params, body⟩ =>
    have hbody := resolveStatements_records
      (params.foldl introduce ({ r with inFunction := kind }.enter [])) body
    (hbody.behind (addresses_introduceAll params _)).then (addresses_leave _)

theorem Stmt.resolve_records (r : Resolver) : (s : Stmt) → Records r (s.resolve r) s.ids
  | .expression e | .print e => e.resolve_records r
  | .var name none => records_nothing (addresses_introduce r name)
  | .var name (some e) =>
    ((e.resolve_records _).behind (addresses_declare r name)).then (addresses_define _ name)
  | .block ss => (resolveStatements_records (r.enter []) ss).then (addresses_leave _)
  | .ifElse e s none | .while e s => (e.resolve_records r).trans (s.resolve_records _)
  | .ifElse e s (some s') =>
    (e.resolve_records r).trans ((s.resolve_records _).trans (s'.resolve_records _))
  | .break _ => records_nothing rfl
  | .return keyword none => records_nothing (addresses_leaveFunction r keyword)
  | .return keyword (some e) => (e.resolve_records _).behind
    ((addresses_returnValue _ keyword).trans (addresses_leaveFunction r keyword))
  | .function ⟨name, f⟩ => (f.resolve_records _ _).behind (addresses_introduce r name)
  | .class name none ms =>
    let inside : Resolver := { r with inClass := .base }.introduce name
    have hmethods : Records inside _ _ :=
      resolveMethods_records (inside.enter (Scope.implicit "this" name.line)) ms
    (hmethods.then (addresses_leave _)).behind (addresses_introduce _ name)
  | .class name (some e) ms =>
    let inside : Resolver := ({ r with inClass := .base }.introduce name).checkSuperclass name e
    let outside : Resolver := e.resolve { inside with inClass := .subclass }
    have hsuperclass : Records r outside e.ids := (e.resolve_records _).behind
      ((addresses_checkSuperclass _ name e).trans (addresses_introduce _ name))
    have hmethods : Records outside _ _ := resolveMethods_records
      ((outside.enter (Scope.implicit "super" name.line)).enter
        (Scope.implicit "this" name.line)) ms
    (hsuperclass.trans hmethods).then ((addresses_leave _).trans (addresses_leave _))

theorem resolveStatements_records (r : Resolver) :
    (ss : List Stmt) → Records r (resolveStatements r ss) (idsOfStatements ss)
  | [] => records_nothing rfl
  | s :: ss => (s.resolve_records r).trans (resolveStatements_records _ ss)

theorem resolveMethods_records (r : Resolver) :
    (ms : List Method) → Records r (resolveMethods r ms) (idsOfMethods ms)
  | [] => records_nothing rfl
  | ⟨_, f⟩ :: ms => (f.resolve_records r _).trans (resolveMethods_records _ ms)

end

/-- Nothing of a program is left behind in the registers, whatever came of it. -/
theorem Resolver.resolve_new_snd (lint : Lint) (program : List Stmt) :
    ((Resolver.new lint).resolve program).2 = Resolver.new lint := by
  rw [Resolver.resolve_new, scopes_walk_top]
  rfl

theorem Resolver.resolveAll_new (lint : Lint) (programs : List (List Stmt)) :
    (Resolver.new lint).resolveAll programs =
      programs.map fun program => ((Resolver.new lint).resolve program).1 := by
  induction programs with
  | nil => rfl
  | cons program programs ih =>
    rw [Resolver.resolveAll, Resolver.resolve_new_snd, ih, List.map_cons]

theorem Finding.Twin.eq {f f' : Finding} (h : f.Twin .same f') : f = f' := by
  cases h with
  | address a hi =>
    obtain rfl : _ = _ := hi
    rfl
  | misuse hd | unread hd => rw [hd.eq]

/-- What is found in the second program is found behind what is found in the first. -/
theorem findings_walk_append (p q : List Stmt) :
    (walkStatements .top ⟨[], #[]⟩ (p ++ q)).findings.toList =
      (walkStatements .top ⟨[], #[]⟩ p).findings.toList ++
        (walkStatements .top ⟨[], #[]⟩ q).findings.toList := by
  have hnext : Walk.Twin .same [] (walkStatements .top ⟨[], #[]⟩ p).findings.toList ⟨[], #[]⟩
      (walkStatements .top ⟨[], #[]⟩ p) :=
    ⟨(scopes_walk_top p).symm ▸ .nil, [], [], rfl, (List.append_nil _).symm, .nil⟩
  obtain ⟨fs, gs, hfs, hgs, htwin⟩ := ((twinStatements_self q).walk .top hnext).findings
  obtain rfl : fs = gs := by
    rw [← List.forall₂_eq_eq_eq]
    exact htwin.imp fun _ _ hf => hf.eq
  rw [walkStatements_append, hgs, hfs, List.nil_append]

/-- The errors that a program is rejected with. -/
def rejections : Except (List Diagnostic) Resolution → List Diagnostic
  | .ok _ => []
  | .error ds => ds

theorem rejections_verdict (lint : Lint) (fs : List Finding) :
    rejections (verdict lint fs) = fs.filterMap (Finding.error? lint) := by
  unfold verdict
  split
  next h => exact h.symm
  next => rfl

theorem errors_ne_nil {lint : Lint} {fs : List Finding} {ds : List Diagnostic}
    (h : verdict lint fs = .error ds) : fs.filterMap (Finding.error? lint) ≠ [] := by
  intro hnil
  rw [verdict, hnil] at h
  cases h

/-- If one of two verdicts is unfavourable, so is that on both, with the errors of both. -/
theorem verdict_append_error {lint : Lint} {fs fs' : List Finding}
    (h : (∃ ds, verdict lint fs = .error ds) ∨ ∃ ds, verdict lint fs' = .error ds) :
    verdict lint (fs ++ fs') =
      .error (rejections (verdict lint fs) ++ rejections (verdict lint fs')) := by
  rw [rejections_verdict, rejections_verdict, ← List.filterMap_append]
  have hne : (fs ++ fs').filterMap (Finding.error? lint) ≠ [] := by
    rw [List.filterMap_append]
    rcases h with ⟨ds, hds⟩ | ⟨ds, hds⟩
    · exact List.append_ne_nil_of_left_ne_nil (errors_ne_nil hds) _
    · exact List.append_ne_nil_of_right_ne_nil _ (errors_ne_nil hds)
  unfold verdict
  split
  next hnil => exact absurd hnil hne
  next => rfl

/-- The addresses of an accepted program are those of its own nodes, each at most once. -/
theorem addresses_sublist_ids {lint : Lint} {program : List Stmt} {r : Resolution}
    (h : resolve lint program = .ok r) :
    (r.addresses.map Prod.fst).Sublist (program.flatMap Stmt.ids) := by
  obtain ⟨l, hl, hsub⟩ := resolveStatements_records (Resolver.new lint) program
  have haddresses : r.addresses = l := by
    simp only [resolve, Resolver.resolve, Resolver.drain] at h
    split at h
    · obtain rfl := Except.ok.inj h
      exact hl
    · cases h
  rw [haddresses, ← Grammar.idsOfStatements_eq_flatMap]
  exact hsub

open Grammar in
/-- A resolver carries nothing over from one program to the next, whatever came of them. Programs
that have been read apart get after each other the tables and the warnings of both, or else the
errors of both. -/
theorem resolver_reused (lint : Lint) :
    (∀ programs, (Resolver.new lint).resolveAll programs =
        programs.map fun program => ((Resolver.new lint).resolve program).1) ∧
      ∀ (ts ts' : List Token) (firstId firstId' : Nat) (p q : List Stmt),
        (read program ts firstId).result = .ok p → (read program ts' firstId').result = .ok q →
        ((read program ts firstId).nextId ≤ firstId' ∨
          (read program ts' firstId').nextId ≤ firstId) →
        (∀ r r', resolve lint p = .ok r → resolve lint q = .ok r' →
          resolve lint (p ++ q) =
              .ok ⟨r.addresses ++ r'.addresses, r.warnings ++ r'.warnings⟩ ∧
            ((r.addresses ++ r'.addresses).map Prod.fst).Nodup) ∧
        ((∃ ds, resolve lint p = .error ds) ∨ (∃ ds, resolve lint q = .error ds) →
          resolve lint (p ++ q) =
            .error (rejections (resolve lint p) ++ rejections (resolve lint q))) := by
  refine ⟨Resolver.resolveAll_new lint, fun ts ts' firstId firstId' p q hp hq hapart => ⟨?_, ?_⟩⟩
  · intro r r' hr hr'
    have hfresh := ((read_program_spec ts firstId).tree p hp).2
    have hfresh' := ((read_program_spec ts' firstId').tree q hq).2
    refine ⟨?_, ?_⟩
    · rw [resolve_eq_verdict] at hr hr' ⊢
      rw [findings_walk_append, verdict_append hr hr']
    · rw [List.map_append, List.nodup_append]
      refine ⟨hfresh.nodup.sublist (addresses_sublist_ids hr),
        hfresh'.nodup.sublist (addresses_sublist_ids hr'), fun i hi j hj => ?_⟩
      have hi : firstId ≤ i ∧ i < (read program ts firstId).nextId :=
        hfresh.range i ((addresses_sublist_ids hr).subset hi)
      have hj : firstId' ≤ j ∧ j < (read program ts' firstId').nextId :=
        hfresh'.range j ((addresses_sublist_ids hr').subset hj)
      omega
  · intro h
    rw [resolve_eq_verdict, resolve_eq_verdict] at h
    rw [resolve_eq_verdict, resolve_eq_verdict, resolve_eq_verdict, findings_walk_append,
      verdict_append_error h]

open Grammar in
theorem resolver_reused_mixed :
    let ts := tokens (scan "fun f(x) { return fun () { return x; }; } { var unused; }")
    let ts' := tokens (scan "return this; class A < A { m() { var b = b; } }")
    let next := (read program ts 0).nextId
    ∃ p q, (read program ts 0).result = .ok p ∧ (read program ts' next).result = .ok q ∧
      (resolve .warn p).isOk ∧ (rejections (resolve .warn q)).length = 4 ∧
      resolve .warn (p ++ q) = .error (rejections (resolve .warn q)) := by
  intro ts ts' next
  have hchecked : ((read program ts 0).result.bind fun p => (read program ts' next).result.map
      fun q => ((resolve .warn p).isOk, (rejections (resolve .warn q)).length)).toOption =
        some (true, 4) := by decide +kernel
  cases hp : (read program ts 0).result with
  | error ds =>
    rw [hp] at hchecked
    cases hchecked
  | ok p =>
    cases hq : (read program ts' next).result with
    | error ds =>
      rw [hp, hq] at hchecked
      cases hchecked
    | ok q =>
      rw [hp, hq] at hchecked
      obtain ⟨hok, hlength⟩ := Prod.mk.inj (Option.some.inj hchecked)
      refine ⟨p, q, rfl, rfl, hok, hlength, ?_⟩
      have hnone : rejections (resolve .warn p) = [] := by
        cases h : resolve .warn p with
        | ok r => rfl
        | error ds =>
          rw [h] at hok
          cases hok
      obtain ⟨ds, hds⟩ : ∃ ds, resolve .warn q = .error ds := by
        cases h : resolve .warn q with
        | ok r =>
          rw [h] at hlength
          cases hlength
        | error ds => exact ⟨ds, rfl⟩
      have herror := ((resolver_reused .warn).2 ts ts' 0 next p q hp hq
        (.inl (Nat.le_refl _))).2 (.inr ⟨ds, hds⟩)
      rwa [hnone, List.nil_append] at herror

end Lox
