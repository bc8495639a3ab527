import Lox.Proofs.Machine.Super
import Lox.Proofs.Session.Runs

namespace Lox

/-- At the moment `D` a class with these methods is declared, and `c` is what its superclass
expression has come to just before. -/
structure Moment.Subclasses (P : History) (D : Moment) (c : Class) (ms : List Method) : Prop where
  happened : P.moment D
  evaluated : ∃ E n name e, P.moment E ∧ E.allowance = n + 1 ∧
    E.task = .execute (.class name (some e) ms) ∧
    Machine.evaluate n e E.machine = .ok (.class c) D.machine ∧
    D.task = .declareClass name (some c) ms

/-- A `super` stands in a method of a subclass, with any number of scopes in between. It comes to
the nearest method from the superclass on that the class was declared with, bound to what `this` is
there; if there is none, that is its error. -/
def History.SupersLexical (P : History) : Prop :=
  ∀ M n id keyword method, P.moment M → M.allowance = n + 1 →
    M.task = .evaluate (.super id keyword method) →
    ∃ inner f ms outer,
      let L := inner ++ (Site.this f).enter 1 ((Site.super ms).enter 1 outer)
      P.node ⟨.super, id, keyword, L⟩ ∧ (∀ p ∈ inner, ¬p.site.Implicit) ∧
        f ∈ ms.map Method.function ∧ L.lookup "this" = some ⟨inner.length, 0⟩ ∧
        ∃ D c i d, D.Subclasses P c ms ∧ M.machine.Serves P inner.length f D (.instance i d) ∧
          Machine.evaluate M.allowance (.super id keyword method) M.machine =
            M.machine.boundNearest c (.instance i d) method

/-- A subclass is declared by a statement that has evaluated its superclass. -/
theorem subclasses_of_declareClass (lint : Lint) (clock : Clock) {requests : List Request}
    (hrequests : ∀ request ∈ requests, request.Honest) {D : Moment} {name : Token} {c : Class}
    {ms : List Method} (hD : ((Session.new lint clock).history .empty requests).moment D)
    (htask : D.task = .declareClass name (some c) ms) :
    D.Subclasses ((Session.new lint clock).history .empty requests) c ms := by
  obtain ⟨P, R, hwithin, hruns, hreaches⟩ := Session.exists_runs lint clock hrequests hD
  obtain ⟨program, hR⟩ := hruns.task
  rcases Relation.ReflTransGen.cases_tail hreaches with rfl | ⟨E, hE, hcall⟩
  · cases htask.symm.trans hR
  · obtain ⟨n, e, hallowance, hclass, hvalue⟩ := Moment.declareClass_of_calls hcall htask
    exact ⟨hD, E, n, name, e, hwithin.moment E (hruns.meets E hE).1, hallowance, hclass, hvalue, htask⟩

/-- In every run of a session that starts afresh a `super` starts at the class that the superclass
expression came to when the class around it was declared, and binds the nearest method from there on
to the receiver of the activation; its only error is that there is no such method. -/
theorem history_supersLexical (lint : Lint) (clock : Clock) (requests : List Request)
    (hrequests : ∀ request ∈ requests, request.Honest) :
    ((Session.new lint clock).history .empty requests).SupersLexical := by
  intro M n id keyword method hM hallowance htask
  obtain ⟨P, R, hwithin, hruns, hreaches⟩ := Session.exists_runs lint clock hrequests hM
  have haccess : R.Reaches ⟨n + 1, .access .super id keyword, M.machine⟩ := by
    refine hreaches.tail ?_
    obtain ⟨allowance, task, m⟩ := M
    obtain rfl : allowance = n + 1 := hallowance
    obtain rfl : task = .evaluate (.super id keyword method) := htask
    exact List.mem_append_left _ (List.mem_singleton_self _)
  obtain ⟨W, L, hsound, hL, -, hknown, -⟩ := (hruns.meets _ haccess).2
  have hnode := hknown.accepted _ (List.mem_singleton_self _)
  have hregular := hruns.placed _ hnode
  obtain ⟨inner, f, ms, outer, hcontext, hmem, hplain, hbinds⟩ := Node.binds_super hregular rfl
  obtain rfl : L = inner ++ (Site.this f).enter 1 ((Site.super ms).enter 1 outer) := hcontext
  have haddress := (hsound.table _ hnode).trans (Lexical.lookup_eq_some_iff.mpr hbinds)
  obtain ⟨D, name, c, i, d, hD, hdeclare, hserves, hsuper⟩ := hL.super hsound
  refine ⟨inner, f, ms, outer, hwithin.node _ hnode, hplain, hmem,
    Lexical.lookup_eq_some_iff.mpr (hregular.proper.binds_this hplain), D, c, i, d, ?_,
    hserves.within hwithin, ?_⟩
  · exact subclasses_of_declareClass lint clock hrequests (hwithin.moment D hD) hdeclare
  · rw [hallowance]
    exact hsuper id keyword method haddress

/-- A `super` in a closure that outlives its activation, for a receiver of a further subclass, after
the name of the superclass has been assigned and declared anew. -/
theorem history_supersLexical_reassigned :
    let requests : List Request :=
      [.run 90 "var first = \"A\"; class A { m() { return first; } }
          class B < A { m() { return fun () { return super.m; }; } }
          class C < B { m() { return super.m(); } }
          var f = C().m();",
        .run 90 "A = C; class A {} print f()();"]
    (∀ request ∈ requests, request.Honest) ∧
      ((Session.new .warn (.ticking 0 1)).history .empty requests).SupersLexical ∧
      ((Session.new .warn (.ticking 0 1)).serve requests).machine.output = "A\n" := by
  intro requests
  have hrequests : ∀ request ∈ requests, request.Honest := by
    simp only [requests, List.mem_cons, List.not_mem_nil, or_false]
    rintro request (rfl | rfl) <;> exact trivial
  exact ⟨hrequests, history_supersLexical .warn (.ticking 0 1) requests hrequests, by decide +kernel⟩

end Lox
