import Lox.Proofs.Session.Runs

namespace Lox

namespace History

/-- Every access is by a node of an accepted program, whose note is the address of its place. With
an address it finds the cell of its name, unless that name waits for its initializer. -/
def Addressed (P : History) : Prop :=
  ∀ M role id name, P.moment M → M.task = .access role id name →
    (∃ L, P.node ⟨role, id, name, L⟩ ∧ M.machine.addresses[id]? = L.lookup name.lexeme) ∧
      ∀ a, M.machine.addresses[id]? = some a → Found P M.machine role id name a

end History

/-- In every run of a session that starts afresh an address leads from the frame at hand to the
frame that was made for the scope that holds the name, and there to the cell of that name. The cell
is missing only for a variable that is named from a function in its own initializer, while that has
not been completed; then, and only then, the access fails. -/
theorem history_addressed (lint : Lint) (clock : Clock) (requests : List Request)
    (hrequests : ∀ request ∈ requests, request.Honest) :
    ((Session.new lint clock).history .empty requests).Addressed := by
  intro M role id name hM htask
  obtain ⟨P, R, hwithin, hruns, hreaches⟩ := Session.exists_runs lint clock hrequests hM
  have hlocated := (hruns.meets M hreaches).2
  rw [Moment.Meets, htask] at hlocated
  refine ⟨?_, fun a h => (found_of_located hruns.ready hlocated h).within hwithin⟩
  obtain ⟨W, L, hsound, -, -, hknown, -⟩ := hlocated
  have hnode := hknown.accepted _ (List.mem_singleton_self _)
  exact ⟨L, hwithin.node _ hnode, hsound.table _ hnode⟩

/-- A method that calls its superclass, a function that is called before its variable is there and
escapes from the failing run, and a host function that hands a function back. -/
theorem history_addressed_escape :
    let requests : List Request :=
      [.defineNative "last" 1 fun _ vs => .ok (vs.getLast?.getD .nil),
        .run 90 "class A { init() { this.x = nil; } m() { return this; } }
          class B < A { m() { return super.m().x; } }
          var f; { var b = fun (g) { f = last(g); return f(); } (fun () { return b; }); }",
        .setEchoes true, .run 90 "f() == B().m();"]
    (∀ request ∈ requests, request.Honest) ∧
      ((Session.new .warn (.ticking 0 1)).history .empty requests).Addressed := by
  intro requests
  have hlast : NativeBody.Honest fun _ vs => .ok (vs.getLast?.getD .nil) := by
    intro turn vs v hv
    obtain rfl := Except.ok.inj hv
    cases h : vs.getLast? with
    | none => exact .inr fun _ _ _ => trivial
    | some u => exact .inl (List.mem_of_getLast? h)
  have hrequests : ∀ request ∈ requests, request.Honest := by
    simp only [requests, List.mem_cons, List.not_mem_nil, or_false]
    rintro request (rfl | rfl | rfl | rfl)
    · exact hlast
    · exact trivial
    · exact trivial
    · exact trivial
  exact ⟨hrequests, history_addressed .warn (.ticking 0 1) requests hrequests⟩

end Lox
