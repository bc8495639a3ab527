import Lox.Proofs.Machine.Initializer
import Lox.Proofs.Session.Runs

namespace Lox

/-- The value is not an instance that is yet to be made. -/
def Value.Before (m : Machine) (v : Value) : Prop :=
  ∀ i c, v = .instance i c → i.index < m.instances.size

/-- What comes of calls of classes and of initializers. -/
structure History.Initializes (P : History) : Prop where
  /-- A class that is called gives an instance of itself. It comes behind all instances that were
  ever made, and is there when the call has ended. -/
  made : ∀ M c paren vs v m, P.moment M → M.task = .invoke (.class c) paren vs →
    Machine.invoke M.allowance (.class c) paren vs M.machine = .ok v m →
    v = .instance ⟨M.machine.instances.size⟩ c ∧ M.machine.instances.size < m.instances.size
  /-- No other instance is at hand, unless a host function has made one up. -/
  before : ∀ M callee paren vs, P.moment M → M.task = .invoke callee paren vs →
    (∀ body ∈ M.machine.natives, body.Plain) →
    M.machine.Stores (Value.Before M.machine) ∧ ∀ v ∈ vs, v.Before M.machine
  /-- The nearest initializer is called, with the arguments that it takes. -/
  runs : ∀ M n c paren vs, P.moment M → M.allowance = n + 1 →
    M.task = .invoke (.class c) paren vs → c.Constructs n M.machine paren vs
  /-- A method that is bound goes by the name that it was looked up under, and is an initializer if
  this is `init`. -/
  named : ∀ M B name f r, P.moment M → M.task.Looks name → B ∈ M.calls → B.task = .bind f r →
    f.name = some name ∧ (f.isInitializer = true ↔ name = initializerName)
  /-- An initializer that is called has been bound to an instance and gives it back. -/
  returns : ∀ M f paren vs, P.moment M → M.task = .call f paren vs → f.isInitializer = true →
    f.Returns P M.machine (Machine.call M.allowance f paren vs M.machine)

theorem Closure.Returns.within {P P' : History} {f : Closure} {m : Machine}
    {r : EStateM.Result Stop Machine Value} (h : f.Returns P m r) (hP : P.Within P') :
    f.Returns P' m r := by
  obtain ⟨B, enclosing, i, c, hB, hrest⟩ := h
  exact ⟨B, enclosing, i, c, hP.moment B hB, hrest⟩

theorem Value.Fits.before {P : History} {W : World} {m : Machine} {v : Value} (h : v.Fits P W m)
    (hplain : ∀ body ∈ m.natives, body.Plain) : v.Before m := by
  rintro i c rfl
  exact h.2 hplain

/-- In every run of a session that starts afresh a class that is called gives an instance of its own
that was not there before, and runs the nearest initializer on it. An initializer gives the instance
that it was bound to, however late it is called. -/
theorem history_initializes (lint : Lint) (clock : Clock) (requests : List Request)
    (hrequests : ∀ request ∈ requests, request.Honest) :
    ((Session.new lint clock).history .empty requests).Initializes := by
  have hmeets : ∀ M, ((Session.new lint clock).history .empty requests).moment M →
      ∃ P, P.Within ((Session.new lint clock).history .empty requests) ∧
        ∀ M', M.Reaches M' → M'.Meets P := by
    intro M hM
    obtain ⟨P, R, hwithin, hruns, hreaches⟩ := Session.exists_runs lint clock hrequests hM
    exact ⟨P, hwithin, fun M' hM' => (hruns.meets M' (hreaches.trans hM')).2⟩
  constructor
  case made =>
    intro M c paren vs v m hM htask hok
    obtain ⟨P, -, hmeets⟩ := hmeets M hM
    have hmoment := hmeets M .refl
    rw [Moment.Meets, htask] at hmoment
    exact hmoment.2 v m hok c rfl
  case before =>
    intro M callee paren vs hM htask hplain
    obtain ⟨P, -, hmeets⟩ := hmeets M hM
    have hmoment := hmeets M .refl
    rw [Moment.Meets, htask] at hmoment
    obtain ⟨⟨W, hsound, -, hvs⟩, -⟩ := hmoment
    exact ⟨hsound.stored.imp fun _ hv => hv.before hplain, fun v hv => (hvs v hv).before hplain⟩
  case runs => exact fun M n c paren vs _ _ _ => constructs c n M.machine paren vs
  case named =>
    intro M B name f r hM hlooks hB htask
    obtain ⟨P, -, hmeets⟩ := hmeets M hM
    exact named_of_looks (hmeets M .refl) (fun M' hM' => hmeets M' (.single hM')) hlooks hB htask
  case returns =>
    intro M f paren vs hM htask hinit
    obtain ⟨P, hwithin, hmeets⟩ := hmeets M hM
    have hmoment := hmeets M .refl
    rw [Moment.Meets, htask] at hmoment
    exact (hmoment.2 hinit).within hwithin

/-- An inherited initializer that returns from a loop, one that calls it and makes other instances,
and one that is called again in a later run. -/
theorem history_initializes_late :
    let requests : List Request :=
      [.run 90 "class A { init() { while (true) { return; } } }
          class B < A {}
          class C < B { init(x) { super.init(); this.b = B(); if (x) return; this.x = x; } }
          var c = C(true); var init = c.init;",
        .run 90 "print init(false) == c; print C(true).b == B();"]
    (∀ request ∈ requests, request.Honest) ∧
      ((Session.new .deny (.ticking 0 1)).history .empty requests).Initializes ∧
      ((Session.new .deny (.ticking 0 1)).serve requests).machine.output = "true\nfalse\n" := by
  intro requests
  have hrequests : ∀ request ∈ requests, request.Honest := by
    simp only [requests, List.mem_cons, List.not_mem_nil, or_false]
    rintro request (rfl | rfl) <;> exact trivial
  exact ⟨hrequests, history_initializes .deny (.ticking 0 1) requests hrequests, by decide +kernel⟩

end Lox
