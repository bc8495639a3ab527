import Lox.Session

namespace Lox

inductive Request where
  | run (n : Nat) (source : String)
  | setEchoes (echoes : Bool)
  | defineNative (name : String) (arity : Nat) (body : NativeBody)
  | takeWarnings
  | takeOutput
  | global (name : String)

inductive Answer where
  | noted
  | outcome (o : Outcome)
  | warnings (ds : List Diagnostic)
  | output (text : String)
  | value (v : Option Value)

namespace Session

def answer (s : Session) : Request → Answer × Session
  | .run n source =>
    let (o, s) := s.run n source
    (.outcome o, s)
  | .setEchoes echoes => (.noted, s.setEchoes echoes)
  | .defineNative name arity body =>
    (.noted, { s with machine := s.machine.defineNative name arity body })
  | .takeWarnings =>
    let (ds, s) := s.takeWarnings
    (.warnings ds, s)
  | .takeOutput =>
    let (text, s) := s.takeOutput
    (.output text, s)
  | .global name => (.value (s.machine.global? name), s)

/-- The answers to some requests, and the session after them. -/
def answers (s : Session) : List Request → List Answer × Session
  | [] => ([], s)
  | request :: requests =>
    let (a, s) := s.answer request
    let (as, s) := s.answers requests
    (a :: as, s)

/-- The session after some requests. -/
def serve (s : Session) (requests : List Request) : Session := (s.answers requests).2

@[simp] theorem serve_nil (s : Session) : s.serve [] = s := rfl

@[simp] theorem serve_cons (s : Session) (request : Request) (requests : List Request) :
    s.serve (request :: requests) = (s.answer request).2.serve requests := rfl

/-- What every request keeps goes on to hold. -/
theorem serve_induction {I : Session → Prop} {s : Session} {requests : List Request} (h : I s)
    (hstep : ∀ s request, request ∈ requests → I s → I (s.answer request).2) :
    I (s.serve requests) := by
  induction requests generalizing s with
  | nil => exact h
  | cons request requests ih =>
    refine ih (hstep s request (by simp) h) fun s' request' hmem => ?_
    exact hstep s' request' (List.mem_cons_of_mem _ hmem)

/-- What is found out about a source before anything of it runs. -/
def check (s : Session) (source : String) : Except (List Diagnostic) (List Stmt × Resolution) :=
  match (readProgram source s.nextId).result with
  | .error ds => .error ds
  | .ok program => (resolve s.lint program).map fun r => (program, r)

/-- The session in which an accepted source begins to run. -/
def begun (s : Session) (source : String) (r : Resolution) : Session where
  machine := s.machine.noteResolution r
  lint := s.lint
  warnings := s.warnings ++ r.warnings
  nextId := (readProgram source s.nextId).nextId

theorem check_eq_ok {s : Session} {source : String} {program : List Stmt} {r : Resolution} :
    s.check source = .ok (program, r) ↔
      (readProgram source s.nextId).result = .ok program ∧ resolve s.lint program = .ok r := by
  unfold check
  split
  next => simp_all
  next program' hread =>
    rw [hread, Except.ok.injEq]
    constructor
    · intro h
      cases hr : resolve s.lint program' with
      | error ds => simp [hr, Except.map] at h
      | ok r' =>
        rw [hr] at h
        obtain ⟨rfl, rfl⟩ := Prod.mk.inj (Except.ok.inj h)
        exact ⟨rfl, hr⟩
    · rintro ⟨rfl, h⟩
      rw [h]
      rfl

theorem run_eq (s : Session) (n : Nat) (source : String) :
    s.run n source = match s.check source with
      | .error ds => (.rejected ds, { s with nextId := (readProgram source s.nextId).nextId })
      | .ok (program, r) => (s.begun source r).interpret n program := by
  unfold run check
  dsimp only
  cases (readProgram source s.nextId).result with
  | error ds => rfl
  | ok program =>
    dsimp only
    cases resolve s.lint program <;> rfl

theorem run_of_rejected {s : Session} {source : String} {ds : List Diagnostic} (n : Nat)
    (h : s.check source = .error ds) :
    s.run n source = (.rejected ds, { s with nextId := (readProgram source s.nextId).nextId }) := by
  rw [run_eq, h]

theorem run_of_accepted {s : Session} {source : String} {program : List Stmt} {r : Resolution}
    (n : Nat) (h : s.check source = .ok (program, r)) :
    s.run n source = (s.begun source r).interpret n program := by
  rw [run_eq, h]

end Session

end Lox
