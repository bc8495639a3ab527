import Lox.Proofs.Session.Twin

namespace Lox

/-- The faults of some pieces come before those of the pieces after them. -/
theorem faults_itemsFrom_append (line : Nat) (before after : List Piece) :
    faults (itemsFrom line (before ++ after)) = faults (itemsFrom line before) ++
      faults (itemsFrom (line + newlines (before.flatMap Piece.text)) after) := by
  induction before generalizing line with
  | nil => rfl
  | cons p before ih =>
    have hlines : line + newlines ((p :: before).flatMap Piece.text) =
        line + newlines p.text + newlines (before.flatMap Piece.text) := by
      rw [List.flatMap_cons, newlines, List.count_append, ← Nat.add_assoc]
      rfl
    rw [hlines, List.cons_append, itemsFrom, itemsFrom]
    cases p with
    | blank c | comment text | word k text => exact ih _
    | stray c | openString text => exact congrArg (_ :: ·) (ih _)

/-- The same answer, up to the identities of nodes in the functions of a value. -/
inductive Answer.Alike : Answer → Answer → Prop where
  | same (a : Answer) : Answer.Alike a a
  | value {v v'} : Option.Rel (Value.Twin .anyNodes) v v' → Answer.Alike (.value v) (.value v')

theorem Answer.Twin.alike {N : Nat → Nat → Prop} {a a' : Answer} (h : a.Twin (.ofNodes N) a') :
    a.Alike a' := by
  cases h with
  | noted => exact .same _
  | outcome ho =>
    cases ho with
    | done => exact .same _
    | rejected hds =>
      rw [forall₂_eq hds]
      exact .same _
    | failed he =>
      rw [he.eq]
      exact .same _
    | exhausted => exact .same _
  | warnings hds =>
    rw [forall₂_eq hds]
    exact .same _
  | output text => exact .same _
  | value hv =>
    have hwithin : (Link.ofNodes N).Within .anyNodes := ⟨fun _ _ _ => trivial, fun _ _ => id⟩
    exact .value (rel_imp hv fun _ _ hv => hv.within hwithin)

namespace Session

/-- What is wrong with a source before anything of it runs: the faults of its characters in the
order of the source and after them those of its grammar; or, if there are neither, those of the
scopes of its names. -/
def staticFaults (s : Session) (source : String) : List Diagnostic :=
  let reading := Grammar.read Grammar.program (tokens (scan source)) s.nextId
  match faults (scan source), reading.result with
  | [], .ok program =>
    match resolve s.lint program with
    | .ok _ => []
    | .error ds => ds
  | ds, .ok _ => ds
  | ds, .error more => ds ++ more

/-- What the resolver warns of when a request runs a source that is accepted. -/
def warningsOf (s : Session) : Request → List Diagnostic
  | .run _ source =>
    match s.check source with
    | .ok (_, r) => r.warnings
    | .error _ => []
  | _ => []

def warningsOfAll (s : Session) : List Request → List Diagnostic
  | [] => []
  | request :: requests => s.warningsOf request ++ (s.answer request).2.warningsOfAll requests

variable {s : Session}

theorem ne_nil_of_resolve {lint : Lint} {program : List Stmt} {ds : List Diagnostic}
    (h : resolve lint program = .error ds) : ds ≠ [] := by
  rintro rfl
  rw [resolve_eq_verdict, verdict] at h
  split at h
  next => simp at h
  next hne => exact hne (Except.error.inj h)

theorem error_eq_iff {α : Type} {ds ds' : List Diagnostic} (h : ds' ≠ []) :
    (.error ds' : Except (List Diagnostic) α) = .error ds ↔ ds = ds' ∧ ds ≠ [] := by
  constructor
  · intro heq
    obtain rfl := Except.error.inj heq
    exact ⟨rfl, h⟩
  · rintro ⟨rfl, -⟩
    rfl

theorem check_eq_error_iff {source : String} {ds : List Diagnostic} :
    s.check source = .error ds ↔ ds = s.staticFaults source ∧ ds ≠ [] := by
  have hfaults := (Grammar.read_program_spec (tokens (scan source)) s.nextId).faults
  unfold check staticFaults
  dsimp only
  rw [readProgram_result]
  cases hr : (Grammar.read Grammar.program (tokens (scan source)) s.nextId).result with
  | error more =>
    cases faults (scan source) with
    | nil => exact error_eq_iff (hfaults _ hr)
    | cons d ds' => exact error_eq_iff (List.cons_ne_nil _ _)
  | ok program =>
    cases faults (scan source) with
    | nil =>
      dsimp only
      cases hv : resolve s.lint program with
      | ok r => simp [Except.map]
      | error ds' => exact error_eq_iff (ne_nil_of_resolve hv)
    | cons d ds' => exact error_eq_iff (List.cons_ne_nil _ _)

theorem run_eq_rejected_iff {n : Nat} {source : String} {ds : List Diagnostic} :
    (s.run n source).1 = .rejected ds ↔ s.check source = .error ds := by
  rw [run_eq]
  cases s.check source with
  | error ds' => simp
  | ok accepted =>
    dsimp only
    unfold interpret
    split <;> simp

/-- Identities may be passed over. -/
theorem Twin.skip {K : Link} {s' : Session} (h : s.Twin K s') {k : Nat} (hk : s'.nextId ≤ k) :
    s.Twin K { s' with nextId := k } where
  machine := h.machine
  lint := h.lint
  warnings := h.warnings
  oneToOne := h.oneToOne
  minted i i' hi := ⟨(h.minted i i' hi).1, Nat.lt_of_lt_of_le (h.minted i i' hi).2 hk⟩
  unnoted := h.unnoted
  unnoted' i hi := h.unnoted' i (Nat.le_trans hk hi)

theorem interpret_warnings (s : Session) (n : Nat) (program : List Stmt) :
    (s.interpret n program).2.warnings = s.warnings := by
  unfold interpret
  split <;> rfl

theorem warnings_answer {request : Request} (h : request ≠ .takeWarnings) :
    (s.answer request).2.warnings = s.warnings ++ s.warningsOf request := by
  cases request with
  | run n source =>
    show (s.run n source).2.warnings = s.warnings ++ s.warningsOf (.run n source)
    rw [run_eq, warningsOf]
    cases s.check source with
    | error ds => exact (List.append_nil _).symm
    | ok accepted => exact interpret_warnings _ _ _
  | takeWarnings => exact absurd rfl h
  | _ => exact (List.append_nil _).symm

/-- Without a take in between the warnings of one accepted source follow those of the other. -/
theorem warnings_serve {requests : List Request} (h : .takeWarnings ∉ requests) :
    (s.serve requests).warnings = s.warnings ++ s.warningsOfAll requests := by
  induction requests generalizing s with
  | nil => exact (List.append_nil _).symm
  | cons request requests ih =>
    obtain ⟨hhead, htail⟩ := List.ne_and_not_mem_of_not_mem_cons h
    rw [serve_cons, ih htail, warnings_answer (Ne.symm hhead), List.append_assoc, warningsOfAll]

theorem serve_append (s : Session) (before after : List Request) :
    s.serve (before ++ after) = (s.serve before).serve after := by
  induction before generalizing s with
  | nil => rfl
  | cons request requests ih => exact ih _

/-- A source with something wrong in it changes nothing that a request can see. -/
structure Atomic (s : Session) : Prop where
  /-- A run is rejected if anything is wrong with the source, and for all that is wrong with it. -/
  rejects : ∀ n source ds, (s.run n source).1 = .rejected ds ↔
    ds = s.staticFaults source ∧ ds ≠ []
  /-- The globals, the frames, the notes of nodes, the output and all else in the machine stay. -/
  keeps : ∀ n source ds, (s.run n source).1 = .rejected ds →
    (s.run n source).2.machine = s.machine ∧ (s.run n source).2.lint = s.lint ∧
      (s.run n source).2.warnings = s.warnings
  /-- What is asked later is answered as if the run had not been made. -/
  unnoticed : ∀ n source ds, (s.run n source).1 = .rejected ds →
    ∀ after, (∀ request ∈ after, request.Blind) →
      List.Forall₂ Answer.Alike (s.answers after).1 ((s.run n source).2.answers after).1

theorem atomic_serve (lint : Lint) (clock : Clock) {before : List Request}
    (hbefore : ∀ request ∈ before, request.Blind) : ((new lint clock).serve before).Atomic where
  rejects _ _ _ := run_eq_rejected_iff.trans check_eq_error_iff
  keeps n source ds h := by
    rw [run_of_rejected n (run_eq_rejected_iff.mp h)]
    exact ⟨rfl, rfl, rfl⟩
  unnoticed n source ds h after hafter := by
    rw [run_of_rejected n (run_eq_rejected_iff.mp h)]
    obtain ⟨N, hs⟩ := twin_serve lint clock hbefore
    obtain ⟨N', -, hanswers, -⟩ := twin_answers (hs.skip (le_nextId source _)) hafter
    exact hanswers.imp fun _ _ ha => ha.alike

theorem warnings_eq_nil (lint : Lint) (clock : Clock) {before : List Request}
    (h : before = [] ∨ ∃ earlier, before = earlier ++ [.takeWarnings]) :
    ((new lint clock).serve before).warnings = [] := by
  rcases h with rfl | ⟨earlier, rfl⟩
  · rfl
  · rw [serve_append]
    rfl

end Session

/-- In every session a run with static faults changes nothing, and lists the faults of the
characters in the order of the source, then those of the grammar, or else those of the scopes. Each
take of warnings gives what the accepted sources since the take before it warn of, whatever their
runs came to. -/
theorem static_failure_atomic (lint : Lint) (clock : Clock) (before : List Request)
    (hbefore : ∀ request ∈ before, request.Blind) :
    (∀ source first second, pieces source.toList = first ++ second →
      faults (scan source) = faults (itemsFrom 1 first) ++
        faults (itemsFrom (1 + newlines (first.flatMap Piece.text)) second)) ∧
    ((Session.new lint clock).serve before).Atomic ∧
    ((before = [] ∨ ∃ earlier, before = earlier ++ [.takeWarnings]) →
      ∀ between, .takeWarnings ∉ between →
        (((Session.new lint clock).serve (before ++ between)).answer .takeWarnings).1 =
          .warnings (((Session.new lint clock).serve before).warningsOfAll between)) := by
  refine ⟨fun source first second hpieces => ?_, Session.atomic_serve lint clock hbefore,
    fun htake between hbetween => ?_⟩
  · rw [scan, hpieces, faults_itemsFrom_append]
  · rw [Session.serve_append]
    show Answer.warnings (Session.serve _ between).warnings = _
    rw [Session.warnings_serve hbetween, Session.warnings_eq_nil lint clock htake, List.nil_append]

/-- A stray character and a parenthesis too many, after a run that failed and a take of warnings. -/
theorem static_failure_atomic_stray :
    let before : List Request :=
      [.defineNative "first" 1 fun _ vs => .ok (vs.headD .nil),
        .run 90 "fun f() { var x; return f; } first(f)(1);", .takeWarnings]
    let s := (Session.new .warn (.ticking 0 1)).serve before
    (∀ request ∈ before, request.Blind) ∧ s.Atomic ∧
      (s.run 90 "@ )").1 = .rejected
        [⟨1, .lexical (.unexpected '@')⟩, ⟨1, .grammar (.expected "expression")⟩] ∧
      (((Session.new .warn (.ticking 0 1)).serve
        (before ++ [.run 90 "@ )", .run 90 "{ var y; } f(1);"])).answer .takeWarnings).1 =
          .warnings (s.warningsOfAll [.run 90 "@ )", .run 90 "{ var y; } f(1);"]) := by
  intro before s
  have hfirst : NativeBody.Blind fun _ vs => .ok (vs.headD .nil) := by
    intro K turn vs vs' hvs
    cases hvs with
    | nil => exact .ok .nil
    | cons hv _ => exact .ok hv
  have hbefore : ∀ request ∈ before, request.Blind := by
    simp only [before, List.mem_cons, List.not_mem_nil, or_false]
    rintro request (rfl | rfl | rfl)
    · exact hfirst
    · exact trivial
    · exact trivial
  obtain ⟨-, hatomic, htake⟩ := static_failure_atomic .warn (.ticking 0 1) before hbefore
  refine ⟨hbefore, hatomic, (hatomic.rejects 90 "@ )" _).mpr ⟨rfl, List.cons_ne_nil _ _⟩, ?_⟩
  exact htake (.inr ⟨[_, _], rfl⟩) _ (by simp)

end Lox
