import Lox.Proofs.Machine.Apply

namespace Lox.Machine

variable {α β : Type} {m m' m'' : Machine}

/-- `q` does what `p` does, unless `p` uses up its allowance. -/
def Extends (p q : Step α) : Prop := ∀ m, (∃ m', p m = .error .exhausted m') ∨ q m = p m

namespace Extends

variable {p q r : Step α} {k l : α → Step β}

theorem refl (p : Step α) : Extends p p := fun _ => .inr rfl

theorem trans (h : Extends p q) (h' : Extends q r) : Extends p r := by
  intro m
  rcases h m with hp | hp
  · exact .inl hp
  · rcases h' m with ⟨m', hq⟩ | hq
    · exact .inl ⟨m', hp.symm.trans hq⟩
    · exact .inr (hq.trans hp)

theorem exhausted (q : Step α) : Extends (throw .exhausted) q := fun m => .inl ⟨m, rfl⟩

theorem bind (h : Extends p q) (hk : ∀ a, Extends (k a) (l a)) : Extends (p >>= k) (q >>= l) := by
  intro m
  rw [bind_apply, bind_apply]
  rcases h m with ⟨m', hp⟩ | hp
  · exact .inl ⟨m', by rw [hp]⟩
  · rw [hp]
    cases p m with
    | ok a m' => exact hk a m'
    | error e m' => exact .inr rfl

theorem get {k l : Machine → Step β} (h : ∀ m, Extends (k m) (l m)) :
    Extends ((MonadState.get : Step Machine) >>= k) ((MonadState.get : Step Machine) >>= l) :=
  bind (refl _) h

theorem within (h : Extends p q) (f : FrameRef) :
    Extends (Machine.within f p) (Machine.within f q) := by
  intro m
  unfold Machine.within
  dsimp only
  rcases h { m with frame := some f } with ⟨m', hp⟩ | hp
  · exact .inl ⟨_, by rw [hp]⟩
  · exact .inr (by rw [hp])

end Extends

/-- Every part of the evaluator goes on doing what it does with an allowance of `n`. -/
structure ExtendingParts (n : Nat) : Prop where
  evaluate : ∀ e, Extends (Machine.evaluate n e) (Machine.evaluate (n + 1) e)
  evaluateAll : ∀ es, Extends (Machine.evaluateAll n es) (Machine.evaluateAll (n + 1) es)
  invoke : ∀ v paren vs,
    Extends (Machine.invoke n v paren vs) (Machine.invoke (n + 1) v paren vs)
  call : ∀ f paren vs, Extends (Machine.call n f paren vs) (Machine.call (n + 1) f paren vs)
  execute : ∀ s, Extends (Machine.execute n s) (Machine.execute (n + 1) s)
  executeAll : ∀ ss, Extends (Machine.executeAll n ss) (Machine.executeAll (n + 1) ss)

namespace ExtendingParts

variable {n : Nat}

theorem evaluate_succ (h : ExtendingParts n) (e : Expr) :
    Extends (Machine.evaluate (n + 1) e) (Machine.evaluate (n + 2) e) := by
  cases e <;> unfold Machine.evaluate <;> dsimp only
  case literal | «variable» | «this» | super | function => exact .refl _
  case grouping inner => exact h.evaluate inner
  case unary operator right => exact (h.evaluate right).bind fun _ => .refl _
  case binary left operator right =>
    exact (h.evaluate left).bind fun _ => (h.evaluate right).bind fun _ => .refl _
  case logical left operator right =>
    refine (h.evaluate left).bind fun v => ?_
    split
    · exact .refl _
    · exact h.evaluate right
  case assign id name value => exact (h.evaluate value).bind fun _ => .refl _
  case call callee paren arguments =>
    exact (h.evaluate callee).bind fun f => (h.evaluateAll arguments).bind fun vs =>
      h.invoke f paren vs
  case get object name => exact (h.evaluate object).bind fun _ => .refl _
  case set object name value =>
    refine (h.evaluate object).bind fun v => ?_
    cases v with
    | «instance» i c => exact (h.evaluate value).bind fun _ => .refl _
    | _ => exact .refl _

theorem evaluateAll_succ (h : ExtendingParts n) (es : List Expr) :
    Extends (Machine.evaluateAll (n + 1) es) (Machine.evaluateAll (n + 2) es) := by
  cases es <;> unfold Machine.evaluateAll
  case nil => exact .refl _
  case cons e es =>
    exact (h.evaluate e).bind fun _ => (h.evaluateAll es).bind fun _ => .refl _

theorem invoke_succ (h : ExtendingParts n) (v : Value) (paren : Token) (vs : List Value) :
    Extends (Machine.invoke (n + 1) v paren vs) (Machine.invoke (n + 2) v paren vs) := by
  unfold Machine.invoke
  cases v with
  | function identity f => exact (Extends.refl _).bind fun _ => h.call f paren vs
  | «class» c =>
    refine (Extends.refl _).bind fun _ => (Extends.refl _).bind fun i => ?_
    cases c.method? initializerName with
    | none => exact .refl _
    | some f =>
      exact (Extends.refl _).bind fun f => (h.call f paren vs).bind fun _ => .refl _
  | _ => exact .refl _

theorem call_succ (h : ExtendingParts n) (f : Closure) (paren : Token) (vs : List Value) :
    Extends (Machine.call (n + 1) f paren vs) (Machine.call (n + 2) f paren vs) := by
  unfold Machine.call
  exact (Extends.refl _).bind fun g => ((h.executeAll f.function.body).within g).bind fun _ =>
    .refl _

theorem execute_succ (h : ExtendingParts n) (s : Stmt) :
    Extends (Machine.execute (n + 1) s) (Machine.execute (n + 2) s) := by
  cases s <;> unfold Machine.execute
  case expression e => exact (h.evaluate e).bind fun _ => .refl _
  case print e => exact (h.evaluate e).bind fun _ => .refl _
  case var name value =>
    cases value with
    | none => exact .refl _
    | some e => exact (h.evaluate e).bind fun _ => .refl _
  case block ss =>
    exact .get fun m => (Extends.refl _).bind fun g => (h.executeAll ss).within g
  case ifElse condition thenBranch elseBranch =>
    refine (h.evaluate condition).bind fun v => ?_
    split
    · exact h.execute thenBranch
    · cases elseBranch with
      | none => exact .refl _
      | some s => exact h.execute s
  case «while» condition body =>
    refine (h.evaluate condition).bind fun v => ?_
    split
    · refine (h.execute body).bind fun flow => ?_
      cases flow with
      | normal => exact h.execute (.while condition body)
      | _ => exact .refl _
    · exact .refl _
  case «break» => exact .refl _
  case function declaration =>
    cases declaration
    exact .refl _
  case «return» keyword value =>
    cases value with
    | none => exact .refl _
    | some e => exact (h.evaluate e).bind fun _ => .refl _
  case «class» name superclass methods =>
    cases superclass with
    | none => exact .refl _
    | some e => exact (h.evaluate e).bind fun _ => .refl _

theorem executeAll_succ (h : ExtendingParts n) (ss : List Stmt) :
    Extends (Machine.executeAll (n + 1) ss) (Machine.executeAll (n + 2) ss) := by
  cases ss <;> unfold Machine.executeAll
  case nil => exact .refl _
  case cons s ss =>
    refine (h.execute s).bind fun flow => ?_
    cases flow with
    | normal => exact h.executeAll ss
    | _ => exact .refl _

end ExtendingParts

theorem extendingParts (n : Nat) : ExtendingParts n := by
  induction n with
  | zero =>
    constructor
    all_goals intros
    all_goals exact .exhausted _
  | succ n ih =>
    exact ⟨ih.evaluate_succ, ih.evaluateAll_succ, ih.invoke_succ, ih.call_succ, ih.execute_succ,
      ih.executeAll_succ⟩

/-- How steps end that are allowed enough. -/
abbrev Ending (α : Type) := EStateM.Result RuntimeError Machine α

def Ending.result : Ending α → EStateM.Result Stop Machine α
  | .ok a m => .ok a m
  | .error e m => .error (.error e) m

theorem Ending.result_injective : Function.Injective (Ending.result (α := α)) := by
  rintro (⟨a, m⟩ | ⟨e, m⟩) (⟨a', m'⟩ | ⟨e', m'⟩) h
  · cases h
    rfl
  · cases h
  · cases h
  · cases h
    rfl

/-- With a larger allowance `n` the steps `p n` do the same. -/
def Growing (p : Nat → Step α) : Prop := ∀ n, Extends (p n) (p (n + 1))

theorem growing_evaluate (e : Expr) : Growing (evaluate · e) :=
  fun n => (extendingParts n).evaluate e

theorem growing_execute (s : Stmt) : Growing (execute · s) :=
  fun n => (extendingParts n).execute s

theorem growing_executeAll (ss : List Stmt) : Growing (executeAll · ss) :=
  fun n => (extendingParts n).executeAll ss

theorem growing_interpretOne (s : Stmt) : Growing (interpretOne · s) := by
  refine fun n => .get fun m => ?_
  have hexecute : Extends (do let _ ← execute n s) (do let _ ← execute (n + 1) s) :=
    (growing_execute s n).bind fun _ => .refl _
  cases m.echoes with
  | false => cases s <;> exact hexecute
  | true =>
    cases s with
    | expression e => exact (growing_evaluate e n).bind fun _ => .refl _
    | _ => exact hexecute

theorem growing_interpret (program : List Stmt) : Growing (interpret · program) := by
  intro n
  induction program with
  | nil => exact .refl _
  | cons s ss ih => exact (growing_interpretOne s n).bind fun _ => ih

/-- If they are allowed enough, the steps go from `m` to `r`. -/
def EndsIn (p : Nat → Step α) (m : Machine) (r : Ending α) : Prop := ∃ n, p n m = r.result

section

variable {p : Nat → Step α} {k : Nat → α → Step β} {r : Ending α} {r' : Ending β}

theorem Growing.extends (h : Growing p) {n n' : Nat} (hle : n ≤ n') : Extends (p n) (p n') := by
  induction hle with
  | refl => exact .refl _
  | step _ ih => exact ih.trans (h _)

theorem Growing.apply (h : Growing p) {n n' : Nat} (hle : n ≤ n') (hr : p n m = r.result) :
    p n' m = r.result := by
  rcases h.extends hle m with ⟨m', hp⟩ | hp
  · rw [hr] at hp
    cases r <;> cases hp
  · rw [hp, hr]

/-- Steps end in one way only. -/
theorem EndsIn.unique {r₁ r₂ : Ending α} (hp : Growing p) (h₁ : EndsIn p m r₁)
    (h₂ : EndsIn p m r₂) : r₁ = r₂ := by
  obtain ⟨n₁, h₁⟩ := h₁
  obtain ⟨n₂, h₂⟩ := h₂
  have h₁' := hp.apply (Nat.le_max_left n₁ n₂) h₁
  rw [hp.apply (Nat.le_max_right n₁ n₂) h₂] at h₁'
  exact (Ending.result_injective h₁').symm

/-- One step more of the allowance makes no difference. -/
theorem endsIn_succ (hp : Growing p) : EndsIn (fun n => p (n + 1)) m r ↔ EndsIn p m r :=
  ⟨fun ⟨n, h⟩ => ⟨n + 1, h⟩, fun ⟨n, h⟩ => ⟨n, hp.apply (Nat.le_succ n) h⟩⟩

/-- One outcome follows from another: an error stays, and a result is gone on with. -/
def Ending.Then (r : Ending α) (next : α → Machine → Ending β → Prop) (r' : Ending β) : Prop :=
  match r with
  | .ok a m => next a m r'
  | .error e m => r' = .error e m

/-- First `P`, and then `next`. -/
def Chain (P : Machine → Ending α → Prop) (next : α → Machine → Ending β → Prop) (m : Machine)
    (r : Ending β) : Prop :=
  ∃ r', P m r' ∧ r'.Then next r

/-- Steps one after the other. -/
theorem endsIn_bind (hp : Growing p) (hk : ∀ a, Growing (k · a)) :
    EndsIn (fun n => p n >>= k n) m r' ↔ Chain (EndsIn p) (fun a => EndsIn (k · a)) m r' := by
  constructor
  · rintro ⟨n, h⟩
    dsimp only at h
    rw [bind_apply] at h
    cases hr : p n m with
    | ok a m' =>
      rw [hr] at h
      exact ⟨.ok a m', ⟨n, hr⟩, n, h⟩
    | error e m' =>
      rw [hr] at h
      cases r' with
      | ok b m'' => cases h
      | error e' m'' =>
        cases h
        exact ⟨.error e' m', ⟨n, hr⟩, rfl⟩
  · rintro ⟨r, ⟨n, hn⟩, hr⟩
    cases r with
    | ok a m' =>
      obtain ⟨n', hn'⟩ := hr
      refine ⟨max n n', ?_⟩
      dsimp only
      rw [bind_of_ok (hp.apply (Nat.le_max_left n n') hn)]
      exact (hk a).apply (Nat.le_max_right n n') hn'
    | error e m' =>
      obtain rfl := hr
      exact ⟨n, bind_of_error hn⟩

end

end Lox.Machine
