import Lox.Proofs.Machine.History
import Lox.Proofs.Machine.Lineage
import Lox.Proofs.Machine.Tasks

namespace Lox

/-- The initializer of the class itself, or else of the nearest class it inherits from that has one.
-/
def Class.initializer? (c : Class) : Option Closure :=
  c.lineage.findSome? (Class.own? initializerName)

theorem Class.method?_initializerName (c : Class) :
    c.method? initializerName = c.initializer? := c.method?_eq_findSome? initializerName

/-- The machine with one more instance, which has no fields. -/
def Machine.withInstance (m : Machine) : Machine := { m with instances := m.instances.push ∅ }

/-- The moments and the result of a call of a class. -/
structure Class.Constructs (c : Class) (n : Nat) (m : Machine) (paren : Token) (vs : List Value) :
    Prop where
  /-- The nearest initializer is bound to the new instance and called, with as many arguments as it
  has parameters; the call of the class succeeds if this call does. -/
  initializer : ∀ f, c.initializer? = some f → vs.length = f.arity →
    let receiver := Value.instance ⟨m.instances.size⟩ c
    let bound := { f with frame := some ⟨m.frames.frames.size⟩ }
    let m' := { m.withInstance with frames := m.frames.push f.frame [receiver] }
    Moment.calls ⟨n + 1, .invoke (.class c) paren vs, m⟩ =
        [⟨n + 1, .bind f receiver, m.withInstance⟩, ⟨n, .call bound paren vs, m'⟩] ∧
      Machine.invoke (n + 1) (.class c) paren vs m = match Machine.call n bound paren vs m' with
        | .ok _ m'' => .ok receiver m''
        | .error e m'' => .error e m''
  mismatch : ∀ f, c.initializer? = some f → vs.length ≠ f.arity →
    Moment.calls ⟨n + 1, .invoke (.class c) paren vs, m⟩ = [] ∧
      Machine.invoke (n + 1) (.class c) paren vs m =
        .error (.error (.arityMismatch f.arity vs.length paren.line)) m
  /-- Without an initializer nothing is run. -/
  plain : c.initializer? = none →
    Moment.calls ⟨n + 1, .invoke (.class c) paren vs, m⟩ = [] ∧
      Machine.invoke (n + 1) (.class c) paren vs m =
        if vs = [] then .ok (.instance ⟨m.instances.size⟩ c) m.withInstance
        else .error (.error (.arityMismatch 0 vs.length paren.line)) m

variable {P P' : History} {W : World} {m : Machine} {n : Nat}

theorem Machine.newInstance_apply (m : Machine) :
    Machine.newInstance m = .ok ⟨m.instances.size⟩ m.withInstance := rfl

theorem Machine.checkArity_of_eq {expected got : Nat} (h : got = expected) (paren : Token)
    (m : Machine) : Machine.checkArity expected got paren m = .ok () m := by
  rw [checkArity, if_neg (not_not.mpr h)]
  rfl

theorem Machine.checkArity_of_ne {expected got : Nat} (h : got ≠ expected) (paren : Token)
    (m : Machine) : Machine.checkArity expected got paren m =
      .error (.error (.arityMismatch expected got paren.line)) m := by
  rw [checkArity, if_pos h]
  rfl

/-- A class with the wrong number of arguments does nothing. -/
theorem mismatch_invoke {c : Class} {vs : List Value} {paren : Token}
    (h : vs.length ≠ Machine.arity c) :
    Moment.calls ⟨n + 1, .invoke (.class c) paren vs, m⟩ = [] ∧
      Machine.invoke (n + 1) (.class c) paren vs m =
        .error (.error (.arityMismatch (Machine.arity c) vs.length paren.line)) m := by
  have hcheck := Machine.checkArity_of_ne h paren m
  constructor
  · simp only [Moment.calls, callsOfInvocation, after, hcheck]
  · rw [Machine.invoke]
    exact Machine.bind_of_error hcheck

theorem constructs (c : Class) (n : Nat) (m : Machine) (paren : Token) (vs : List Value) :
    c.Constructs n m paren vs := by
  have harity : ∀ f, c.initializer? = some f → Machine.arity c = f.arity := by
    intro f hf
    rw [Machine.arity, c.method?_initializerName, hf]
  constructor
  case initializer =>
    intro f hf hlength receiver bound m'
    have hmethod := c.method?_initializerName.trans hf
    have hcheck := Machine.checkArity_of_eq (hlength.trans (harity f hf).symm) paren m
    have hbind : Machine.bind f receiver m.withInstance = .ok bound m' :=
      Machine.bindReceiver_apply f receiver m.withInstance
    constructor
    · simp only [Moment.calls, callsOfInvocation, after, hcheck, Machine.newInstance_apply, hmethod]
      rw [hbind]
      rfl
    · rw [Machine.invoke, Machine.bind_of_ok hcheck,
          Machine.bind_of_ok (Machine.newInstance_apply m), hmethod]
      dsimp only
      rw [Machine.bind_of_ok hbind, Machine.bind_apply]
      cases Machine.call n bound paren vs m' <;> rfl
  case mismatch =>
    intro f hf hlength
    rw [← harity f hf] at hlength ⊢
    exact mismatch_invoke hlength
  case plain =>
    intro hnone
    have hmethod := c.method?_initializerName.trans hnone
    have hzero : Machine.arity c = 0 := by
      rw [Machine.arity, hmethod]
    cases vs with
    | nil =>
      have hcheck : Machine.checkArity (Machine.arity c) ([] : List Value).length paren m =
          .ok () m := Machine.checkArity_of_eq hzero.symm paren m
      constructor
      · simp only [Moment.calls, callsOfInvocation, after, hcheck,
          Machine.newInstance_apply, hmethod]
      · rw [Machine.invoke, Machine.bind_of_ok hcheck,
          Machine.bind_of_ok (Machine.newInstance_apply m), hmethod]
        rfl
    | cons v vs =>
      have hlength : (v :: vs).length ≠ Machine.arity c := by simp [hzero]
      have hmismatch := @mismatch_invoke m n c (v :: vs) paren hlength
      rwa [hzero] at hmismatch

/-- A method of this name is looked up. -/
def Task.Looks (name : String) : Task → Prop
  | .evaluate (.get _ t) => t.lexeme = name
  | .evaluate (.super _ _ t) => t.lexeme = name
  | .invoke (.class _) _ _ => name = initializerName
  | _ => False

theorem mem_calls_get {object : Expr} {t : Token} {B : Moment} {f : Closure} {r : Value}
    (hB : B ∈ callsOfExpr n m (.get object t)) (htask : B.task = .bind f r) :
    ∃ i c m', Machine.evaluate n object m = .ok (.instance i c) m' ∧
      c.method? t.lexeme = some f := by
  unfold callsOfExpr at hB
  grind [mem_after]

theorem mem_calls_super {id : Nat} {keyword t : Token} {B : Moment} {f : Closure} {r : Value}
    (hB : B ∈ callsOfExpr n m (.super id keyword t)) (htask : B.task = .bind f r) :
    ∃ a c m', Machine.readLocal keyword a m = .ok (.class c) m' ∧ c.method? t.lexeme = some f := by
  unfold callsOfExpr at hB
  rcases List.mem_append.mp hB with hB | hB
  · obtain rfl := List.mem_singleton.mp hB
    cases htask
  · split at hB
    next => simp at hB
    next a _ => grind [mem_after]

theorem mem_calls_construct {c : Class} {paren : Token} {vs : List Value} {B : Moment}
    {f : Closure} {r : Value} (hB : B ∈ callsOfInvocation n m paren vs (.class c))
    (htask : B.task = .bind f r) : c.method? initializerName = some f := by
  unfold callsOfInvocation at hB
  grind [mem_after]

/-- What a local holds is what a machine may hold. -/
theorem Sound.readLocal {name : Token} {a : Address} {v : Value} {m' : Machine} (h : Sound P W m)
    (hread : Machine.readLocal name a m = .ok v m') : v.Fits P W m := by
  obtain ⟨-, hends⟩ := @safe_readLocal P none W m h name a fun _ hM => by simp at hM
  rw [hread] at hends
  obtain ⟨_, -, -, -, hv⟩ := hends
  exact hv

/-- A method that is bound where a name is looked up goes by this name. -/
theorem named_of_looks {M B : Moment} {name : String} {f : Closure} {r : Value} (hM : M.Meets P)
    (hcalls : ∀ M' ∈ M.calls, M'.Meets P) (hlooks : M.task.Looks name) (hB : B ∈ M.calls)
    (htask : B.task = .bind f r) :
    f.name = some name ∧ (f.isInitializer = true ↔ name = initializerName) := by
  obtain ⟨allowance, task, m⟩ := M
  cases task with
  | evaluate e =>
    cases allowance with
    | zero => simp [Moment.calls] at hB
    | succ n =>
      cases e with
      | get object t =>
        obtain rfl : t.lexeme = name := hlooks
        obtain ⟨i, c, m', hok, hmethod⟩ := mem_calls_get hB htask
        obtain ⟨W, hfits⟩ := hcalls ⟨n, .evaluate object, m⟩ (List.mem_append_left _ (by simp)) _ _ hok
        exact hfits.1.named _ f hmethod
      | super id keyword t =>
        obtain rfl : t.lexeme = name := hlooks
        obtain ⟨a, c, m', hread, hmethod⟩ := mem_calls_super hB htask
        obtain ⟨W, L, hsound, -⟩ :=
          hcalls ⟨n + 1, .access .super id keyword, m⟩ (List.mem_append_left _ (by simp))
        have hfits : c.Fits P W m := hsound.readLocal hread
        exact hfits.named _ f hmethod
      | _ => exact hlooks.elim
  | invoke callee paren vs =>
    cases allowance with
    | zero => simp [Moment.calls] at hB
    | succ n =>
      cases callee with
      | «class» c =>
        obtain rfl : name = initializerName := hlooks
        obtain ⟨⟨W, -, hfits, -⟩, -⟩ := hM
        have hc : c.Fits P W m := hfits
        exact hc.named _ f (mem_calls_construct hB htask)
      | _ => exact hlooks.elim
  | _ => exact hlooks.elim

end Lox
