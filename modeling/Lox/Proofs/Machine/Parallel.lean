import Lox.Proofs.Machine.Agree
import Lox.Proofs.Machine.Operation

namespace Lox.Machine

variable {K : Link} {n : Nat}

/-- The flows of two statements that are alike. -/
inductive FlowTwin (K : Link) : Flow → Flow → Prop where
  | normal : FlowTwin K .normal .normal
  | break : FlowTwin K .break .break
  | return {v v'} : v.Twin K v' → FlowTwin K (.return v) (.return v')

/-- Every part of the evaluator does the same for what is alike. -/
structure ParallelParts (K : Link) (n : Nat) : Prop where
  evaluate : ∀ {e e'}, e.Twin K e' →
    Agreeing K (Value.Twin K) (Machine.evaluate n e) (Machine.evaluate n e')
  evaluateAll : ∀ {es es'}, TwinAll K es es' →
    Agreeing K (List.Forall₂ (Value.Twin K)) (Machine.evaluateAll n es) (Machine.evaluateAll n es')
  invoke : ∀ {v v' paren paren' vs vs'}, v.Twin K v' → paren.Twin K paren' →
    List.Forall₂ (Value.Twin K) vs vs' →
    Agreeing K (Value.Twin K) (Machine.invoke n v paren vs) (Machine.invoke n v' paren' vs')
  call : ∀ {f f' paren paren' vs vs'}, f.Twin K f' → paren.Twin K paren' →
    List.Forall₂ (Value.Twin K) vs vs' →
    Agreeing K (Value.Twin K) (Machine.call n f paren vs) (Machine.call n f' paren' vs')
  execute : ∀ {s s'}, s.Twin K s' →
    Agreeing K (FlowTwin K) (Machine.execute n s) (Machine.execute n s')
  executeAll : ∀ {ss ss'}, TwinStatements K ss ss' →
    Agreeing K (FlowTwin K) (Machine.executeAll n ss) (Machine.executeAll n ss')

namespace ParallelParts

theorem evaluate_succ (h : ParallelParts K n) {e e' : Expr} (he : e.Twin K e') :
    Agreeing K (Value.Twin K) (Machine.evaluate (n + 1) e) (Machine.evaluate (n + 1) e') := by
  cases he <;> unfold Machine.evaluate <;> dsimp only
  case literal value => exact .pure (Operation.twin_literal value)
  case grouping he => exact h.evaluate he
  case unary ht he => exact (h.evaluate he).bind fun _ _ hv => .ofExcept (Operation.twin_unary ht hv)
  case binary he₁ ht he₂ =>
    exact (h.evaluate he₁).bind fun _ _ hv => (h.evaluate he₂).bind fun _ _ hw =>
      .ofExcept (Operation.twin_binary ht hv hw)
  case logical he₁ ht he₂ =>
    refine (h.evaluate he₁).bind fun v v' hv => ?_
    rw [Operation.decides_eq ht hv]
    split
    · exact .pure hv
    · exact h.evaluate he₂
  case «variable» hi ht => exact .readVariable hi ht
  case assign hi ht he =>
    exact (h.evaluate he).bind fun _ _ hv =>
      (Parallel.assignVariable hi ht hv).bind fun _ _ _ => .pure hv
  case call he ht hes =>
    exact (h.evaluate he).bind fun _ _ hv => (h.evaluateAll hes).bind fun _ _ hvs =>
      h.invoke hv ht hvs
  case get he ht =>
    refine (h.evaluate he).bind fun v v' hv => ?_
    cases hv with
    | «instance» i hc => exact .property i hc ht
    | _ => exact .fail ⟨rfl, .some ht.line⟩
  case set he₁ ht he₂ =>
    refine (h.evaluate he₁).bind fun v v' hv => ?_
    cases hv with
    | «instance» i hc =>
      exact (h.evaluate he₂).bind fun _ _ hw =>
        (Parallel.setField i ht hw).bind fun _ _ _ => .pure hw
    | _ => exact .fail ⟨rfl, .some ht.line⟩
  case «this» hi ht => exact .readVariable hi ht
  case super hi ht hu => exact .superMethod hi ht hu
  case function hf => exact .get fun _ _ hm => .functionValue ⟨rfl, hf, hm.frame, rfl⟩

theorem evaluateAll_succ (h : ParallelParts K n) {es es' : List Expr} (hes : TwinAll K es es') :
    Agreeing K (List.Forall₂ (Value.Twin K)) (Machine.evaluateAll (n + 1) es)
      (Machine.evaluateAll (n + 1) es') := by
  cases hes <;> unfold Machine.evaluateAll
  case nil => exact .pure .nil
  case cons he hes =>
    exact (h.evaluate he).bind fun _ _ hv => (h.evaluateAll hes).bind fun _ _ hvs =>
      .pure (.cons hv hvs)

theorem invoke_succ (h : ParallelParts K n) {v v' : Value} {paren paren' : Token}
    {vs vs' : List Value} (hv : v.Twin K v') (ht : paren.Twin K paren')
    (hvs : List.Forall₂ (Value.Twin K) vs vs') :
    Agreeing K (Value.Twin K) (Machine.invoke (n + 1) v paren vs)
      (Machine.invoke (n + 1) v' paren' vs') := by
  have hlength := hvs.length_eq
  unfold Machine.invoke
  rw [← hlength]
  cases hv with
  | native f => exact (Parallel.checkArity _ _ ht).bind fun _ _ _ => .callNative f ht hvs
  | function _ hf =>
    dsimp only
    rw [hf.arity]
    exact (Parallel.checkArity _ _ ht).bind fun _ _ _ => h.call hf ht hvs
  | «class» hc =>
    have hinit := hc.method? initializerName
    dsimp only
    rw [hc.arity]
    refine (Parallel.checkArity _ _ ht).bind fun _ _ _ => Parallel.newInstance.bind ?_
    rintro i _ rfl
    generalize Class.method? initializerName _ = f? at hinit
    generalize Class.method? initializerName _ = f?' at hinit
    cases hinit with
    | none => exact .pure (.instance i hc)
    | some hf =>
      exact (Parallel.bindReceiver hf (.instance i hc)).bind fun _ _ hf =>
        (h.call hf ht hvs).bind fun _ _ _ => .pure (.instance i hc)
  | _ => exact .fail ⟨rfl, .some ht.line⟩

theorem call_succ (h : ParallelParts K n) {f f' : Closure} {paren paren' : Token}
    {vs vs' : List Value} (hf : f.Twin K f') (ht : paren.Twin K paren')
    (hvs : List.Forall₂ (Value.Twin K) vs vs') :
    Agreeing K (Value.Twin K) (Machine.call (n + 1) f paren vs)
      (Machine.call (n + 1) f' paren' vs') := by
  have hbody := hf.function.body
  unfold Machine.call
  rw [← hf.frame, ← hf.isInitializer]
  refine (Parallel.newFrame f.frame hvs).bind ?_
  rintro g _ rfl
  refine ((h.executeAll hbody).within g).bind fun flow flow' hflow => ?_
  split
  · exact .boundReceiver hf ht
  · cases hflow with
    | «return» hv => exact .pure hv
    | _ => exact .pure .nil

theorem execute_succ (h : ParallelParts K n) {s s' : Stmt} (hs : s.Twin K s') :
    Agreeing K (FlowTwin K) (Machine.execute (n + 1) s) (Machine.execute (n + 1) s') := by
  cases hs <;> unfold Machine.execute
  case expression he => exact (h.evaluate he).bind fun _ _ _ => .pure .normal
  case print he =>
    refine (h.evaluate he).bind fun v v' hv => ?_
    rw [hv.text]
    exact (Parallel.write _).bind fun _ _ _ => .pure .normal
  case var ht => exact (Parallel.define ht .nil).bind fun _ _ _ => .pure .normal
  case initialized ht he =>
    exact (h.evaluate he).bind fun _ _ hv => (Parallel.define ht hv).bind fun _ _ _ => .pure .normal
  case block hss =>
    refine .get fun m m' hm => ?_
    rw [← hm.frame]
    refine (Parallel.newFrame m.frame .nil).bind ?_
    rintro g _ rfl
    exact (h.executeAll hss).within g
  case «if» he hs =>
    refine (h.evaluate he).bind fun v v' hv => ?_
    rw [hv.truthy]
    split
    · exact h.execute hs
    · exact .pure .normal
  case ifElse he hs₁ hs₂ =>
    refine (h.evaluate he).bind fun v v' hv => ?_
    rw [hv.truthy]
    split
    · exact h.execute hs₁
    · exact h.execute hs₂
  case «while» he hs =>
    refine (h.evaluate he).bind fun v v' hv => ?_
    rw [hv.truthy]
    split
    · refine (h.execute hs).bind fun flow flow' hflow => ?_
      cases hflow with
      | normal => exact h.execute (.while he hs)
      | «break» => exact .pure .normal
      | «return» hv => exact .pure (.return hv)
    · exact .pure .normal
  case «break» => exact .pure .break
  case «return» => exact .pure (.return .nil)
  case returned he => exact (h.evaluate he).bind fun _ _ hv => .pure (.return hv)
  case function hm =>
    cases hm with
    | @mk t t' f f' ht hf =>
      refine .get fun m m' hm => ?_
      have hclosure : Closure.Twin K ⟨some t.lexeme, f, m.frame, false⟩
          ⟨some t'.lexeme, f', m'.frame, false⟩ :=
        ⟨congrArg some ht.lexeme, hf, hm.frame, rfl⟩
      exact (Parallel.functionValue hclosure).bind fun _ _ hv =>
        (Parallel.define ht hv).bind fun _ _ _ => .pure .normal
  case «class» ht hms =>
    exact (Parallel.declareClass ht .none hms).bind fun _ _ _ => .pure .normal
  case subclass ht he hms =>
    have hline := he.line
    refine (h.evaluate he).bind fun v v' hv => ?_
    cases hv with
    | «class» hc => exact (Parallel.declareClass ht (.some hc) hms).bind fun _ _ _ => .pure .normal
    | _ => exact .fail ⟨rfl, .some hline⟩

theorem executeAll_succ (h : ParallelParts K n) {ss ss' : List Stmt}
    (hss : TwinStatements K ss ss') :
    Agreeing K (FlowTwin K) (Machine.executeAll (n + 1) ss) (Machine.executeAll (n + 1) ss') := by
  cases hss <;> unfold Machine.executeAll
  case nil => exact .pure .normal
  case cons hs hss =>
    refine (h.execute hs).bind fun flow flow' hflow => ?_
    cases hflow with
    | normal => exact h.executeAll hss
    | «break» => exact .pure .break
    | «return» hv => exact .pure (.return hv)

end ParallelParts

theorem parallelParts (K : Link) (n : Nat) : ParallelParts K n := by
  induction n with
  | zero =>
    constructor
    all_goals intros
    all_goals exact .throw .exhausted
  | succ n ih =>
    exact ⟨ih.evaluate_succ, ih.evaluateAll_succ, ih.invoke_succ, ih.call_succ, ih.execute_succ,
      ih.executeAll_succ⟩

theorem agreeing_interpretOne (n : Nat) {s s' : Stmt} (hs : s.Twin K s') :
    Agreeing K Eq (interpretOne n s) (interpretOne n s') := by
  have h := parallelParts K n
  refine .get fun m m' hm => ?_
  have hexecute : Agreeing K Eq (do let _ ← execute n s) (do let _ ← execute n s') :=
    (h.execute hs).bind fun _ _ _ => .pure rfl
  rw [← hm.echoes]
  cases m.echoes with
  | false => cases hs <;> exact hexecute
  | true =>
    cases hs with
    | expression he =>
      refine (h.evaluate he).bind fun v v' hv => ?_
      rw [hv.text]
      exact .write _
    | _ => exact hexecute

/-- Programs that are alike do the same, statement by statement. -/
theorem agreeing_interpret (n : Nat) {program program' : List Stmt}
    (h : TwinStatements K program program') :
    Agreeing K Eq (interpret n program) (interpret n program') := by
  induction program generalizing program' with
  | nil =>
    cases h
    exact .pure rfl
  | cons s ss ih =>
    cases h with
    | cons hs hss => exact (agreeing_interpretOne n hs).bind fun _ _ _ => ih hss

end Lox.Machine
