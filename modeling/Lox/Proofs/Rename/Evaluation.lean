import Lox.Proofs.Rename.Access

namespace Lox.Machine

variable {R : Renaming} {n : Nat} {inside : Bool}

/-- The same way to end. -/
inductive FlowRenamed (R : Renaming) : Flow → Flow → Prop where
  | normal : FlowRenamed R .normal .normal
  | break : FlowRenamed R .break .break
  | return {v v'} : v.Renamed R v' → FlowRenamed R (.return v) (.return v')

/-- Every part of the evaluator follows the renaming, at top level and inside. -/
structure FollowingParts (R : Renaming) (n : Nat) : Prop where
  evaluate : ∀ {inside e e'}, e.Renamed R e' →
    Following R inside (Value.Renamed R) (Machine.evaluate n e) (Machine.evaluate n e')
  evaluateAll : ∀ {inside es es'}, RenamedAll R es es' →
    Following R inside (List.Forall₂ (Value.Renamed R)) (Machine.evaluateAll n es)
      (Machine.evaluateAll n es')
  invoke : ∀ {inside v v' t vs vs'}, v.Renamed R v' → List.Forall₂ (Value.Renamed R) vs vs' →
    Following R inside (Value.Renamed R) (Machine.invoke n v t vs) (Machine.invoke n v' t vs')
  call : ∀ {inside f f' t vs vs'}, f.Renamed R f' → List.Forall₂ (Value.Renamed R) vs vs' →
    Following R inside (Value.Renamed R) (Machine.call n f t vs) (Machine.call n f' t vs')
  execute : ∀ {inside s s'}, s.Renamed R inside s' →
    Following R inside (FlowRenamed R) (Machine.execute n s) (Machine.execute n s')
  executeAll : ∀ {inside ss ss'}, RenamedStatements R inside ss ss' →
    Following R inside (FlowRenamed R) (Machine.executeAll n ss) (Machine.executeAll n ss')

namespace FollowingParts

theorem evaluate_succ (h : FollowingParts R n) {e e' : Expr} (he : e.Renamed R e') :
    Following R inside (Value.Renamed R) (Machine.evaluate (n + 1) e)
      (Machine.evaluate (n + 1) e') := by
  cases he <;> unfold Machine.evaluate <;> dsimp only
  case literal value => exact .pure (Value.alike_self Function.renamed_self _)
  case grouping he => exact h.evaluate he
  case unary t e e' he =>
    refine (h.evaluate he).bind fun v v' hv => ?_
    rw [Operation.unary_eq_of_like t hv.like]
    exact Following.ofExcept _
  case binary t _ _ he₁ he₂ =>
    refine (h.evaluate he₁).bind fun v v' hv => (h.evaluate he₂).bind fun w w' hw => ?_
    rw [Operation.binary_eq_of_like t hv.like hw.like]
    exact Following.ofExcept _
  case logical t _ _ he₁ he₂ =>
    refine (h.evaluate he₁).bind fun v v' hv => ?_
    rw [Operation.decides_eq_of_like t hv.like]
    split
    · exact .pure hv
    · exact h.evaluate he₂
  case «variable» ht => exact Following.readVariable ht
  case assign ht he =>
    exact (h.evaluate he).bind fun _ _ hv =>
      (Following.assignVariable ht hv).bind fun _ _ _ => .pure hv
  case call he hes =>
    exact (h.evaluate he).bind fun _ _ hv => (h.evaluateAll hes).bind fun _ _ hvs => h.invoke hv hvs
  case get t he =>
    refine (h.evaluate he).bind fun v v' hv => ?_
    cases hv with
    | «instance» i hc => exact Following.property i hc t
    | _ => exact Following.fails _
  case set t _ _ he₁ he₂ =>
    refine (h.evaluate he₁).bind fun v v' hv => ?_
    cases hv with
    | «instance» i hc =>
      exact (h.evaluate he₂).bind fun _ _ hw =>
        (Following.setField i t hw).bind fun _ _ _ => .pure hw
    | _ => exact Following.fails _
  case «this» => exact Following.readVariable (.inl rfl)
  case super id t u => exact Following.superMethod id t u
  case function hf =>
    exact .get fun _ _ hm => Following.functionValue ⟨rfl, hf.arity, hf, hm.frame, rfl⟩

theorem evaluateAll_succ (h : FollowingParts R n) {es es' : List Expr} (hes : RenamedAll R es es') :
    Following R inside (List.Forall₂ (Value.Renamed R)) (Machine.evaluateAll (n + 1) es)
      (Machine.evaluateAll (n + 1) es') := by
  cases hes <;> unfold Machine.evaluateAll
  case nil => exact .pure .nil
  case cons he hes =>
    exact (h.evaluate he).bind fun _ _ hv => (h.evaluateAll hes).bind fun _ _ hvs =>
      .pure (.cons hv hvs)

theorem invoke_succ (h : FollowingParts R n) {v v' : Value} {t : Token} {vs vs' : List Value}
    (hv : v.Renamed R v') (hvs : List.Forall₂ (Value.Renamed R) vs vs') :
    Following R inside (Value.Renamed R) (Machine.invoke (n + 1) v t vs)
      (Machine.invoke (n + 1) v' t vs') := by
  have hlength := hvs.length_eq
  unfold Machine.invoke
  rw [← hlength]
  cases hv with
  | native f => exact (Following.checkArity _ _ t).bind fun _ _ _ => Following.callNative f t hvs
  | function _ hf =>
    dsimp only
    rw [hf.arity]
    exact (Following.checkArity _ _ t).bind fun _ _ _ => h.call hf hvs
  | «class» hc =>
    have hinit := hc.method? initializerName
    dsimp only
    rw [hc.arity]
    refine (Following.checkArity _ _ t).bind fun _ _ _ => Following.newInstance.bind ?_
    rintro i _ rfl
    generalize Class.method? initializerName _ = f? at hinit
    generalize Class.method? initializerName _ = f?' at hinit
    cases hinit with
    | none => exact .pure (.instance i hc)
    | some hf =>
      exact (Following.bindReceiver hf (.instance i hc)).bind fun _ _ hf =>
        (h.call hf hvs).bind fun _ _ _ => .pure (.instance i hc)
  | _ => exact Following.fails _

theorem call_succ (h : FollowingParts R n) {f f' : Closure} {t : Token} {vs vs' : List Value}
    (hf : f.Renamed R f') (hvs : List.Forall₂ (Value.Renamed R) vs vs') :
    Following R inside (Value.Renamed R) (Machine.call (n + 1) f t vs)
      (Machine.call (n + 1) f' t vs') := by
  unfold Machine.call
  rw [← hf.frame, ← hf.isInitializer]
  refine (Following.newFrame f.frame hvs).bind ?_
  rintro g _ rfl
  refine (Following.within (h.executeAll hf.function.body) g).bind fun flow flow' hflow => ?_
  split
  · exact Following.boundReceiver hf t
  · cases hflow with
    | «return» hv => exact .pure hv
    | _ => exact .pure .nil

theorem execute_succ (h : FollowingParts R n) {s s' : Stmt} (hs : s.Renamed R inside s') :
    Following R inside (FlowRenamed R) (Machine.execute (n + 1) s)
      (Machine.execute (n + 1) s') := by
  cases hs <;> unfold Machine.execute
  case expression he => exact (h.evaluate he).bind fun _ _ _ => .pure .normal
  case print he =>
    refine (h.evaluate he).bind fun v v' hv => ?_
    rw [hv.text]
    exact (Following.write _).bind fun _ _ _ => .pure .normal
  case var ht => exact (Following.define ht .nil).bind fun _ _ _ => .pure .normal
  case initialized he ht =>
    exact (h.evaluate he).bind fun _ _ hv =>
      (Following.define ht hv).bind fun _ _ _ => .pure .normal
  case block hss =>
    refine .get fun m m' hm => ?_
    rw [← hm.frame]
    refine (Following.newFrame m.frame .nil).bind ?_
    rintro g _ rfl
    exact Following.within (h.executeAll hss) g
  case «if» he hs =>
    refine (h.evaluate he).bind fun v v' hv => ?_
    rw [hv.truthy]
    split
    · exact h.execute hs
    · exact .pure .normal
  case ifElse he hs₁ hs₂ =>
    refine (h.evaluate he).bind fun v v' hv => ?_
    rw [hv.truthy]
    split
    · exact h.execute hs₁
    · exact h.execute hs₂
  case «while» he hs =>
    refine (h.evaluate he).bind fun v v' hv => ?_
    rw [hv.truthy]
    split
    · refine (h.execute hs).bind fun flow flow' hflow => ?_
      cases hflow with
      | normal => exact h.execute (.while he hs)
      | «break» => exact .pure .normal
      | «return» hv => exact .pure (.return hv)
    · exact .pure .normal
  case «break» => exact .pure .break
  case «return» => exact .pure (.return .nil)
  case returned he => exact (h.evaluate he).bind fun _ _ hv => .pure (.return hv)
  case function t f f' hf =>
    refine .get fun m m' hm => ?_
    have hclosure : Closure.Renamed R ⟨some t.lexeme, f, m.frame, false⟩
        ⟨some t.lexeme, f', m'.frame, false⟩ := ⟨rfl, hf.arity, hf, hm.frame, rfl⟩
    exact (Following.functionValue hclosure).bind fun _ _ hv =>
      (Following.define (.inl rfl) hv).bind fun _ _ _ => .pure .normal
  case «class» t _ _ hms =>
    exact (Following.declareClass t .none hms).bind fun _ _ _ => .pure .normal
  case subclass t _ _ _ _ he hms =>
    refine (h.evaluate he).bind fun v v' hv => ?_
    cases hv with
    | «class» hc =>
      exact (Following.declareClass t (.some hc) hms).bind fun _ _ _ => .pure .normal
    | _ =>
      dsimp only
      rw [he.line]
      exact Following.fails _

theorem executeAll_succ (h : FollowingParts R n) {ss ss' : List Stmt}
    (hss : RenamedStatements R inside ss ss') :
    Following R inside (FlowRenamed R) (Machine.executeAll (n + 1) ss)
      (Machine.executeAll (n + 1) ss') := by
  cases hss <;> unfold Machine.executeAll
  case nil => exact .pure .normal
  case cons hs hss =>
    refine (h.execute hs).bind fun flow flow' hflow => ?_
    cases hflow with
    | normal => exact h.executeAll hss
    | «break» => exact .pure .break
    | «return» hv => exact .pure (.return hv)

end FollowingParts

theorem followingParts (R : Renaming) (n : Nat) : FollowingParts R n := by
  induction n with
  | zero =>
    constructor
    all_goals intros
    all_goals exact .throw .exhausted
  | succ n ih =>
    exact ⟨ih.evaluate_succ, ih.evaluateAll_succ, ih.invoke_succ, ih.call_succ, ih.execute_succ,
      ih.executeAll_succ⟩

theorem following_interpretOne (n : Nat) {s s' : Stmt} (hs : s.Renamed R false s') :
    Following R false Eq (interpretOne n s) (interpretOne n s') := by
  have h := followingParts R n
  refine .get fun m m' hm => ?_
  have hexecute : Following R false Eq (do let _ ← execute n s) (do let _ ← execute n s') :=
    (h.execute hs).bind fun _ _ _ => .pure rfl
  rw [← hm.echoes]
  cases m.echoes with
  | false => cases hs <;> exact hexecute
  | true =>
    cases hs with
    | expression he =>
      refine (h.evaluate he).bind fun v v' hv => ?_
      rw [hv.text]
      exact Following.write _
    | _ => exact hexecute

/-- A program with a new name for a local does what the program does, statement by statement. -/
theorem following_interpret (n : Nat) {program program' : List Stmt}
    (h : RenamedStatements R false program program') :
    Following R false Eq (interpret n program) (interpret n program') := by
  induction program generalizing program' with
  | nil =>
    cases h
    exact .pure rfl
  | cons s ss ih =>
    cases h with
    | cons hs hss => exact (following_interpretOne n hs).bind fun _ _ _ => ih hss

end Lox.Machine
