import Lox.Proofs.Loop.Access
import Lox.Proofs.Machine.Operation

namespace Lox.Machine

open Matching (Alike)

variable {A : Tables} {W : Framing} {k : Inset} {n : Nat}

/-- Statements end alike. -/
inductive Flow.Like (V : Value → Value → Prop) : Flow → Flow → Prop where
  | normal : Flow.Like V .normal .normal
  | break : Flow.Like V .break .break
  | return {v v'} : V v v' → Flow.Like V (.return v) (.return v')

/-- Flows that are alike in the framing at hand. -/
abbrev FlowsAlike (A : Tables) : Framing → Flow → Flow → Prop := fun W => Flow.Like (W.Like A)

/-- Every part of the evaluator does the same in all framings. -/
structure MatchingParts (A : Tables) (n : Nat) : Prop where
  evaluate : ∀ {W k e e'}, e.Moved A k e' →
    Matching A W k (Alike A) (Machine.evaluate n e) (Machine.evaluate n e')
  evaluateAll : ∀ {W k es es'}, MovedAll A k es es' →
    Matching A W k (fun W => List.Forall₂ (W.Like A)) (Machine.evaluateAll n es)
      (Machine.evaluateAll n es')
  invoke : ∀ {W : Framing} {k v v' t vs vs'}, W.Like A v v' → List.Forall₂ (W.Like A) vs vs' →
    Matching A W k (Alike A) (Machine.invoke n v t vs) (Machine.invoke n v' t vs')
  call : ∀ {W : Framing} {k f f' t vs vs'}, f.Like (W.Function A) f' →
    List.Forall₂ (W.Like A) vs vs' →
    Matching A W k (Alike A) (Machine.call n f t vs) (Machine.call n f' t vs')
  execute : ∀ {W k s s'}, s.Moved A k s' →
    Matching A W k (FlowsAlike A) (Machine.execute n s) (Machine.execute n s')
  executeAll : ∀ {W k ss ss'}, MovedStatements A k ss ss' →
    Matching A W k (FlowsAlike A) (Machine.executeAll n ss) (Machine.executeAll n ss')

theorem likes_within {W W' : Framing} {vs vs' : List Value} (h : List.Forall₂ (W.Like A) vs vs')
    (hW : W.Within W') : List.Forall₂ (W'.Like A) vs vs' :=
  h.imp fun _ _ hv => Framing.Like.within hv hW

namespace MatchingParts

theorem evaluate_succ (h : MatchingParts A n) {e e' : Expr} (he : e.Moved A k e') :
    Matching A W k (Alike A) (Machine.evaluate (n + 1) e) (Machine.evaluate (n + 1) e') := by
  cases he <;> unfold Machine.evaluate <;> dsimp only
  case literal value => exact Matching.pure (Operation.plain_literal value).like
  case grouping he => exact h.evaluate he
  case unary t _ _ he =>
    exact (h.evaluate he).bind fun _ _ _ hv => Matching.ofExcept (Operation.like_unary t hv)
  case binary t _ _ he₁ he₂ =>
    exact (h.evaluate he₁).bind fun _ _ _ hv => (h.evaluate he₂).bind fun hW _ _ hw =>
      Matching.ofExcept (Operation.like_binary t (hv.within hW) hw)
  case logical t _ _ he₁ he₂ =>
    refine (h.evaluate he₁).bind fun _ v v' hv => ?_
    rw [Operation.decides_eq_of_like t hv]
    split
    · exact Matching.pure hv
    · exact h.evaluate he₂
  case «variable» t hi => exact Matching.readVariable t hi
  case assign t _ _ hi he =>
    exact (h.evaluate he).bind fun _ _ _ hv =>
      (Matching.assignVariable t hi hv).bind fun hW _ _ _ => Matching.pure (hv.within hW)
  case call he hes =>
    exact (h.evaluate he).bind fun _ _ _ hv => (h.evaluateAll hes).bind fun hW _ _ hvs =>
      h.invoke (hv.within hW) hvs
  case get t he =>
    refine (h.evaluate he).bind fun _ v v' hv => ?_
    cases hv with
    | «instance» i hc => exact Matching.property i hc t
    | _ => exact Matching.fail _
  case set t _ _ he₁ he₂ =>
    refine (h.evaluate he₁).bind fun _ v v' hv => ?_
    cases hv with
    | «instance» i hc =>
      exact (h.evaluate he₂).bind fun _ _ _ hw => (Matching.setField i t hw).bind fun hW _ _ _ =>
        Matching.pure (hw.within hW)
    | _ => exact Matching.fail _
  case «this» t hi => exact Matching.readVariable t hi
  case super t u hi => exact Matching.superMethod t u hi
  case function hf =>
    exact Matching.get fun _ _ hm => Matching.functionValue
      ⟨rfl, congrArg List.length hf.params, rfl, .of_stands hm.frame hf rfl⟩

theorem evaluateAll_succ (h : MatchingParts A n) {es es' : List Expr} (hes : MovedAll A k es es') :
    Matching A W k (fun W => List.Forall₂ (W.Like A)) (Machine.evaluateAll (n + 1) es)
      (Machine.evaluateAll (n + 1) es') := by
  cases hes <;> unfold Machine.evaluateAll
  case nil => exact Matching.pure .nil
  case cons he hes =>
    exact (h.evaluate he).bind fun _ _ _ hv => (h.evaluateAll hes).bind fun hW _ _ hvs =>
      Matching.pure (.cons (hv.within hW) hvs)

theorem invoke_succ (h : MatchingParts A n) {v v' : Value} {t : Token} {vs vs' : List Value}
    (hv : W.Like A v v') (hvs : List.Forall₂ (W.Like A) vs vs') :
    Matching A W k (Alike A) (Machine.invoke (n + 1) v t vs) (Machine.invoke (n + 1) v' t vs') := by
  have hlength := hvs.length_eq
  unfold Machine.invoke
  rw [← hlength]
  cases hv with
  | native f =>
    exact (Matching.checkArity _ _ t).bind fun hW _ _ _ =>
      Matching.callNative f t (likes_within hvs hW)
  | function _ hf =>
    dsimp only
    rw [hf.arity]
    exact (Matching.checkArity _ _ t).bind fun hW _ _ _ =>
      h.call (hf.imp fun hf => hf.within hW) (likes_within hvs hW)
  | «class» hc =>
    have hinit := hc.method? initializerName
    dsimp only
    rw [hc.arity]
    refine (Matching.checkArity _ _ t).bind fun hW₁ _ _ _ =>
      Matching.newInstance.bind fun {W₂} hW₂ i i' heq => ?_
    obtain rfl := heq
    have hW := hW₁.trans hW₂
    have hclass : ∀ {W₃ : Framing}, W₂.Within W₃ → W₃.Like A (.instance i _) (.instance i _) :=
      fun hW₃ => .instance i (hc.imp fun _ _ hf => hf.within (hW.trans hW₃))
    generalize Class.method? initializerName _ = f? at hinit
    generalize Class.method? initializerName _ = f?' at hinit
    cases hinit with
    | none => exact Matching.pure (hclass (.refl _))
    | some hf =>
      refine (Matching.bindReceiver (hf.imp fun hf => hf.within hW) (hclass (.refl _))).bind
        fun hW₃ f f' hf => ?_
      refine (h.call hf (likes_within hvs (hW.trans hW₃))).bind fun hW₄ _ _ _ => ?_
      exact Matching.pure (hclass (hW₃.trans hW₄))
  | _ => exact Matching.fail _

theorem call_succ (h : MatchingParts A n) {f f' : Closure} {t : Token} {vs vs' : List Value}
    (hf : f.Like (W.Function A) f') (hvs : List.Forall₂ (W.Like A) vs vs') :
    Matching A W k (Alike A) (Machine.call (n + 1) f t vs) (Machine.call (n + 1) f' t vs') := by
  obtain ⟨j, hstands, hmoved, -⟩ := hf.same
  unfold Machine.call
  rw [← hf.isInitializer]
  refine (Matching.newFrame hstands hvs).bind fun hW g g' hp => ?_
  have hbody := Matching.within (k := k) (h.executeAll hmoved.body) (.frame hp)
  refine hbody.bind fun hW' flow flow' hflow => ?_
  split
  next hinit => exact Matching.boundReceiver (hf.same.within (hW.trans hW')) hinit t
  next =>
    cases hflow with
    | «return» hv => exact Matching.pure hv
    | _ => exact Matching.pure .nil

theorem execute_succ (h : MatchingParts A n) {s s' : Stmt} (hs : s.Moved A k s') :
    Matching A W k (FlowsAlike A) (Machine.execute (n + 1) s) (Machine.execute (n + 1) s') := by
  cases hs <;> unfold Machine.execute
  case expression he => exact (h.evaluate he).bind fun _ _ _ _ => Matching.pure .normal
  case print he =>
    refine (h.evaluate he).bind fun _ v v' hv => ?_
    rw [hv.text]
    exact (Matching.write _).bind fun _ _ _ _ => Matching.pure .normal
  case var t hk => exact (Matching.define hk t .nil).bind fun _ _ _ _ => Matching.pure .normal
  case initialized t _ _ hk he =>
    exact (h.evaluate he).bind fun _ _ _ hv =>
      (Matching.define hk t hv).bind fun _ _ _ _ => Matching.pure .normal
  case block hss =>
    exact Matching.get fun m m' hm => (Matching.newFrame hm.frame .nil).bind fun _ g g' hp =>
      Matching.within (h.executeAll hss) (.frame hp)
  case «if» he hs =>
    refine (h.evaluate he).bind fun _ v v' hv => ?_
    rw [hv.truthy]
    split
    · exact h.execute hs
    · exact Matching.pure .normal
  case ifElse he hs₁ hs₂ =>
    refine (h.evaluate he).bind fun _ v v' hv => ?_
    rw [hv.truthy]
    split
    · exact h.execute hs₁
    · exact h.execute hs₂
  case «while» he hs =>
    refine (h.evaluate he).bind fun _ v v' hv => ?_
    rw [hv.truthy]
    split
    · refine (h.execute hs).bind fun _ flow flow' hflow => ?_
      cases hflow with
      | normal => exact h.execute (.while he hs)
      | «break» => exact Matching.pure .normal
      | «return» hv => exact Matching.pure (.return hv)
    · exact Matching.pure .normal
  case «break» => exact Matching.pure .break
  case «return» => exact Matching.pure (.return .nil)
  case returned he => exact (h.evaluate he).bind fun _ _ _ hv => Matching.pure (.return hv)
  case function t f f' hk hf =>
    refine Matching.get fun m m' hm => ?_
    have hclosure : Closure.Like (W.Function A) ⟨some t.lexeme, f, m.frame, false⟩
        ⟨some t.lexeme, f', m'.frame, false⟩ :=
      ⟨rfl, congrArg List.length hf.params, rfl, .of_stands hm.frame hf rfl⟩
    exact (Matching.functionValue hclosure).bind fun _ _ _ hv =>
      (Matching.define hk t hv).bind fun _ _ _ _ => Matching.pure .normal
  case «class» t _ _ hk hms =>
    exact (Matching.declareClass hk t .none hms).bind fun _ _ _ _ => Matching.pure .normal
  case subclass t _ _ _ _ hk he hms =>
    have hline := he.line
    refine (h.evaluate he).bind fun _ v v' hv => ?_
    cases hv with
    | «class» hc =>
      exact (Matching.declareClass hk t (.some hc) hms).bind fun _ _ _ _ => Matching.pure .normal
    | _ =>
      dsimp only
      rw [hline]
      exact Matching.fail _

theorem executeAll_succ (h : MatchingParts A n) {ss ss' : List Stmt}
    (hss : MovedStatements A k ss ss') :
    Matching A W k (FlowsAlike A) (Machine.executeAll (n + 1) ss)
      (Machine.executeAll (n + 1) ss') := by
  cases hss <;> unfold Machine.executeAll
  case nil => exact Matching.pure .normal
  case cons hs hss =>
    refine (h.execute hs).bind fun _ flow flow' hflow => ?_
    cases hflow with
    | normal => exact h.executeAll hss
    | «break» => exact Matching.pure .break
    | «return» hv => exact Matching.pure (.return hv)

end MatchingParts

theorem matchingParts (A : Tables) (n : Nat) : MatchingParts A n := by
  induction n with
  | zero =>
    constructor
    all_goals intros
    all_goals exact Matching.throw .exhausted
  | succ n ih =>
    exact ⟨ih.evaluate_succ, ih.evaluateAll_succ, ih.invoke_succ, ih.call_succ, ih.execute_succ,
      ih.executeAll_succ⟩

end Lox.Machine
