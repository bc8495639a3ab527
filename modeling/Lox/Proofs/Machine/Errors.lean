import Lox.Proofs.Grammar.Sound.Whole
import Lox.Proofs.Machine.Traced

namespace Lox

open Machine

/-- Every part of the evaluator is traced to tokens as `P` says. -/
structure TracingParts (P : Token → Prop) (n : Nat) : Prop where
  evaluate : ∀ e m, e.Bears P → m.Bears P → Traces P m (Machine.evaluate n e) (Value.Bears P)
  evaluateAll : ∀ es m, BearsAll P es → m.Bears P →
    Traces P m (Machine.evaluateAll n es) fun vs => ∀ v ∈ vs, v.Bears P
  invoke : ∀ callee paren arguments m, callee.Bears P → P paren → (∀ v ∈ arguments, v.Bears P) →
    m.Bears P → Traces P m (Machine.invoke n callee paren arguments) (Value.Bears P)
  call : ∀ f paren arguments m, f.function.Bears P → P paren → (∀ v ∈ arguments, v.Bears P) →
    m.Bears P → Traces P m (Machine.call n f paren arguments) (Value.Bears P)
  execute : ∀ s m, s.Bears P → m.Bears P → Traces P m (Machine.execute n s) (Flow.Bears P)
  executeAll : ∀ ss m, BearsStatements P ss → m.Bears P →
    Traces P m (Machine.executeAll n ss) (Flow.Bears P)

namespace TracingParts

variable {P : Token → Prop} {n : Nat} {m : Machine}

theorem evaluate_succ (h : TracingParts P n) (e : Expr) (he : e.Bears P) (hm : m.Bears P) :
    Traces P m (Machine.evaluate (n + 1) e) (Value.Bears P) := by
  cases e <;> unfold Machine.evaluate <;> dsimp only
  case literal value => exact .pure hm fun f hf => absurd hf (Operation.not_has_literal value f)
  case grouping inner => exact h.evaluate inner m he hm
  case unary operator right =>
    obtain ⟨hoperator, hright⟩ := he
    refine (h.evaluate right m hright hm).bind fun v m₁ _ hm₁ _ => ?_
    exact .judged hm₁ hoperator (Operation.judges_unary operator v)
  case binary left operator right =>
    obtain ⟨hleft, hoperator, hright⟩ := he
    refine (h.evaluate left m hleft hm).bind fun v m₁ _ hm₁ _ => ?_
    refine (h.evaluate right m₁ hright hm₁).bind fun w m₂ _ hm₂ _ => ?_
    exact .judged hm₂ hoperator (Operation.judges_binary operator v w)
  case logical left operator right =>
    obtain ⟨hleft, -, hright⟩ := he
    refine (h.evaluate left m hleft hm).bind fun v m₁ _ hm₁ hv => ?_
    split
    · exact .pure hm₁ hv
    · exact h.evaluate right m₁ hright hm₁
  case «variable» id name => exact .readVariable hm id he
  case assign id name value =>
    obtain ⟨hname, hvalue⟩ := he
    refine (h.evaluate value m hvalue hm).bind fun v m₁ _ hm₁ hv => ?_
    exact (Traces.assignVariable hm₁ id hname hv).bind fun _ m₂ _ hm₂ _ => .pure hm₂ hv
  case call callee paren arguments =>
    obtain ⟨hcallee, harguments, hparen⟩ := he
    refine (h.evaluate callee m hcallee hm).bind fun v m₁ _ hm₁ hv => ?_
    refine (h.evaluateAll arguments m₁ harguments hm₁).bind fun vs m₂ _ hm₂ hvs => ?_
    exact h.invoke v paren vs m₂ hv hparen hvs hm₂
  case get object name =>
    obtain ⟨hobject, hname⟩ := he
    refine (h.evaluate object m hobject hm).bind fun v m₁ _ hm₁ hv => ?_
    cases v with
    | «instance» i c => exact .property hm₁ i hv.ofInstance hname
    | _ => exact .fail hname rfl
  case set object name value =>
    obtain ⟨hobject, hname, hvalue⟩ := he
    refine (h.evaluate object m hobject hm).bind fun o m₁ _ hm₁ _ => ?_
    cases o with
    | «instance» i c =>
      refine (h.evaluate value m₁ hvalue hm₁).bind fun v m₂ _ hm₂ hv => ?_
      exact (Traces.setField hm₂ i name hv).bind fun _ m₃ _ hm₃ _ => .pure hm₃ hv
    | _ => exact .fail hname rfl
  case «this» id keyword => exact .readVariable hm id he
  case «super» id keyword method => exact .superMethod hm id he.1 he.2
  case function function =>
    apply Traces.get
    exact .functionValue hm he

theorem evaluateAll_succ (h : TracingParts P n) (es : List Expr) (hes : BearsAll P es)
    (hm : m.Bears P) :
    Traces P m (Machine.evaluateAll (n + 1) es) fun vs => ∀ v ∈ vs, v.Bears P := by
  cases es <;> unfold Machine.evaluateAll
  case nil => exact .pure hm (List.forall_mem_nil _)
  case cons e es =>
    refine (h.evaluate e m hes.1 hm).bind fun v m₁ _ hm₁ hv => ?_
    refine (h.evaluateAll es m₁ hes.2 hm₁).bind fun vs m₂ _ hm₂ hvs => ?_
    exact .pure hm₂ (List.forall_mem_cons.mpr ⟨hv, hvs⟩)

theorem invoke_succ (h : TracingParts P n) (callee : Value) (paren : Token)
    (arguments : List Value) (hcallee : callee.Bears P) (hparen : P paren)
    (harguments : ∀ v ∈ arguments, v.Bears P) (hm : m.Bears P) :
    Traces P m (Machine.invoke (n + 1) callee paren arguments) (Value.Bears P) := by
  have harity : ∀ expected, Traces P m (Machine.checkArity expected arguments.length paren)
      fun _ => True := fun expected => .checkArity hm expected _ hparen
  unfold Machine.invoke
  split
  next f =>
    refine (harity f.arity).bind fun _ m₁ _ hm₁ _ => ?_
    exact .callNative hm₁ f hparen harguments
  next identity f =>
    refine (harity f.arity).bind fun _ m₁ _ hm₁ _ => ?_
    exact h.call f paren arguments m₁ (hcallee f .function) hparen harguments hm₁
  next c =>
    have hc : c.Bears P := hcallee.ofClass
    refine (harity (arity c)).bind fun _ m₁ _ hm₁ _ => ?_
    refine (Traces.newInstance hm₁).bind fun i m₂ _ hm₂ _ => ?_
    split
    next f hf =>
      have hinitializer : f.function.Bears P := hc f (Class.has_of_method? hf)
      refine (Traces.bindReceiver hm₂ f (.instance hc)).bind fun g m₃ _ hm₃ hg => ?_
      have hbound : g.function.Bears P := hg ▸ hinitializer
      refine (h.call g paren arguments m₃ hbound hparen harguments hm₃).bind fun _ m₄ _ hm₄ _ => ?_
      exact .pure hm₄ (.instance hc)
    next => exact .pure hm₂ (.instance hc)
  next => exact .fail hparen rfl

theorem call_succ (h : TracingParts P n) (f : Closure) (paren : Token) (arguments : List Value)
    (hf : f.function.Bears P) (hparen : P paren) (harguments : ∀ v ∈ arguments, v.Bears P)
    (hm : m.Bears P) :
    Traces P m (Machine.call (n + 1) f paren arguments) (Value.Bears P) := by
  have hbody : Traces P m (newFrame f.frame arguments >>= fun frame =>
      within frame (Machine.executeAll n f.function.body)) (Flow.Bears P) :=
    .inside hm f.frame harguments ((retainingParts n).executeAll f.function.body) fun m' hm' =>
      h.executeAll f.function.body m' hf.body hm'
  unfold Machine.call
  rw [← bind_assoc]
  refine hbody.bind fun flow m₁ _ hm₁ hflow => ?_
  split
  · exact .boundReceiver hm₁ f hparen
  · split
    next v => exact .pure hm₁ hflow
    next => exact .pure hm₁ .nil

theorem execute_succ (h : TracingParts P n) (s : Stmt) (hs : s.Bears P) (hm : m.Bears P) :
    Traces P m (Machine.execute (n + 1) s) (Flow.Bears P) := by
  have hnil : Value.Bears P .nil := .nil
  unfold Machine.execute
  split
  next e => exact (h.evaluate e m hs hm).bind fun v m₁ _ hm₁ _ => .pure hm₁ trivial
  next e =>
    refine (h.evaluate e m hs hm).bind fun v m₁ _ hm₁ _ => ?_
    exact (Traces.write hm₁ v.text).bind fun _ m₂ _ hm₂ _ => .pure hm₂ trivial
  next name => exact (Traces.define hm name hnil).bind fun _ m₁ _ hm₁ _ => .pure hm₁ trivial
  next name value =>
    refine (h.evaluate value m hs.2 hm).bind fun v m₁ _ hm₁ hv => ?_
    exact (Traces.define hm₁ name hv).bind fun _ m₂ _ hm₂ _ => .pure hm₂ trivial
  next statements =>
    apply Traces.get
    exact .inside hm m.frame (List.forall_mem_nil _) ((retainingParts n).executeAll statements)
      fun m' hm' => h.executeAll statements m' hs hm'
  next condition thenBranch elseBranch =>
    cases elseBranch with
    | none =>
      refine (h.evaluate condition m hs.1 hm).bind fun v m₁ _ hm₁ _ => ?_
      split
      · exact h.execute thenBranch m₁ hs.2 hm₁
      · exact .pure hm₁ trivial
    | some elseBranch =>
      refine (h.evaluate condition m hs.1 hm).bind fun v m₁ _ hm₁ _ => ?_
      split
      · exact h.execute thenBranch m₁ hs.2.1 hm₁
      · exact h.execute elseBranch m₁ hs.2.2 hm₁
  next condition body =>
    refine (h.evaluate condition m hs.1 hm).bind fun v m₁ _ hm₁ _ => ?_
    split
    · refine (h.execute body m₁ hs.2 hm₁).bind fun flow m₂ _ hm₂ hflow => ?_
      split
      · exact h.execute (.while condition body) m₂ hs hm₂
      · exact .pure hm₂ trivial
      · exact .pure hm₂ hflow
    · exact .pure hm₁ trivial
  next => exact .pure hm trivial
  next => exact .pure hm hnil
  next keyword value =>
    exact (h.evaluate value m hs.2 hm).bind fun v m₁ _ hm₁ hv => .pure hm₁ hv
  next name function =>
    apply Traces.get
    refine (Traces.functionValue hm hs.2).bind fun v m₁ _ hm₁ hv => ?_
    exact (Traces.define hm₁ name hv).bind fun _ m₂ _ hm₂ _ => .pure hm₂ trivial
  next name methods =>
    have hsuper : ∀ c : Class, none = some c → c.Bears P := by simp
    exact (Traces.declareClass hm name hsuper hs.2).bind fun _ m₁ _ hm₁ _ => .pure hm₁ trivial
  next name superclass methods =>
    obtain ⟨-, ⟨id, t, rfl, ht⟩, hmethods⟩ := hs
    refine (h.evaluate (.variable id t) m ht hm).bind fun v m₁ _ hm₁ hv => ?_
    cases v with
    | «class» c =>
      have hsuper : ∀ d : Class, some c = some d → d.Bears P := by
        rintro _ ⟨⟩
        exact hv.ofClass
      exact (Traces.declareClass hm₁ name hsuper hmethods).bind fun _ m₂ _ hm₂ _ =>
        .pure hm₂ trivial
    | _ => exact .fail ht rfl

theorem executeAll_succ (h : TracingParts P n) (ss : List Stmt) (hss : BearsStatements P ss)
    (hm : m.Bears P) : Traces P m (Machine.executeAll (n + 1) ss) (Flow.Bears P) := by
  cases ss <;> unfold Machine.executeAll
  case nil => exact .pure hm trivial
  case cons s ss =>
    refine (h.execute s m hss.1 hm).bind fun flow m₁ _ hm₁ hflow => ?_
    split
    · exact h.executeAll ss m₁ hss.2 hm₁
    · exact .pure hm₁ hflow

end TracingParts

theorem tracingParts (P : Token → Prop) (n : Nat) : TracingParts P n := by
  induction n with
  | zero =>
    constructor
    all_goals intros
    · exact .exhausted
    · exact .exhausted
    · exact .exhausted
    · exact .exhausted
    · exact .exhausted
    · exact .exhausted
  | succ n ih =>
    exact ⟨fun e _ => ih.evaluate_succ e, fun es _ => ih.evaluateAll_succ es,
      fun callee paren arguments _ => ih.invoke_succ callee paren arguments,
      fun f paren arguments _ => ih.call_succ f paren arguments, fun s _ => ih.execute_succ s,
      fun ss _ => ih.executeAll_succ ss⟩

def Expr.Parsed (e : Expr) : Prop :=
  ∃ loop rank ts, Grammar.Derives true loop (.expression rank) ts e

def Function.Parsed (f : Function) : Prop := ∃ loop ts, Grammar.Derives true loop .function ts f

def Stmt.Parsed (s : Stmt) : Prop :=
  ∃ loop dangling ts, Grammar.Derives true loop (.declaration dangling) ts s

theorem parsed_of_derives {loop : Bool} {ts : List Token} {ss : List Stmt} :
    Grammar.Derives true loop .declarations ts ss → ∀ s ∈ ss, s.Parsed := by
  intro h
  induction ss generalizing ts with
  | nil => exact List.forall_mem_nil _
  | cons s ss ih =>
    cases h with
    | declarations hs hss => exact List.forall_mem_cons.mpr ⟨⟨_, _, _, hs⟩, ih hss⟩

theorem parsed_of_read_program {ts : List Token} {firstId : Nat} {program : List Stmt}
    (h : (Grammar.read Grammar.program ts firstId).result = .ok program) :
    ∀ s ∈ program, s.Parsed :=
  parsed_of_derives ((Grammar.read_program_spec ts firstId).tree program h).1

theorem Expr.Parsed.bears {P : Token → Prop} {e : Expr} (h : e.Parsed)
    (hP : ∀ t ∈ e.tokens, P t) : e.Bears P := by
  obtain ⟨_, _, ts, hderives⟩ := h
  have hany : e.Bears fun _ => True := hderives.bears fun _ _ => trivial
  exact Expr.Bears.of_tokens e hany hP

theorem Function.Parsed.bears {P : Token → Prop} {f : Function} (h : f.Parsed)
    (hP : ∀ t ∈ f.tokens, P t) : f.Bears P := by
  obtain ⟨_, ts, hderives⟩ := h
  have hany : f.Bears fun _ => True := hderives.bears fun _ _ => trivial
  exact Function.Bears.of_tokens f hany hP

theorem Stmt.Parsed.bears {P : Token → Prop} {s : Stmt} (h : s.Parsed)
    (hP : ∀ t ∈ s.tokens, P t) : s.Bears P := by
  obtain ⟨_, _, ts, hderives⟩ := h
  have hany : s.Bears fun _ => True := hderives.bears fun _ _ => trivial
  exact Stmt.Bears.of_tokens s hany hP

namespace Machine

/-- The machine holds the function, or a host function hands it out without having been given it. -/
inductive Offers (m : Machine) (f : Closure) : Prop where
  | held : m.Holds f → Offers m f
  | handed {body turn vs v} : body ∈ m.natives → body turn vs = .ok v → v.Has f →
    (∀ u ∈ vs, ¬ u.Has f) → Offers m f

/-- The error is at the line of one of these tokens, or of a token in a function of the machine. -/
structure Explains (m : Machine) (ts : List Token) (e : RuntimeError) : Prop where
  slot : ∀ a, e ≠ .invalidSlot a
  line : ∃ t, (t ∈ ts ∨ ∃ f, m.Offers f ∧ t ∈ f.function.tokens) ∧ e.line? = some t.line

variable {m : Machine}

theorem Explains.of_line {ts : List Token} {e : RuntimeError}
    (h : ∃ t, (t ∈ ts ∨ ∃ f, m.Offers f ∧ t ∈ f.function.tokens) ∧ e.line? = some t.line) :
    m.Explains ts e := by
  refine ⟨fun a ha => ?_, h⟩
  obtain ⟨t, -, hline⟩ := h
  rw [ha] at hline
  exact nomatch hline

/-- What holds of the tokens in the functions that a machine has goes on to hold. -/
theorem Bears.of_offers {P : Token → Prop} (hpresent : m.Present)
    (hparsed : ∀ f, m.Offers f → f.function.Parsed)
    (hP : ∀ f, m.Offers f → ∀ t ∈ f.function.tokens, P t) : m.Bears P := by
  have hbears : ∀ f, m.Offers f → f.function.Bears P := fun f hf =>
    (hparsed f hf).bears (hP f hf)
  refine ⟨hpresent, .of_holds fun f hf => hbears f (.held hf), ?_⟩
  intro body hbody turn vs v hvs hv f hf
  by_cases hgiven : ∃ u ∈ vs, u.Has f
  · obtain ⟨u, hu, hfu⟩ := hgiven
    exact hvs u hu f hfu
  · exact hbears f (.handed hbody hv hf fun u hu hfu => hgiven ⟨u, hu, hfu⟩)

end Machine

/-- Whatever addresses a machine has been given, no statement and no expression that the grammar
allows reports an address, and each error it reports is explained by a line of the text. -/
theorem errors_explained (m : Machine) (hpresent : m.Present)
    (hparsed : ∀ f, m.Offers f → f.function.Parsed) (n : Nat) :
    (∀ s e m', s.Parsed → execute n s m = .error (.error e) m' → m.Explains s.tokens e) ∧
      (∀ x e m', x.Parsed → evaluate n x m = .error (.error e) m' → m.Explains x.tokens e) := by
  -- The functions that come up on the way are in the tree or in the machine.
  have hbears : ∀ ts : List Token,
      m.Bears fun t => t ∈ ts ∨ ∃ f, m.Offers f ∧ t ∈ f.function.tokens := fun ts =>
    .of_offers hpresent hparsed fun f hf t ht => .inr ⟨f, hf, ht⟩
  constructor
  · intro s e m' hs hend
    have htraces := (tracingParts _ n).execute s m (hs.bears fun t => .inl) (hbears s.tokens)
    rw [Traces, hend] at htraces
    exact .of_line htraces
  · intro x e m' hx hend
    have htraces := (tracingParts _ n).evaluate x m (hx.bears fun t => .inl) (hbears x.tokens)
    rw [Traces, hend] at htraces
    exact .of_line htraces

/-- A function `f` that reads a local on line 7. -/
def strayFunction : Closure :=
  ⟨some "f", ⟨[], [.print (.variable 1 ⟨.identifier, "x", 7⟩)]⟩, none, false⟩

/-- A machine that finds this local at an address far outside of all frames. -/
def strayMachine : Machine :=
  { Machine.empty.defineGlobal "f" (.function 0 strayFunction) with
    addresses := Std.TreeMap.insert ∅ 1 ⟨3, 5⟩ }

theorem strayFunction_parsed : strayFunction.function.Parsed := by
  have hname : Grammar.Derives true false (.expression .primary) [⟨.identifier, "x", 7⟩]
      (.variable 1 ⟨.identifier, "x", 7⟩) := .name rfl
  have hread : Grammar.Derives true false (.expression .assignment) [⟨.identifier, "x", 7⟩]
      (.variable 1 ⟨.identifier, "x", 7⟩) :=
    .operand rfl (.operand rfl (.operand rfl (.operand rfl (.operand rfl (.operand rfl
      (.operand rfl (.operand rfl (.operand rfl hname))))))))
  have hprint : Grammar.Derives true false (.statement false)
      [⟨.print, "print", 7⟩, ⟨.identifier, "x", 7⟩, ⟨.semicolon, ";", 7⟩]
      (.print (.variable 1 ⟨.identifier, "x", 7⟩)) := .print rfl hread rfl
  have hopening : (⟨.leftParen, "(", 7⟩ : Token).kind = .leftParen := rfl
  have hclosing : (⟨.rightParen, ")", 7⟩ : Token).kind = .rightParen := rfl
  have hbrace : (⟨.leftBrace, "\x7b", 7⟩ : Token).kind = .leftBrace := rfl
  have hlast : (⟨.rightBrace, "\x7d", 7⟩ : Token).kind = .rightBrace := rfl
  exact ⟨false, _, .function hopening .none hclosing hbrace
    (.declarations (.statement hprint) .noDeclarations) hlast⟩

theorem eq_of_offers_strayMachine {f : Closure} (h : strayMachine.Offers f) : f = strayFunction := by
  cases h with
  | held h =>
    cases h with
    | @global name v hv hf =>
      have hglobal : (Std.TreeMap.insert ∅ "f" (Value.function 0 strayFunction))[name]? = some v :=
        hv
      rw [Std.TreeMap.getElem?_insert] at hglobal
      split at hglobal
      · obtain rfl := Option.some.inj hglobal
        cases hf
        rfl
      · simp at hglobal
    | @cell g _ _ hget =>
      have hnone : strayMachine.frames.get? g = none := rfl
      simp [hnone] at hget
    | @field i _ _ _ hi =>
      have hnone : strayMachine.instances[i]? = none := rfl
      simp [hnone] at hi
  | handed hbody => exact absurd hbody (Array.not_mem_empty _)

/-- The call `f();` on line 1 reports the name that it did not find on line 7. -/
theorem errors_explained_stray :
    strayMachine.Present ∧ (∀ f, strayMachine.Offers f → f.function.Parsed) ∧
      ∃ call, (readProgram "f();" 2).result = .ok [call] ∧
        (∃ m', execute 9 call strayMachine = .error (.error (.undefinedVariable "x" 7)) m') ∧
        strayMachine.Explains call.tokens (.undefinedVariable "x" 7) := by
  have hpresent : strayMachine.Present := nofun
  have hparsed : ∀ f, strayMachine.Offers f → f.function.Parsed := fun f hf =>
    eq_of_offers_strayMachine hf ▸ strayFunction_parsed
  have hread : (readProgram "f();" 2).result =
      .ok [.expression (.call (.variable 2 ⟨.identifier, "f", 1⟩) ⟨.rightParen, ")", 1⟩ [])] := rfl
  have hgrammar : (Grammar.read Grammar.program (tokens (scan "f();")) 2).result =
      .ok [.expression (.call (.variable 2 ⟨.identifier, "f", 1⟩) ⟨.rightParen, ")", 1⟩ [])] := rfl
  have hcall : Stmt.Parsed
      (.expression (.call (.variable 2 ⟨.identifier, "f", 1⟩) ⟨.rightParen, ")", 1⟩ [])) :=
    parsed_of_read_program hgrammar _ (List.mem_singleton.mpr rfl)
  have hend : ∃ m', execute 9
      (.expression (.call (.variable 2 ⟨.identifier, "f", 1⟩) ⟨.rightParen, ")", 1⟩ []))
      strayMachine = .error (.error (.undefinedVariable "x" 7)) m' := ⟨_, rfl⟩
  refine ⟨hpresent, hparsed, _, hread, hend, ?_⟩
  obtain ⟨m', hend⟩ := hend
  exact (errors_explained strayMachine hpresent hparsed 9).1 _ _ m' hcall hend

end Lox
