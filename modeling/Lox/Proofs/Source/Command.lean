import Lox.Proofs.Source.Statement

namespace Lox.Grammar

variable {loop d : Bool} {e : Expr} {s : Stmt} {ss : List Stmt} {name keyword : Token}

theorem PrintedStatement.renders (h : PrintedStatement loop d s) : RendersStatement loop d s :=
  ⟨d, id, h⟩

theorem RendersStatement.declaration (h : RendersStatement loop d s) :
    RendersDeclaration loop s := by
  obtain ⟨d', -, h⟩ := h
  exact ⟨d', h.imp fun _ ⟨s', hd, hs⟩ => ⟨s', .statement hd, hs⟩⟩

theorem RendersVariable.declaration (h : RendersVariable loop s) : RendersDeclaration loop s :=
  ⟨false, h.imp fun _ ⟨s', hd, hs⟩ => ⟨s', .declareVariable hd, hs⟩⟩

theorem printed_break (hk : keyword.kind = .break) (ht : keyword.Written) :
    PrintedStatement true false (.break keyword) := by
  have hlexeme := ht.lexeme (by rw [hk]; rfl)
  rw [PrintedStatement, Stmt.source]
  refine .word (w := "break".toList) (b := [';']) (isWord_keyword rfl) (fun _ _ => rfl)
    fun line => ?_
  refine .semicolon fun line' => ⟨.break _, .break rfl rfl, ?_⟩
  simp [Stmt.forget, Token.bare, hk, hlexeme]

theorem rendersDeclarations_nil : RendersDeclarations loop [] := .done ⟨[], .noDeclarations, rfl⟩

theorem rendersDeclarations_cons (h : RendersDeclaration loop s)
    (hss : RendersDeclarations loop ss) : RendersDeclarations loop (s :: ss) := by
  obtain ⟨d, h⟩ := h
  cases ss with
  | nil =>
    exact h.imp fun ts ⟨s', hd, hs⟩ =>
      ⟨[s'], by simpa using Derives.declarations hd .noDeclarations, by simp [hs]⟩
  | cons s' ss =>
    have htext : (sourceStatements (s :: s' :: ss)).toList =
        s.source.toList ++ ' ' :: (sourceStatements (s' :: ss)).toList := by
      simp [sourceStatements]
    rw [RendersDeclarations, htext]
    refine h.append (fun _ _ => rfl) fun ts₁ ⟨s₁, hd₁, hs₁⟩ => .space ?_
    refine hss.imp fun ts₂ ⟨ss₂, hd₂, hss₂⟩ => ⟨_, .declarations hd₁ hd₂, ?_⟩
    rw [List.map_cons, List.map_cons, hs₁, hss₂]

theorem printed_block (h : RendersDeclarations loop ss) :
    PrintedStatement loop false (.block ss) := by
  have htext : (Stmt.block ss).source.toList =
      '\x7b' :: ' ' :: ((sourceStatements ss).toList ++ [' ', '\x7d']) := by
    simp [Stmt.source]
  rw [PrintedStatement, htext]
  refine .mark (fun _ => rfl) (fun _ => rfl) fun line => .space ?_
  refine h.append (fun _ _ => rfl) fun ts hts => .space ?_
  obtain ⟨ss', hd, hss⟩ := hts
  refine .mark (fun _ => rfl) (fun _ => rfl) fun line' => .done ⟨.block ss', .block rfl hd rfl, ?_⟩
  simp [Stmt.forget, hss]

/-- A keyword and a condition in parentheses, in front of what they are for. -/
theorem printed_condition {P : List Token → Prop} {k : Kind} {w b : List Char} (hw : IsWord k w)
    (he : RendersExpression loop .assignment e)
    (hnext : ∀ line line' line'' ts (e' : Expr), Derives true loop (.expression .assignment) ts e' →
      e'.forget Token.bare = e.forget Token.bare →
      Printed (fun us => P (⟨k, String.ofList w, line⟩ :: ⟨.leftParen, "(", line'⟩ ::
        (ts ++ ⟨.rightParen, ")", line''⟩ :: us))) b) :
    Printed P (w ++ ' ' :: '(' :: (e.source.toList ++ ')' :: ' ' :: b)) := by
  refine .word hw (fun _ _ => rfl) fun line => .space ?_
  refine .mark (fun _ => rfl) (fun _ => rfl) fun line' => ?_
  refine he.append (fun _ _ => rfl) fun ts h => ?_
  obtain ⟨e', hd, he'⟩ := h
  exact .mark (fun _ => rfl) (fun _ => rfl) fun line'' =>
    .space (hnext line line' line'' ts e' hd he')

theorem printed_while (he : RendersExpression loop .assignment e)
    (hs : PrintedStatement true d s) : PrintedStatement loop d (.while e s) := by
  have htext : (Stmt.while e s).source.toList = "while".toList ++
      ' ' :: '(' :: (e.source.toList ++ ')' :: ' ' :: s.source.toList) := by
    simp [Stmt.source]
  rw [PrintedStatement, htext]
  refine printed_condition (isWord_keyword rfl) he fun line line' line'' ts₁ e' hd₁ he' => ?_
  refine hs.imp fun ts₂ h₂ => ?_
  obtain ⟨s', hd₂, hs'⟩ := h₂
  refine ⟨.while e' s', .while rfl rfl hd₁ rfl hd₂, ?_⟩
  simp [Stmt.forget, he', hs']

theorem rendersStatement_while (he : RendersExpression loop .assignment e)
    (hs : RendersStatement true d s) : RendersStatement loop d (.while e s) := by
  obtain ⟨d', hd', hs⟩ := hs
  exact ⟨d', hd', printed_while he hs⟩

theorem printed_if (he : RendersExpression loop .assignment e) (hs : PrintedStatement loop d s) :
    PrintedStatement loop true (.ifElse e s none) := by
  have htext : (Stmt.ifElse e s none).source.toList = "if".toList ++
      ' ' :: '(' :: (e.source.toList ++ ')' :: ' ' :: s.source.toList) := by
    simp [Stmt.source]
  rw [PrintedStatement, htext]
  refine printed_condition (isWord_keyword rfl) he fun line line' line'' ts₁ e' hd₁ he' => ?_
  refine hs.imp fun ts₂ h₂ => ?_
  obtain ⟨s', hd₂, hs'⟩ := h₂
  refine ⟨.ifElse e' s' none, .if rfl rfl hd₁ rfl hd₂, ?_⟩
  simp [he', hs']

/-- The first branch does not dangle, so the `else` comes back to its `if`. -/
theorem printed_ifElse {other : Stmt} (he : RendersExpression loop .assignment e)
    (hs : PrintedStatement loop false s) (hother : PrintedStatement loop d other) :
    PrintedStatement loop d (.ifElse e s (some other)) := by
  have htext : (Stmt.ifElse e s (some other)).source.toList = "if".toList ++
      ' ' :: '(' :: (e.source.toList ++ ')' :: ' ' :: (s.source.toList ++
        ' ' :: ("else".toList ++ ' ' :: other.source.toList))) := by
    simp [Stmt.source]
  rw [PrintedStatement, htext]
  refine printed_condition (isWord_keyword rfl) he fun line line' line'' ts₁ e' hd₁ he' => ?_
  refine hs.append (fun _ _ => rfl) fun ts₂ h₂ => .space ?_
  obtain ⟨s', hd₂, hs'⟩ := h₂
  refine .word (isWord_keyword rfl) (fun _ _ => rfl) fun last => .space ?_
  refine hother.imp fun ts₃ h₃ => ?_
  obtain ⟨other', hd₃, hother'⟩ := h₃
  refine ⟨.ifElse e' s' (some other'), ?_, ?_⟩
  · exact .ifElse rfl rfl hd₁ rfl hd₂ (fun _ => rfl) rfl hd₃
  · simp [he', hs', hother']

theorem rendersStatement_round (hs : RendersStatement true d s) (step : Option Expr) :
    RendersOptional loop step → RendersStatement true d
      (match step with
        | some step => .block [s, .expression step]
        | none => s) := by
  intro hstep
  cases step with
  | none => exact hs
  | some e =>
    have hlast := (printed_expression ((hstep e rfl).weaken)).renders.declaration
    have hss := rendersDeclarations_cons hs.declaration
      (rendersDeclarations_cons hlast rendersDeclarations_nil)
    exact ⟨false, by simp, printed_block hss⟩

theorem rendersExpression_true : RendersExpression loop .assignment (.literal .true) := by
  have hword : RendersExpression loop .primary (.literal .true) := by
    rw [RendersExpression, Expr.source]
    exact .single (isWord_keyword rfl) fun line => ⟨_, .literal rfl, rfl⟩
  have hterm : RendersExpression loop .term (.literal .true) :=
    .operand rfl (.operand rfl (.operand rfl (.operand rfl hword)))
  exact .operand rfl (.operand rfl (.operand rfl (.operand rfl (.operand rfl hterm))))

theorem rendersStatement_for {start : Option Stmt} {condition step : Option Expr}
    (hstart : RendersStart loop start) (hcondition : RendersOptional loop condition)
    (hstep : RendersOptional loop step) (hs : RendersStatement true d s) :
    RendersStatement loop d (forLoop start condition step s) := by
  have he : RendersExpression loop .assignment (condition.getD (.literal .true)) := by
    cases condition with
    | none => exact rendersExpression_true
    | some e => exact hcondition e rfl
  have hloop := rendersStatement_while he (rendersStatement_round hs step hstep)
  cases start with
  | none => exact hloop
  | some s =>
    have hss := rendersDeclarations_cons (hstart s rfl)
      (rendersDeclarations_cons hloop.declaration rendersDeclarations_nil)
    exact ⟨false, by simp, printed_block hss⟩

theorem rendersVariable {value : Option Expr} (hname : name.kind = .identifier)
    (ht : name.Written) (h : RendersOptional loop value) :
    RendersVariable loop (.var name value) := by
  cases value with
  | none =>
    have htext : (Stmt.var name none).source.toList =
        "var".toList ++ ' ' :: (name.lexeme.toList ++ [';']) := by
      simp [Stmt.source]
    rw [RendersVariable, htext]
    refine .word (isWord_keyword rfl) (fun _ _ => rfl) fun line => .space ?_
    refine .token ht (fun _ _ => rfl) fun line' => ?_
    refine .semicolon fun line'' => ⟨.var _ none, .bare rfl hname rfl, ?_⟩
    simp [Token.bare]
  | some e =>
    have htext : (Stmt.var name (some e)).source.toList = "var".toList ++
        ' ' :: (name.lexeme.toList ++ ' ' :: '=' :: ' ' :: (e.source.toList ++ [';'])) := by
      simp [Stmt.source]
    rw [RendersVariable, htext]
    refine .word (isWord_keyword rfl) (fun _ _ => rfl) fun line => .space ?_
    refine .token ht (fun _ _ => rfl) fun line' => .space ?_
    refine .equals fun line'' => ?_
    refine (h e rfl).append (fun _ _ => rfl) fun ts hts => ?_
    obtain ⟨e', hd, he⟩ := hts
    refine .semicolon fun last => ⟨.var _ (some e'), .initialized rfl hname rfl hd rfl, ?_⟩
    simp [Token.bare, he]

theorem rendersDeclaration_function {m : Method} (h : RendersMethod loop m) :
    RendersDeclaration loop (.function m) := by
  have htext : (Stmt.function m).source.toList = "fun".toList ++ ' ' :: m.source.toList := by
    simp [Stmt.source]
  rw [RendersDeclaration, htext]
  refine ⟨false, .word (isWord_keyword rfl) (fun _ _ => rfl) fun line => .space ?_⟩
  refine h.imp fun ts ⟨m', hd, hm⟩ => ⟨.function m', .declareFunction rfl hd, ?_⟩
  simp [Stmt.forget, hm]

theorem rendersDeclaration_class {ms : List Method} (hname : name.kind = .identifier)
    (ht : name.Written) (h : RendersMethods loop ms) :
    RendersDeclaration loop (.class name none ms) := by
  have htext : (Stmt.class name none ms).source.toList = "class".toList ++
      ' ' :: (name.lexeme.toList ++ ' ' :: '\x7b' ::
        ((sourceMethods ms).toList ++ [' ', '\x7d'])) := by
    simp [Stmt.source]
  rw [RendersDeclaration, htext]
  refine ⟨false, .word (isWord_keyword rfl) (fun _ _ => rfl) fun line => .space ?_⟩
  refine .token ht (fun _ _ => rfl) fun line' => .space ?_
  refine .mark (fun _ => rfl) (fun _ => rfl) fun line'' => ?_
  refine h.append (fun _ _ => rfl) fun ts ⟨ms', hd, hms⟩ => .space ?_
  refine .mark (fun _ => rfl) (fun _ => rfl) fun last => .done ?_
  refine ⟨.class _ none ms', .declareClass rfl hname rfl hd rfl, ?_⟩
  simp [hms, Token.bare]

theorem rendersDeclaration_subclass {id : Nat} {superclass : Token} {ms : List Method}
    (hname : name.kind = .identifier) (ht : name.Written)
    (hsuperclass : superclass.kind = .identifier) (ht' : superclass.Written)
    (h : RendersMethods loop ms) :
    RendersDeclaration loop (.class name (some (.variable id superclass)) ms) := by
  have htext : (Stmt.class name (some (.variable id superclass)) ms).source.toList =
      "class".toList ++ ' ' :: (name.lexeme.toList ++ ' ' :: (['<'] ++
        ' ' :: (superclass.lexeme.toList ++ ' ' :: '\x7b' ::
          ((sourceMethods ms).toList ++ [' ', '\x7d'])))) := by
    simp [Stmt.source, Expr.source]
  rw [RendersDeclaration, htext]
  refine ⟨false, .word (isWord_keyword rfl) (fun _ _ => rfl) fun line => .space ?_⟩
  refine .token ht (fun _ _ => rfl) fun line' => .space ?_
  refine .word (isWord_short (fun _ => rfl) fun _ h => h) (fun _ _ => rfl) fun less => .space ?_
  refine .token ht' (fun _ _ => rfl) fun line'' => .space ?_
  refine .mark (fun _ => rfl) (fun _ => rfl) fun opening => ?_
  refine h.append (fun _ _ => rfl) fun ts ⟨ms', hd, hms⟩ => .space ?_
  refine .mark (fun _ => rfl) (fun _ => rfl) fun last => .done ?_
  refine ⟨.class _ (some (.variable 0 _)) ms',
    .declareSubclass rfl hname rfl hsuperclass rfl hd rfl, ?_⟩
  simp [hms, Token.bare, Expr.forget]

end Lox.Grammar
