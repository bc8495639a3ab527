import Lox.Proofs.Source.Expression

namespace Lox.Grammar

variable {loop d : Bool} {e : Expr} {s : Stmt} {keyword : Token}

abbrev PrintedStatement (loop d : Bool) (s : Stmt) : Prop :=
  Printed (Restores (α := Stmt) (Derives true loop (.statement d)) (Stmt.forget Token.bare) s)
    s.source.toList

/-- A statement may dangle less than it did, as a `for` is written as a block. -/
def RendersStatement (loop d : Bool) (s : Stmt) : Prop :=
  ∃ d', (d' = true → d = true) ∧ PrintedStatement loop d' s

def RendersDeclaration (loop : Bool) (s : Stmt) : Prop :=
  ∃ d, Printed (Restores (α := Stmt) (Derives true loop (.declaration d))
    (Stmt.forget Token.bare) s) s.source.toList

abbrev RendersVariable (loop : Bool) (s : Stmt) : Prop :=
  Printed (Restores (α := Stmt) (Derives true loop .variable) (Stmt.forget Token.bare) s)
    s.source.toList

abbrev RendersDeclarations (loop : Bool) (ss : List Stmt) : Prop :=
  Printed (Restores (α := List Stmt) (Derives true loop .declarations)
    (List.map (Stmt.forget Token.bare)) ss) (sourceStatements ss).toList

abbrev RendersFunction (loop : Bool) (f : Function) : Prop :=
  Printed (Restores (α := Function) (Derives true loop .function) (Function.forget Token.bare) f)
    f.source.toList

abbrev RendersMethod (loop : Bool) (m : Method) : Prop :=
  Printed (Restores (α := Method) (Derives true loop .method) (Method.forget Token.bare) m)
    m.source.toList

abbrev RendersMethods (loop : Bool) (ms : List Method) : Prop :=
  Printed (Restores (α := List Method) (Derives true loop .methods)
    (List.map (Method.forget Token.bare)) ms) (sourceMethods ms).toList

def RendersOptional (loop : Bool) (o : Option Expr) : Prop :=
  ∀ e, o = some e → RendersExpression loop .assignment e

def RendersStart (loop : Bool) (o : Option Stmt) : Prop :=
  ∀ s, o = some s → RendersDeclaration loop s

theorem sourceParameters_cons {name : Token} {names : List Token} (hne : names ≠ []) :
    (parameterList (name :: names)).toList =
      name.lexeme.toList ++ ',' :: ' ' :: (parameterList names).toList := by
  cases names with
  | nil => exact absurd rfl hne
  | cons name' names => simp [parameterList, String.intercalate_cons_cons]

theorem printed_names {names ts : List Token}
    (h : Separated (fun ts (name : Token) => name.kind = .identifier ∧ ts = [name]) ts names)
    (ht : ∀ t ∈ ts, t.Written) :
    names ≠ [] ∧ Printed (Restores (Separated fun ts (name : Token) =>
      name.kind = .identifier ∧ ts = [name]) (List.map Token.bare) names)
        (parameterList names).toList := by
  induction h with
  | @one _ name h =>
    obtain ⟨hname, rfl⟩ := h
    refine ⟨by simp, ?_⟩
    rw [show parameterList [name] = name.lexeme by simp [parameterList]]
    refine .single (ht name (by simp)) fun line => ?_
    exact ⟨_, .one (a := ⟨name.kind, name.lexeme, line⟩) ⟨hname, by simp⟩, by simp [Token.bare]⟩
  | @more _ _ name names comma h hcomma _ ih =>
    obtain ⟨hname, rfl⟩ := h
    obtain ⟨hne, ih⟩ := ih fun t h => ht t (by simp [h])
    refine ⟨by simp, ?_⟩
    rw [sourceParameters_cons hne]
    refine .token (ht name (by simp)) (fun _ _ => rfl) fun line => ?_
    refine .mark (fun _ => rfl) (fun _ => rfl) fun line' => .space ?_
    refine ih.imp fun ts' hts' => ?_
    obtain ⟨names', hsep, hnames⟩ := hts'
    refine ⟨_, .more (a := ⟨name.kind, name.lexeme, line⟩) ⟨hname, rfl⟩ rfl hsep, ?_⟩
    simp [hnames, Token.bare]

theorem printed_parameters {params ts : List Token} (h : Parameters ts params)
    (ht : ∀ t ∈ ts, t.Written) :
    Printed (Restores Parameters (List.map Token.bare) params) (parameterList params).toList := by
  cases h with
  | none => exact .done ⟨[], .none, rfl⟩
  | some h hmax =>
    refine (printed_names h ht).2.imp fun ts' ⟨names, hsep, hnames⟩ => ⟨names, .some hsep ?_, hnames⟩
    have hlen := congrArg List.length hnames
    simp only [List.length_map] at hlen
    rwa [hlen]

theorem rendersFunction {params ts : List Token} {body : List Stmt} (h : Parameters ts params)
    (ht : ∀ t ∈ ts, t.Written) (hbody : RendersDeclarations false body) :
    RendersFunction loop ⟨params, body⟩ := by
  have htext : (Function.mk params body).source.toList = '(' :: ((parameterList params).toList ++
      ')' :: ' ' :: '\x7b' :: ' ' :: ((sourceStatements body).toList ++ [' ', '\x7d'])) := by
    simp [Function.source]
  rw [RendersFunction, htext]
  refine .mark (fun _ => rfl) (fun _ => rfl) fun line => ?_
  refine (printed_parameters h ht).append (fun _ _ => rfl) fun ts₁ ⟨params', hp, hparams⟩ => ?_
  refine .mark (fun _ => rfl) (fun _ => rfl) fun line' => .space ?_
  refine .mark (fun _ => rfl) (fun _ => rfl) fun line'' => .space ?_
  refine hbody.append (fun _ _ => rfl) fun ts₂ ⟨body', hd, hbody'⟩ => .space ?_
  refine .mark (fun _ => rfl) (fun _ => rfl) fun last => .done ?_
  refine ⟨⟨params', body'⟩, .function rfl hp rfl rfl hd rfl, ?_⟩
  simp [Function.forget, hparams, hbody']

theorem rendersMethod {name : Token} {f : Function} (hname : name.kind = .identifier)
    (ht : name.Written) (h : RendersFunction loop f) : RendersMethod loop ⟨name, f⟩ := by
  have htext : (Method.mk name f).source.toList = name.lexeme.toList ++ f.source.toList := by
    simp [Method.source]
  have hopens : Opens f.source.toList := by
    intro rest _
    cases f
    simp [Function.source]
    rfl
  rw [RendersMethod, htext]
  refine .token ht hopens fun line => h.imp fun ts ⟨f', hd, hf⟩ => ⟨⟨_, f'⟩, .method hname hd, ?_⟩
  simp [Method.forget, hf, Token.bare]

theorem rendersAnonymous {f : Function} (h : RendersFunction loop f) :
    RendersExpression loop .primary (.function f) := by
  have htext : (Expr.function f).source.toList = "fun".toList ++ ' ' :: f.source.toList := by
    simp [Expr.source]
  rw [RendersExpression, htext]
  refine .word (isWord_keyword rfl) (fun _ _ => rfl) fun line => .space ?_
  refine h.imp fun ts hts => ?_
  obtain ⟨f', hd, hf⟩ := hts
  refine ⟨.function f', .anonymous rfl hd, ?_⟩
  simp [Expr.forget, hf]

theorem rendersMethods_nil : RendersMethods loop [] := .done ⟨[], .noMethods, rfl⟩

theorem rendersMethods_cons {m : Method} {ms : List Method} (h : RendersMethod loop m)
    (hms : RendersMethods loop ms) : RendersMethods loop (m :: ms) := by
  have hopens : Opens (sourceMethods ms).toList := by
    cases ms with
    | nil => exact opens_nil
    | cons m ms =>
      intro rest _
      simp [sourceMethods]
      rfl
  have htext : (sourceMethods (m :: ms)).toList =
      ' ' :: (m.source.toList ++ (sourceMethods ms).toList) := by
    simp [sourceMethods]
  rw [RendersMethods, htext]
  refine .space (h.append hopens fun ts₁ ⟨m', hd₁, hm⟩ => ?_)
  refine hms.imp fun ts₂ ⟨ms', hd₂, hms'⟩ => ⟨_, .methods hd₁ hd₂, ?_⟩
  simp [hm, hms']

theorem RendersExpression.weaken {r : Rank} (h : RendersExpression loop r e) :
    RendersExpression true r e :=
  h.imp fun _ ⟨e', hd, he⟩ => ⟨e', hd.weaken id fun _ => rfl, he⟩

theorem printed_expression (h : RendersExpression loop .assignment e) :
    PrintedStatement loop false (.expression e) := by
  rw [PrintedStatement, Stmt.source, String.toList_append]
  refine h.append (fun _ _ => rfl) fun ts ⟨e', hd, he⟩ => ?_
  refine .semicolon fun line => ⟨.expression e', .expression hd rfl, ?_⟩
  simp [Stmt.forget, he]

theorem printed_print (h : RendersExpression loop .assignment e) :
    PrintedStatement loop false (.print e) := by
  have htext : (Stmt.print e).source.toList =
      "print".toList ++ ' ' :: (e.source.toList ++ [';']) := by
    simp [Stmt.source]
  rw [PrintedStatement, htext]
  refine .word (isWord_keyword rfl) (fun _ _ => rfl) fun line => .space ?_
  refine h.append (fun _ _ => rfl) fun ts ⟨e', hd, he⟩ => ?_
  refine .semicolon fun line => ⟨.print e', .print rfl hd rfl, ?_⟩
  simp [Stmt.forget, he]

theorem printed_return {value : Option Expr} (hk : keyword.kind = .return)
    (ht : keyword.Written) (h : RendersOptional loop value) :
    PrintedStatement loop false (.return keyword value) := by
  have hlexeme := ht.lexeme (by rw [hk]; rfl)
  cases value with
  | none =>
    rw [PrintedStatement, Stmt.source]
    refine .word (w := "return".toList) (b := [';']) (isWord_keyword rfl) (fun _ _ => rfl)
      fun line => ?_
    refine .semicolon fun line' => ⟨.return ⟨.return, "return", line⟩ none, ?_, ?_⟩
    · exact @Derives.return _ _ [] _ _ _ rfl .leftOut rfl
    · simp [Token.bare, hk, hlexeme]
  | some e =>
    have htext : (Stmt.return keyword (some e)).source.toList =
        "return".toList ++ ' ' :: (e.source.toList ++ [';']) := by
      simp [Stmt.source]
    rw [PrintedStatement, htext]
    refine .word (isWord_keyword rfl) (fun _ _ => rfl) fun line => .space ?_
    refine (h e rfl).append (fun _ _ => rfl) fun ts hts => ?_
    obtain ⟨e', hd, he⟩ := hts
    refine .semicolon fun line => ⟨.return _ (some e'), .return rfl (.present hd) rfl, ?_⟩
    simp [Token.bare, hk, hlexeme, he]

end Lox.Grammar
