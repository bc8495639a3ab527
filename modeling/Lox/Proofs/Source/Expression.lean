import Lox.Proofs.Grammar.Complete.Start
import Lox.Proofs.Source.Printed

namespace Lox

attribute [local simp] Expr.source sourceArguments Function.source Method.source Stmt.source
  sourceStatements sourceMethods

/-- A token apart from its line. -/
def Token.bare (t : Token) : Token := ⟨t.kind, t.lexeme, 0⟩

namespace Grammar

variable {loop : Bool} {r r' : Rank} {e : Expr}

/-- The tokens stand for `a`, up to what `forget` takes away. -/
def Restores {α : Type} (P : List Token → α → Prop) (forget : α → α) (a : α) (ts : List Token) :
    Prop :=
  ∃ a', P ts a' ∧ forget a' = forget a

/-- A token that is written as it was read; a number is written anew. -/
structure Legible (t : Token) : Prop where
  written : t.Written
  number : ∀ x, t.kind = .number x → IsWord (.number x) (Numeral.plain x).toList

abbrev RendersExpression (loop : Bool) (r : Rank) (e : Expr) : Prop :=
  Printed (Restores (α := Expr) (Derives true loop (.expression r)) (Expr.forget Token.bare) e)
    e.source.toList

theorem RendersExpression.operand (hr : r.tighter? = some r') (h : RendersExpression loop r' e) :
    RendersExpression loop r e :=
  h.imp fun _ ⟨e', hd, he⟩ => ⟨e', .operand hr hd, he⟩

/-- Operators are the only words between operands, so blanks are enough to keep them apart. -/
theorem RendersExpression.operation {left right : Expr} {operator : Token}
    (hleft : RendersExpression loop r left) (hop : r.isOperator operator.kind)
    (hr : r.tighter? = some r') (hright : RendersExpression loop r' right)
    (ht : operator.Written) : RendersExpression loop r (r.node left operator right) := by
  have htext : (r.node left operator right).source.toList = left.source.toList ++
      ' ' :: (operator.lexeme.toList ++ ' ' :: right.source.toList) := by
    cases r <;> simp [Rank.node, Expr.source]
  rw [RendersExpression, htext]
  refine hleft.append (fun _ _ => rfl) fun ts₁ ⟨e₁, hd₁, he₁⟩ => .space ?_
  refine .token ht (fun _ _ => rfl) fun line => .space ?_
  refine hright.imp fun ts₂ ⟨e₂, hd₂, he₂⟩ => ⟨_, .operation hd₁ hop hr hd₂, ?_⟩
  cases r <;> simp [Rank.node, Expr.forget, he₁, he₂, Token.bare]

theorem RendersExpression.assign {id : Nat} {name : Token} (hname : name.kind = .identifier)
    (h : RendersExpression loop .assignment e) (ht : name.Written) :
    RendersExpression loop .assignment (.assign id name e) := by
  have htext : (Expr.assign id name e).source.toList = name.lexeme.toList ++
      ' ' :: '=' :: ' ' :: e.source.toList := by
    simp [Expr.source]
  rw [RendersExpression, htext]
  refine .token ht (fun _ _ => rfl) fun line => .space ?_
  refine .equals fun line' => ?_
  refine h.imp fun ts ⟨e', hd, he⟩ => ⟨.assign 0 _ e', .assign hname rfl hd, ?_⟩
  simp [Expr.forget, he, Token.bare]

theorem opens_token {name : Token} {b : List Char} (hname : name.kind = .identifier)
    (ht : name.Written) : Opens ('.' :: (name.lexeme.toList ++ b)) :=
  opens_property (hname ▸ ht)

theorem RendersExpression.get {object : Expr} {name : Token}
    (hobject : RendersExpression loop .call object) (hname : name.kind = .identifier)
    (ht : name.Written) : RendersExpression loop .call (.get object name) := by
  have htext : (Expr.get object name).source.toList =
      object.source.toList ++ '.' :: (name.lexeme.toList ++ []) := by
    simp [Expr.source]
  rw [RendersExpression, htext]
  refine hobject.append (opens_token hname ht) fun ts ⟨e', hd, he⟩ => ?_
  refine .property ht opens_nil fun line line' => .done ⟨_, .get hd rfl hname, ?_⟩
  simp [Expr.forget, he, Token.bare]

theorem RendersExpression.set {object : Expr} {name : Token}
    (hobject : RendersExpression loop .call object) (hname : name.kind = .identifier)
    (h : RendersExpression loop .assignment e) (ht : name.Written) :
    RendersExpression loop .assignment (.set object name e) := by
  have htext : (Expr.set object name e).source.toList = object.source.toList ++
      '.' :: (name.lexeme.toList ++ ' ' :: '=' :: ' ' :: e.source.toList) := by
    simp [Expr.source]
  rw [RendersExpression, htext]
  refine hobject.append (opens_token hname ht) fun ts₁ ⟨e₁, hd₁, he₁⟩ => ?_
  refine .property ht (fun _ _ => rfl) fun line line' => .space ?_
  refine .equals fun line' => ?_
  refine h.imp fun ts₂ ⟨e₂, hd₂, he₂⟩ => ⟨_, .set hd₁ rfl hname rfl hd₂, ?_⟩
  simp [Expr.forget, he₁, he₂, Token.bare]

/-- No text of an expression starts with an equals sign. -/
theorem RendersExpression.startsWithout_equal (h : RendersExpression loop r e) (rest : List Char)
    (hrest : endsEveryWord rest) : startsWithout (· = '=') (e.source.toList ++ rest) := by
  obtain ⟨ts, line', ⟨e', hd, -⟩, heq⟩ := h 1 rest hrest
  obtain ⟨t, ts, rfl, hk⟩ := hd.start.exists_cons
  unfold startsWithout
  split
  · rfl
  next c cs hcs =>
    refine Bool.not_eq_true' _ ▸ decide_eq_false fun hc => ?_
    subst hc
    obtain ⟨u, more, hitems, hu⟩ := items_equal 1 cs
    rw [hcs, hitems] at heq
    cases (List.cons.inj heq).1
    rcases hu with hu | hu <;> rw [hu] at hk <;> simp [startsOperand, isSign] at hk

theorem RendersExpression.sign {operator : Token}
    (hop : operator.kind = .bang ∨ operator.kind = .minus)
    (h : RendersExpression loop .unary e) (ht : operator.Written) :
    RendersExpression loop .unary (.unary operator e) := by
  have hends : ∀ rest, endsEveryWord rest → endsWord (e.source.toList ++ rest) operator.kind := by
    intro rest hrest
    rcases hop with hop | hop <;> rw [hop]
    · exact h.startsWithout_equal rest hrest
    · rfl
  rw [RendersExpression, Expr.source, String.toList_append]
  refine .endedWord ht hends fun line => h.imp fun ts ⟨e', hd, he⟩ => ⟨_, .sign hop hd, ?_⟩
  simp [Expr.forget, he, Token.bare]

theorem RendersExpression.grouping (h : RendersExpression loop .assignment e) :
    RendersExpression loop .primary (.grouping e) := by
  have htext : (Expr.grouping e).source.toList = '(' :: (e.source.toList ++ [')']) := by
    simp [Expr.source]
  rw [RendersExpression, htext]
  refine .mark (fun _ => rfl) (fun _ => rfl) fun line => ?_
  refine h.append (fun _ _ => rfl) fun ts ⟨e', hd, he⟩ => ?_
  refine .mark (fun _ => rfl) (fun _ => rfl) fun line' => .done ⟨_, .grouping rfl hd rfl, ?_⟩
  simp [Expr.forget, he]

theorem RendersExpression.literal {value : Literal} {t : Token}
    (hvalue : literal? t.kind = some value) (ht : Legible t) :
    RendersExpression loop .primary (.literal value) := by
  have hword : ∃ k, literal? k = some value ∧ IsWord k value.source.toList := by
    obtain ⟨hw, hnumber⟩ := ht
    refine ⟨t.kind, hvalue, ?_⟩
    cases hk : t.kind <;> simp only [hk, literal?, reduceCtorEq, Option.some.injEq] at hvalue
    all_goals subst hvalue
    case number => exact hnumber _ hk
    case string text =>
      have hlexeme := hw.lexeme (by rw [hk]; rfl)
      rw [Token.Written, hk, hlexeme] at hw
      exact hw
    all_goals exact isWord_keyword rfl
  obtain ⟨k, hk, hw⟩ := hword
  rw [RendersExpression, Expr.source]
  exact .single hw fun line => ⟨_, .literal hk, rfl⟩

theorem RendersExpression.name {id : Nat} {t : Token} (hk : t.kind = .identifier)
    (ht : t.Written) : RendersExpression loop .primary (.variable id t) := by
  rw [RendersExpression, Expr.source]
  refine .single ht fun line => ⟨.variable 0 _, .name hk, ?_⟩
  simp [Expr.forget, Token.bare]

theorem RendersExpression.this {id : Nat} {t : Token} (hk : t.kind = .this) (ht : t.Written) :
    RendersExpression loop .primary (.this id t) := by
  rw [RendersExpression, Expr.source]
  refine .single (isWord_keyword rfl) fun line => ⟨.this 0 _, .this rfl, ?_⟩
  have hlexeme := ht.lexeme (by rw [hk]; rfl)
  simp [Expr.forget, Token.bare, hk, hlexeme]

theorem RendersExpression.super {id : Nat} {t method : Token} (hk : t.kind = .super)
    (hmethod : method.kind = .identifier) (ht : t.Written) (hm : method.Written) :
    RendersExpression loop .primary (.super id t method) := by
  have htext : (Expr.super id t method).source.toList =
      "super".toList ++ '.' :: (method.lexeme.toList ++ []) := by
    simp [Expr.source]
  rw [RendersExpression, htext]
  refine .word (isWord_keyword rfl) (opens_token hmethod hm) fun line => ?_
  refine .property hm opens_nil fun line' line'' => .done ?_
  refine ⟨.super 0 _ _, .super rfl rfl hmethod, ?_⟩
  have hlexeme := ht.lexeme (by rw [hk]; rfl)
  simp [Expr.forget, Token.bare, hk, hlexeme]

abbrev RendersItems (loop : Bool) (es : List Expr) : Prop :=
  Printed (Restores (α := List Expr) (Derives true loop .items) (List.map (Expr.forget Token.bare))
    es) (sourceArguments es).toList

abbrev RendersArguments (loop : Bool) (es : List Expr) : Prop :=
  Printed (Restores (α := List Expr) (Derives true loop .arguments)
    (List.map (Expr.forget Token.bare)) es) (sourceArguments es).toList

theorem RendersItems.one (h : RendersExpression loop .assignment e) : RendersItems loop [e] :=
  h.imp fun _ ⟨e', hd, he⟩ => ⟨[e'], .item hd, by simp [he]⟩

theorem RendersItems.more {es : List Expr} (h : RendersExpression loop .assignment e)
    (hne : es ≠ []) (hes : RendersItems loop es) : RendersItems loop (e :: es) := by
  have htext : (sourceArguments (e :: es)).toList =
      e.source.toList ++ ',' :: ' ' :: (sourceArguments es).toList := by
    cases es with
    | nil => exact absurd rfl hne
    | cons e' es => simp [sourceArguments]
  rw [RendersItems, htext]
  refine h.append (fun _ _ => rfl) fun ts₁ ⟨e', hd₁, he₁⟩ => ?_
  refine .mark (fun _ => rfl) (fun _ => rfl) fun line => .space ?_
  refine hes.imp fun ts₂ ⟨es', hd₂, he₂⟩ => ⟨_, .items hd₁ rfl hd₂, ?_⟩
  simp [he₁, he₂]

theorem RendersArguments.of_items {es : List Expr} (h : RendersItems loop es)
    (hmax : es.length ≤ maxArguments) : RendersArguments loop es := by
  refine h.imp fun ts ⟨es', hd, he⟩ => ⟨es', .arguments hd ?_, he⟩
  have hlen := congrArg List.length he
  simp only [List.length_map] at hlen
  rwa [hlen]

theorem RendersExpression.call {callee : Expr} {paren : Token} {args : List Expr}
    (h : RendersExpression loop .call callee) (hargs : RendersArguments loop args)
    (hparen : paren.kind = .rightParen) (ht : paren.Written) :
    RendersExpression loop .call (.call callee paren args) := by
  have htext : (Expr.call callee paren args).source.toList =
      callee.source.toList ++ '(' :: ((sourceArguments args).toList ++ [')']) := by
    simp [Expr.source]
  rw [RendersExpression, htext]
  refine h.append (fun _ _ => rfl) fun ts₁ ⟨e', hd₁, he₁⟩ => ?_
  refine .mark (fun _ => rfl) (fun _ => rfl) fun line => ?_
  refine hargs.append (fun _ _ => rfl) fun ts₂ ⟨es', hd₂, he₂⟩ => ?_
  refine .mark (fun _ => rfl) (fun _ => rfl) fun line' => .done ⟨_, .call hd₁ rfl hd₂ rfl, ?_⟩
  have hlexeme := ht.lexeme (by rw [hparen]; rfl)
  simp [Expr.forget, Token.bare, hparen, hlexeme, he₁, he₂]

end Grammar

end Lox
