import Lox.Proofs.Grammar.Complete.Expression

namespace Lox.Grammar.ReadableExpression

variable {loop : Bool} {loops m : Nat} {r r' : Rank} {ts ts₁ ts₂ rest : List Token} {e : Expr}

theorem yields_unary (h : ReadableExpression loop .call ts e) (hlen : ts.length ≤ m + 1)
    (hloop : loop = true → 0 < loops) (hrest : Rank.EndsAt .call (nextKind rest)) :
    Yields loops (unary (Inner.ofDepth m)) (ts ++ rest) rest
      fun e' => e'.forget id = e.forget id := by
  have hoperand : startsOperand (nextKind (ts ++ rest)) := by
    simpa [Rank.takesSign] using (h.start.append rest).kind
  have hsign : isSign (nextKind (ts ++ rest)) = false := by
    revert hoperand
    cases nextKind (ts ++ rest) <;> simp [startsOperand, isSign]
  have hbinary : isBinaryOnly (nextKind (ts ++ rest)) = false := by
    revert hoperand
    cases nextKind (ts ++ rest) <;> simp [startsOperand, isBinaryOnly]
  rw [unary_eq]
  refine (yields_many 0 (fun k => isSign k = false) id .nil hsign
    (fun _ => yields_sign?_none hsign) (Nat.le_refl _)).bind ?_
  intro signs hsigns
  obtain rfl : signs = [] := by simpa using hsigns
  refine Yields.bind (Q := fun e' => e'.forget id = e.forget id) ?_ fun _ he => .pure he
  refine yields_kind.bind ?_
  rintro _ rfl
  rw [hbinary]
  exact h.yields hlen hloop hrest

theorem operand (hr : r.tighter? = some r') (h : ReadableExpression loop r' ts e) :
    ReadableExpression loop r ts e := by
  refine ⟨Starts.imp h.start fun k hk => hk.imp_right
    (And.imp_left (Rank.takesSign_of_tighter? hr)), fun m loops hlen hloop rest hrest => ?_⟩
  have hends := hrest.endsAt hr
  by_cases hextends : r.Extends
  · intro faults firstId
    obtain ⟨e', nextId, hp, he'⟩ := h.yields hlen hloop hends faults firstId
    refine ⟨e', nextId, rest, Nat.le_refl _, he', ?_⟩
    rw [Rank.production_eq hr hextends, bind_apply, hp]
    rfl
  · refine Yields.leads ?_ fun hk => hextends (.of_joins? hk (hrest r hk).1)
    cases r with
    | assignment =>
      cases hr
      have hne : nextKind rest ≠ .equal := by
        intro hk
        exact (hrest .assignment (by rw [hk]; rfl)).1 rfl
      refine (h.yields hlen hloop hends).bind fun target htarget => ?_
      refine (yields_accept?_none hne).bind ?_
      rintro _ rfl
      exact .pure htarget
    | unary =>
      cases hr
      exact h.yields_unary hlen hloop hends
    | primary => cases hr
    | _ => exact absurd ⟨by simp, by simp, by simp⟩ hextends

/-- One more step makes the tree longer. -/
theorem step {e₁ e₂ : Expr} (hextends : r.Extends) (h : ReadableExpression loop r ts₁ e₁)
    (hts₂ : ts₂ ≠ []) (hk : joins? (nextKind ts₂) = some r)
    (hstep : ∀ m loops, (ts₁ ++ ts₂).length ≤ m + 1 → (loop = true → 0 < loops) → ∀ rest,
      r.Follow (nextKind rest) → ∀ e, e.forget id = e₁.forget id →
      Yields loops (r.step (Inner.ofDepth m) e) (ts₂ ++ rest) rest fun o => ∃ e', o = some e' ∧
        e'.forget id = e₂.forget id) :
    ReadableExpression loop r (ts₁ ++ ts₂) e₂ := by
  refine ⟨h.start.append ts₂, fun m loops hlen hloop rest hrest faults firstId => ?_⟩
  have hfollow : r.Follow (nextKind (ts₂ ++ rest)) := by
    obtain ⟨t, ts, rfl⟩ := List.exists_cons_of_ne_nil hts₂
    intro r' hr'
    obtain rfl : r = r' := Option.some.inj (hk.symm.trans hr')
    exact ⟨hextends.1, Nat.le_refl _⟩
  have hlen₁ : ts₁.length ≤ m + 1 := by
    rw [List.length_append] at hlen
    omega
  obtain ⟨e, nextId, allowance, hallowance, he, hp⟩ :=
    h.leads m loops hlen₁ hloop (ts₂ ++ rest) hfollow faults firstId
  obtain ⟨_, lastId, hs, e', rfl, he'⟩ := hstep m loops hlen hloop rest hrest e he faults nextId
  cases allowance with
  | nil =>
    have hpos := List.length_pos_iff.mpr hts₂
    simp only [List.length_append, List.length_nil] at hallowance
    omega
  | cons t allowance =>
    refine ⟨e', lastId, allowance, ?_, he', ?_⟩
    · have hpos := List.length_pos_iff.mpr hts₂
      simp only [List.length_append, List.length_cons] at hallowance
      omega
    · rw [List.append_assoc, hp, extendAlong_some hs]

theorem operation {left right : Expr} {operator : Token} (h₁ : ReadableExpression loop r ts₁ left)
    (hop : r.isOperator operator.kind) (hr : r.tighter? = some r')
    (h₂ : ReadableExpression loop r' ts₂ right) :
    ReadableExpression loop r (ts₁ ++ operator :: ts₂) (r.node left operator right) := by
  have hjoins := Rank.joins?_of_isOperator hop
  have hne : r ≠ .assignment := by
    rintro rfl
    exact absurd hop (by simp [Rank.isOperator])
  refine h₁.step (.of_joins? hjoins hne) (by simp) hjoins ?_
  intro m loops hlen hloop rest hrest e he
  have hlen₂ : ts₂.length ≤ m + 1 := by
    simp only [List.length_append, List.length_cons] at hlen
    omega
  have hstep : r.step (Inner.ofDepth m) e =
      Rank.operatorStep r.isOperator r.node (r'.production (Inner.ofDepth m)) e := by
    cases r <;> cases hr <;> first | rfl | simp [Rank.isOperator] at hop
  rw [hstep]
  refine yields_head_cons.bind ?_
  rintro _ rfl
  rw [if_pos (show r.isOperator operator.kind = true from hop)]
  refine yields_advance.bind fun _ _ => ?_
  refine Yields.bind (h₂.yields hlen₂ hloop (hrest.endsAt hr)) fun e' he' => .pure ⟨_, rfl, ?_⟩
  cases r <;> simp [Rank.node, Expr.forget, he, he']

/-- An item of a list of arguments. -/
theorem listed (h : ReadableExpression loop .assignment ts e) (hlen : ts.length ≤ m)
    (hloop : loop = true → 0 < loops) :
    Listed loops (Inner.ofDepth m).expression (Expr.forget id) ts (e.forget id) := by
  refine ⟨?_, h.start.nonempty, fun rest hrest => h.inner hlen hloop ?_⟩
  · have hk := h.start.kind
    intro hparen
    rw [hparen] at hk
    simp [startsOperand, isSign] at hk
  · rcases hrest with hrest | hrest <;> rw [hrest] <;> rfl

theorem separated_listed {es : List Expr}
    (h : Separated (ReadableExpression loop .assignment) ts es) (hlen : ts.length ≤ m)
    (hloop : loop = true → 0 < loops) :
    Separated (Listed loops (Inner.ofDepth m).expression (Expr.forget id)) ts
      (es.map (Expr.forget id)) := by
  induction h with
  | one h => exact .one (h.listed hlen hloop)
  | more h hcomma _ ih =>
    simp only [List.length_append, List.length_cons] at hlen
    exact .more (h.listed (by omega) hloop) hcomma (ih (by omega))

theorem yields_arguments (rest : List Token) {es : List Expr} (h : ts = [] ∧ es = [] ∨
      Separated (ReadableExpression loop .assignment) ts es ∧ es.length ≤ maxArguments)
    (hlen : ts.length ≤ m) (hloop : loop = true → 0 < loops)
    (hrest : nextKind rest = .rightParen) :
    Yields loops (commaList .tooManyArguments (Inner.ofDepth m).expression) (ts ++ rest) rest
      fun es' => es'.map (Expr.forget id) = es.map (Expr.forget id) := by
  refine yields_commaList rest ?_ hrest
  refine h.imp (fun ⟨hts, hes⟩ => ⟨hts, by rw [hes]; rfl⟩) fun ⟨hsep, hmax⟩ => ⟨?_, by simpa⟩
  exact separated_listed hsep hlen hloop

theorem call {callee : Expr} {args : List Expr} {opening paren : Token}
    (h : ReadableExpression loop .call ts₁ callee) (hopening : opening.kind = .leftParen)
    (hargs : ts₂ = [] ∧ args = [] ∨
      Separated (ReadableExpression loop .assignment) ts₂ args ∧ args.length ≤ maxArguments)
    (hparen : paren.kind = .rightParen) :
    ReadableExpression loop .call (ts₁ ++ opening :: (ts₂ ++ [paren]))
      (.call callee paren args) := by
  refine h.step (by simp [Rank.Extends]) (by simp) (by simp [hopening, joins?]) ?_
  intro m loops hlen hloop rest _ e he
  have hlen₂ : ts₂.length ≤ m := by
    simp only [List.length_append, List.length_cons] at hlen
    omega
  rw [List.cons_append, List.append_assoc]
  refine (yields_accept hopening).bind ?_
  rintro _ rfl
  refine (yields_arguments (paren :: rest) hargs hlen₂ hloop hparen).bind
    fun args' hargs' => ?_
  refine (yields_expect hparen).bind fun _ h => .pure ⟨_, rfl, ?_⟩
  simp [Expr.forget, h, he, hargs']

theorem get {object : Expr} {dot name : Token} (h : ReadableExpression loop .call ts object)
    (hdot : dot.kind = .dot) (hname : name.kind = .identifier) :
    ReadableExpression loop .call (ts ++ [dot, name]) (.get object name) := by
  refine h.step (by simp [Rank.Extends]) (by simp) (by simp [hdot, joins?]) ?_
  intro m loops _ _ rest _ e he
  refine (yields_accept_false (by simp [hdot])).bind ?_
  rintro _ rfl
  refine (yields_accept hdot).bind ?_
  rintro _ rfl
  refine (yields_expect hname).bind fun _ h => .pure ⟨_, rfl, ?_⟩
  simp [Expr.forget, h, he]

theorem sign {operator : Token} (hop : operator.kind = .bang ∨ operator.kind = .minus)
    (h : ReadableExpression loop .unary ts e) :
    ReadableExpression loop .unary (operator :: ts) (.unary operator e) := by
  refine ⟨.one (.inr ⟨rfl, ?_⟩) ?_, fun m loops hlen hloop rest hrest => ?_⟩
  · rcases hop with h | h <;> simp [isSign, h]
  · rcases hop with h | h <;> simp [h]
  · have hne : joins? (nextKind rest) ≠ some .unary := fun hk =>
      (Rank.Extends.of_joins? hk (by simp)).2.1 rfl
    refine Yields.leads (yields_unary_sign hop ?_) hne
    refine ((h.leads m loops ?_ hloop rest hrest).yields hne).imp fun e' he' => ?_
    · simp only [List.length_cons] at hlen
      omega
    · simp [Expr.forget, he']

/-- A primary is made in one go. -/
theorem of_primary (hstart : Symbol.Start (.expression .primary) ts)
    (h : ∀ m loops rest, ts.length ≤ m + 1 → (loop = true → 0 < loops) →
      Yields loops (primary (Inner.ofDepth m)) (ts ++ rest) rest
        fun e' => e'.forget id = e.forget id) : ReadableExpression loop .primary ts e :=
  ⟨hstart, fun m loops hlen hloop rest _ => Yields.leads (h m loops rest hlen hloop)
    fun hk => (Rank.Extends.of_joins? hk (by simp)).2.2 rfl⟩

theorem literal {value : Literal} {t : Token} (hvalue : literal? t.kind = some value) :
    ReadableExpression loop .primary [t] (.literal value) := by
  obtain ⟨hoperand, hf⟩ := startsOperand_of_literal? hvalue
  refine of_primary (.one (.inl hoperand) hf) fun m loops rest _ _ => ?_
  refine yields_head_cons.bind ?_
  rintro _ rfl
  cases hk : t.kind <;> simp only [hk, literal?, reduceCtorEq, Option.some.injEq] at hvalue
  all_goals subst hvalue
  all_goals exact yields_advance.bind fun _ _ => .pure rfl

theorem name {id : Nat} {t : Token} (hk : t.kind = .identifier) :
    ReadableExpression loop .primary [t] (.variable id t) := by
  refine of_primary (.one (.inl (by rw [hk]; rfl)) (by simp [hk])) fun m loops rest _ _ => ?_
  refine yields_head_cons.bind ?_
  rintro _ rfl
  simp only [hk]
  refine yields_advance.bind fun _ _ => ?_
  exact yields_mint.bind fun _ _ => .pure rfl

theorem this {id : Nat} {t : Token} (hk : t.kind = .this) :
    ReadableExpression loop .primary [t] (.this id t) := by
  refine of_primary (.one (.inl (by rw [hk]; rfl)) (by simp [hk])) fun m loops rest _ _ => ?_
  refine yields_head_cons.bind ?_
  rintro _ rfl
  simp only [hk]
  refine yields_advance.bind fun _ _ => ?_
  exact yields_mint.bind fun _ _ => .pure rfl

theorem super {id : Nat} {t dot method : Token} (hk : t.kind = .super) (hdot : dot.kind = .dot)
    (hmethod : method.kind = .identifier) :
    ReadableExpression loop .primary [t, dot, method] (.super id t method) := by
  refine of_primary (.one (.inl (by rw [hk]; rfl)) (by simp [hk])) fun m loops rest _ _ => ?_
  refine yields_head_cons.bind ?_
  rintro _ rfl
  simp only [hk]
  refine yields_advance.bind fun _ _ => ?_
  refine (yields_expect hdot).bind fun _ _ => ?_
  refine (yields_expect hmethod).bind ?_
  rintro _ rfl
  exact yields_mint.bind fun _ _ => .pure rfl

theorem grouping {opening closing : Token} (hopening : opening.kind = .leftParen)
    (h : ReadableExpression loop .assignment ts e) (hclosing : closing.kind = .rightParen) :
    ReadableExpression loop .primary (opening :: (ts ++ [closing])) (.grouping e) := by
  refine of_primary (.one (.inl (by rw [hopening]; rfl)) (by simp [hopening]))
    fun m loops rest hlen hloop => ?_
  rw [List.cons_append, List.append_assoc]
  refine yields_head_cons.bind ?_
  rintro _ rfl
  simp only [hopening]
  refine yields_advance.bind fun _ _ => ?_
  simp only [List.length_cons, List.length_append] at hlen
  refine (h.inner (by omega) hloop ?_).bind fun e' he' => ?_
  · rw [List.cons_append, nextKind_cons, hclosing]
    rfl
  · refine (yields_expect hclosing).bind fun _ _ => .pure ?_
    simp [Expr.forget, he']

/-- In front of an equals sign a target is read in full. -/
theorem yields_target {equals : Token} (h : ReadableExpression loop .call ts e)
    (hlen : ts.length ≤ m + 1) (hloop : loop = true → 0 < loops) (hequals : equals.kind = .equal) :
    Yields loops (disjunction (Inner.ofDepth m)) (ts ++ equals :: rest) (equals :: rest)
      fun e' => e'.forget id = e.forget id := by
  have hor := operand (r := .or) rfl <| operand (r := .and) rfl <| operand (r := .equality) rfl <|
    operand (r := .comparison) rfl <| operand (r := .term) rfl <| operand (r := .factor) rfl <|
    operand (r := .unary) rfl h
  refine hor.yields hlen hloop fun r' hr' => ?_
  rw [nextKind_cons, hequals] at hr'
  cases hr'
  exact Nat.zero_lt_succ _

theorem of_assignment {equals : Token} {target e' : Expr}
    (htarget : ReadableExpression loop .call ts₁ target) (hequals : equals.kind = .equal)
    (h : ReadableExpression loop .assignment ts₂ e)
    (hassign : ∀ loops rest target' e₂, target'.forget id = target.forget id →
      e₂.forget id = e.forget id → Yields loops (assignTo target' equals e₂) rest rest
        fun e'' => e''.forget id = e'.forget id) :
    ReadableExpression loop .assignment (ts₁ ++ equals :: ts₂) e' := by
  refine ⟨(htarget.start.append _).imp fun _ hk => hk.imp_right fun hk => ⟨rfl, hk.2⟩,
    fun m loops hlen hloop rest hrest => ?_⟩
  have hjoins : joins? (nextKind rest) = none := by
    cases hk : joins? (nextKind rest) with
    | none => rfl
    | some r' => exact absurd rfl (hrest r' hk).1
  refine Yields.leads ?_ (by simp [hjoins])
  simp only [List.length_append, List.length_cons] at hlen
  rw [List.append_assoc]
  refine (htarget.yields_target (by omega) hloop hequals).bind fun target' htarget' => ?_
  refine (yields_accept? hequals).bind ?_
  rintro _ rfl
  refine (h.inner (by omega) hloop hjoins).bind fun e₂ he₂ => ?_
  exact hassign loops rest target' e₂ htarget' he₂

theorem assign {id : Nat} {name equals : Token} (hname : name.kind = .identifier)
    (hequals : equals.kind = .equal) (h : ReadableExpression loop .assignment ts e) :
    ReadableExpression loop .assignment (name :: equals :: ts) (.assign id name e) := by
  have htarget : ReadableExpression loop .call [name] (.variable 0 name) :=
    operand rfl (.name hname)
  refine of_assignment htarget hequals h ?_
  intro loops rest target e₂ htarget he₂
  cases target <;> simp [Expr.forget] at htarget
  subst htarget
  refine yields_mint.bind fun _ _ => .pure ?_
  simp [Expr.forget, he₂]

theorem set {object : Expr} {dot name equals : Token}
    (hobject : ReadableExpression loop .call ts₁ object) (hdot : dot.kind = .dot)
    (hname : name.kind = .identifier) (hequals : equals.kind = .equal)
    (h : ReadableExpression loop .assignment ts₂ e) :
    ReadableExpression loop .assignment (ts₁ ++ dot :: name :: equals :: ts₂)
      (.set object name e) := by
  have htarget := hobject.get hdot hname
  rw [show ts₁ ++ dot :: name :: equals :: ts₂ = (ts₁ ++ [dot, name]) ++ equals :: ts₂ by simp]
  refine of_assignment htarget hequals h ?_
  intro loops rest target e₂ htarget he₂
  cases target <;> simp [Expr.forget] at htarget
  obtain ⟨hobject, rfl⟩ := htarget
  exact .pure (by simp [Expr.forget, he₂, hobject])

end Lox.Grammar.ReadableExpression
