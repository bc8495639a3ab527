import Lox.Proofs.Grammar.Sound.Whole
import Lox.Proofs.Parallel
import Lox.Proofs.Tree.Twin

namespace Lox

variable {K : Link}

theorem TwinAll.of_forall₂ {es es' : List Expr} (h : List.Forall₂ (Expr.Twin K) es es') :
    TwinAll K es es' := by
  induction h with
  | nil => exact .nil
  | cons he _ ih => exact .cons he ih

theorem TwinStatements.of_forall₂ {ss ss' : List Stmt} (h : List.Forall₂ (Stmt.Twin K) ss ss') :
    TwinStatements K ss ss' := by
  induction h with
  | nil => exact .nil
  | cons hs _ ih => exact .cons hs ih

theorem TwinMethods.of_forall₂ {ms ms' : List Method} (h : List.Forall₂ (Method.Twin K) ms ms') :
    TwinMethods K ms ms' := by
  induction h with
  | nil => exact .nil
  | cons hm _ ih => exact .cons hm ih

/-- Behind identities that correspond come identities that correspond. -/
def Link.Steady (K : Link) : Prop := ∀ i i', K.node i i' → K.node (i + 1) (i' + 1)

namespace Grammar

/-- Tokens that are alike up to the end of input, behind which anything may stand. -/
inductive TwinTokens (K : Link) : List Token → List Token → Prop where
  | nil : TwinTokens K [] []
  | cons {t t' ts ts'} : t.Twin K t' → TwinTokens K ts ts' → TwinTokens K (t :: ts) (t' :: ts')
  | eof {t t'} (ts ts') : t.Twin K t' → t.kind = .eof → TwinTokens K (t :: ts) (t' :: ts')

structure Cursor.Twin (K : Link) (c c' : Cursor) : Prop where
  rest : TwinTokens K c.rest c'.rest
  loops : c.loops = c'.loops
  faults : List.Forall₂ (Diagnostic.Twin K) c.faults c'.faults
  nextId : K.node c.nextId c'.nextId

/-- Ends that are alike. Of a production that has used up its allowance nothing is known. -/
inductive TwinEnds (K : Link) {α β : Type} (R : α → β → Prop) :
    EStateM.Result Halt Cursor α → EStateM.Result Halt Cursor β → Prop where
  | ok {a b c c'} : R a b → c.Twin K c' → TwinEnds K R (.ok a c) (.ok b c')
  | fault {d d' c c'} : d.Twin K d' → c.Twin K c' →
      TwinEnds K R (.error (.fault d) c) (.error (.fault d') c')
  | exhausted {c r'} : TwinEnds K R (.error .exhausted c) r'
  | exhausted' {r c'} : TwinEnds K R r (.error .exhausted c')

/-- The two productions read alike what is alike. -/
def Alike (K : Link) {α β : Type} (R : α → β → Prop) (p : Parse α) (q : Parse β) : Prop :=
  ∀ c c', c.Twin K c' → TwinEnds K R (p c) (q c')

/-- The productions further in read alike. -/
structure InnerAlike (K : Link) (inner inner' : Inner) : Prop where
  expression : Alike K (Expr.Twin K) inner.expression inner'.expression
  statement : Alike K (Stmt.Twin K) inner.statement inner'.statement
  declaration : Alike K (Option.Rel (Stmt.Twin K)) inner.declaration inner'.declaration

namespace TwinTokens

theorem of_forall₂ {ts ts' : List Token} (h : List.Forall₂ (Token.Twin K) ts ts') :
    TwinTokens K ts ts' := by
  induction h with
  | nil => exact .nil
  | cons ht _ ih => exact .cons ht ih

theorem head {ts ts' : List Token} (h : TwinTokens K ts ts') :
    (ts.head?.getD endOfInput).Twin K (ts'.head?.getD endOfInput) := by
  cases h with
  | nil => exact ⟨rfl, rfl, K.zero⟩
  | cons ht _ | eof _ _ ht _ => exact ht

/-- Before the end of input a token may be passed. -/
theorem tail {ts ts' : List Token} (h : TwinTokens K ts ts')
    (hne : (ts.head?.getD endOfInput).kind ≠ .eof) : TwinTokens K ts.tail ts'.tail := by
  cases h with
  | nil => exact .nil
  | cons _ hts => exact hts
  | eof _ _ _ heof => exact absurd heof hne

theorem toBoundary {ts ts' : List Token} (last : Kind) (h : TwinTokens K ts ts') :
    TwinTokens K (toBoundary last ts) (toBoundary last ts') := by
  induction h generalizing last with
  | nil => exact .nil
  | cons ht hts ih =>
    rw [Grammar.toBoundary, Grammar.toBoundary, ht.kind]
    split
    · exact .cons ht hts
    · exact ih _
  | eof ts ts' ht heof =>
    rw [Grammar.toBoundary, Grammar.toBoundary, ← ht.kind, if_pos (.inl heof),
      if_pos (.inl heof)]
    exact .eof ts ts' ht heof

theorem resume {ts ts' : List Token} (h : TwinTokens K ts ts') :
    TwinTokens K (resume ts) (resume ts') := by
  cases h with
  | nil => exact .nil
  | cons ht hts =>
    rw [Grammar.resume, Grammar.resume, ht.kind]
    split
    · exact .cons ht hts
    · exact hts.toBoundary _
  | eof ts ts' ht heof =>
    rw [Grammar.resume, Grammar.resume, ← ht.kind, if_pos heof, if_pos heof]
    exact .eof ts ts' ht heof

theorem declaresFunction_eq {ts ts' : List Token} (h : TwinTokens K ts ts') :
    declaresFunction ts = declaresFunction ts' := by
  -- An end of input is neither of the two words, whatever comes behind it.
  have heof : ∀ {t : Token}, t.kind = .eof → ∀ ts, declaresFunction (t :: ts) = false := by
    intro t ht ts
    cases ts with
    | nil => rfl
    | cons u ts => simp [declaresFunction, ht]
  cases h with
  | nil => rfl
  | cons ht hts =>
    cases hts with
    | nil => rfl
    | cons hu _ | eof _ _ hu _ => simp only [declaresFunction, ht.kind, hu.kind]
  | eof ts ts' ht hend => rw [heof hend, heof (ht.kind.symm.trans hend)]

end TwinTokens

theorem Cursor.Twin.head {c c' : Cursor} (h : c.Twin K c') : c.head.Twin K c'.head := h.rest.head

theorem Cursor.Twin.head_ne_eof {c c' : Cursor} {k : Kind} (h : c.Twin K c')
    (hk : c'.head.kind = k) (hne : k ≠ .eof) : c.head.kind ≠ .eof :=
  fun heof => hne (hk.symm.trans (h.head.kind.symm.trans heof))

theorem Cursor.Twin.advance {c c' : Cursor} (h : c.Twin K c') (hne : c.head.kind ≠ .eof) :
    Cursor.Twin K { c with rest := c.rest.tail } { c' with rest := c'.rest.tail } :=
  { h with rest := h.rest.tail hne }

namespace Alike

variable {α β γ δ : Type} {R : α → β → Prop} {Q : γ → δ → Prop} {p : Parse α} {q : Parse β}

theorem pure {a : α} {b : β} (h : R a b) :
    Alike K R (Pure.pure a : Parse α) (Pure.pure b : Parse β) := fun _ _ hc => .ok h hc

/-- Nothing is known of a production whose allowance is used up. -/
theorem exhausted : Alike K R (throw .exhausted : Parse α) q := fun _ _ _ => .exhausted

theorem exhausted' : Alike K R p (throw .exhausted : Parse β) := fun _ _ _ => .exhausted'

theorem bind {k : α → Parse γ} {l : β → Parse δ} (h : Alike K R p q)
    (hk : ∀ a b, R a b → Alike K Q (k a) (l b)) : Alike K Q (p >>= k) (q >>= l) := by
  intro c c' hc
  have hp := h c c' hc
  rw [bind_apply, bind_apply]
  generalize p c = r at hp
  generalize q c' = r' at hp
  cases hp with
  | ok hab hc' => exact hk _ _ hab _ _ hc'
  | fault hd hc' => exact .fault hd hc'
  | exhausted => exact .exhausted
  | exhausted' => exact .exhausted'

theorem map {f : α → γ} {g : β → δ} (h : Alike K R p q) (hfg : ∀ a b, R a b → Q (f a) (g b)) :
    Alike K Q (f <$> p) (g <$> q) := by
  rw [← bind_pure_comp, ← bind_pure_comp]
  exact h.bind fun a b hab => .pure (hfg a b hab)

theorem get {k : Cursor → Parse γ} {l : Cursor → Parse δ}
    (hk : ∀ c c', c.Twin K c' → TwinEnds K Q (k c c) (l c' c')) :
    Alike K Q ((MonadState.get : Parse Cursor) >>= k) ((MonadState.get : Parse Cursor) >>= l) :=
  fun c c' hc => hk c c' hc

/-- A look at the next token, at which the cursors still stand. -/
theorem atHead {k : Token → Parse γ} {l : Token → Parse δ}
    (hk : ∀ c c', c.Twin K c' → TwinEnds K Q (k c.head c) (l c'.head c')) :
    Alike K Q (Grammar.head >>= k) (Grammar.head >>= l) :=
  fun c c' hc => hk c c' hc

theorem head : Alike K (Token.Twin K) Grammar.head Grammar.head := fun _ _ hc => .ok hc.head hc

theorem kind : Alike K Eq Grammar.kind Grammar.kind := fun _ _ hc => .ok hc.head.kind hc

end Alike

/-- Before the end of input both productions may step over the next token. -/
theorem Cursor.Twin.step {γ δ : Type} {Q : γ → δ → Prop} {p : Parse γ} {q : Parse δ}
    {c c' : Cursor} (hc : c.Twin K c') (hne : c.head.kind ≠ .eof) (h : Alike K Q p q) :
    TwinEnds K Q ((do Grammar.advance; p) c) ((do Grammar.advance; q) c') :=
  h _ _ (hc.advance hne)

namespace Alike

variable {α β : Type} {R : α → β → Prop} {p : Parse α} {q : Parse β}

theorem record {line line' : Nat} (fault : GrammarFault) (h : K.line line line') :
    Alike K Eq (Grammar.record line fault) (Grammar.record line' fault) :=
  fun _ _ hc => .ok rfl { hc with
    faults := List.rel_append hc.faults (.cons ⟨h, rfl⟩ .nil) }

theorem halt {line line' : Nat} (fault : GrammarFault) (h : K.line line line') :
    Alike K R (Grammar.halt line fault) (Grammar.halt line' fault) :=
  fun _ _ hc => .fault ⟨h, rfl⟩ hc

theorem haltHere (fault : GrammarFault) :
    Alike K R (Grammar.haltHere fault) (Grammar.haltHere fault) :=
  head.bind fun _ _ ht => .halt fault ht.line

theorem accept? {k : Kind} (hk : k ≠ .eof) :
    Alike K (Option.Rel (Token.Twin K)) (Grammar.accept? k) (Grammar.accept? k) := by
  refine atHead fun c c' hc => ?_
  rw [← hc.head.kind]
  split
  next heq => exact hc.step (heq ▸ hk) (.pure (.some hc.head))
  next => exact .ok .none hc

theorem accept {k : Kind} (hk : k ≠ .eof) :
    Alike K Eq (Grammar.accept k) (Grammar.accept k) :=
  (accept? hk).bind fun _ _ ht => .pure (by cases ht <;> rfl)

theorem expect {k : Kind} (hk : k ≠ .eof) (item : String) :
    Alike K (Token.Twin K) (Grammar.expect k item) (Grammar.expect k item) := by
  refine (accept? hk).bind fun t t' ht => ?_
  cases ht with
  | some ht => exact .pure ht
  | none => exact .haltHere _

theorem withLoops (loops : Nat → Nat) (h : Alike K R p q) :
    Alike K R (Grammar.withLoops loops p) (Grammar.withLoops loops q) := by
  intro c c' hc
  have hp := h { c with loops := loops c.loops } { c' with loops := loops c'.loops }
    { hc with loops := congrArg loops hc.loops }
  unfold Grammar.withLoops
  generalize p { c with loops := loops c.loops } = r at hp ⊢
  generalize q { c' with loops := loops c'.loops } = r' at hp ⊢
  cases hp with
  | ok hab hc' => exact .ok hab { hc' with loops := hc.loops }
  | fault hd hc' => exact .fault hd { hc' with loops := hc.loops }
  | exhausted => exact .exhausted
  | exhausted' => exact .exhausted'

theorem withinLoop (h : Alike K R p q) :
    Alike K R (Grammar.withinLoop p) (Grammar.withinLoop q) := by
  intro c c' hc
  have hp := h { c with loops := c.loops + 1 } { c' with loops := c'.loops + 1 }
    { hc with loops := congrArg (· + 1) hc.loops }
  unfold Grammar.withinLoop
  generalize p { c with loops := c.loops + 1 } = r at hp ⊢
  generalize q { c' with loops := c'.loops + 1 } = r' at hp ⊢
  cases hp with
  | ok hab hc' => exact .ok hab { hc' with loops := congrArg (· - 1) hc'.loops }
  | fault hd hc' => exact .fault hd { hc' with loops := congrArg (· - 1) hc'.loops }
  | exhausted => exact .exhausted
  | exhausted' => exact .exhausted'

theorem recover (h : Alike K R p q) :
    Alike K (Option.Rel R) (Grammar.recover p) (Grammar.recover q) := by
  intro c c' hc
  have hp := h c c' hc
  unfold Grammar.recover
  generalize p c = r at hp
  generalize q c' = r' at hp
  cases hp with
  | ok hab hc' => exact .ok (.some hab) hc'
  | fault hd hc' =>
    exact .ok .none { hc' with
      rest := hc'.rest.resume
      faults := List.rel_append hc'.faults (.cons hd .nil) }
  | exhausted => exact .exhausted
  | exhausted' => exact .exhausted'

/-- The allowances of the two loops need not be the same. -/
theorem manyAlong {item : Nat → Parse (Option α)} {item' : Nat → Parse (Option β)}
    (h : ∀ i, Alike K (Option.Rel R) (item i) (item' i)) (ts ts' : List Token) (i : Nat) :
    Alike K (List.Forall₂ R) (Grammar.manyAlong item ts i) (Grammar.manyAlong item' ts' i) := by
  induction ts generalizing ts' i with
  | nil =>
    cases ts' with
    | nil | cons =>
      refine (h i).bind fun o o' ho => ?_
      cases ho with
      | none => exact .pure .nil
      | some _ => exact .exhausted
  | cons t ts ih =>
    cases ts' with
    | nil =>
      refine (h i).bind fun o o' ho => ?_
      cases ho with
      | none => exact .pure .nil
      | some _ => exact .exhausted'
    | cons t' ts' =>
      refine (h i).bind fun o o' ho => ?_
      cases ho with
      | none => exact .pure .nil
      | some hab => exact (ih ts' (i + 1)).bind fun _ _ hs => .pure (.cons hab hs)

theorem many {item : Nat → Parse (Option α)} {item' : Nat → Parse (Option β)}
    (h : ∀ i, Alike K (Option.Rel R) (item i) (item' i)) (i : Nat) :
    Alike K (List.Forall₂ R) (Grammar.many item i) (Grammar.many item' i) :=
  .get fun _ _ hc => manyAlong h _ _ i _ _ hc

theorem extendAlong {step : α → Parse (Option α)} {step' : β → Parse (Option β)}
    (h : ∀ a b, R a b → Alike K (Option.Rel R) (step a) (step' b)) (ts ts' : List Token)
    {a : α} {b : β} (hab : R a b) :
    Alike K R (Grammar.extendAlong step ts a) (Grammar.extendAlong step' ts' b) := by
  induction ts generalizing ts' a b with
  | nil =>
    cases ts' with
    | nil | cons =>
      refine (h a b hab).bind fun o o' ho => ?_
      cases ho with
      | none => exact .pure hab
      | some _ => exact .exhausted
  | cons t ts ih =>
    cases ts' with
    | nil =>
      refine (h a b hab).bind fun o o' ho => ?_
      cases ho with
      | none => exact .pure hab
      | some _ => exact .exhausted'
    | cons t' ts' =>
      refine (h a b hab).bind fun o o' ho => ?_
      cases ho with
      | none => exact .pure hab
      | some hab => exact ih ts' hab

theorem extend {step : α → Parse (Option α)} {step' : β → Parse (Option β)}
    (h : ∀ a b, R a b → Alike K (Option.Rel R) (step a) (step' b)) {a : α} {b : β}
    (hab : R a b) : Alike K R (Grammar.extend step a) (Grammar.extend step' b) :=
  .get fun _ _ hc => extendAlong h _ _ hab _ _ hc

theorem commaList (excess : GrammarFault) (h : Alike K R p q) :
    Alike K (List.Forall₂ R) (Grammar.commaList excess p) (Grammar.commaList excess q) := by
  refine kind.bind ?_
  rintro k _ rfl
  split
  · exact .pure .nil
  refine h.bind fun a b hab => ?_
  refine (many (R := R) (fun i => ?_) 1).bind fun _ _ hs => .pure (.cons hab hs)
  refine (accept (k := .comma) (by simp)).bind ?_
  rintro comma _ rfl
  split
  · exact .pure .none
  split
  · exact head.bind fun _ _ ht => (record excess ht.line).bind fun _ _ _ =>
      h.bind fun _ _ hab => .pure (.some hab)
  · exact h.bind fun _ _ hab => .pure (.some hab)

theorem mint (hK : K.Steady) : Alike K K.node Grammar.mint Grammar.mint :=
  fun _ _ hc => .ok hc.nextId { hc with nextId := hK _ _ hc.nextId }

variable {inner inner' : Inner}

/-- Declarations up to a token of some kind. -/
theorem declarations (h : InnerAlike K inner inner') (ends : Kind → Prop) [DecidablePred ends]
    (ts ts' : List Token) (i : Nat) :
    Alike K (List.Forall₂ (Option.Rel (Stmt.Twin K)))
      (Grammar.manyAlong (fun _ => do
        let k ← Grammar.kind
        if ends k then
          return none
        return some (← inner.declaration)) ts i)
      (Grammar.manyAlong (fun _ => do
        let k ← Grammar.kind
        if ends k then
          return none
        return some (← inner'.declaration)) ts' i) := by
  refine manyAlong (fun _ => ?_) ts ts' i
  refine kind.bind ?_
  rintro k _ rfl
  split
  · exact .pure .none
  · exact h.declaration.bind fun _ _ ho => .pure (.some ho)

theorem block (h : InnerAlike K inner inner') :
    Alike K (TwinStatements K) (Grammar.block inner) (Grammar.block inner') := by
  refine bind (.get fun c c' hc => declarations h _ _ _ 0 c c' hc) fun os os' hos => ?_
  exact (expect (by simp) _).bind fun _ _ _ =>
    .pure (.of_forall₂ (List.rel_filterMap (fun _ _ ho => ho) hos))

theorem function (h : InnerAlike K inner inner') (role : Grammar.Role) :
    Alike K (Function.Twin K) (Grammar.function inner role) (Grammar.function inner' role) :=
  (expect (by simp) _).bind fun _ _ _ =>
    (commaList _ (expect (by simp) _)).bind fun _ _ hparams =>
      (expect (by simp) _).bind fun _ _ _ => (expect (by simp) _).bind fun _ _ _ =>
        (withLoops _ (block h)).bind fun _ _ hbody => .pure (.mk hparams hbody)

theorem method (h : InnerAlike K inner inner') (role : Grammar.Role) :
    Alike K (Method.Twin K) (Grammar.method inner role) (Grammar.method inner' role) :=
  (expect (by simp) _).bind fun _ _ ht =>
    (function h role).bind fun _ _ hf => .pure (.mk ht hf)

theorem primary (hK : K.Steady) (h : InnerAlike K inner inner') :
    Alike K (Expr.Twin K) (Grammar.primary inner) (Grammar.primary inner') := by
  refine atHead fun c c' hc => ?_
  have ht := hc.head
  rw [ht.kind]
  cases hk : c'.head.kind with
  | «false» | «true» | nil | number _ | string _ =>
    exact hc.step (hc.head_ne_eof hk (by simp)) (.pure (.literal _))
  | «super» =>
    exact hc.step (hc.head_ne_eof hk (by simp)) ((expect (by simp) _).bind fun _ _ _ =>
      (expect (by simp) _).bind fun _ _ hu => (mint hK).bind fun _ _ hi =>
        .pure (.super hi ht hu))
  | «this» =>
    exact hc.step (hc.head_ne_eof hk (by simp)) ((mint hK).bind fun _ _ hi => .pure (.this hi ht))
  | identifier =>
    exact hc.step (hc.head_ne_eof hk (by simp)) ((mint hK).bind fun _ _ hi =>
      .pure (.variable hi ht))
  | «fun» =>
    exact hc.step (hc.head_ne_eof hk (by simp)) ((function h _).bind fun _ _ hf =>
      .pure (.function hf))
  | leftParen =>
    exact hc.step (hc.head_ne_eof hk (by simp)) (h.expression.bind fun _ _ he =>
      (expect (by simp) _).bind fun _ _ _ => .pure (.grouping he))
  | _ => exact haltHere _ _ _ hc

theorem call (hK : K.Steady) (h : InnerAlike K inner inner') :
    Alike K (Expr.Twin K) (Grammar.call inner) (Grammar.call inner') := by
  refine (primary hK h).bind fun e e' he => extend (fun e e' he => ?_) he
  refine (accept (by simp)).bind ?_
  rintro paren _ rfl
  split
  · exact (commaList _ h.expression).bind fun _ _ hes => (expect (by simp) _).bind fun _ _ ht =>
      .pure (.some (.call he ht (.of_forall₂ hes)))
  refine (accept (by simp)).bind ?_
  rintro dot _ rfl
  split
  · exact (expect (by simp) _).bind fun _ _ ht => .pure (.some (.get he ht))
  · exact .pure .none

theorem sign? : Alike K (Option.Rel (Token.Twin K)) Grammar.sign? Grammar.sign? := by
  refine (accept? (by simp)).bind fun t t' ht => ?_
  cases ht with
  | some ht => exact .pure (.some ht)
  | none => exact .accept? (by simp)

theorem unary (hK : K.Steady) (h : InnerAlike K inner inner') :
    Alike K (Expr.Twin K) (Grammar.unary inner) (Grammar.unary inner') := by
  refine (many (fun _ => sign?) 0).bind fun signs signs' hsigns => kind.bind ?_
  rintro k _ rfl
  have hoperand : Alike K (Expr.Twin K)
      (do let operand ← Grammar.call inner; return signs.foldr .unary operand)
      (do let operand ← Grammar.call inner'; return signs'.foldr .unary operand) := by
    refine (call hK h).bind fun e e' he => .pure ?_
    induction hsigns with
    | nil => exact he
    | cons ht _ ih => exact .unary ht ih
  split
  · exact (haltHere (R := Eq) _).bind fun _ _ _ => hoperand
  · exact hoperand

theorem leftAssociative {isOperator : Kind → Bool} {node : Expr → Token → Expr → Expr}
    {operand operand' : Parse Expr} (heof : isOperator .eof = false)
    (hoperand : Alike K (Expr.Twin K) operand operand')
    (hnode : ∀ {e₁ e₁' t t' e₂ e₂'}, e₁.Twin K e₁' → t.Twin K t' → e₂.Twin K e₂' →
      (node e₁ t e₂).Twin K (node e₁' t' e₂')) :
    Alike K (Expr.Twin K) (Grammar.leftAssociative isOperator node operand)
      (Grammar.leftAssociative isOperator node operand') := by
  refine hoperand.bind fun e e' he => extend (fun e e' he => ?_) he
  refine atHead fun c c' hc => ?_
  rw [← hc.head.kind]
  split
  next hop =>
    refine hc.step (fun hk => ?_) (hoperand.bind fun _ _ he₂ => .pure (.some (hnode he hc.head he₂)))
    rw [hk, heof] at hop
    cases hop
  next => exact .ok .none hc

theorem disjunction (hK : K.Steady) (h : InnerAlike K inner inner') :
    Alike K (Expr.Twin K) (Grammar.disjunction inner) (Grammar.disjunction inner') :=
  leftAssociative rfl (leftAssociative rfl (leftAssociative rfl (leftAssociative rfl
    (leftAssociative rfl (leftAssociative rfl (unary hK h) .binary) .binary) .binary) .binary)
      .logical) .logical

theorem assignTo (hK : K.Steady) {target target' value value' : Expr} {equals equals' : Token}
    (htarget : target.Twin K target') (ht : equals.Twin K equals') (hvalue : value.Twin K value') :
    Alike K (Expr.Twin K) (Grammar.assignTo target equals value)
      (Grammar.assignTo target' equals' value') := by
  cases htarget with
  | «variable» _ ht => exact (mint hK).bind fun _ _ hi => .pure (.assign hi ht hvalue)
  | get he ht => exact .pure (.set he ht hvalue)
  | _ =>
    refine (record _ ht.line).bind fun _ _ _ => .pure ?_
    constructor <;> assumption

theorem expression (hK : K.Steady) (h : InnerAlike K inner inner') :
    Alike K (Expr.Twin K) (Grammar.expression inner) (Grammar.expression inner') := by
  refine (disjunction hK h).bind fun e e' he => (accept? (by simp)).bind fun t t' ht => ?_
  cases ht with
  | none => exact .pure he
  | some ht => exact h.expression.bind fun _ _ hvalue => .assignTo hK he ht hvalue

theorem optionalExpression (hK : K.Steady) (h : InnerAlike K inner inner') (close : Kind) :
    Alike K (Option.Rel (Expr.Twin K)) (Grammar.optionalExpression inner close)
      (Grammar.optionalExpression inner' close) := by
  refine kind.bind ?_
  rintro k _ rfl
  split
  · exact .pure .none
  · exact (expression hK h).bind fun _ _ he => .pure (.some he)

theorem varDeclaration (hK : K.Steady) (h : InnerAlike K inner inner') :
    Alike K (Stmt.Twin K) (Grammar.varDeclaration inner) (Grammar.varDeclaration inner') := by
  refine (expect (by simp) _).bind fun t t' ht => (accept (by simp)).bind ?_
  rintro equal _ rfl
  have hrest : ∀ o o', Option.Rel (Expr.Twin K) o o' →
      Alike K (Stmt.Twin K)
        (do let _ ← Grammar.expect .semicolon "';' after variable declaration"; return .var t o)
        (do let _ ← Grammar.expect .semicolon "';' after variable declaration"
            return .var t' o') := by
    refine fun o o' ho => (expect (by simp) _).bind fun _ _ _ => .pure ?_
    cases ho with
    | none => exact .var ht
    | some he => exact .initialized ht he
  split
  · exact ((expression hK h).map fun _ _ he => .some he).bind hrest
  · exact (Alike.pure .none).bind hrest

theorem expressionStatement (hK : K.Steady) (h : InnerAlike K inner inner') :
    Alike K (Stmt.Twin K) (Grammar.expressionStatement inner)
      (Grammar.expressionStatement inner') :=
  (expression hK h).bind fun _ _ he =>
    (expect (by simp) _).bind fun _ _ _ => .pure (.expression he)

theorem loopBody (h : InnerAlike K inner inner') :
    Alike K (Stmt.Twin K) (Grammar.loopBody inner) (Grammar.loopBody inner') :=
  withinLoop h.statement

theorem forStart (hK : K.Steady) (h : InnerAlike K inner inner') :
    Alike K (Option.Rel (Stmt.Twin K)) (Grammar.forStart inner) (Grammar.forStart inner') := by
  refine (accept (by simp)).bind ?_
  rintro semicolon _ rfl
  split
  · exact .pure .none
  refine (accept (by simp)).bind ?_
  rintro var _ rfl
  split
  · exact (varDeclaration hK h).bind fun _ _ hs => .pure (.some hs)
  · exact (expressionStatement hK h).bind fun _ _ hs => .pure (.some hs)

theorem twin_forLoop {start start' : Option Stmt} {condition condition' step step' : Option Expr}
    {body body' : Stmt} (hstart : Option.Rel (Stmt.Twin K) start start')
    (hcondition : Option.Rel (Expr.Twin K) condition condition')
    (hstep : Option.Rel (Expr.Twin K) step step') (hbody : body.Twin K body') :
    (forLoop start condition step body).Twin K (forLoop start' condition' step' body') := by
  have htest : (condition.getD (.literal .true)).Twin K (condition'.getD (.literal .true)) := by
    cases hcondition with
    | none => exact .literal .true
    | some he => exact he
  have hloop : (forLoop none condition step body).Twin K (forLoop none condition' step' body') := by
    cases hstep with
    | none => exact .while htest hbody
    | some he => exact .while htest (.block (.cons hbody (.cons (.expression he) .nil)))
  cases hstart with
  | none => exact hloop
  | some hs => exact .block (.cons hs (.cons hloop .nil))

theorem forStatement (hK : K.Steady) (h : InnerAlike K inner inner') :
    Alike K (Stmt.Twin K) (Grammar.forStatement inner) (Grammar.forStatement inner') :=
  (expect (by simp) _).bind fun _ _ _ => (forStart hK h).bind fun _ _ hstart =>
    (optionalExpression hK h _).bind fun _ _ hcondition => (expect (by simp) _).bind fun _ _ _ =>
      (optionalExpression hK h _).bind fun _ _ hstep => (expect (by simp) _).bind fun _ _ _ =>
        (loopBody h).bind fun _ _ hbody => .pure (twin_forLoop hstart hcondition hstep hbody)

theorem ifStatement (hK : K.Steady) (h : InnerAlike K inner inner') :
    Alike K (Stmt.Twin K) (Grammar.ifStatement inner) (Grammar.ifStatement inner') := by
  refine (expect (by simp) _).bind fun _ _ _ => (expression hK h).bind fun e e' he =>
    (expect (by simp) _).bind fun _ _ _ => h.statement.bind fun s s' hs =>
      (accept (by simp)).bind ?_
  rintro otherwise _ rfl
  have hrest : ∀ o o', Option.Rel (Stmt.Twin K) o o' →
      (Stmt.ifElse e s o).Twin K (.ifElse e' s' o') := by
    intro o o' ho
    cases ho with
    | none => exact .if he hs
    | some hs' => exact .ifElse he hs hs'
  split
  · exact (h.statement.map fun _ _ hs => .some hs).bind fun o o' ho => .pure (hrest o o' ho)
  · exact (Alike.pure .none).bind fun o o' ho => .pure (hrest o o' ho)

theorem breakStatement {t t' : Token} (ht : t.Twin K t') :
    Alike K (Stmt.Twin K) (Grammar.breakStatement t) (Grammar.breakStatement t') := by
  have hrest : Alike K (Stmt.Twin K)
      (do let _ ← Grammar.expect .semicolon "';' after 'break'"; return .break t)
      (do let _ ← Grammar.expect .semicolon "';' after 'break'"; return .break t') :=
    (expect (by simp) _).bind fun _ _ _ => .pure (.break ht)
  refine .get fun c c' hc => ?_
  rw [hc.loops]
  split
  · exact (halt (R := Eq) _ ht.line).bind (fun _ _ _ => hrest) _ _ hc
  · exact hrest _ _ hc

theorem statement (hK : K.Steady) (h : InnerAlike K inner inner') :
    Alike K (Stmt.Twin K) (Grammar.statement inner) (Grammar.statement inner') := by
  refine atHead fun c c' hc => ?_
  have ht := hc.head
  rw [ht.kind]
  cases hk : c'.head.kind with
  | «for» => exact hc.step (hc.head_ne_eof hk (by simp)) (forStatement hK h)
  | «if» => exact hc.step (hc.head_ne_eof hk (by simp)) (ifStatement hK h)
  | «while» =>
    exact hc.step (hc.head_ne_eof hk (by simp)) ((expect (by simp) _).bind fun _ _ _ =>
      (expression hK h).bind fun _ _ he => (expect (by simp) _).bind fun _ _ _ =>
        (loopBody h).bind fun _ _ hs => .pure (.while he hs))
  | «break» => exact hc.step (hc.head_ne_eof hk (by simp)) (breakStatement ht)
  | «return» =>
    refine hc.step (hc.head_ne_eof hk (by simp)) ((optionalExpression hK h _).bind fun o o' ho =>
      (expect (by simp) _).bind fun _ _ _ => .pure ?_)
    cases ho with
    | none => exact .return ht
    | some he => exact .returned ht he
  | leftBrace =>
    exact hc.step (hc.head_ne_eof hk (by simp)) ((block h).map fun _ _ hss => .block hss)
  | print =>
    exact hc.step (hc.head_ne_eof hk (by simp)) ((expression hK h).bind fun _ _ he =>
      (expect (by simp) _).bind fun _ _ _ => .pure (.print he))
  | _ => exact expressionStatement hK h _ _ hc

theorem classDeclaration (hK : K.Steady) (h : InnerAlike K inner inner') :
    Alike K (Stmt.Twin K) (Grammar.classDeclaration inner) (Grammar.classDeclaration inner') := by
  have hmethods : Alike K (List.Forall₂ (Method.Twin K))
      (Grammar.many (fun _ => do
        let k ← Grammar.kind
        if k = .rightBrace ∨ k = .eof then
          return none
        return some (← Grammar.method inner .method)) 0)
      (Grammar.many (fun _ => do
        let k ← Grammar.kind
        if k = .rightBrace ∨ k = .eof then
          return none
        return some (← Grammar.method inner' .method)) 0) := by
    refine many (fun _ => ?_) 0
    refine kind.bind ?_
    rintro k _ rfl
    split
    · exact .pure .none
    · exact (method h _).bind fun _ _ hm => .pure (.some hm)
  refine (expect (by simp) _).bind fun t t' ht => (accept (by simp)).bind ?_
  rintro less _ rfl
  have hsuperclass : ∀ o o', Option.Rel (Expr.Twin K) o o' →
      ∀ ms ms', List.Forall₂ (Method.Twin K) ms ms' →
        (Stmt.class t o ms).Twin K (.class t' o' ms') := by
    intro o o' ho ms ms' hms
    cases ho with
    | none => exact .class ht (.of_forall₂ hms)
    | some he => exact .subclass ht he (.of_forall₂ hms)
  split
  · exact (expect (by simp) _).bind fun _ _ hu => (mint hK).bind fun _ _ hi =>
      (Alike.pure (.some (.variable hi hu))).bind fun o o' ho => (expect (by simp) _).bind
        fun _ _ _ => hmethods.bind fun _ _ hms => (expect (by simp) _).bind fun _ _ _ =>
          .pure (hsuperclass o o' ho _ _ hms)
  · exact (Alike.pure .none).bind fun o o' ho => (expect (by simp) _).bind
        fun _ _ _ => hmethods.bind fun _ _ hms => (expect (by simp) _).bind fun _ _ _ =>
          .pure (hsuperclass o o' ho _ _ hms)

theorem declaration (hK : K.Steady) (h : InnerAlike K inner inner') :
    Alike K (Option.Rel (Stmt.Twin K)) (Grammar.declaration inner)
      (Grammar.declaration inner') := by
  have hother : Alike K (Stmt.Twin K)
      (do
        if (← Grammar.accept .class) then
          Grammar.classDeclaration inner
        else if (← Grammar.accept .var) then
          Grammar.varDeclaration inner
        else
          Grammar.statement inner)
      (do
        if (← Grammar.accept .class) then
          Grammar.classDeclaration inner'
        else if (← Grammar.accept .var) then
          Grammar.varDeclaration inner'
        else
          Grammar.statement inner') := by
    refine (accept (by simp)).bind ?_
    rintro isClass _ rfl
    split
    · exact classDeclaration hK h
    refine (accept (by simp)).bind ?_
    rintro isVar _ rfl
    split
    · exact varDeclaration hK h
    · exact statement hK h
  refine recover (.get fun c c' hc => ?_)
  rw [← hc.rest.declaresFunction_eq]
  split
  next hfun =>
    exact hc.step (by simp [declaresFunction_head hfun])
      ((method h _).bind fun _ _ hm => .pure (.function hm))
  next => exact hother _ _ hc

/-- The productions read alike however deep they may go. -/
theorem innerAlike (hK : K.Steady) (n n' : Nat) :
    InnerAlike K (Inner.ofDepth n) (Inner.ofDepth n') := by
  induction n generalizing n' with
  | zero => exact ⟨.exhausted, .exhausted, .exhausted⟩
  | succ n ih =>
    cases n' with
    | zero => exact ⟨.exhausted', .exhausted', .exhausted'⟩
    | succ n' => exact ⟨expression hK (ih n'), statement hK (ih n'), declaration hK (ih n')⟩

theorem program (h : InnerAlike K inner inner') :
    Alike K (TwinStatements K) (Grammar.program inner) (Grammar.program inner') :=
  bind (.get fun c c' hc => declarations h _ _ _ 0 c c' hc) fun _ _ hos =>
    .pure (.of_forall₂ (List.rel_filterMap (fun _ _ ho => ho) hos))

theorem wholeExpression (h : InnerAlike K inner inner') :
    Alike K (Expr.Twin K) (Grammar.wholeExpression inner) (Grammar.wholeExpression inner') := by
  refine h.expression.bind fun e e' he => head.bind fun t t' ht => ?_
  rw [ht.kind]
  split
  · exact (record _ ht.line).bind fun _ _ _ => .pure he
  · exact .pure he

end Alike

section Reading

variable {α β : Type} {R : α → β → Prop}

/-- What comes of a list, of which a production made this. -/
def reading : EStateM.Result Halt Cursor α → Reading α
  | .ok a c => ⟨if c.faults.isEmpty then .ok a else .error c.faults, c.nextId⟩
  | .error (.fault d) c => ⟨.error (c.faults ++ [d]), c.nextId⟩
  | .error .exhausted c => ⟨.error c.faults, c.nextId⟩

theorem read_eq_reading (production : Inner → Parse α) (ts : List Token) (firstId : Nat) :
    read production ts firstId =
      reading (production (Inner.ofDepth (ts.length + 1)) ⟨ts, 0, [], firstId⟩) := rfl

/-- The production reads every list to an end, if its allowance is larger than the list. -/
def Finishes (production : Inner → Parse α) : Prop :=
  ∀ ts firstId n, ts.length < n →
    ∀ c, production (Inner.ofDepth n) ⟨ts, 0, [], firstId⟩ ≠ .error .exhausted c

theorem Reads.ne_exhausted {spent : Prop} {p : Parse α} {c : Cursor} {Q : α → Cursor → Prop}
    (h : Reads spent p c Q) (hspent : ¬spent) (c' : Cursor) : p c ≠ .error .exhausted c' := by
  intro heq
  rw [Reads, heq] at h
  exact hspent h

theorem finishes_program : Finishes program := fun _ _ _ hn =>
  (reads_program rfl).ne_exhausted (Nat.not_le_of_lt hn)

theorem finishes_wholeExpression : Finishes wholeExpression := fun _ _ _ hn =>
  (reads_wholeExpression rfl).ne_exhausted (Nat.not_le_of_lt hn)

theorem TwinEnds.reading {r : EStateM.Result Halt Cursor α} {r' : EStateM.Result Halt Cursor β}
    (h : TwinEnds K R r r') (hr : ∀ c, r ≠ .error .exhausted c)
    (hr' : ∀ c, r' ≠ .error .exhausted c) :
    ExceptRel (List.Forall₂ (Diagnostic.Twin K)) R (reading r).result (reading r').result ∧
      K.node (Grammar.reading r).nextId (Grammar.reading r').nextId := by
  cases h with
  | ok hab hc =>
    refine ⟨?_, hc.nextId⟩
    have hfaults := hc.faults
    unfold Grammar.reading
    dsimp only
    generalize Cursor.faults _ = ds at hfaults
    generalize Cursor.faults _ = ds' at hfaults
    cases hfaults with
    | nil => exact .ok hab
    | cons hd hds => exact .error (.cons hd hds)
  | fault hd hc => exact ⟨.error (List.rel_append hc.faults (.cons hd .nil)), hc.nextId⟩
  | exhausted => exact absurd rfl (hr _)
  | exhausted' => exact absurd rfl (hr' _)

/-- Readings of what is alike up to the end are alike, whatever the allowances. -/
theorem twin_reading {production : Inner → Parse α} {production' : Inner → Parse β}
    (h : ∀ n n', Alike K R (production (Inner.ofDepth n)) (production' (Inner.ofDepth n')))
    (hfinishes : Finishes production) (hfinishes' : Finishes production') {ts ts' : List Token}
    {firstId firstId' : Nat} (hts : TwinTokens K ts ts') (hid : K.node firstId firstId')
    {n n' : Nat} (hn : ts.length < n) (hn' : ts'.length < n') :
    let r := production (Inner.ofDepth n) ⟨ts, 0, [], firstId⟩
    let r' := production' (Inner.ofDepth n') ⟨ts', 0, [], firstId'⟩
    ExceptRel (List.Forall₂ (Diagnostic.Twin K)) R (reading r).result (reading r').result ∧
      K.node (reading r).nextId (reading r').nextId :=
  have hstart : Cursor.Twin K ⟨ts, 0, [], firstId⟩ ⟨ts', 0, [], firstId'⟩ := ⟨hts, rfl, .nil, hid⟩
  (h n n' _ _ hstart).reading (hfinishes ts firstId n hn) (hfinishes' ts' firstId' n' hn')

/-- Programs of tokens that are alike are alike, or have the same faults. -/
theorem parallel_read_program (hK : K.Steady) {ts ts' : List Token} {firstId firstId' : Nat}
    (hts : List.Forall₂ (Token.Twin K) ts ts') (hid : K.node firstId firstId') :
    ExceptRel (List.Forall₂ (Diagnostic.Twin K)) (TwinStatements K)
        (read program ts firstId).result (read program ts' firstId').result ∧
      K.node (read program ts firstId).nextId (read program ts' firstId').nextId :=
  twin_reading (fun n n' => .program (Alike.innerAlike hK n n')) finishes_program finishes_program
    (.of_forall₂ hts) hid (Nat.lt_succ_self _) (Nat.lt_succ_self _)

end Reading

end Grammar

end Lox
