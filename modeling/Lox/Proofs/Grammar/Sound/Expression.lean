import Lox.Grammar.Program
import Lox.Proofs.Grammar.Sound.Spans

namespace Lox.Grammar

variable {inner : Inner} {n : Nat} {loop : Bool} {c : Cursor}

/-- Declarations up to a token of a kind that `P` holds of. -/
theorem reads_declarations {P : Kind → Prop} [DecidablePred P] (hi : inner.Sound n)
    (hl : c.inLoop = loop) (hP : P .eof) :
    Reads (n ≤ c.rest.length) (many (fun _ => do
      let k ← kind
      if P k then
        return none
      return some (← inner.declaration)) 0) c fun os c' =>
        Spans loop .declarations c (os.filterMap id) c' ∧ P c'.head.kind := by
  refine reads_many (S := fun _ c os c' =>
    Spans loop .declarations c (os.filterMap id) c' ∧ P c'.head.kind) ?_
  intro _ c₁ hs₁
  refine reads_kind.bind ?_
  rintro _ _ _ ⟨rfl, rfl⟩
  split
  next hk =>
    exact Reads.pure (a := none) ⟨⟨.nil, fun _ => ⟨[], by simp, .noDeclarations⟩⟩, hk⟩
  next hk =>
    have heof : c₁.head.kind ≠ .eof := fun h => hk (h ▸ hP)
    refine Reads.map ((hi.declaration loop c₁ (hs₁.inLoop.trans hl) heof).imp
      (fun h => Nat.le_trans h hs₁.length_le) fun o c₂ hs₂ ho => ⟨ho.1, ?_⟩)
    intro os c₃ hs₃ ⟨hos, hlast⟩
    refine ⟨?_, hlast⟩
    cases o with
    | none =>
      refine ⟨(hos.fresh.mono hs₂.nextId (Nat.le_refl _)), fun hclean => ?_⟩
      exact absurd (hs₃.clean hclean) ho.2
    | some s =>
      refine ⟨ho.2.fresh.append hos.fresh hs₂.nextId hs₃.nextId, fun hclean => ?_⟩
      obtain ⟨ts₁, hts₁, d, hd⟩ := ho.2.tokens (hs₃.clean hclean)
      obtain ⟨ts₂, hts₂, hds⟩ := hos.tokens hclean
      exact ⟨ts₁ ++ ts₂, by rw [hts₁, hts₂, List.append_assoc], .declarations hd hds⟩

/-- Declarations and the brace behind them. -/
def SpansBlock (loop : Bool) : Cursor → List Stmt → Cursor → Prop :=
  Stands (List.flatMap Stmt.ids) fun ts ss => ∃ ts' last, ts = ts' ++ [last] ∧
    last.kind = .rightBrace ∧ Derives true loop .declarations ts' ss

theorem reads_block (hi : inner.Sound n) (hl : c.inLoop = loop) :
    Reads (n ≤ c.rest.length) (block inner) c (SpansBlock loop c) := by
  refine (reads_declarations (P := fun k => k = .rightBrace ∨ k = .eof) hi hl (.inr rfl)).bind
    fun os c₁ hs₁ ⟨hos, _⟩ => ?_
  refine (reads_expect (by simp)).bind fun last c₂ hs₂ ⟨hk, ha⟩ => Reads.pure ⟨?_, fun hclean => ?_⟩
  · exact hos.fresh.mono (Nat.le_refl _) hs₂.nextId
  · obtain ⟨ts, hts, hd⟩ := hos.tokens (hs₂.clean hclean)
    exact ⟨ts ++ [last], by rw [hts, ha.rest]; simp, ts, last, rfl, hk, hd⟩

theorem reads_function (loop : Bool) (hi : inner.Sound n) (role : Role) :
    Reads (n < c.rest.length) (function inner role) c fun f c' =>
      Spans loop .function c f c' ∧ c.Passed c' := by
  refine (reads_expect (by simp)).bind fun opening c₁ hs₁ ⟨hopening, ha₁⟩ => ?_
  refine (reads_parameters c₁).bind fun params c₂ hs₂ hparams => ?_
  refine (reads_expect (by simp)).bind fun closing c₃ hs₃ ⟨hclosing, ha₃⟩ => ?_
  refine (reads_expect (by simp)).bind fun brace c₄ hs₄ ⟨hbrace, ha₄⟩ => ?_
  have hpassed := ha₁.passed (hs₂.trans (hs₃.trans hs₄))
  have hblock := (reads_block hi (c := { c₄ with loops := 0 }) rfl).spend
    fun h => Nat.lt_of_le_of_lt h hpassed
  refine (reads_withLoops (R := SpansBlock false c₄) hblock fun _ _ h =>
    ⟨h.fresh, h.tokens⟩).bind fun body c₅ hs₅ hbody => ?_
  refine Reads.pure ⟨⟨?_, fun hclean => ?_⟩, Nat.lt_of_le_of_lt hs₅.length_le hpassed⟩
  · simp only [Symbol.ids, Function.ids, idsOfStatements_eq_flatMap]
    exact hbody.fresh.mono (hs₁.trans (hs₂.trans (hs₃.trans hs₄))).nextId (Nat.le_refl _)
  · obtain ⟨ts₂, hts₂, ts', last, rfl, hlast, hd⟩ := hbody.tokens hclean
    obtain ⟨ts₁, hts₁, hps⟩ := hparams.tokens (hs₃.clean (hs₄.clean (hs₅.clean hclean)))
    refine ⟨opening :: (ts₁ ++ closing :: brace :: (ts' ++ [last])), ?_,
      .function hopening hps hclosing hbrace hd hlast⟩
    rw [ha₁.rest, hts₁, ha₃.rest, ha₄.rest, hts₂]
    simp

theorem reads_method (loop : Bool) (hi : inner.Sound n) (role : Role) :
    Reads (n < c.rest.length) (method inner role) c fun m c' =>
      Spans loop .method c m c' ∧ c.Passed c' := by
  refine (reads_expect (by simp)).bind fun name c₁ hs₁ ⟨hname, ha⟩ => ?_
  refine ((reads_function loop hi role).spend fun h =>
    Nat.lt_of_lt_of_le h hs₁.length_le).bind fun f c₂ hs₂ hf => ?_
  refine Reads.pure ⟨⟨hf.1.fresh.mono hs₁.nextId (Nat.le_refl _), fun hclean => ?_⟩,
    ha.passed hs₂⟩
  obtain ⟨ts, hts, hd⟩ := hf.1.tokens hclean
  exact ⟨name :: ts, by rw [ha.rest, hts]; rfl, .method hname hd⟩

/-- A tree made of the next token alone. -/
theorem reads_single {spent : Prop} {e : Expr} (heof : c.head.kind ≠ .eof) (hids : e.ids = [])
    (hd : Derives true loop (.expression .primary) [c.head] e) :
    Reads spent (do advance; return e) c fun e c' =>
      Spans loop (.expression .primary) c e c' ∧ c.Passed c' := by
  refine (reads_advance heof).bind fun _ c₁ _ ha => Reads.pure ⟨⟨?_, fun _ => ?_⟩, ha.length_lt⟩
  · rw [Symbol.ids, hids]
    exact .nil
  · exact ⟨[c.head], ha.rest, hd⟩

/-- A tree with an identity of its own, made of the next token alone. -/
theorem reads_named {spent : Prop} {node : Nat → Expr} (heof : c.head.kind ≠ .eof)
    (hids : ∀ id, (node id).ids = [id])
    (hd : ∀ id, Derives true loop (.expression .primary) [c.head] (node id)) :
    Reads spent (do advance; return node (← mint)) c fun e c' =>
      Spans loop (.expression .primary) c e c' ∧ c.Passed c' := by
  refine (reads_advance heof).bind fun _ c₁ hs₁ ha => ?_
  refine reads_mint.bind fun id c₂ hs₂ ⟨hid, hrest, _, hnext⟩ => ?_
  refine Reads.pure ⟨⟨?_, fun _ => ?_⟩, ha.passed hs₂⟩
  · rw [Symbol.ids, hids, hid, hnext]
    exact (Fresh.one _).mono hs₁.nextId (Nat.le_refl _)
  · exact ⟨[c.head], by rw [hrest]; exact ha.rest, hd id⟩

theorem reads_primary (hi : inner.Sound n) (hl : c.inLoop = loop) :
    Reads (n < c.rest.length) (primary inner) c fun e c' =>
      Spans loop (.expression .primary) c e c' ∧ c.Passed c' := by
  refine reads_head.bind ?_
  rintro _ _ _ ⟨rfl, rfl⟩
  split
  next h => exact reads_single (by simp [h]) rfl (.literal (by rw [h]; rfl))
  next h => exact reads_single (by simp [h]) rfl (.literal (by rw [h]; rfl))
  next h => exact reads_single (by simp [h]) rfl (.literal (by rw [h]; rfl))
  next h => exact reads_single (by simp [h]) rfl (.literal (by rw [h]; rfl))
  next h => exact reads_single (by simp [h]) rfl (.literal (by rw [h]; rfl))
  next h =>
    refine (reads_advance (by simp [h])).bind fun _ c₁ hs₁ ha₁ => ?_
    refine (reads_expect (by simp)).bind fun dot c₂ hs₂ ⟨hdot, ha₂⟩ => ?_
    refine (reads_expect (by simp)).bind fun method c₃ hs₃ ⟨hmethod, ha₃⟩ => ?_
    refine reads_mint.bind fun id c₄ hs₄ ⟨hid, hrest, _, hnext⟩ => ?_
    refine Reads.pure ⟨⟨?_, fun _ => ?_⟩, ha₁.passed (hs₂.trans (hs₃.trans hs₄))⟩
    · rw [Symbol.ids, Expr.ids, hid, hnext]
      exact (Fresh.one _).mono (hs₁.trans (hs₂.trans hs₃)).nextId (Nat.le_refl _)
    · refine ⟨[c.head, dot, method], ?_, .super h hdot hmethod⟩
      rw [ha₁.rest, ha₂.rest, ha₃.rest, hrest]
      rfl
  next h => exact reads_named (by simp [h]) (fun _ => rfl) fun _ => .this h
  next h => exact reads_named (by simp [h]) (fun _ => rfl) fun _ => .name h
  next h =>
    refine (reads_advance (by simp [h])).bind fun _ c₁ hs₁ ha₁ => ?_
    refine Reads.map ((reads_function loop hi .function).imp
      (fun h => Nat.lt_of_lt_of_le h hs₁.length_le) fun f c₂ hs₂ hf => ?_)
    refine ⟨⟨hf.1.fresh.mono hs₁.nextId (Nat.le_refl _), fun hclean => ?_⟩, ha₁.passed hs₂⟩
    obtain ⟨ts, hts, hd⟩ := hf.1.tokens hclean
    exact ⟨c.head :: ts, by rw [ha₁.rest, hts]; rfl, .anonymous h hd⟩
  next h =>
    refine (reads_advance (by simp [h])).bind fun _ c₁ hs₁ ha₁ => ?_
    refine ((hi.expression loop c₁ (hs₁.inLoop.trans hl)).spend fun h =>
      Nat.lt_of_le_of_lt h ha₁.length_lt).bind fun e c₂ hs₂ ⟨he, _⟩ => ?_
    refine (reads_expect (by simp)).bind fun closing c₃ hs₃ ⟨hclosing, ha₃⟩ => ?_
    refine Reads.pure ⟨⟨he.fresh.mono hs₁.nextId hs₃.nextId, fun hclean => ?_⟩,
      ha₁.passed (hs₂.trans hs₃)⟩
    obtain ⟨ts, hts, hd⟩ := he.tokens (hs₃.clean hclean)
    exact ⟨c.head :: (ts ++ [closing]), by rw [ha₁.rest, hts, ha₃.rest]; simp,
      .grouping h hd hclosing⟩
  next => exact reads_haltHere

theorem reads_call (hi : inner.Sound n) (hl : c.inLoop = loop) :
    Reads (n < c.rest.length) (call inner) c fun e c' =>
      Spans loop (.expression .call) c e c' ∧ c.Passed c' := by
  refine (reads_primary hi hl).bind fun e₀ c₀ hs₀ ⟨he₀, hp₀⟩ => ?_
  refine (reads_extend (S := fun e c' => c.Step c' ∧ Spans loop (.expression .call) c e c' ∧
    c.Passed c') ?_ ⟨hs₀, he₀.imp rfl fun _ h => .operand rfl h, hp₀⟩).imp id fun _ _ _ h => h.2
  rintro callee c₁ - ⟨hs₁, hcallee, hp₁⟩
  refine (reads_accept (by simp)).bind fun opened c₂ hs₂ hopened => ?_
  cases opened with
  | true =>
    obtain ⟨opening, hopening, ha₂⟩ := hopened
    refine (reads_arguments loop c₂ fun c₃ hs₃ => ?_).bind fun args c₃ hs₃ hargs => ?_
    · refine (hi.expression loop c₃ ((hs₁.trans (hs₂.trans hs₃)).inLoop.trans hl)).spend fun h =>
        Nat.lt_of_le_of_lt h ?_
      exact Nat.lt_of_lt_of_le (ha₂.passed hs₃) hs₁.length_le
    refine (reads_expect (by simp)).bind fun paren c₄ hs₄ ⟨hparen, ha₄⟩ => ?_
    have hpassed := Nat.lt_of_lt_of_le (ha₂.passed (hs₃.trans hs₄)) hs₁.length_le
    refine Reads.pure (a := some (Expr.call callee paren args)) ⟨ha₂.passed (hs₃.trans hs₄),
      hs₁.trans (hs₂.trans (hs₃.trans hs₄)), ⟨?_, fun hclean => ?_⟩, hpassed⟩
    · simp only [Symbol.ids, Expr.ids, idsOfAll_eq_flatMap]
      exact hcallee.fresh.append (hargs.fresh.mono hs₂.nextId hs₄.nextId) hs₁.nextId
        (hs₂.trans (hs₃.trans hs₄)).nextId
    · obtain ⟨ts₂, hts₂, hd₂⟩ := hargs.tokens (hs₄.clean hclean)
      obtain ⟨ts₁, hts₁, hd₁⟩ := hcallee.tokens ((hs₂.trans (hs₃.trans hs₄)).clean hclean)
      refine ⟨ts₁ ++ opening :: (ts₂ ++ [paren]), ?_, .call hd₁ hopening hd₂ hparen⟩
      rw [hts₁, ha₂.rest, hts₂, ha₄.rest]
      simp
  | false =>
    obtain ⟨-, rfl⟩ := hopened
    refine (reads_accept (by simp)).bind fun dotted c₂ hs₂ hdotted => ?_
    cases dotted with
    | false =>
      obtain ⟨-, rfl⟩ := hdotted
      exact Reads.pure (a := none) ⟨hs₁, hcallee, hp₁⟩
    | true =>
      obtain ⟨dot, hdot, ha₂⟩ := hdotted
      refine (reads_expect (by simp)).bind fun name c₃ hs₃ ⟨hname, ha₃⟩ => ?_
      refine Reads.pure (a := some (Expr.get callee name)) ⟨ha₂.passed hs₃,
        hs₁.trans (hs₂.trans hs₃), ⟨?_, fun hclean => ?_⟩,
        Nat.lt_of_lt_of_le (ha₂.passed hs₃) hs₁.length_le⟩
      · exact hcallee.fresh.mono (Nat.le_refl _) (hs₂.trans hs₃).nextId
      · obtain ⟨ts, hts, hd⟩ := hcallee.tokens ((hs₂.trans hs₃).clean hclean)
        refine ⟨ts ++ [dot, name], ?_, .get hd hdot hname⟩
        rw [hts, ha₂.rest, ha₃.rest]
        simp

theorem reads_sign? {spent : Prop} : Reads spent sign? c fun o c' => match o with
    | some t => (t.kind = .bang ∨ t.kind = .minus) ∧ c.Advance t c'
    | none => c = c' := by
  refine (reads_accept? (by simp)).bind fun o c₁ hs₁ ho => ?_
  cases o with
  | some t => exact Reads.pure (a := some t) ⟨.inl ho.1, ho.2⟩
  | none =>
    obtain ⟨-, rfl⟩ := ho
    refine (reads_accept? (by simp)).imp id fun o c₂ _ ho => ?_
    cases o with
    | some t => exact ⟨.inr ho.1, ho.2⟩
    | none => exact ho.2

theorem ids_signs (signs : List Token) (e : Expr) : (signs.foldr Expr.unary e).ids = e.ids := by
  induction signs with
  | nil => rfl
  | cons t ts ih => simpa [Expr.ids] using ih

theorem Derives.signs {nearest : Bool} {signs ts : List Token} {e : Expr}
    (hsigns : ∀ t ∈ signs, t.kind = .bang ∨ t.kind = .minus)
    (h : Derives nearest loop (.expression .unary) ts e) :
    Derives nearest loop (.expression .unary) (signs ++ ts) (signs.foldr .unary e) := by
  induction signs with
  | nil => exact h
  | cons t signs ih =>
    exact .sign (hsigns t (by simp)) (ih fun t' ht' => hsigns t' (by simp [ht']))

theorem reads_unary (hi : inner.Sound n) (hl : c.inLoop = loop) :
    Reads (n < c.rest.length) (unary inner) c fun e c' =>
      Spans loop (.expression .unary) c e c' ∧ c.Passed c' := by
  refine (reads_many (S := fun _ c₁ signs c' => c'.nextId = c₁.nextId ∧
    c₁.rest = signs ++ c'.rest ∧ ∀ t ∈ signs, t.kind = .bang ∨ t.kind = .minus) ?_).bind
    fun signs c₁ hs₁ ⟨hnext, hrest, hsigns⟩ => ?_
  · intro _ c₁ _
    refine reads_sign?.imp id fun o c₂ _ ho => ?_
    cases o with
    | none =>
      cases ho
      exact ⟨rfl, rfl, by simp⟩
    | some t =>
      refine ⟨ho.2.length_lt, fun signs c₃ _ ⟨hnext, hrest, hsigns⟩ => ?_⟩
      refine ⟨hnext.trans ho.2.nextId, by rw [ho.2.rest, hrest]; rfl, ?_⟩
      simpa using ⟨ho.1, hsigns⟩
  · refine reads_kind.bind ?_
    rintro _ _ _ ⟨rfl, rfl⟩
    split
    · exact reads_haltHere.bind (Q := fun _ _ => False) fun _ _ _ h => h.elim
    · refine ((reads_call hi (hs₁.inLoop.trans hl)).spend fun h =>
        Nat.lt_of_lt_of_le h hs₁.length_le).bind fun e c₂ hs₂ ⟨he, hp⟩ => ?_
      refine Reads.pure ⟨⟨?_, fun hclean => ?_⟩, Nat.lt_of_lt_of_le hp hs₁.length_le⟩
      · rw [Symbol.ids, ids_signs]
        exact he.fresh.mono hs₁.nextId (Nat.le_refl _)
      · obtain ⟨ts, hts, hd⟩ := he.tokens hclean
        exact ⟨signs ++ ts, by rw [hrest, hts, List.append_assoc],
          (Derives.operand rfl hd).signs hsigns⟩

/-- Operands of a rank with its operators between them. -/
theorem reads_leftAssociative {r r' : Rank} {isOperator : Kind → Bool}
    {node : Expr → Token → Expr → Expr} {operand : Parse Expr}
    (hr : r.tighter? = some r') (hop : ∀ k, isOperator k = r.isOperator k)
    (heof : isOperator .eof = false) (hnode : node = r.node)
    (hids : ∀ left operator right, (node left operator right).ids = left.ids ++ right.ids)
    (hoperand : ∀ c', c.Step c' → Reads (n < c.rest.length) operand c' fun e c'' =>
      Spans loop (.expression r') c' e c'' ∧ c'.Passed c'') :
    Reads (n < c.rest.length) (leftAssociative isOperator node operand) c fun e c' =>
      Spans loop (.expression r) c e c' ∧ c.Passed c' := by
  subst hnode
  refine (hoperand c (.refl c)).bind fun e₀ c₀ hs₀ ⟨he₀, hp₀⟩ => ?_
  refine (reads_extend (S := fun e c' => c.Step c' ∧ Spans loop (.expression r) c e c' ∧
    c.Passed c') ?_ ⟨hs₀, he₀.imp rfl fun _ h => .operand hr h, hp₀⟩).imp id fun _ _ _ h => h.2
  rintro left c₁ - ⟨hs₁, hleft, hp₁⟩
  refine reads_head.bind ?_
  rintro _ _ _ ⟨rfl, rfl⟩
  split
  next hk =>
    have hne : c₁.head.kind ≠ .eof := by
      intro h
      rw [h, heof] at hk
      cases hk
    refine (reads_advance hne).bind fun _ c₂ hs₂ ha => ?_
    refine (hoperand c₂ (hs₁.trans hs₂)).bind fun right c₃ hs₃ ⟨hright, _⟩ => ?_
    refine Reads.pure (a := some (r.node left c₁.head right)) ⟨ha.passed hs₃,
      hs₁.trans (hs₂.trans hs₃), ⟨?_, fun hclean => ?_⟩,
      Nat.lt_of_lt_of_le (ha.passed hs₃) hs₁.length_le⟩
    · refine (congrArg (Fresh _ _) (hids _ _ _)).mpr ?_
      exact hleft.fresh.append (hright.fresh.mono hs₂.nextId (Nat.le_refl _)) hs₁.nextId
        (hs₂.trans hs₃).nextId
    · obtain ⟨ts₂, hts₂, hd₂⟩ := hright.tokens hclean
      obtain ⟨ts₁, hts₁, hd₁⟩ := hleft.tokens ((hs₂.trans hs₃).clean hclean)
      refine ⟨ts₁ ++ c₁.head :: ts₂, ?_, .operation hd₁ (hop _ ▸ hk) hr hd₂⟩
      rw [hts₁, ha.rest, hts₂]
      simp
  next => exact Reads.pure (a := none) ⟨hs₁, hleft, hp₁⟩

theorem reads_factor (hi : inner.Sound n) (hl : c.inLoop = loop) :
    Reads (n < c.rest.length) (factor inner) c fun e c' =>
      Spans loop (.expression .factor) c e c' ∧ c.Passed c' :=
  reads_leftAssociative rfl (fun _ => rfl) rfl rfl (fun _ _ _ => rfl) fun _ hs =>
    (reads_unary hi (hs.inLoop.trans hl)).spend fun h => Nat.lt_of_lt_of_le h hs.length_le

theorem reads_term (hi : inner.Sound n) (hl : c.inLoop = loop) :
    Reads (n < c.rest.length) (term inner) c fun e c' =>
      Spans loop (.expression .term) c e c' ∧ c.Passed c' :=
  reads_leftAssociative rfl (fun _ => rfl) rfl rfl (fun _ _ _ => rfl) fun _ hs =>
    (reads_factor hi (hs.inLoop.trans hl)).spend fun h => Nat.lt_of_lt_of_le h hs.length_le

theorem reads_comparison (hi : inner.Sound n) (hl : c.inLoop = loop) :
    Reads (n < c.rest.length) (comparison inner) c fun e c' =>
      Spans loop (.expression .comparison) c e c' ∧ c.Passed c' :=
  reads_leftAssociative rfl (fun _ => rfl) rfl rfl (fun _ _ _ => rfl) fun _ hs =>
    (reads_term hi (hs.inLoop.trans hl)).spend fun h => Nat.lt_of_lt_of_le h hs.length_le

theorem reads_equality (hi : inner.Sound n) (hl : c.inLoop = loop) :
    Reads (n < c.rest.length) (equality inner) c fun e c' =>
      Spans loop (.expression .equality) c e c' ∧ c.Passed c' :=
  reads_leftAssociative rfl (fun _ => rfl) rfl rfl (fun _ _ _ => rfl) fun _ hs =>
    (reads_comparison hi (hs.inLoop.trans hl)).spend fun h => Nat.lt_of_lt_of_le h hs.length_le

theorem reads_conjunction (hi : inner.Sound n) (hl : c.inLoop = loop) :
    Reads (n < c.rest.length) (conjunction inner) c fun e c' =>
      Spans loop (.expression .and) c e c' ∧ c.Passed c' :=
  reads_leftAssociative rfl (fun _ => rfl) rfl rfl (fun _ _ _ => rfl) fun _ hs =>
    (reads_equality hi (hs.inLoop.trans hl)).spend fun h => Nat.lt_of_lt_of_le h hs.length_le

theorem reads_disjunction (hi : inner.Sound n) (hl : c.inLoop = loop) :
    Reads (n < c.rest.length) (disjunction inner) c fun e c' =>
      Spans loop (.expression .or) c e c' ∧ c.Passed c' :=
  reads_leftAssociative rfl (fun _ => rfl) rfl rfl (fun _ _ _ => rfl) fun _ hs =>
    (reads_conjunction hi (hs.inLoop.trans hl)).spend fun h => Nat.lt_of_lt_of_le h hs.length_le

/-- The tokens of a tree that may be assigned to. -/
def IsTarget (nearest loop : Bool) (ts : List Token) : Expr → Prop
  | .variable _ name => name.kind = .identifier ∧ ts = [name]
  | .get object name => ∃ ts' dot, ts = ts' ++ [dot, name] ∧ dot.kind = .dot ∧
      name.kind = .identifier ∧ Derives nearest loop (.expression .call) ts' object
  | _ => True

def Symbol.IsTarget (nearest loop : Bool) (ts : List Token) : (s : Symbol) → s.Tree → Prop
  | .expression _, e => Grammar.IsTarget nearest loop ts e
  | _, _ => True

theorem Derives.isTarget {nearest : Bool} {s : Symbol} {ts : List Token} {t : s.Tree}
    (h : Derives nearest loop s ts t) : s.IsTarget nearest loop ts t := by
  induction h with
  | operand _ _ ih => exact ih
  | @operation _ r => cases r <;> trivial
  | get hobject hdot hname => exact ⟨_, _, rfl, hdot, hname, hobject⟩
  | name hname => exact ⟨hname, rfl⟩
  | _ => trivial

theorem reads_expression (hi : inner.Sound n) (hl : c.inLoop = loop) :
    Reads (n < c.rest.length) (expression inner) c fun e c' =>
      Spans loop (.expression .assignment) c e c' ∧ c.Passed c' := by
  refine (reads_disjunction hi hl).bind fun target c₁ hs₁ ⟨htarget, hp₁⟩ => ?_
  refine (reads_accept? (by simp)).bind fun o c₂ hs₂ ho => ?_
  cases o with
  | none =>
    obtain ⟨-, rfl⟩ := ho
    exact Reads.pure ⟨htarget.imp rfl fun _ h => .operand rfl h, hp₁⟩
  | some equals =>
    obtain ⟨hequals, ha₂⟩ := ho
    have hspent : c₂.rest.length < c.rest.length := Nat.lt_trans ha₂.length_lt hp₁
    refine ((hi.expression loop c₂ ((hs₁.trans hs₂).inLoop.trans hl)).spend fun h =>
      Nat.lt_of_le_of_lt h hspent).bind fun value c₃ hs₃ ⟨hvalue, _⟩ => ?_
    have hp₃ : c.Passed c₃ := Nat.lt_of_le_of_lt hs₃.length_le hspent
    have hs₁₃ := hs₂.trans hs₃
    unfold assignTo
    cases target with
    | «variable» old name =>
      refine reads_mint.bind fun id c₄ hs₄ ⟨hid, hrest, _, hnext⟩ => ?_
      refine Reads.pure ⟨⟨?_, fun hclean => ?_⟩, Nat.lt_of_le_of_lt hs₄.length_le hp₃⟩
      · refine (hvalue.fresh.mono (hs₁.trans hs₂).nextId (Nat.le_refl _)).append ?_
          (hs₁.trans hs₁₃).nextId hs₄.nextId
        rw [hid, hnext]
        exact .one _
      · have h₃ := hs₄.clean hclean
        obtain ⟨ts₂, hts₂, hd₂⟩ := hvalue.tokens h₃
        obtain ⟨ts₁, hts₁, hd₁⟩ := htarget.tokens (hs₁₃.clean h₃)
        obtain ⟨hname, rfl⟩ := hd₁.isTarget
        refine ⟨name :: equals :: ts₂, ?_, .assign hname hequals hd₂⟩
        rw [hts₁, ha₂.rest, hts₂, hrest]
        rfl
    | get object name =>
      refine Reads.pure ⟨⟨?_, fun hclean => ?_⟩, hp₃⟩
      · have hfresh := htarget.fresh.append (hvalue.fresh.mono hs₂.nextId (Nat.le_refl _))
          hs₁.nextId hs₁₃.nextId
        exact hfresh.perm List.perm_append_comm
      · obtain ⟨ts₂, hts₂, hd₂⟩ := hvalue.tokens hclean
        obtain ⟨ts₁, hts₁, hd₁⟩ := htarget.tokens (hs₁₃.clean hclean)
        obtain ⟨ts', dot, rfl, hdot, hname, hobject⟩ := hd₁.isTarget
        refine ⟨ts' ++ dot :: name :: equals :: ts₂, ?_, .set hobject hdot hname hequals hd₂⟩
        rw [hts₁, ha₂.rest, hts₂]
        simp
    | _ =>
      refine reads_record.bind fun _ c₄ hs₄ ⟨_, hfaults⟩ => ?_
      refine Reads.pure ⟨⟨?_, fun hclean => absurd hclean hfaults⟩,
        Nat.lt_of_le_of_lt hs₄.length_le hp₃⟩
      exact htarget.fresh.mono (Nat.le_refl _) (hs₁₃.trans hs₄).nextId

end Lox.Grammar
