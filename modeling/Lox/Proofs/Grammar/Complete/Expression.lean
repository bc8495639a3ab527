import Lox.Grammar.Program
import Lox.Proofs.Grammar.Complete.Start
import Lox.Proofs.Tree.Forget

namespace Lox.Grammar

variable {loop : Bool} {loops m : Nat} {r r' : Rank} {ts ts₁ ts₂ rest : List Token} {e : Expr}

theorem accept_apply_false {k : Kind} {c : Cursor} (h : c.head.kind ≠ k) :
    accept k c = .ok false c := by
  have haccept : accept? k c = .ok none c := by
    show (if c.head.kind = k then _ else pure none : Parse (Option Token)) c = _
    rw [if_neg h]
    rfl
  show (accept? k >>= fun o => pure o.isSome) c = _
  rw [bind_apply, haccept]
  rfl

/-- The rank of the expressions in the middle of which such a token stands. -/
def joins? : Kind → Option Rank
  | .equal => some .assignment
  | .or => some .or
  | .and => some .and
  | .bangEqual | .equalEqual => some .equality
  | .greater | .greaterEqual | .less | .lessEqual => some .comparison
  | .minus | .plus => some .term
  | .slash | .star => some .factor
  | .leftParen | .dot => some .call
  | _ => none

namespace Rank

/-- An expression of rank `r` does not go on with `k`. -/
def EndsAt (r : Rank) (k : Kind) : Prop := ∀ r', joins? k = some r' → r'.ctorIdx < r.ctorIdx

/-- No part of an expression of rank `r` goes on with `k`, though the whole may. -/
def Follow (r : Rank) (k : Kind) : Prop :=
  ∀ r', joins? k = some r' → r ≠ .assignment ∧ r'.ctorIdx ≤ r.ctorIdx

theorem joins?_of_isOperator {k : Kind} (h : r.isOperator k) : joins? k = some r := by
  cases r <;> cases k <;> first | rfl | exact absurd h (by simp [isOperator, isEquality,
    isComparison, isTermOperator, isFactorOperator])

theorem ctorIdx_of_tighter? (h : r.tighter? = some r') : r'.ctorIdx = r.ctorIdx + 1 := by
  cases r <;> cases h <;> rfl

theorem EndsAt.follow {k : Kind} (h : r.EndsAt k) : r.Follow k := by
  intro r' hr'
  have hlt := h r' hr'
  refine ⟨?_, Nat.le_of_lt hlt⟩
  rintro rfl
  exact Nat.not_lt_zero _ hlt

theorem Follow.endsAt {k : Kind} (h : r.Follow k) (hr : r.tighter? = some r') : r'.EndsAt k := by
  intro r'' hr''
  have := (h r'' hr'').2
  rw [ctorIdx_of_tighter? hr]
  omega

theorem endsAt_of_joins? {k k' : Kind} (h : k = k') (hk : joins? k' = none) : r.EndsAt k := by
  intro r' hr'
  rw [h, hk] at hr'
  exact absurd hr' (by simp)

def production (inner : Inner) : Rank → Parse Expr
  | assignment => Grammar.expression inner
  | or => disjunction inner
  | and => conjunction inner
  | equality => Grammar.equality inner
  | comparison => Grammar.comparison inner
  | term => Grammar.term inner
  | factor => Grammar.factor inner
  | unary => Grammar.unary inner
  | call => Grammar.call inner
  | primary => Grammar.primary inner

def operatorStep (isOperator : Kind → Bool) (node : Expr → Token → Expr → Expr)
    (operand : Parse Expr) (left : Expr) : Parse (Option Expr) := do
  let operator ← head
  if isOperator operator.kind then
    advance
    return some (node left operator (← operand))
  else
    return none

def callStep (inner : Inner) (expr : Expr) : Parse (Option Expr) := do
  if (← accept .leftParen) then
    let arguments ← commaList .tooManyArguments inner.expression
    let paren ← expect .rightParen "')' after arguments"
    return some (.call expr paren arguments)
  else if (← accept .dot) then
    let name ← expect .identifier "property name after '.'"
    return some (.get expr name)
  else
    return none

/-- How an expression of a rank is made longer. -/
def step (inner : Inner) : Rank → Expr → Parse (Option Expr)
  | call => callStep inner
  | r => operatorStep r.isOperator r.node ((r.tighter?.getD r).production inner)

/-- Ranks at which an expression is made longer from left to right. -/
def Extends (r : Rank) : Prop := r ≠ assignment ∧ r ≠ unary ∧ r ≠ primary

theorem Extends.of_joins? {k : Kind} (h : joins? k = some r) (hr : r ≠ assignment) :
    r.Extends := by
  refine ⟨hr, ?_, ?_⟩ <;> rintro rfl <;> cases k <;> simp [joins?] at h

theorem production_eq {inner : Inner} (hr : r.tighter? = some r') (he : r.Extends) :
    r.production inner = r'.production inner >>= extend (r.step inner) := by
  obtain ⟨h₁, h₂, h₃⟩ := he
  cases r <;> cases hr <;> first | rfl | contradiction

theorem step_none {inner : Inner} {c : Cursor} (h : joins? c.head.kind ≠ some r) :
    r.step inner e c = .ok none c := by
  have hoperator : ∀ {isOperator : Kind → Bool} {node : Expr → Token → Expr → Expr}
      {operand : Parse Expr}, isOperator c.head.kind = false →
      operatorStep isOperator node operand e c = .ok none c := by
    intro isOperator node operand hop
    show (if isOperator c.head.kind then _ else pure none : Parse (Option Expr)) c = _
    rw [if_neg (Bool.eq_false_iff.mp hop)]
    rfl
  have hop : r.isOperator c.head.kind = false :=
    Bool.eq_false_iff.mpr fun hop => h (joins?_of_isOperator hop)
  cases r with
  | call =>
    show callStep inner e c = .ok none c
    rw [callStep, bind_apply, accept_apply_false (by rintro hk; simp [hk, joins?] at h)]
    show (do if (← accept .dot) then _ else pure none : Parse (Option Expr)) c = .ok none c
    rw [bind_apply, accept_apply_false (by rintro hk; simp [hk, joins?] at h)]
    rfl
  | _ => exact hoperator hop

end Rank

/-- The production passes `ts` and is left with steps, for which the allowance is not used up. -/
def Leads (inner : Inner) (loops : Nat) (r : Rank) (ts rest : List Token) (e : Expr) : Prop :=
  ∀ faults firstId, ∃ e' nextId allowance, rest.length ≤ List.length allowance ∧
    e'.forget id = e.forget id ∧
    r.production inner ⟨ts ++ rest, loops, faults, firstId⟩ =
      extendAlong (r.step inner) allowance e' ⟨rest, loops, faults, nextId⟩

theorem Leads.yields {inner : Inner} (h : Leads inner loops r ts rest e)
    (hk : joins? (nextKind rest) ≠ some r) :
    Yields loops (r.production inner) (ts ++ rest) rest fun e' => e'.forget id = e.forget id := by
  intro faults firstId
  obtain ⟨e', nextId, allowance, -, he', hp⟩ := h faults firstId
  exact ⟨e', nextId, hp.trans (extendAlong_none (Rank.step_none (by exact hk)) allowance), he'⟩

/-- A production that is not followed by steps leads as far as it yields. -/
theorem Yields.leads {inner : Inner} (h : Yields loops (r.production inner) (ts ++ rest) rest
    fun e' => e'.forget id = e.forget id) (hk : joins? (nextKind rest) ≠ some r) :
    Leads inner loops r ts rest e := by
  intro faults firstId
  obtain ⟨e', nextId, hp, he'⟩ := h faults firstId
  exact ⟨e', nextId, rest, Nat.le_refl _, he',
    hp.trans (extendAlong_none (Rank.step_none (by exact hk)) rest).symm⟩

/-- With an allowance for every token, productions of expressions accept `ts`. -/
structure ReadableExpression (loop : Bool) (r : Rank) (ts : List Token) (e : Expr) : Prop where
  start : Symbol.Start (.expression r) ts
  leads : ∀ m loops, ts.length ≤ m + 1 → (loop = true → 0 < loops) →
    ∀ rest, r.Follow (nextKind rest) → Leads (Inner.ofDepth m) loops r ts rest e

namespace ReadableExpression

theorem yields (h : ReadableExpression loop r ts e) (hlen : ts.length ≤ m + 1)
    (hloop : loop = true → 0 < loops) (hrest : r.EndsAt (nextKind rest)) :
    Yields loops (r.production (Inner.ofDepth m)) (ts ++ rest) rest
      fun e' => e'.forget id = e.forget id :=
  (h.leads m loops hlen hloop rest hrest.follow).yields fun hk => Nat.lt_irrefl _ (hrest r hk)

/-- One level further in. -/
theorem inner (h : ReadableExpression loop .assignment ts e) (hlen : ts.length ≤ m)
    (hloop : loop = true → 0 < loops) (hrest : joins? (nextKind rest) = none) :
    Yields loops (Inner.ofDepth m).expression (ts ++ rest) rest
      fun e' => e'.forget id = e.forget id := by
  cases m with
  | zero => exact absurd (List.eq_nil_of_length_eq_zero (Nat.le_zero.mp hlen)) h.start.nonempty
  | succ m => exact h.yields hlen hloop (Rank.endsAt_of_joins? rfl hrest)

end ReadableExpression

theorem manyAlong_const {α : Type} (item : Parse (Option α)) (allowance : List Token) (i j : Nat) :
    manyAlong (fun _ => item) allowance i = manyAlong (fun _ => item) allowance j := by
  induction allowance generalizing i j with
  | nil => rfl
  | cons _ allowance ih => rw [manyAlong, manyAlong, ih (i + 1) (j + 1)]

theorem yields_sign?_none (h : isSign (nextKind rest) = false) :
    Yields loops sign? rest rest (· = none) := by
  simp only [isSign, Bool.or_eq_false_iff, decide_eq_false_iff_not] at h
  refine (yields_accept?_none h.1).bind ?_
  rintro _ rfl
  exact yields_accept?_none h.2

/-- What stands behind the signs. -/
def signed (inner : Inner) : Parse Expr := do
  if isBinaryOnly (← kind) then
    haltHere .missingLeftOperand
  call inner

theorem unary_eq (inner : Inner) : unary inner = (do
    let signs ← many (fun _ => sign?) 0
    let operand ← signed inner
    return signs.foldr .unary operand) := by
  simp only [unary, signed, bind_assoc]
  congr 1
  funext signs
  congr 1
  funext k
  split <;> simp

theorem accept?_cons {t : Token} {faults : List Diagnostic} {firstId : Nat} (k : Kind) :
    accept? k ⟨t :: ts, loops, faults, firstId⟩ =
      if t.kind = k then .ok (some t) ⟨ts, loops, faults, firstId⟩
      else .ok none ⟨t :: ts, loops, faults, firstId⟩ := by
  show (if t.kind = k then (do advance; return some t) else return none : Parse (Option Token)) _ = _
  split <;> rfl

theorem manySigns_cons {operator : Token} {faults : List Diagnostic} {firstId : Nat}
    (hop : operator.kind = .bang ∨ operator.kind = .minus) :
    many (fun _ => sign?) 0 ⟨operator :: ts, loops, faults, firstId⟩ =
      ((operator :: ·) <$> many (fun _ => sign?) 0) ⟨ts, loops, faults, firstId⟩ := by
  have hsign : sign? ⟨operator :: ts, loops, faults, firstId⟩ =
      .ok (some operator) ⟨ts, loops, faults, firstId⟩ := by
    rw [sign?, bind_apply, accept?_cons]
    rcases hop with h | h
    · rw [if_pos h]
      rfl
    · rw [if_neg (by simp [h])]
      show accept? .minus _ = _
      rw [accept?_cons, if_pos h]
  show manyAlong (fun _ => sign?) (operator :: ts) 0 _ = _
  rw [manyAlong, bind_apply, hsign]
  show (manyAlong (fun _ => sign?) ts 1 >>= _) _ = _
  rw [manyAlong_const _ ts 1 0]
  rfl

theorem unary_cons {inner : Inner} {operator : Token} {faults : List Diagnostic} {firstId : Nat}
    (hop : operator.kind = .bang ∨ operator.kind = .minus) :
    unary inner ⟨operator :: ts, loops, faults, firstId⟩ =
      (Expr.unary operator <$> unary inner) ⟨ts, loops, faults, firstId⟩ := by
  rw [unary_eq, bind_apply, manySigns_cons hop, ← bind_apply]
  simp only [map_bind, bind_map_left, List.foldr_cons, map_pure]

theorem yields_unary_sign {inner : Inner} {operator : Token} {Q : Expr → Prop}
    (hop : operator.kind = .bang ∨ operator.kind = .minus)
    (h : Yields loops (unary inner) ts rest fun e => Q (.unary operator e)) :
    Yields loops (unary inner) (operator :: ts) rest Q := by
  intro faults firstId
  obtain ⟨e, lastId, hu, hq⟩ := h.map faults firstId
  exact ⟨e, lastId, (unary_cons hop).trans hu, hq⟩

end Lox.Grammar
