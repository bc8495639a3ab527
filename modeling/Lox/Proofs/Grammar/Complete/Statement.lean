import Lox.Proofs.Grammar.Complete.Operation

namespace Lox.Grammar

variable {α : Type} {loop d : Bool} {loops m : Nat} {ts ts₁ ts₂ rest : List Token}
  {keyword : Token}

/-- With an allowance for every token, the production accepts `ts` in front of what may follow. -/
def Accepts (loop : Bool) (production : Inner → Parse α) (ts : List Token) (Follow : Kind → Prop)
    (Q : α → Prop) : Prop :=
  ∀ m loops, ts.length ≤ m + 1 → (loop = true → 0 < loops) → ∀ rest, Follow (nextKind rest) →
    Yields loops (production (Inner.ofDepth m)) (ts ++ rest) rest Q

/-- Nothing is said of loops, as none around a function is around its body. -/
def ReadableFunction (ts : List Token) (f : Function) : Prop :=
  ∀ role, Accepts false (function · role) ts (fun _ => True)
    fun f' => f'.forget id = f.forget id

def ReadableMethod (ts : List Token) (method : Method) : Prop :=
  nextKind ts = .identifier ∧ ∀ role, Accepts false (Grammar.method · role) ts (fun _ => True)
    fun method' => method'.forget id = method.forget id

def ReadableVariable (loop : Bool) (ts : List Token) (s : Stmt) : Prop :=
  ∃ keyword ts', ts = keyword :: ts' ∧ keyword.kind = .var ∧
    Accepts loop varDeclaration ts' (fun _ => True) fun s' => s'.forget id = s.forget id

/-- A dangling statement would take an `else` behind it. -/
structure ReadableStatement (loop d : Bool) (ts : List Token) (s : Stmt) : Prop where
  start : Symbol.Start (.statement d) ts
  accepts : Accepts loop statement ts (fun k => d = true → k ≠ .else)
    fun s' => s'.forget id = s.forget id

structure ReadableDeclaration (loop d : Bool) (ts : List Token) (s : Stmt) : Prop where
  start : Symbol.Start (.declaration d) ts
  accepts : Accepts loop declaration ts (fun k => d = true → k ≠ .else)
    fun o => ∃ s', o = some s' ∧ s'.forget id = s.forget id

def ReadableOptional (loop : Bool) (ts : List Token) : Option Expr → Prop
  | none => ts = []
  | some e => ReadableExpression loop .assignment ts e

/-- One level further in. -/
theorem ReadableStatement.inner {s : Stmt} (h : ReadableStatement loop d ts s)
    (hlen : ts.length ≤ m) (hloop : loop = true → 0 < loops)
    (hrest : d = true → nextKind rest ≠ .else) :
    Yields loops (Inner.ofDepth m).statement (ts ++ rest) rest
      fun s' => s'.forget id = s.forget id := by
  cases m with
  | zero => exact absurd (List.eq_nil_of_length_eq_zero (Nat.le_zero.mp hlen)) h.start.nonempty
  | succ m => exact h.accepts m loops hlen hloop rest hrest

theorem ReadableDeclaration.inner {s : Stmt} (h : ReadableDeclaration loop d ts s)
    (hlen : ts.length ≤ m) (hloop : loop = true → 0 < loops)
    (hrest : d = true → nextKind rest ≠ .else) :
    Yields loops (Inner.ofDepth m).declaration (ts ++ rest) rest
      fun o => ∃ s', o = some s' ∧ s'.forget id = s.forget id := by
  cases m with
  | zero => exact absurd (List.eq_nil_of_length_eq_zero (Nat.le_zero.mp hlen)) h.start.1
  | succ m => exact h.accepts m loops hlen hloop rest hrest

theorem yields_optional (rest : List Token) {o : Option Expr} {close : Kind}
    (h : ReadableOptional loop ts o) (hlen : ts.length ≤ m + 1) (hloop : loop = true → 0 < loops)
    (hrest : nextKind rest = close)
    (hstart : startsExpression close = false) (hjoins : joins? close = none) :
    Yields loops (optionalExpression (Inner.ofDepth m) close) (ts ++ rest) rest
      fun o' => o'.map (Expr.forget id) = o.map (Expr.forget id) := by
  refine yields_kind.bind ?_
  rintro _ rfl
  cases o with
  | none =>
    obtain rfl : ts = [] := h
    rw [List.nil_append, if_pos hrest]
    exact .pure rfl
  | some e =>
    have hne : nextKind (ts ++ rest) ≠ close := by
      have hk := (ReadableExpression.start h).append rest |>.kind
      rintro hclose
      rw [hclose] at hk
      simp_all [startsExpression, Rank.takesSign]
    rw [if_neg hne]
    refine Yields.map ((ReadableExpression.yields h hlen hloop ?_).imp fun e' he' => by simp [he'])
    exact Rank.endsAt_of_joins? hrest hjoins

/-- Declarations are items of a list that ends at a token of a kind that `P` holds of. -/
theorem items_of_declarations {P : Kind → Prop} [DecidablePred P] {ss : List Stmt}
    (h : Sequence (fun ts s => ∃ d, ReadableDeclaration loop d ts s) ts ss)
    (hlen : ts.length ≤ m) (hloop : loop = true → 0 < loops)
    (hP : ∀ k, P k → k = .rightBrace ∨ k = .eof) :
    Sequence (Item loops ss.length (fun _ => do
      let k ← kind
      if P k then
        return none
      return some (← (Inner.ofDepth m).declaration)) (· ≠ .else) (Option.map (Stmt.forget id)))
      ts (ss.map fun s => some (s.forget id)) := by
  refine h.map (f := fun s => some (s.forget id)) hlen ?_
  rintro ts s hlen ⟨d, hs⟩
  obtain ⟨hne, hstart⟩ := hs.start
  obtain ⟨t, ts, rfl⟩ := List.exists_cons_of_ne_nil hne
  refine ⟨⟨t, ts, rfl, hstart.2.2⟩, fun _ rest _ hrest => ?_⟩
  refine yields_kind.bind ?_
  rintro _ rfl
  have hP' : ¬P (nextKind (t :: ts ++ rest)) := fun hk => by
    rcases hP _ hk with h | h
    · exact hstart.1 h
    · exact hstart.2.1 h
  rw [if_neg hP']
  refine Yields.map ((hs.inner hlen hloop fun _ => hrest).imp ?_)
  rintro _ ⟨s', rfl, hs'⟩
  exact ⟨_, rfl, by simp [hs']⟩

theorem forget_filterMap {os : List (Option Stmt)} {ss : List Stmt}
    (h : os.map (Option.map (Stmt.forget id)) = ss.map fun s => some (s.forget id)) :
    (os.filterMap id).map (Stmt.forget id) = ss.map (Stmt.forget id) := by
  have h := congrArg (List.filterMap id) h
  simpa [List.filterMap_map, List.map_filterMap, Function.comp_def] using h

/-- Declarations up to a token of a kind that `P` holds of. -/
theorem yields_declarations (rest : List Token) {P : Kind → Prop} [DecidablePred P] {ss : List Stmt}
    (h : Sequence (fun ts s => ∃ d, ReadableDeclaration loop d ts s) ts ss)
    (hlen : ts.length ≤ m) (hloop : loop = true → 0 < loops)
    (hP : ∀ k, P k → k = .rightBrace ∨ k = .eof) (hrest : P (nextKind rest)) :
    Yields loops (many (fun _ => do
      let k ← kind
      if P k then
        return none
      return some (← (Inner.ofDepth m).declaration)) 0) (ts ++ rest) rest
      fun os => (os.filterMap id).map (Stmt.forget id) = ss.map (Stmt.forget id) := by
  have hne : nextKind rest ≠ .else := by
    rcases hP _ hrest with h | h <;> simp [h]
  refine (yields_many ss.length (· ≠ .else) (Option.map (Stmt.forget id))
    (items_of_declarations h hlen hloop hP) hne ?_ (by simp)).imp fun os => forget_filterMap
  intro _
  refine yields_kind.bind ?_
  rintro _ rfl
  rw [if_pos hrest]
  exact .pure rfl

/-- Declarations and the brace behind them. -/
theorem yields_block {ss : List Stmt} {last : Token}
    (h : Sequence (fun ts s => ∃ d, ReadableDeclaration loop d ts s) ts ss)
    (hlen : ts.length ≤ m) (hloop : loop = true → 0 < loops) (hlast : last.kind = .rightBrace) :
    Yields loops (block (Inner.ofDepth m)) (ts ++ last :: rest) rest
      fun ss' => ss'.map (Stmt.forget id) = ss.map (Stmt.forget id) := by
  refine (yields_declarations (P := fun k => k = .rightBrace ∨ k = .eof) (last :: rest) h
    hlen hloop (fun _ => id) (.inl hlast)).bind fun os hos => ?_
  exact (yields_expect hlast).bind fun _ _ => .pure hos

theorem Parameters.listed {params : List Token} (h : Parameters ts params) :
    ts = [] ∧ params = [] ∨ Separated (Listed loops (expect .identifier "parameter name") id)
      ts params ∧ params.length ≤ maxArguments := by
  cases h with
  | none => exact .inl ⟨rfl, rfl⟩
  | some h hmax =>
    refine .inr ⟨?_, hmax⟩
    clear hmax
    have hlisted : ∀ {name : Token}, name.kind = .identifier →
        Listed loops (expect .identifier "parameter name") id [name] name := by
      intro name hname
      exact ⟨by simp [hname], by simp, fun rest _ => yields_expect hname⟩
    induction h with
    | one h =>
      obtain ⟨hname, rfl⟩ := h
      exact .one (hlisted hname)
    | more h hcomma _ ih =>
      obtain ⟨hname, rfl⟩ := h
      exact .more (hlisted hname) hcomma ih

theorem readableFunction {params : List Token} {body : List Stmt}
    {opening closing brace last : Token} (hopening : opening.kind = .leftParen)
    (hparams : Parameters ts₁ params) (hclosing : closing.kind = .rightParen)
    (hbrace : brace.kind = .leftBrace)
    (hbody : Sequence (fun ts s => ∃ d, ReadableDeclaration false d ts s) ts₂ body)
    (hlast : last.kind = .rightBrace) :
    ReadableFunction (opening :: (ts₁ ++ closing :: brace :: (ts₂ ++ [last]))) ⟨params, body⟩ := by
  intro role m loops hlen _ rest _
  simp only [List.cons_append, List.append_assoc, List.length_cons, List.length_append] at hlen ⊢
  refine (yields_expect hopening).bind fun _ _ => ?_
  refine (yields_commaList (closing :: brace :: (ts₂ ++ ([last] ++ rest)))
    hparams.listed hclosing).bind fun params' hparams' => ?_
  refine (yields_expect hclosing).bind fun _ _ => ?_
  refine (yields_expect hbrace).bind fun _ _ => ?_
  refine (yields_withLoops (yields_block hbody (by omega) (by simp) hlast)).bind
    fun body' hbody' => .pure ?_
  simpa [Function.forget, hbody'] using hparams'

theorem readableMethod {name : Token} {f : Function} (hname : name.kind = .identifier)
    (h : ReadableFunction ts f) : ReadableMethod (name :: ts) ⟨name, f⟩ := by
  refine ⟨hname, fun role m loops hlen hloop rest hrest => ?_⟩
  simp only [List.length_cons] at hlen
  refine (yields_expect hname).bind ?_
  rintro _ rfl
  refine (h role m loops (by omega) hloop rest hrest).bind fun f' hf' => .pure ?_
  simp [Method.forget, hf']

/-- A function without a name is an expression. -/
theorem ReadableExpression.anonymous {f : Function} (hstart : nextKind ts = .leftParen)
    (hk : keyword.kind = .fun) (h : ReadableFunction ts f) :
    ReadableExpression loop .primary (keyword :: ts) (.function f) := by
  refine of_primary ⟨.inl (by rw [nextKind_cons, hk]; rfl), by simp, fun _ => hstart⟩
    fun m loops rest hlen _ => ?_
  refine yields_head_cons.bind ?_
  rintro _ rfl
  simp only [hk, List.length_cons] at hlen ⊢
  refine yields_advance.bind fun _ _ => ?_
  refine (h .function m loops (by omega) (by simp) rest trivial).bind fun f' hf' => .pure ?_
  simp [Expr.forget, hf']

theorem readableVariable_bare {name semicolon : Token} (hk : keyword.kind = .var)
    (hname : name.kind = .identifier) (hsemicolon : semicolon.kind = .semicolon) :
    ReadableVariable loop [keyword, name, semicolon] (.var name none) := by
  refine ⟨keyword, [name, semicolon], rfl, hk, fun m loops _ _ rest _ => ?_⟩
  refine (yields_expect hname).bind ?_
  rintro _ rfl
  refine (yields_accept_false (by simp [hsemicolon])).bind ?_
  rintro _ rfl
  exact (yields_expect hsemicolon).bind fun _ _ => .pure rfl

theorem readableVariable_initialized {name equals semicolon : Token} {e : Expr}
    (hk : keyword.kind = .var) (hname : name.kind = .identifier) (hequals : equals.kind = .equal)
    (h : ReadableExpression loop .assignment ts e) (hsemicolon : semicolon.kind = .semicolon) :
    ReadableVariable loop (keyword :: name :: equals :: (ts ++ [semicolon]))
      (.var name (some e)) := by
  refine ⟨keyword, _, rfl, hk, fun m loops hlen hloop rest _ => ?_⟩
  simp only [List.cons_append, List.append_assoc, List.length_cons, List.length_append] at hlen ⊢
  refine (yields_expect hname).bind ?_
  rintro _ rfl
  refine (yields_accept hequals).bind ?_
  rintro _ rfl
  refine Yields.bind (Q := fun o => ∃ e', o = some e' ∧ e'.forget id = e.forget id)
    (Yields.map ((h.yields (by omega) hloop ?_).imp
      fun e' he' => ⟨e', rfl, he'⟩)) ?_
  · exact Rank.endsAt_of_joins? hsemicolon rfl
  · rintro _ ⟨e', rfl, he'⟩
    exact (yields_expect hsemicolon).bind fun _ _ => .pure (by simp [he'])

end Lox.Grammar
