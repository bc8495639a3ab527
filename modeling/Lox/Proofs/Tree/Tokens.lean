import Lox.Proofs.Grammar.Derivation

namespace Lox

mutual

/-- The tokens that are kept in a tree, in the order of the text. -/
def Expr.tokens : Expr → List Token
  | .literal _ => []
  | .grouping inner => inner.tokens
  | .unary operator right => operator :: right.tokens
  | .binary left operator right => left.tokens ++ operator :: right.tokens
  | .logical left operator right => left.tokens ++ operator :: right.tokens
  | .variable _ name => [name]
  | .assign _ name value => name :: value.tokens
  | .call callee paren arguments => callee.tokens ++ (tokensOfAll arguments ++ [paren])
  | .get object name => object.tokens ++ [name]
  | .set object name value => object.tokens ++ name :: value.tokens
  | .this _ keyword => [keyword]
  | .super _ keyword method => [keyword, method]
  | .function function => function.tokens

def tokensOfAll : List Expr → List Token
  | [] => []
  | e :: es => e.tokens ++ tokensOfAll es

def Function.tokens : Function → List Token
  | ⟨params, body⟩ => params ++ tokensOfStatements body

def Method.tokens : Method → List Token
  | ⟨name, function⟩ => name :: function.tokens

def Stmt.tokens : Stmt → List Token
  | .expression expr => expr.tokens
  | .print expr => expr.tokens
  | .var name none => [name]
  | .var name (some value) => name :: value.tokens
  | .block statements => tokensOfStatements statements
  | .ifElse condition thenBranch none => condition.tokens ++ thenBranch.tokens
  | .ifElse condition thenBranch (some elseBranch) =>
    condition.tokens ++ (thenBranch.tokens ++ elseBranch.tokens)
  | .while condition body => condition.tokens ++ body.tokens
  | .break keyword => [keyword]
  | .return keyword none => [keyword]
  | .return keyword (some value) => keyword :: value.tokens
  | .function declaration => declaration.tokens
  | .class name none methods => name :: tokensOfMethods methods
  | .class name (some superclass) methods =>
    name :: (superclass.tokens ++ tokensOfMethods methods)

def tokensOfStatements : List Stmt → List Token
  | [] => []
  | s :: ss => s.tokens ++ tokensOfStatements ss

def tokensOfMethods : List Method → List Token
  | [] => []
  | m :: ms => m.tokens ++ tokensOfMethods ms

end

mutual

/-- Every token that is kept in the tree is as `P` says, and every superclass is a name. -/
def Expr.Bears (P : Token → Prop) : Expr → Prop
  | .literal _ => True
  | .grouping inner => inner.Bears P
  | .unary operator right => P operator ∧ right.Bears P
  | .binary left operator right => left.Bears P ∧ P operator ∧ right.Bears P
  | .logical left operator right => left.Bears P ∧ P operator ∧ right.Bears P
  | .variable _ name => P name
  | .assign _ name value => P name ∧ value.Bears P
  | .call callee paren arguments => callee.Bears P ∧ BearsAll P arguments ∧ P paren
  | .get object name => object.Bears P ∧ P name
  | .set object name value => object.Bears P ∧ P name ∧ value.Bears P
  | .this _ keyword => P keyword
  | .super _ keyword method => P keyword ∧ P method
  | .function function => function.Bears P

def BearsAll (P : Token → Prop) : List Expr → Prop
  | [] => True
  | e :: es => e.Bears P ∧ BearsAll P es

def Function.Bears (P : Token → Prop) : Function → Prop
  | ⟨params, body⟩ => (∀ t ∈ params, P t) ∧ BearsStatements P body

def Method.Bears (P : Token → Prop) : Method → Prop
  | ⟨name, function⟩ => P name ∧ function.Bears P

def Stmt.Bears (P : Token → Prop) : Stmt → Prop
  | .expression expr => expr.Bears P
  | .print expr => expr.Bears P
  | .var name none => P name
  | .var name (some value) => P name ∧ value.Bears P
  | .block statements => BearsStatements P statements
  | .ifElse condition thenBranch none => condition.Bears P ∧ thenBranch.Bears P
  | .ifElse condition thenBranch (some elseBranch) =>
    condition.Bears P ∧ thenBranch.Bears P ∧ elseBranch.Bears P
  | .while condition body => condition.Bears P ∧ body.Bears P
  | .break keyword => P keyword
  | .return keyword none => P keyword
  | .return keyword (some value) => P keyword ∧ value.Bears P
  | .function declaration => declaration.Bears P
  | .class name none methods => P name ∧ BearsMethods P methods
  | .class name (some superclass) methods =>
    P name ∧ (∃ id t, superclass = .variable id t ∧ P t) ∧ BearsMethods P methods

def BearsStatements (P : Token → Prop) : List Stmt → Prop
  | [] => True
  | s :: ss => s.Bears P ∧ BearsStatements P ss

def BearsMethods (P : Token → Prop) : List Method → Prop
  | [] => True
  | m :: ms => m.Bears P ∧ BearsMethods P ms

end

variable {P Q : Token → Prop}

theorem bearsMethods_iff (ms : List Method) : BearsMethods P ms ↔ ∀ m ∈ ms, m.Bears P := by
  induction ms with
  | nil => simp [BearsMethods]
  | cons m ms ih => simp [BearsMethods, ih]

theorem Function.Bears.body {f : Function} (h : f.Bears P) : BearsStatements P f.body := by
  cases f
  exact h.2

theorem Method.Bears.function {m : Method} (h : m.Bears P) : m.function.Bears P := by
  cases m
  exact h.2

mutual

theorem Expr.Bears.of_tokens : (e : Expr) → e.Bears P → (∀ t ∈ e.tokens, Q t) → e.Bears Q
  | .literal _, _, _ => trivial
  | .grouping inner, h, hQ => Expr.Bears.of_tokens inner h hQ
  | .unary _ right, h, hQ =>
    have ⟨ht, hright⟩ := List.forall_mem_cons.mp hQ
    ⟨ht, Expr.Bears.of_tokens right h.2 hright⟩
  | .binary left _ right, h, hQ | .logical left _ right, h, hQ =>
    have ⟨hleft, hrest⟩ := List.forall_mem_append.mp hQ
    have ⟨ht, hright⟩ := List.forall_mem_cons.mp hrest
    ⟨Expr.Bears.of_tokens left h.1 hleft, ht, Expr.Bears.of_tokens right h.2.2 hright⟩
  | .variable _ _, _, hQ | .this _ _, _, hQ => (List.forall_mem_cons.mp hQ).1
  | .assign _ _ value, h, hQ =>
    have ⟨ht, hvalue⟩ := List.forall_mem_cons.mp hQ
    ⟨ht, Expr.Bears.of_tokens value h.2 hvalue⟩
  | .call callee _ arguments, h, hQ =>
    have ⟨hcallee, hrest⟩ := List.forall_mem_append.mp hQ
    have ⟨hall, ht⟩ := List.forall_mem_append.mp hrest
    ⟨Expr.Bears.of_tokens callee h.1 hcallee, BearsAll.of_tokens arguments h.2.1 hall,
      (List.forall_mem_cons.mp ht).1⟩
  | .get object _, h, hQ =>
    have ⟨hobject, ht⟩ := List.forall_mem_append.mp hQ
    ⟨Expr.Bears.of_tokens object h.1 hobject, (List.forall_mem_cons.mp ht).1⟩
  | .set object _ value, h, hQ =>
    have ⟨hobject, hrest⟩ := List.forall_mem_append.mp hQ
    have ⟨ht, hvalue⟩ := List.forall_mem_cons.mp hrest
    ⟨Expr.Bears.of_tokens object h.1 hobject, ht, Expr.Bears.of_tokens value h.2.2 hvalue⟩
  | .super _ _ _, _, hQ =>
    have ⟨ht, hrest⟩ := List.forall_mem_cons.mp hQ
    ⟨ht, (List.forall_mem_cons.mp hrest).1⟩
  | .function function, h, hQ => Function.Bears.of_tokens function h hQ

theorem BearsAll.of_tokens : (es : List Expr) → BearsAll P es → (∀ t ∈ tokensOfAll es, Q t) →
    BearsAll Q es
  | [], _, _ => trivial
  | e :: es, h, hQ =>
    have ⟨hhead, htail⟩ := List.forall_mem_append.mp hQ
    ⟨Expr.Bears.of_tokens e h.1 hhead, BearsAll.of_tokens es h.2 htail⟩

theorem Function.Bears.of_tokens : (f : Function) → f.Bears P → (∀ t ∈ f.tokens, Q t) → f.Bears Q
  | ⟨_, body⟩, h, hQ =>
    have ⟨hparams, hbody⟩ := List.forall_mem_append.mp hQ
    ⟨hparams, BearsStatements.of_tokens body h.2 hbody⟩

theorem Method.Bears.of_tokens : (m : Method) → m.Bears P → (∀ t ∈ m.tokens, Q t) → m.Bears Q
  | ⟨_, function⟩, h, hQ =>
    have ⟨ht, hfunction⟩ := List.forall_mem_cons.mp hQ
    ⟨ht, Function.Bears.of_tokens function h.2 hfunction⟩

theorem Stmt.Bears.of_tokens : (s : Stmt) → s.Bears P → (∀ t ∈ s.tokens, Q t) → s.Bears Q
  | .expression expr, h, hQ | .print expr, h, hQ => Expr.Bears.of_tokens expr h hQ
  | .var _ none, _, hQ | .break _, _, hQ | .return _ none, _, hQ => (List.forall_mem_cons.mp hQ).1
  | .var _ (some value), h, hQ | .return _ (some value), h, hQ =>
    have ⟨ht, hvalue⟩ := List.forall_mem_cons.mp hQ
    ⟨ht, Expr.Bears.of_tokens value h.2 hvalue⟩
  | .block statements, h, hQ => BearsStatements.of_tokens statements h hQ
  | .ifElse condition thenBranch none, h, hQ =>
    have ⟨hcondition, hthen⟩ := List.forall_mem_append.mp hQ
    ⟨Expr.Bears.of_tokens condition h.1 hcondition, Stmt.Bears.of_tokens thenBranch h.2 hthen⟩
  | .ifElse condition thenBranch (some elseBranch), h, hQ =>
    have ⟨hcondition, hrest⟩ := List.forall_mem_append.mp hQ
    have ⟨hthen, helse⟩ := List.forall_mem_append.mp hrest
    ⟨Expr.Bears.of_tokens condition h.1 hcondition, Stmt.Bears.of_tokens thenBranch h.2.1 hthen,
      Stmt.Bears.of_tokens elseBranch h.2.2 helse⟩
  | .while condition body, h, hQ =>
    have ⟨hcondition, hbody⟩ := List.forall_mem_append.mp hQ
    ⟨Expr.Bears.of_tokens condition h.1 hcondition, Stmt.Bears.of_tokens body h.2 hbody⟩
  | .function declaration, h, hQ => Method.Bears.of_tokens declaration h hQ
  | .class _ none methods, h, hQ =>
    have ⟨ht, hmethods⟩ := List.forall_mem_cons.mp hQ
    ⟨ht, BearsMethods.of_tokens methods h.2 hmethods⟩
  | .class _ (some _) methods, ⟨_, ⟨id, t, rfl, _⟩, h⟩, hQ =>
    have ⟨ht, hrest⟩ := List.forall_mem_cons.mp hQ
    have ⟨hsuperclass, hmethods⟩ := List.forall_mem_append.mp hrest
    ⟨ht, ⟨id, t, rfl, (List.forall_mem_cons.mp hsuperclass).1⟩,
      BearsMethods.of_tokens methods h hmethods⟩

theorem BearsStatements.of_tokens : (ss : List Stmt) → BearsStatements P ss →
    (∀ t ∈ tokensOfStatements ss, Q t) → BearsStatements Q ss
  | [], _, _ => trivial
  | s :: ss, h, hQ =>
    have ⟨hhead, htail⟩ := List.forall_mem_append.mp hQ
    ⟨Stmt.Bears.of_tokens s h.1 hhead, BearsStatements.of_tokens ss h.2 htail⟩

theorem BearsMethods.of_tokens : (ms : List Method) → BearsMethods P ms →
    (∀ t ∈ tokensOfMethods ms, Q t) → BearsMethods Q ms
  | [], _, _ => trivial
  | m :: ms, h, hQ =>
    have ⟨hhead, htail⟩ := List.forall_mem_append.mp hQ
    ⟨Method.Bears.of_tokens m h.1 hhead, BearsMethods.of_tokens ms h.2 htail⟩

end

namespace Grammar

variable {nearest loop : Bool} {ts : List Token}

def Symbol.Bears (P : Token → Prop) : (s : Symbol) → s.Tree → Prop
  | .expression _, e => Expr.Bears P e
  | .items, es => BearsAll P es
  | .arguments, es => BearsAll P es
  | .optional, o => ∀ e, o = some e → Expr.Bears P e
  | .function, f => Function.Bears P f
  | .method, m => Method.Bears P m
  | .methods, ms => BearsMethods P ms
  | .variable, s => Stmt.Bears P s
  | .start, o => ∀ s, o = some s → Stmt.Bears P s
  | .statement _, s => Stmt.Bears P s
  | .declaration _, s => Stmt.Bears P s
  | .declarations, ss => BearsStatements P ss

theorem bears_forLoop {start : Option Stmt} {condition step : Option Expr} {body : Stmt}
    (hstart : ∀ s, start = some s → s.Bears P) (hcondition : ∀ e, condition = some e → e.Bears P)
    (hstep : ∀ e, step = some e → e.Bears P) (hbody : body.Bears P) :
    (forLoop start condition step body).Bears P := by
  have he : (condition.getD (.literal .true)).Bears P := by
    cases condition with
    | none => simp [Expr.Bears]
    | some e => exact hcondition e rfl
  cases start <;> cases step <;> simp_all [forLoop, Stmt.Bears, BearsStatements]

theorem Parameters.subset {params : List Token} (h : Parameters ts params) :
    ∀ t ∈ params, t ∈ ts := by
  have hnames : ∀ {ts names}, Separated (fun ts (name : Token) =>
      name.kind = .identifier ∧ ts = [name]) ts names → ∀ t ∈ names, t ∈ ts := by
    intro ts names h
    induction h with
    | one h =>
      obtain ⟨-, rfl⟩ := h
      exact fun _ => id
    | more h _ _ ih =>
      obtain ⟨-, rfl⟩ := h
      intro t ht
      rcases List.mem_cons.mp ht with rfl | ht
      · simp
      · simp [ih t ht]
  cases h with
  | none => simp
  | some h _ => exact hnames h

theorem Derives.bears {s : Symbol} {t : s.Tree} (h : Derives nearest loop s ts t) :
    (∀ t ∈ ts, P t) → s.Bears P t := by
  induction h with
  | operand _ _ ih => exact ih
  | assign _ _ _ ih => exact fun hP => ⟨hP _ (by simp), ih fun t h => hP t (by simp [h])⟩
  | set _ _ _ _ _ ih₁ ih₂ =>
    exact fun hP => ⟨ih₁ fun t h => hP t (by simp [h]), hP _ (by simp),
      ih₂ fun t h => hP t (by simp [h])⟩
  | @operation _ r _ _ _ _ _ _ _ _ _ _ ih₁ ih₂ =>
    intro hP
    have h₁ := ih₁ fun t h => hP t (by simp [h])
    have h₂ := ih₂ fun t h => hP t (by simp [h])
    cases r <;> exact ⟨h₁, hP _ (by simp), h₂⟩
  | sign _ _ ih => exact fun hP => ⟨hP _ (by simp), ih fun t h => hP t (by simp [h])⟩
  | call _ _ _ _ ih₁ ih₂ =>
    exact fun hP => ⟨ih₁ fun t h => hP t (by simp [h]), ih₂ fun t h => hP t (by simp [h]),
      hP _ (by simp)⟩
  | get _ _ _ ih => exact fun hP => ⟨ih fun t h => hP t (by simp [h]), hP _ (by simp)⟩
  | literal _ => exact fun _ => trivial
  | name _ | this _ => exact fun hP => hP _ (by simp)
  | super _ _ _ => exact fun hP => ⟨hP _ (by simp), hP _ (by simp)⟩
  | grouping _ _ _ ih | anonymous _ _ ih => exact fun hP => ih fun t h => hP t (by simp [h])
  | item _ ih => exact fun hP => ⟨ih hP, trivial⟩
  | items _ _ _ ih₁ ih₂ | methods _ _ ih₁ ih₂ | declarations _ _ ih₁ ih₂ =>
    exact fun hP => ⟨ih₁ fun t h => hP t (by simp [h]), ih₂ fun t h => hP t (by simp [h])⟩
  | noArguments | noMethods | noDeclarations => exact fun _ => trivial
  | arguments _ _ ih => exact ih
  | leftOut | noStart _ => exact fun _ => nofun
  | present _ ih | startVariable _ ih =>
    rintro hP _ ⟨⟩
    exact ih hP
  | function _ hparams _ _ _ _ ih =>
    exact fun hP => ⟨fun t h => hP t (by simp [hparams.subset t h]),
      ih fun t h => hP t (by simp [h])⟩
  | method _ _ ih => exact fun hP => ⟨hP _ (by simp), ih fun t h => hP t (by simp [h])⟩
  | @bare _ _ name _ _ _ _ => exact fun hP => hP name (by simp)
  | @initialized _ _ _ _ name _ _ _ _ _ _ _ ih =>
    exact fun hP => ⟨hP name (by simp), ih fun t h => hP t (by simp [h])⟩
  | startExpression _ _ ih =>
    rintro hP _ ⟨⟩
    exact ih fun t h => hP t (by simp [h])
  | expression _ _ ih | print _ _ _ ih | block _ _ _ ih =>
    exact fun hP => ih fun t h => hP t (by simp [h])
  | @«return» _ _ value _ _ _ _ _ ih =>
    intro hP
    have h := ih fun t h => hP t (by simp [h])
    cases value with
    | none => exact hP _ (by simp)
    | some e => exact ⟨hP _ (by simp), h e rfl⟩
  | @«break» keyword _ _ _ => exact fun hP => hP keyword (by simp)
  | «while» _ _ _ _ _ ih₁ ih₂ | «if» _ _ _ _ _ ih₁ ih₂ =>
    exact fun hP => ⟨ih₁ fun t h => hP t (by simp [h]), ih₂ fun t h => hP t (by simp [h])⟩
  | «for» _ _ _ _ _ _ _ _ ih₁ ih₂ ih₃ ih₄ =>
    intro hP
    exact bears_forLoop (ih₁ fun t h => hP t (by simp [h])) (ih₂ fun t h => hP t (by simp [h]))
      (ih₃ fun t h => hP t (by simp [h])) (ih₄ fun t h => hP t (by simp [h]))
  | ifElse _ _ _ _ _ _ _ _ ih₁ ih₂ ih₃ =>
    exact fun hP => ⟨ih₁ fun t h => hP t (by simp [h]), ih₂ fun t h => hP t (by simp [h]),
      ih₃ fun t h => hP t (by simp [h])⟩
  | statement _ ih | declareVariable _ ih => exact ih
  | declareFunction _ _ ih => exact fun hP => ih fun t h => hP t (by simp [h])
  | declareClass _ _ _ _ _ ih =>
    exact fun hP => ⟨hP _ (by simp), ih fun t h => hP t (by simp [h])⟩
  | @declareSubclass _ _ _ _ _ _ _ superclass _ _ _ _ _ _ _ _ _ ih =>
    exact fun hP => ⟨hP _ (by simp), ⟨_, _, rfl, hP superclass (by simp)⟩,
      ih fun t h => hP t (by simp [h])⟩

end Grammar

end Lox
