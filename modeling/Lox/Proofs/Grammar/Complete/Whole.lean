import Lox.Proofs.Grammar.Complete.Command
import Lox.Proofs.Grammar.Sound.Whole

namespace Lox.Grammar

variable {loop d : Bool} {loops m : Nat} {ts ts₁ ts₂ ts₃ ts₄ rest : List Token} {e : Expr}
  {s : Stmt} {keyword : Token}

def ReadableStart (loop : Bool) (ts : List Token) (start : Option Stmt) : Prop :=
  Accepts loop forStart ts (fun _ => True)
    fun start' => start'.map (Stmt.forget id) = start.map (Stmt.forget id)

theorem readable_noStart {semicolon : Token} (hsemicolon : semicolon.kind = .semicolon) :
    ReadableStart loop [semicolon] none := by
  intro m loops _ _ rest _
  refine (yields_accept hsemicolon).bind ?_
  rintro _ rfl
  exact .pure rfl

theorem readable_startVariable (h : ReadableVariable loop ts s) :
    ReadableStart loop ts (some s) := by
  obtain ⟨keyword, ts, rfl, hk, haccepts⟩ := h
  intro m loops hlen hloop rest hrest
  simp only [List.length_cons] at hlen
  refine (yields_accept_false (by simp [hk])).bind ?_
  rintro _ rfl
  refine (yields_accept hk).bind ?_
  rintro _ rfl
  exact Yields.map ((haccepts m loops (by omega) hloop rest hrest).imp fun s' hs' => by simp [hs'])

theorem readable_startExpression {semicolon : Token} (h : ReadableExpression loop .assignment ts e)
    (hsemicolon : semicolon.kind = .semicolon) :
    ReadableStart loop (ts ++ [semicolon]) (some (.expression e)) := by
  intro m loops hlen hloop rest _
  simp only [List.length_append, List.length_cons, List.length_nil] at hlen
  have hk := (h.start.append ([semicolon] ++ rest)).kind
  rw [List.append_assoc]
  have hne : ∀ k, startsExpression k = false → nextKind (ts ++ ([semicolon] ++ rest)) ≠ k := by
    rintro k hstart rfl
    simp_all [startsExpression, Rank.takesSign]
  refine (yields_accept_false (hne .semicolon rfl)).bind ?_
  rintro _ rfl
  refine (yields_accept_false (hne .var rfl)).bind ?_
  rintro _ rfl
  exact Yields.map ((yields_expressionStatement rest h hsemicolon (by omega) hloop).imp
    fun s' hs' => by simp [hs'])

theorem forget_forLoop {start start' : Option Stmt} {condition condition' step step' : Option Expr}
    {body body' : Stmt} (hstart : start'.map (Stmt.forget id) = start.map (Stmt.forget id))
    (hcondition : condition'.map (Expr.forget id) = condition.map (Expr.forget id))
    (hstep : step'.map (Expr.forget id) = step.map (Expr.forget id))
    (hbody : body'.forget id = body.forget id) :
    (forLoop start' condition' step' body').forget id =
      (forLoop start condition step body).forget id := by
  cases start <;> cases start' <;> cases condition <;> cases condition' <;> cases step <;>
    cases step' <;> simp_all [forLoop, Stmt.forget]

theorem readable_for {start : Option Stmt} {condition step : Option Expr} {body : Stmt}
    {opening semicolon closing : Token} (hk : keyword.kind = .for)
    (hopening : opening.kind = .leftParen) (hstart : ReadableStart loop ts₁ start)
    (hcondition : ReadableOptional loop ts₂ condition) (hsemicolon : semicolon.kind = .semicolon)
    (hstep : ReadableOptional loop ts₃ step) (hclosing : closing.kind = .rightParen)
    (hbody : ReadableStatement true d ts₄ body) :
    ReadableStatement loop d
      (keyword :: opening :: (ts₁ ++ (ts₂ ++ semicolon :: (ts₃ ++ closing :: ts₄))))
      (forLoop start condition step body) := by
  refine readable_command (by rw [hk]; rfl) fun m loops hlen hloop rest hrest => ?_
  simp only [List.cons_append, List.append_assoc, List.length_append, List.length_cons] at hlen ⊢
  refine (yields_expect hopening).bind fun _ _ => ?_
  refine (hstart m loops (by omega) hloop _ trivial).bind fun start' hstart' => ?_
  refine (yields_optional (semicolon :: _) hcondition (by omega) hloop hsemicolon rfl
    rfl).bind fun condition' hcondition' => ?_
  refine (yields_expect hsemicolon).bind fun _ _ => ?_
  refine (yields_optional (closing :: _) hstep (by omega) hloop hclosing rfl
    rfl).bind fun step' hstep' => ?_
  refine (yields_expect hclosing).bind fun _ _ => ?_
  exact (yields_loopBody hbody (by omega) hrest).bind fun body' hbody' =>
    .pure (forget_forLoop hstart' hcondition' hstep' hbody')

theorem declaresFunction_of_ne (h : keyword.kind ≠ .fun) :
    declaresFunction (keyword :: ts) = false := by
  cases ts with
  | nil => rfl
  | cons t ts => simp [declaresFunction, h]

theorem declaresFunction_of_statement (h : ReadableStatement loop d ts s) :
    declaresFunction (ts ++ rest) = false := by
  obtain ⟨hkind, hne, hanonymous⟩ := Starts.append h.start rest
  revert hanonymous
  generalize ts ++ rest = ts
  intro hanonymous
  unfold declaresFunction
  split
  next first second _ =>
    by_cases hf : first.kind = .fun
    · have hnext : second.kind = .leftParen := hanonymous hf
      simp [hnext]
    · simp [hf]
  next => rfl

theorem readable_statement (h : ReadableStatement loop d ts s) :
    ReadableDeclaration loop d ts s := by
  refine ⟨⟨h.start.nonempty, startsDeclaration_of_statement h.start.kind⟩,
    fun m loops hlen hloop rest hrest => ?_⟩
  refine yields_recover (yields_get.bind fun c hc => ?_)
  rw [hc.1, declaresFunction_of_statement h]
  have hk := (Starts.append h.start rest).kind
  have hne : ∀ k, startsExpression k = false → startsCommand k = false →
      nextKind (ts ++ rest) ≠ k := by
    rintro k hexpression hcommand rfl
    simp_all
  refine (yields_accept_false (hne .class rfl rfl)).bind ?_
  rintro _ rfl
  refine (yields_accept_false (hne .var rfl rfl)).bind ?_
  rintro _ rfl
  exact h.accepts m loops hlen hloop rest hrest

theorem readable_declareVariable (h : ReadableVariable loop ts s) :
    ReadableDeclaration loop false ts s := by
  obtain ⟨keyword, ts, rfl, hk, haccepts⟩ := h
  refine ⟨startsDeclaration_of_kind hk (by simp [startsDeclaration]),
    fun m loops hlen hloop rest _ => ?_⟩
  simp only [List.length_cons] at hlen
  refine yields_recover (yields_get.bind fun c hc => ?_)
  rw [hc.1, List.cons_append, declaresFunction_of_ne (by simp [hk])]
  refine (yields_accept_false (by simp [hk])).bind ?_
  rintro _ rfl
  refine (yields_accept hk).bind ?_
  rintro _ rfl
  exact haccepts m loops (by omega) hloop rest trivial

theorem readable_declareFunction {method : Method} (hk : keyword.kind = .fun)
    (h : ReadableMethod ts method) :
    ReadableDeclaration loop false (keyword :: ts) (.function method) := by
  refine ⟨startsDeclaration_of_kind hk (by simp [startsDeclaration]),
    fun m loops hlen _ rest _ => ?_⟩
  simp only [List.length_cons] at hlen
  refine yields_recover (yields_get.bind fun c hc => ?_)
  have hf : declaresFunction (keyword :: ts ++ rest) = true := by
    obtain ⟨hname, -⟩ := h
    cases ts with
    | nil => simp [nextKind, endOfInput] at hname
    | cons name ts =>
      simp only [nextKind_cons] at hname
      simp [declaresFunction, hk, hname]
  rw [hc.1, hf]
  refine yields_advance.bind fun _ _ => ?_
  refine (h.2 .function m loops (by omega) (by simp) rest trivial).bind fun method' hmethod' => ?_
  exact .pure (by simp [Stmt.forget, hmethod'])

theorem yields_methods {ms : List Method} {last : Token} (h : Sequence ReadableMethod ts ms)
    (hlen : ts.length ≤ m + 1) (hlast : last.kind = .rightBrace) :
    Yields loops (many (fun _ => do
      let k ← kind
      if k = .rightBrace ∨ k = .eof then
        return none
      return some (← method (Inner.ofDepth m) .method)) 0) (ts ++ last :: rest) (last :: rest)
      fun ms' => ms'.map (Method.forget id) = ms.map (Method.forget id) := by
  refine yields_many ms.length (fun _ => True) (Method.forget id)
    (h.map hlen fun ts method hlen hmethod => ?_) trivial ?_ (by simp)
  · obtain ⟨hname, haccepts⟩ := hmethod
    cases ts with
    | nil => simp [nextKind, endOfInput] at hname
    | cons name ts =>
      simp only [nextKind_cons] at hname
      refine ⟨⟨name, ts, rfl, trivial⟩, fun _ rest _ _ => ?_⟩
      refine yields_kind.bind ?_
      rintro _ rfl
      rw [if_neg (by simp [hname])]
      exact Yields.map ((haccepts .method m loops hlen (by simp) rest trivial).imp
        fun method' hmethod' => ⟨method', rfl, hmethod'⟩)
  · intro _
    refine yields_kind.bind ?_
    rintro _ rfl
    rw [if_pos (.inl (by rw [nextKind_cons, hlast]))]
    exact .pure rfl

/-- What stands behind the keyword `class` and is left to the production for classes. -/
theorem readable_class (hk : keyword.kind = .class)
    (h : Accepts loop classDeclaration ts (fun _ => True) fun s' => s'.forget id = s.forget id) :
    ReadableDeclaration loop false (keyword :: ts) s := by
  refine ⟨startsDeclaration_of_kind hk (by simp [startsDeclaration]),
    fun m loops hlen hloop rest _ => ?_⟩
  simp only [List.length_cons] at hlen
  refine yields_recover (yields_get.bind fun c hc => ?_)
  rw [hc.1, List.cons_append, declaresFunction_of_ne (by simp [hk])]
  refine (yields_accept hk).bind ?_
  rintro _ rfl
  exact h m loops (by omega) hloop rest trivial

theorem readable_declareClass {name opening closing : Token} {ms : List Method}
    (hk : keyword.kind = .class) (hname : name.kind = .identifier)
    (hopening : opening.kind = .leftBrace) (h : Sequence ReadableMethod ts ms)
    (hclosing : closing.kind = .rightBrace) :
    ReadableDeclaration loop false (keyword :: name :: opening :: (ts ++ [closing]))
      (.class name none ms) := by
  refine readable_class hk fun m loops hlen _ rest _ => ?_
  simp only [List.cons_append, List.append_assoc, List.length_append, List.length_cons] at hlen ⊢
  refine (yields_expect hname).bind ?_
  rintro _ rfl
  refine (yields_accept_false (by simp [hopening])).bind ?_
  rintro _ rfl
  refine (yields_expect hopening).bind fun _ _ => ?_
  refine (yields_methods h (by omega) hclosing).bind fun ms' hms' => ?_
  exact (yields_expect hclosing).bind fun _ _ => .pure (by simp [hms'])

theorem readable_declareSubclass {id' : Nat} {name less superclass opening closing : Token}
    {ms : List Method} (hk : keyword.kind = .class) (hname : name.kind = .identifier)
    (hless : less.kind = .less) (hsuperclass : superclass.kind = .identifier)
    (hopening : opening.kind = .leftBrace) (h : Sequence ReadableMethod ts ms)
    (hclosing : closing.kind = .rightBrace) :
    ReadableDeclaration loop false
      (keyword :: name :: less :: superclass :: opening :: (ts ++ [closing]))
      (.class name (some (.variable id' superclass)) ms) := by
  refine readable_class hk fun m loops hlen _ rest _ => ?_
  simp only [List.cons_append, List.append_assoc, List.length_append, List.length_cons] at hlen ⊢
  refine (yields_expect hname).bind ?_
  rintro _ rfl
  refine (yields_accept hless).bind ?_
  rintro _ rfl
  refine (yields_expect hsuperclass).bind ?_
  rintro _ rfl
  refine yields_mint.bind fun id'' _ => ?_
  refine (yields_expect hopening).bind fun _ _ => ?_
  refine (yields_methods h (by omega) hclosing).bind fun ms' hms' => ?_
  exact (yields_expect hclosing).bind fun _ _ => .pure (by simp [Expr.forget, hms'])

/-- What productions do with the tokens that a symbol derives. -/
def Symbol.Readable (loop : Bool) : (s : Symbol) → List Token → s.Tree → Prop
  | .expression r, ts, e => ReadableExpression loop r ts e
  | .items, ts, es => Separated (ReadableExpression loop .assignment) ts es
  | .arguments, ts, es => ts = [] ∧ es = [] ∨
      Separated (ReadableExpression loop .assignment) ts es ∧ es.length ≤ maxArguments
  | .optional, ts, o => ReadableOptional loop ts o
  | .function, ts, f => ReadableFunction ts f
  | .method, ts, m => ReadableMethod ts m
  | .methods, ts, ms => Sequence ReadableMethod ts ms
  | .variable, ts, s => ReadableVariable loop ts s
  | .start, ts, o => ReadableStart loop ts o
  | .statement d, ts, s => ReadableStatement loop d ts s
  | .declaration d, ts, s => ReadableDeclaration loop d ts s
  | .declarations, ts, ss => Sequence (fun ts s => ∃ d, ReadableDeclaration loop d ts s) ts ss

theorem Derives.readable {symbol : Symbol} {t : symbol.Tree} (h : Derives true loop symbol ts t) :
    symbol.Readable loop ts t := by
  induction h with
  | operand hr _ ih => exact ReadableExpression.operand hr ih
  | assign hname hequals _ ih => exact ReadableExpression.assign hname hequals ih
  | set _ hdot hname hequals _ ih₁ ih₂ => exact ReadableExpression.set ih₁ hdot hname hequals ih₂
  | operation _ hop hr _ ih₁ ih₂ => exact ReadableExpression.operation ih₁ hop hr ih₂
  | sign hop _ ih => exact ReadableExpression.sign hop ih
  | call _ hopening _ hparen ih₁ ih₂ => exact ReadableExpression.call ih₁ hopening ih₂ hparen
  | get _ hdot hname ih => exact ReadableExpression.get ih hdot hname
  | literal h => exact ReadableExpression.literal h
  | name h => exact ReadableExpression.name h
  | this h => exact ReadableExpression.this h
  | super h hdot hmethod => exact ReadableExpression.super h hdot hmethod
  | grouping hopening _ hclosing ih => exact ReadableExpression.grouping hopening ih hclosing
  | anonymous hk h ih => exact ReadableExpression.anonymous h.start hk ih
  | item _ ih => exact Separated.one ih
  | items _ hcomma _ ih₁ ih₂ => exact Separated.more ih₁ hcomma ih₂
  | noArguments => exact Or.inl ⟨rfl, rfl⟩
  | arguments _ hmax ih => exact Or.inr ⟨ih, hmax⟩
  | leftOut => exact rfl
  | present _ ih => exact ih
  | function hopening hparams hclosing hbrace _ hlast ih =>
    exact readableFunction hopening hparams hclosing hbrace ih hlast
  | method hname _ ih => exact readableMethod hname ih
  | noMethods => exact Sequence.nil
  | methods _ _ ih₁ ih₂ => exact Sequence.cons ih₁ ih₂
  | bare hk hname hsemicolon => exact readableVariable_bare hk hname hsemicolon
  | initialized hk hname hequals _ hsemicolon ih =>
    exact readableVariable_initialized hk hname hequals ih hsemicolon
  | noStart h => exact readable_noStart h
  | startVariable _ ih => exact readable_startVariable ih
  | startExpression _ hsemicolon ih => exact readable_startExpression ih hsemicolon
  | expression _ hsemicolon ih => exact readable_expression ih hsemicolon
  | print hk _ hsemicolon ih => exact readable_print hk ih hsemicolon
  | «return» hk _ hsemicolon ih => exact readable_return hk ih hsemicolon
  | «break» hk hsemicolon => exact readable_break hk hsemicolon
  | block hk _ hclosing ih => exact readable_block hk ih hclosing
  | «while» hk hopening _ hclosing _ ih₁ ih₂ => exact readable_while hk hopening ih₁ hclosing ih₂
  | «for» hk hopening _ _ hsemicolon _ hclosing _ ih₁ ih₂ ih₃ ih₄ =>
    exact readable_for hk hopening ih₁ ih₂ hsemicolon ih₃ hclosing ih₄
  | «if» hk hopening _ hclosing _ ih₁ ih₂ => exact readable_if hk hopening ih₁ hclosing ih₂
  | ifElse hk hopening _ hclosing _ hnearest hotherwise _ ih₁ ih₂ ih₃ =>
    obtain rfl := hnearest rfl
    exact readable_ifElse hk hopening ih₁ hclosing ih₂ hotherwise ih₃
  | statement _ ih => exact readable_statement ih
  | declareVariable _ ih => exact readable_declareVariable ih
  | declareFunction hk _ ih => exact readable_declareFunction hk ih
  | declareClass hk hname hopening _ hclosing ih =>
    exact readable_declareClass hk hname hopening ih hclosing
  | declareSubclass hk hname hless hsuperclass hopening _ hclosing ih =>
    exact readable_declareSubclass hk hname hless hsuperclass hopening ih hclosing
  | noDeclarations => exact Sequence.nil
  | declarations _ _ ih₁ ih₂ => exact Sequence.cons ⟨_, ih₁⟩ ih₂

theorem untilEnd_spec (ts : List Token) :
    ∃ rest, ts = untilEnd ts ++ rest ∧ nextKind rest = .eof := by
  refine ⟨ts.dropWhile fun t => t.kind ≠ .eof, (List.takeWhile_append_dropWhile).symm, ?_⟩
  induction ts with
  | nil => rfl
  | cons t ts ih =>
    rw [List.dropWhile_cons]
    split
    · exact ih
    next h => simpa using h

theorem read_ok {α : Type} {production : Inner → Parse α} {rest : List Token} {firstId : Nat}
    {Q : α → Prop} (h : Yields 0 (production (Inner.ofDepth (ts.length + 1))) ts rest Q) :
    ∃ a, (read production ts firstId).result = .ok a ∧ Q a := by
  obtain ⟨a, id', hp, hq⟩ := h [] firstId
  exact ⟨a, by rw [read, hp]; rfl, hq⟩

theorem read_program_of_derives {ss : List Stmt} (firstId : Nat)
    (h : Derives true false .declarations (untilEnd ts) ss) :
    ∃ ss', (read program ts firstId).result = .ok ss' ∧
      ss'.map (Stmt.forget id) = ss.map (Stmt.forget id) := by
  obtain ⟨rest, hts, hrest⟩ := untilEnd_spec ts
  have hlen : (untilEnd ts).length ≤ ts.length := (List.takeWhile_prefix _).length_le
  have hyields : Yields 0 (program (Inner.ofDepth (ts.length + 1))) (untilEnd ts ++ rest) rest
      fun ss' => ss'.map (Stmt.forget id) = ss.map (Stmt.forget id) :=
    (yields_declarations (P := (· = .eof)) rest h.readable (by omega) (by simp)
      (fun _ => .inr) hrest).bind fun os hos => .pure hos
  rw [← hts] at hyields
  exact read_ok hyields

theorem read_wholeExpression_of_derives (firstId : Nat)
    (h : Derives true false (.expression .assignment) (untilEnd ts) e) :
    ∃ e', (read wholeExpression ts firstId).result = .ok e' ∧ e'.forget id = e.forget id := by
  obtain ⟨rest, hts, hrest⟩ := untilEnd_spec ts
  have hlen : (untilEnd ts).length ≤ ts.length := (List.takeWhile_prefix _).length_le
  have hyields : Yields 0 (wholeExpression (Inner.ofDepth (ts.length + 1)))
      (untilEnd ts ++ rest) rest fun e' => e'.forget id = e.forget id := by
    refine (ReadableExpression.inner h.readable (by omega) (by simp)
      (by rw [hrest]; rfl)).bind fun e' he' => ?_
    refine yields_head.bind ?_
    rintro _ rfl
    rw [if_neg (fun hne => hne hrest)]
    exact .pure he'
  rw [← hts] at hyields
  exact read_ok hyields

end Lox.Grammar
