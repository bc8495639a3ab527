import Lox.Proofs.Machine.Classes
import Lox.Proofs.Machine.Operation

namespace Lox

variable {P : History} {g? : Option FrameRef} {W W' : World} {m m' : Machine} {L : Lexical}
  {n : Nat}

/-- The machine is sound, and its frames are instances of the scopes around a place. -/
structure At (P : History) (W : World) (m : Machine) (L : Lexical) : Prop where
  sound : Sound P W m
  stands : Stands P W m.frames m.frame L
  proper : L.Proper

theorem At.kept (h : At P W m L) (hk : Kept P g? W m W' m') : At P W' m' L :=
  ⟨hk.sound, hk.stands h.stands, h.proper⟩

/-- The expression may stand at a place. -/
structure Expr.Suits (P : History) (L : Lexical) (e : Expr) : Prop where
  known : Known P L (e.nodes L)
  formed : e.Formed

structure SuitAll (P : History) (L : Lexical) (es : List Expr) : Prop where
  known : Known P L (nodesOfAll L es)
  formed : FormedAll es

def Flow.Fits (P : History) (W : World) (m : Machine) : Flow → Prop
  | .return v => v.Fits P W m
  | _ => True

/-- The current frame does not matter. -/
theorem Flow.Fits.leave {flow : Flow} {frame : Option FrameRef}
    (h : flow.Fits P W { m with frame }) : flow.Fits P W m := by
  have hgrown : Grown none W { m with frame } W m := .of_eq rfl rfl (Nat.le_refl _)
  cases flow with
  | «return» v => exact hgrown.fits h
  | _ => trivial

def SafeExpr (P : History) (n : Nat) : Prop :=
  ∀ {W m L e}, At P W m L → e.Suits P L →
    Safe P none W m (Machine.evaluate n e) [⟨n, .evaluate e, m⟩]
      fun W' m' v => v.Fits P W' m'

def SafeArguments (P : History) (n : Nat) : Prop :=
  ∀ {W m L es}, At P W m L → SuitAll P L es →
    Safe P none W m (Machine.evaluateAll n es) [⟨n, .evaluateAll es, m⟩]
      fun W' m' vs => ∀ v ∈ vs, v.Fits P W' m'

def SafeInvocation (P : History) (n : Nat) : Prop :=
  ∀ {W m callee paren vs}, Sound P W m → callee.Fits P W m →
    (∀ v ∈ vs, v.Fits P W m) →
    Safe P none W m (Machine.invoke n callee paren vs) [⟨n, .invoke callee paren vs, m⟩]
      fun W' m' v => v.Fits P W' m'

def SafeCall (P : History) (n : Nat) : Prop :=
  ∀ {W m f paren vs}, Sound P W m → f.Fits P W m →
    (∀ v ∈ vs, v.Fits P W m) → vs.length = f.arity →
    Safe P none W m (Machine.call n f paren vs) [⟨n, .call f paren vs, m⟩]
      fun W' m' v => v.Fits P W' m'

def SafeStmt (P : History) (n : Nat) : Prop :=
  ∀ {W m L loop s}, Sound P W m → Here P W m L → s.Formed loop → Known P L (s.nodes L) →
    L.Expects s →
    Safe P m.frame W m (Machine.execute n s) [⟨n, .execute s, m⟩]
      fun W' m' flow => flow.Fits P W' m' ∧ Here P W' m' (L.after s)

def SafeStmts (P : History) (n : Nat) : Prop :=
  ∀ {W m L loop ss}, Sound P W m → Here P W m L → FormedStatements loop ss →
    Known P L (nodesOfStatements L ss) → L.ExpectsAll ss →
    Safe P m.frame W m (Machine.executeAll n ss) [⟨n, .executeAll ss, m⟩]
      fun W' m' flow => flow.Fits P W' m'

theorem located_of_suits {role : Role} {id : Nat} {name : Token} (h : At P W m L)
    (hknown : Known P L [⟨role, id, name, L⟩]) (hname : role.Names name) :
    Located P m role id name :=
  ⟨W, L, h.sound, h.stands, h.proper, hknown, hname⟩

theorem safe_readNode {role : Role} {id : Nat} {name : Token} (h : At P W m L)
    (hknown : Known P L [⟨role, id, name, L⟩]) (hname : role.Names name) :
    Safe P none W m (Machine.readVariable id name) [⟨n + 1, .access role id name, m⟩]
      fun W' m' v => v.Fits P W' m' :=
  Safe.enter fun _ => ⟨located_of_suits h hknown hname, safe_readVariable h.sound id name⟩

theorem safe_assign {id : Nat} {name : Token} {value : Expr} (ih : SafeExpr P n) (h : At P W m L)
    (he : (Expr.assign id name value).Suits P L) :
    Safe P none W m (Machine.evaluate (n + 1) (.assign id name value))
      (callsOfExpr n m (.assign id name value)) fun W' m' v => v.Fits P W' m' := by
  obtain ⟨hknown, hname, hformed⟩ := he
  have hnode : Known P L [⟨.write, id, name, L⟩] := hknown.right
  refine Safe.bind (ih h ⟨hknown.left, hformed⟩) fun v W' m' _ hk hv => ?_
  have hhere := h.kept hk
  have hwrite : Safe P none W' m' (Machine.assignVariable id name v)
      [⟨n + 1, .access .write id name, m'⟩] fun _ _ _ => True :=
    Safe.enter fun _ => ⟨located_of_suits hhere hnode hname,
      safe_assignVariable hk.sound hhere.stands (hnode.accepted _ (by simp)) hname hv⟩
  exact Safe.andThen hwrite fun _ W'' m'' _ hk' _ => .pure hk'.sound (hk'.fits hv)

theorem safe_callExpr {callee : Expr} {paren : Token} {arguments : List Expr} (ih : SafeExpr P n)
    (ihAll : SafeArguments P n) (ihInvoke : SafeInvocation P n) (h : At P W m L)
    (he : (Expr.call callee paren arguments).Suits P L) :
    Safe P none W m (Machine.evaluate (n + 1) (.call callee paren arguments))
      (callsOfExpr n m (.call callee paren arguments)) fun W' m' v => v.Fits P W' m' := by
  obtain ⟨hknown, hcallee, harguments⟩ := he
  refine Safe.bind (ih h ⟨hknown.left, hcallee⟩) fun f W₁ m₁ _ hk₁ hf => ?_
  refine Safe.bind (ihAll (h.kept hk₁) ⟨hknown.right, harguments⟩) fun vs W₂ m₂ _ hk₂ hvs => ?_
  exact ihInvoke hk₂.sound (hk₂.fits hf) hvs

theorem safe_set {object value : Expr} {name : Token} (ih : SafeExpr P n) (h : At P W m L)
    (he : (Expr.set object name value).Suits P L) :
    Safe P none W m (Machine.evaluate (n + 1) (.set object name value))
      (callsOfExpr n m (.set object name value)) fun W' m' v => v.Fits P W' m' := by
  obtain ⟨hknown, hobject, hvalue⟩ := he
  refine Safe.bind (ih h ⟨hknown.right, hobject⟩) fun o W₁ m₁ _ hk₁ _ => ?_
  cases o with
  | «instance» i c =>
    refine Safe.andThen (ih (h.kept hk₁) ⟨hknown.left, hvalue⟩) fun v W₂ m₂ _ hk₂ hv => ?_
    exact Safe.andThen (safe_setField hk₂.sound i name hv) fun _ _ _ _ hk₃ _ =>
      .pure hk₃.sound (hk₃.fits hv)
  | _ => exact .fail hk₁.sound

/-- What an expression comes to is what a machine may hold. -/
theorem meets_evaluate {e : Expr}
    (h : Ends P g? W m (fun W' m' v => v.Fits P W' m') (Machine.evaluate n e m)) :
    Moment.Meets P ⟨n, .evaluate e, m⟩ := by
  intro v m' hok
  rw [hok] at h
  obtain ⟨W', -, hv⟩ := h
  exact ⟨W', hv⟩

theorem safeExpr_succ (ih : SafeExpr P n) (ihAll : SafeArguments P n)
    (ihInvoke : SafeInvocation P n) : SafeExpr P (n + 1) := by
  intro W m L e h he
  refine Safe.ending (fun hM => ?_) fun _ => meets_evaluate
  obtain ⟨hknown, hformed⟩ := he
  cases e with
  | literal value =>
    exact .pure h.sound (Operation.plain_literal value).fits
  | grouping e => exact ih h ⟨hknown, hformed⟩
  | unary _ e =>
    refine Safe.andThen (ih h ⟨hknown, hformed⟩) fun v W' m' _ hk _ => .ofExcept hk.sound ?_
    exact fun w hw => (Operation.plain_of_unary hw).fits
  | binary e₁ _ e₂ =>
    refine Safe.bind (ih h ⟨hknown.left, hformed.1⟩) fun v W₁ m₁ _ hk₁ _ => ?_
    refine Safe.andThen (ih (h.kept hk₁) ⟨hknown.right, hformed.2⟩) fun w W₂ m₂ _ hk₂ _ => ?_
    exact .ofExcept hk₂.sound fun u hu => (Operation.plain_of_binary hu).fits
  | logical e₁ operator e₂ =>
    refine Safe.bind (ih h ⟨hknown.left, hformed.1⟩) fun v W₁ m₁ _ hk₁ hv => ?_
    cases Operation.decides operator v with
    | true => exact .pure hk₁.sound hv
    | false => exact ih (h.kept hk₁) ⟨hknown.right, hformed.2⟩
  | «variable» id name => exact safe_readNode h hknown hformed
  | assign id name value => exact safe_assign ih h ⟨hknown, hformed⟩
  | call callee paren arguments => exact safe_callExpr ih ihAll ihInvoke h ⟨hknown, hformed⟩
  | get object name =>
    refine Safe.bind (ih h ⟨hknown, hformed⟩) fun o W₁ m₁ _ hk₁ ho => ?_
    cases o with
    | «instance» i c => exact safe_property hk₁.sound ho
    | _ => exact .fail hk₁.sound
  | set object name value => exact safe_set ih h ⟨hknown, hformed⟩
  | this id keyword => exact safe_readNode h hknown hformed
  | super id keyword method => exact safe_superMethod h.sound (located_of_suits h hknown hformed)
  | function f =>
    refine Safe.andThen (safe_get h.sound) ?_
    rintro _ _ _ - - ⟨rfl, rfl, rfl⟩
    refine safe_functionValue h.sound ⟨⟨⟨L, h.stands, h.proper, hknown, hformed⟩, ?_⟩, nofun⟩
    exact ⟨_, hM, rfl, rfl⟩

end Lox
