import Lox.Proofs.Grammar.Derivation

namespace Lox.Grammar

variable {nearest loop : Bool} {ts : List Token}

/-- What may stand outside of a loop may stand inside of one, and what takes the nearest `if` takes
some `if`. -/
theorem Derives.weaken {nearest' : Bool} {s : Symbol} {t : s.Tree}
    (h : Derives nearest loop s ts t) (hn : nearest' = true → nearest = true) :
    ∀ {loop'}, (loop = true → loop' = true) → Derives nearest' loop' s ts t := by
  induction h with
  | operand hr _ ih => exact fun hl => .operand hr (ih hl)
  | assign hname hequals _ ih => exact fun hl => .assign hname hequals (ih hl)
  | set _ hdot hname hequals _ ih₁ ih₂ => exact fun hl => .set (ih₁ hl) hdot hname hequals (ih₂ hl)
  | operation _ hop hr _ ih₁ ih₂ => exact fun hl => .operation (ih₁ hl) hop hr (ih₂ hl)
  | sign hop _ ih => exact fun hl => .sign hop (ih hl)
  | call _ hopening _ hparen ih₁ ih₂ => exact fun hl => .call (ih₁ hl) hopening (ih₂ hl) hparen
  | get _ hdot hname ih => exact fun hl => .get (ih hl) hdot hname
  | literal h => exact fun _ => .literal h
  | name h => exact fun _ => .name h
  | this h => exact fun _ => .this h
  | super h hdot hmethod => exact fun _ => .super h hdot hmethod
  | grouping hopening _ hclosing ih => exact fun hl => .grouping hopening (ih hl) hclosing
  | anonymous hk _ ih => exact fun hl => .anonymous hk (ih hl)
  | item _ ih => exact fun hl => .item (ih hl)
  | items _ hcomma _ ih₁ ih₂ => exact fun hl => .items (ih₁ hl) hcomma (ih₂ hl)
  | noArguments => exact fun _ => .noArguments
  | arguments _ hmax ih => exact fun hl => .arguments (ih hl) hmax
  | leftOut => exact fun _ => .leftOut
  | present _ ih => exact fun hl => .present (ih hl)
  | function hopening hparams hclosing hbrace _ hlast ih =>
    exact fun _ => .function hopening hparams hclosing hbrace (ih id) hlast
  | method hname _ ih => exact fun hl => .method hname (ih hl)
  | noMethods => exact fun _ => .noMethods
  | methods _ _ ih₁ ih₂ => exact fun hl => .methods (ih₁ hl) (ih₂ hl)
  | bare hk hname hsemicolon => exact fun _ => .bare hk hname hsemicolon
  | initialized hk hname hequals _ hsemicolon ih =>
    exact fun hl => .initialized hk hname hequals (ih hl) hsemicolon
  | noStart h => exact fun _ => .noStart h
  | startVariable _ ih => exact fun hl => .startVariable (ih hl)
  | startExpression _ hsemicolon ih => exact fun hl => .startExpression (ih hl) hsemicolon
  | expression _ hsemicolon ih => exact fun hl => .expression (ih hl) hsemicolon
  | print hk _ hsemicolon ih => exact fun hl => .print hk (ih hl) hsemicolon
  | «return» hk _ hsemicolon ih => exact fun hl => .return hk (ih hl) hsemicolon
  | «break» hk hsemicolon =>
    intro _ hl
    obtain rfl := hl rfl
    exact .break hk hsemicolon
  | block hk _ hclosing ih => exact fun hl => .block hk (ih hl) hclosing
  | «while» hk hopening _ hclosing _ ih₁ ih₂ =>
    exact fun hl => .while hk hopening (ih₁ hl) hclosing (ih₂ id)
  | «for» hk hopening _ _ hsemicolon _ hclosing _ ih₁ ih₂ ih₃ ih₄ =>
    exact fun hl => .for hk hopening (ih₁ hl) (ih₂ hl) hsemicolon (ih₃ hl) hclosing (ih₄ id)
  | «if» hk hopening _ hclosing _ ih₁ ih₂ =>
    exact fun hl => .if hk hopening (ih₁ hl) hclosing (ih₂ hl)
  | ifElse hk hopening _ hclosing _ hnearest hotherwise _ ih₁ ih₂ ih₃ =>
    exact fun hl =>
      .ifElse hk hopening (ih₁ hl) hclosing (ih₂ hl) (hnearest ∘ hn) hotherwise (ih₃ hl)
  | statement _ ih => exact fun hl => .statement (ih hl)
  | declareVariable _ ih => exact fun hl => .declareVariable (ih hl)
  | declareFunction hk _ ih => exact fun hl => .declareFunction hk (ih hl)
  | declareClass hk hname hopening _ hclosing ih =>
    exact fun hl => .declareClass hk hname hopening (ih hl) hclosing
  | declareSubclass hk hname hless hsuperclass hopening _ hclosing ih =>
    exact fun hl => .declareSubclass hk hname hless hsuperclass hopening (ih hl) hclosing
  | noDeclarations => exact fun _ => .noDeclarations
  | declarations _ _ ih₁ ih₂ => exact fun hl => .declarations (ih₁ hl) (ih₂ hl)

/-- An `else` behind a dangling statement goes to the last `if` in it. -/
def Symbol.Attaches (loop : Bool) (ts : List Token) : Symbol → Prop
  | .statement true => ∀ {otherwise : Token} {ts' d other}, otherwise.kind = .else →
      Derives true loop (.statement d) ts' other →
      ∃ d s, Derives true loop (.statement d) (ts ++ otherwise :: ts') s
  | _ => True

theorem Derives.attaches {s : Symbol} {t : s.Tree} (h : Derives true loop s ts t) :
    s.Attaches loop ts := by
  induction h with
  | @«while» _ _ _ d _ _ _ _ _ hk hopening h hclosing _ _ ih =>
    cases d with
    | false => trivial
    | true =>
      intro otherwise ts' d other hotherwise hother
      obtain ⟨d, s, hs⟩ := ih hotherwise (hother.weaken id fun _ => rfl)
      exact ⟨d, _, by simpa using Derives.while hk hopening h hclosing hs⟩
  | @«for» _ _ _ _ _ d _ _ _ _ _ _ _ _ hk hopening h₁ h₂ hsemicolon h₃ hclosing _ _ _ _ ih =>
    cases d with
    | false => trivial
    | true =>
      intro otherwise ts' d other hotherwise hother
      obtain ⟨d, s, hs⟩ := ih hotherwise (hother.weaken id fun _ => rfl)
      exact ⟨d, _, by simpa using Derives.for hk hopening h₁ h₂ hsemicolon h₃ hclosing hs⟩
  | @«if» _ _ _ d _ _ _ _ _ hk hopening h hclosing hbody _ ih =>
    intro otherwise ts' d' other hotherwise hother
    cases d with
    | false =>
      exact ⟨d', _, by
        simpa using Derives.ifElse hk hopening h hclosing hbody (fun _ => rfl) hotherwise hother⟩
    | true =>
      obtain ⟨d, s, hs⟩ := ih hotherwise hother
      exact ⟨true, _, by simpa using Derives.if hk hopening h hclosing hs⟩
  | @ifElse _ _ _ _ _ d₂ _ _ _ _ _ _ _ hk hopening h hclosing hbody hnearest helse _ _ _ ih =>
    cases d₂ with
    | false => trivial
    | true =>
      intro otherwise ts' d other hotherwise hother
      obtain ⟨d, s, hs⟩ := ih hotherwise hother
      exact ⟨d, _, by
        simpa using Derives.ifElse hk hopening h hclosing hbody hnearest helse hs⟩
  | _ => trivial

/-- A tree in which every `else` belongs to the nearest `if`, for the same tokens. A statement may
dangle in one of the trees only. -/
def Symbol.HasNearest (loop : Bool) (ts : List Token) : (s : Symbol) → s.Tree → Prop
  | .statement _, _ => ∃ d s, Derives true loop (.statement d) ts s
  | .declaration _, _ => ∃ d s, Derives true loop (.declaration d) ts s
  | .items, es => ∃ es', Derives true loop .items ts es' ∧ List.length es' = List.length es
  | s, _ => ∃ t, Derives true loop s ts t

theorem Derives.hasNearest {s : Symbol} {t : s.Tree} (h : Derives nearest loop s ts t) :
    s.HasNearest loop ts t := by
  induction h with
  | @operand _ r r' _ _ hr _ ih =>
    obtain ⟨_, h⟩ := ih
    exact ⟨_, @Derives.operand _ _ r r' _ _ hr h⟩
  | @assign _ _ id _ _ _ hname hequals _ ih =>
    obtain ⟨_, h⟩ := ih
    exact ⟨.assign id _ _, .assign hname hequals h⟩
  | set _ hdot hname hequals _ ih₁ ih₂ =>
    obtain ⟨⟨_, h₁⟩, _, h₂⟩ := And.intro ih₁ ih₂
    exact ⟨_, .set h₁ hdot hname hequals h₂⟩
  | operation _ hop hr _ ih₁ ih₂ =>
    obtain ⟨⟨_, h₁⟩, _, h₂⟩ := And.intro ih₁ ih₂
    exact ⟨_, .operation h₁ hop hr h₂⟩
  | sign hop _ ih =>
    obtain ⟨_, h⟩ := ih
    exact ⟨_, .sign hop h⟩
  | call _ hopening _ hparen ih₁ ih₂ =>
    obtain ⟨⟨_, h₁⟩, _, h₂⟩ := And.intro ih₁ ih₂
    exact ⟨_, .call h₁ hopening h₂ hparen⟩
  | get _ hdot hname ih =>
    obtain ⟨_, h⟩ := ih
    exact ⟨_, .get h hdot hname⟩
  | literal h => exact ⟨_, .literal h⟩
  | @name _ id _ h => exact ⟨.variable id _, .name h⟩
  | @this _ id _ h => exact ⟨.this id _, .this h⟩
  | @super _ id _ _ _ h hdot hmethod => exact ⟨.super id _ _, .super h hdot hmethod⟩
  | grouping hopening _ hclosing ih =>
    obtain ⟨_, h⟩ := ih
    exact ⟨_, .grouping hopening h hclosing⟩
  | anonymous hk _ ih =>
    obtain ⟨_, h⟩ := ih
    exact ⟨_, .anonymous hk h⟩
  | item _ ih =>
    obtain ⟨_, h⟩ := ih
    exact ⟨_, .item h, rfl⟩
  | items _ hcomma _ ih₁ ih₂ =>
    obtain ⟨⟨_, h₁⟩, _, h₂, hlen⟩ := And.intro ih₁ ih₂
    exact ⟨_, .items h₁ hcomma h₂, congrArg (· + 1) hlen⟩
  | noArguments => exact ⟨_, .noArguments⟩
  | arguments _ hmax ih =>
    obtain ⟨_, h, hlen⟩ := ih
    exact ⟨_, .arguments h (hlen ▸ hmax)⟩
  | leftOut => exact ⟨_, .leftOut⟩
  | present _ ih =>
    obtain ⟨_, h⟩ := ih
    exact ⟨_, .present h⟩
  | function hopening hparams hclosing hbrace _ hlast ih =>
    obtain ⟨_, h⟩ := ih
    exact ⟨_, .function hopening hparams hclosing hbrace h hlast⟩
  | method hname _ ih =>
    obtain ⟨_, h⟩ := ih
    exact ⟨_, .method hname h⟩
  | noMethods => exact ⟨_, .noMethods⟩
  | methods _ _ ih₁ ih₂ =>
    obtain ⟨⟨_, h₁⟩, _, h₂⟩ := And.intro ih₁ ih₂
    exact ⟨_, .methods h₁ h₂⟩
  | bare hk hname hsemicolon => exact ⟨_, .bare hk hname hsemicolon⟩
  | initialized hk hname hequals _ hsemicolon ih =>
    obtain ⟨_, h⟩ := ih
    exact ⟨_, .initialized hk hname hequals h hsemicolon⟩
  | noStart h => exact ⟨_, .noStart h⟩
  | startVariable _ ih =>
    obtain ⟨_, h⟩ := ih
    exact ⟨_, .startVariable h⟩
  | startExpression _ hsemicolon ih =>
    obtain ⟨_, h⟩ := ih
    exact ⟨_, .startExpression h hsemicolon⟩
  | expression _ hsemicolon ih =>
    obtain ⟨_, h⟩ := ih
    exact ⟨_, _, .expression h hsemicolon⟩
  | print hk _ hsemicolon ih =>
    obtain ⟨_, h⟩ := ih
    exact ⟨_, _, .print hk h hsemicolon⟩
  | «return» hk _ hsemicolon ih =>
    obtain ⟨_, h⟩ := ih
    exact ⟨_, _, .return hk h hsemicolon⟩
  | «break» hk hsemicolon => exact ⟨_, _, .break hk hsemicolon⟩
  | block hk _ hclosing ih =>
    obtain ⟨_, h⟩ := ih
    exact ⟨_, _, .block hk h hclosing⟩
  | «while» hk hopening _ hclosing _ ih₁ ih₂ =>
    obtain ⟨⟨_, h₁⟩, _, _, h₂⟩ := And.intro ih₁ ih₂
    exact ⟨_, _, .while hk hopening h₁ hclosing h₂⟩
  | «for» hk hopening _ _ hsemicolon _ hclosing _ ih₁ ih₂ ih₃ ih₄ =>
    obtain ⟨⟨_, h₁⟩, _, h₂⟩ := And.intro ih₁ ih₂
    obtain ⟨⟨_, h₃⟩, _, _, h₄⟩ := And.intro ih₃ ih₄
    exact ⟨_, _, .for hk hopening h₁ h₂ hsemicolon h₃ hclosing h₄⟩
  | «if» hk hopening _ hclosing _ ih₁ ih₂ =>
    obtain ⟨⟨_, h₁⟩, _, _, h₂⟩ := And.intro ih₁ ih₂
    exact ⟨_, _, .if hk hopening h₁ hclosing h₂⟩
  | ifElse hk hopening _ hclosing _ _ hotherwise _ ih₁ ih₂ ih₃ =>
    obtain ⟨_, h₁⟩ := ih₁
    obtain ⟨d, _, h₂⟩ := ih₂
    obtain ⟨_, _, h₃⟩ := ih₃
    cases d with
    | false =>
      exact ⟨_, _, .ifElse hk hopening h₁ hclosing h₂ (fun _ => rfl) hotherwise h₃⟩
    | true =>
      obtain ⟨_, _, h⟩ := h₂.attaches hotherwise h₃
      exact ⟨_, _, .if hk hopening h₁ hclosing h⟩
  | statement _ ih =>
    obtain ⟨_, _, h⟩ := ih
    exact ⟨_, _, .statement h⟩
  | declareVariable _ ih =>
    obtain ⟨_, h⟩ := ih
    exact ⟨_, _, .declareVariable h⟩
  | declareFunction hk _ ih =>
    obtain ⟨_, h⟩ := ih
    exact ⟨_, _, .declareFunction hk h⟩
  | declareClass hk hname hopening _ hclosing ih =>
    obtain ⟨_, h⟩ := ih
    exact ⟨_, _, .declareClass hk hname hopening h hclosing⟩
  | @declareSubclass _ id _ _ _ _ _ _ _ _ hk hname hless hsuperclass hopening _ hclosing ih =>
    obtain ⟨_, h⟩ := ih
    exact ⟨_, .class _ (some (.variable id _)) _,
      .declareSubclass hk hname hless hsuperclass hopening h hclosing⟩
  | noDeclarations => exact ⟨_, .noDeclarations⟩
  | declarations _ _ ih₁ ih₂ =>
    obtain ⟨⟨_, _, h₁⟩, _, h₂⟩ := And.intro ih₁ ih₂
    exact ⟨_, .declarations h₁ h₂⟩

end Lox.Grammar
