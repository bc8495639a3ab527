import Lox.Proofs.Grammar.Complete.Yields

namespace Lox.Grammar

/-- Does a call or something tighter start with this? -/
def startsOperand : Kind → Bool
  | .true | .false | .nil | .number _ | .string _ | .identifier => true
  | .this | .super | .leftParen | .fun => true
  | _ => false

def isSign (k : Kind) : Bool := k = .bang || k = .minus

/-- Does a statement that is no expression start with this? -/
def startsCommand : Kind → Bool
  | .for | .if | .while | .break | .return | .leftBrace | .print => true
  | _ => false

/-- A sign may stand in front of an expression of this rank. -/
def Rank.takesSign : Rank → Bool
  | .call | .primary => false
  | _ => true

theorem Rank.takesSign_of_tighter? {r r' : Rank} (hr : r.tighter? = some r')
    (h : r'.takesSign) : r.takesSign := by
  cases r <;> cases hr <;> first | rfl | simp [takesSign] at h

/-- The first token is of a kind that `P` holds of; a function that comes first has no name. -/
structure Starts (P : Kind → Prop) (ts : List Token) : Prop where
  kind : P (nextKind ts)
  nonempty : ts ≠ []
  anonymous : nextKind ts = .fun → nextKind ts.tail = .leftParen

namespace Starts

theorem one {P : Kind → Prop} {t : Token} {ts : List Token} (h : P t.kind) (hf : t.kind ≠ .fun) :
    Starts P (t :: ts) := ⟨h, List.cons_ne_nil _ _, fun hk => absurd hk hf⟩

theorem imp {P P' : Kind → Prop} {ts : List Token} (h : Starts P ts) (hP : ∀ k, P k → P' k) :
    Starts P' ts := ⟨hP _ h.kind, h.nonempty, h.anonymous⟩

theorem append {P : Kind → Prop} {ts : List Token} (h : Starts P ts) (rest : List Token) :
    Starts P (ts ++ rest) := by
  obtain ⟨hkind, hne, hanonymous⟩ := h
  cases ts with
  | nil => exact absurd rfl hne
  | cons t ts =>
    refine ⟨hkind, by simp, fun hf => ?_⟩
    have hnext := hanonymous hf
    cases ts with
    | nil => simp [nextKind, endOfInput] at hnext
    | cons u ts => exact hnext

theorem exists_cons {P : Kind → Prop} {ts : List Token} (h : Starts P ts) :
    ∃ t ts', ts = t :: ts' ∧ P t.kind := by
  obtain ⟨hkind, hne, -⟩ := h
  cases ts with
  | nil => exact absurd rfl hne
  | cons t ts => exact ⟨t, ts, rfl, hkind⟩

end Starts

def startsExpression (k : Kind) : Bool := startsOperand k || isSign k

/-- Does what stands between braces start with this? -/
def startsDeclaration (k : Kind) : Prop := k ≠ .rightBrace ∧ k ≠ .eof ∧ k ≠ .else

theorem startsDeclaration_of_statement {k : Kind} (h : startsExpression k ∨ startsCommand k) :
    startsDeclaration k := by
  refine ⟨?_, ?_, ?_⟩ <;> rintro rfl <;> exact absurd h (by decide)

theorem startsOperand_of_literal? {k : Kind} {value : Literal} (h : literal? k = some value) :
    startsOperand k ∧ k ≠ .fun := by
  cases k <;> simp_all [literal?, startsOperand]

def Symbol.Start : Symbol → List Token → Prop
  | .expression r, ts => Starts (fun k => startsOperand k ∨ r.takesSign ∧ isSign k) ts
  | .function, ts => nextKind ts = .leftParen
  | .method, ts => nextKind ts = .identifier
  | .variable, ts => nextKind ts = .var
  | .statement _, ts => Starts (fun k => startsExpression k ∨ startsCommand k) ts
  | .declaration _, ts => ts ≠ [] ∧ startsDeclaration (nextKind ts)
  | _, _ => True

theorem startsDeclaration_of_kind {ts : List Token} {k : Kind} (h : nextKind ts = k)
    (hk : startsDeclaration k) : ts ≠ [] ∧ startsDeclaration (nextKind ts) := by
  refine ⟨?_, h ▸ hk⟩
  rintro rfl
  exact hk.2.1 h.symm

theorem Derives.start {nearest loop : Bool} {s : Symbol} {ts : List Token} {t : s.Tree}
    (h : Derives nearest loop s ts t) : s.Start ts := by
  induction h with
  | operand hr _ ih =>
    exact Starts.imp ih fun k hk => hk.imp_right (And.imp_left (Rank.takesSign_of_tighter? hr))
  | assign hname => exact .one (.inl (by rw [hname]; rfl)) (by simp [hname])
  | set _ _ _ _ _ ih => exact (ih.append _).imp fun k hk => hk.imp_right fun h => ⟨rfl, h.2⟩
  | operation _ _ _ _ ih => exact ih.append _
  | sign hop =>
    refine .one (.inr ⟨rfl, ?_⟩) ?_
    · rcases hop with h | h <;> simp [isSign, h]
    · rcases hop with h | h <;> simp [h]
  | call _ _ _ _ ih => exact ih.append _
  | get _ _ _ ih => exact ih.append _
  | literal h => exact .one (.inl (startsOperand_of_literal? h).1) (startsOperand_of_literal? h).2
  | name h => exact .one (.inl (by rw [h]; rfl)) (by simp [h])
  | this h => exact .one (.inl (by rw [h]; rfl)) (by simp [h])
  | super h => exact .one (.inl (by rw [h]; rfl)) (by simp [h])
  | grouping h => exact .one (.inl (by rw [h]; rfl)) (by simp [h])
  | anonymous h _ ih => exact ⟨.inl (by rw [nextKind_cons, h]; rfl), by simp, fun _ => ih⟩
  | function h => exact h
  | method h => exact h
  | bare h => exact h
  | initialized h => exact h
  | expression _ _ ih =>
    exact (ih.append _).imp fun k hk => .inl (by simpa [startsExpression, Rank.takesSign] using hk)
  | print h => exact .one (.inr (by rw [h]; rfl)) (by simp [h])
  | «return» h => exact .one (.inr (by rw [h]; rfl)) (by simp [h])
  | «break» h => exact .one (.inr (by rw [h]; rfl)) (by simp [h])
  | block h => exact .one (.inr (by rw [h]; rfl)) (by simp [h])
  | «while» h => exact .one (.inr (by rw [h]; rfl)) (by simp [h])
  | «for» h => exact .one (.inr (by rw [h]; rfl)) (by simp [h])
  | «if» h => exact .one (.inr (by rw [h]; rfl)) (by simp [h])
  | ifElse h => exact .one (.inr (by rw [h]; rfl)) (by simp [h])
  | statement _ ih => exact ⟨ih.nonempty, startsDeclaration_of_statement ih.kind⟩
  | declareVariable _ ih => exact startsDeclaration_of_kind ih (by simp [startsDeclaration])
  | declareFunction h => exact startsDeclaration_of_kind h (by simp [startsDeclaration])
  | declareClass h => exact startsDeclaration_of_kind h (by simp [startsDeclaration])
  | declareSubclass h => exact startsDeclaration_of_kind h (by simp [startsDeclaration])
  | _ => trivial

end Lox.Grammar
