import Lox.Proofs.Grammar.Derivation
import Lox.Proofs.Grammar.Reading
import Lox.Proofs.Tree.Identity

namespace Lox.Grammar

variable {α : Type} {inner : Inner} {n : Nat} {loop : Bool} {c c₁ c₂ c₃ : Cursor}

/-- A loop of the function at hand is around the cursor. -/
def Cursor.inLoop (c : Cursor) : Bool := decide (0 < c.loops)

theorem Cursor.Step.inLoop {c c' : Cursor} (h : c.Step c') : c'.inLoop = c.inLoop := by
  rw [Cursor.inLoop, Cursor.inLoop, h.loops]

/-- Between the two cursors stands `a`, which is related by `P` to the tokens there. -/
structure Stands (ids : α → List Nat) (P : List Token → α → Prop) (c : Cursor) (a : α)
    (c' : Cursor) : Prop where
  fresh : Fresh c.nextId c'.nextId (ids a)
  tokens : c'.faults = [] → ∃ ts, c.rest = ts ++ c'.rest ∧ P ts a

theorem Stands.imp {β : Type} {ids : α → List Nat} {ids' : β → List Nat}
    {P : List Token → α → Prop} {P' : List Token → β → Prop} {c c' : Cursor} {a : α} {b : β}
    (h : Stands ids P c a c') (hi : ids' b = ids a) (hP : ∀ ts, P ts a → P' ts b) :
    Stands ids' P' c b c' := by
  refine ⟨hi ▸ h.fresh, fun hc => ?_⟩
  obtain ⟨ts, hts, hp⟩ := h.tokens hc
  exact ⟨ts, hts, hP ts hp⟩

/-- At least one token lies between the cursors. -/
def Cursor.Passed (c c' : Cursor) : Prop := c'.rest.length < c.rest.length

theorem Cursor.Advance.passed {t : Token} (h : c.Advance t c₁) (h' : c₁.Step c₂) : c.Passed c₂ :=
  Nat.lt_of_le_of_lt h'.length_le h.length_lt

def Symbol.ids : (s : Symbol) → s.Tree → List Nat
  | .expression _ => Expr.ids
  | .items => List.flatMap Expr.ids
  | .arguments => List.flatMap Expr.ids
  | .optional => fun e => e.toList.flatMap Expr.ids
  | .function => Function.ids
  | .method => Method.ids
  | .methods => List.flatMap Method.ids
  | .variable => Stmt.ids
  | .start => fun s => s.toList.flatMap Stmt.ids
  | .statement _ => Stmt.ids
  | .declaration _ => Stmt.ids
  | .declarations => List.flatMap Stmt.ids

/-- A tree for a symbol, of which every `else` belongs to the nearest `if`. -/
abbrev Spans (loop : Bool) (s : Symbol) : Cursor → s.Tree → Cursor → Prop :=
  Stands s.ids (Derives true loop s)

/-- A statement, behind which stands no `else` that it could take. -/
def SpansStatement (loop : Bool) : Cursor → Stmt → Cursor → Prop := fun c s c' =>
  Stands Stmt.ids (fun ts s => ∃ d, Derives true loop (.statement d) ts s ∧
    (d = true → c'.head.kind ≠ .else)) c s c'

def SpansDeclaration (loop : Bool) : Cursor → Stmt → Cursor → Prop :=
  Stands Stmt.ids fun ts s => ∃ d, Derives true loop (.declaration d) ts s

/-- What is known of the productions further in, when `n` is their allowance. -/
structure Inner.Sound (n : Nat) (inner : Inner) : Prop where
  expression : ∀ loop c, c.inLoop = loop → Reads (n ≤ c.rest.length) inner.expression c
    fun e c' => Spans loop (.expression .assignment) c e c' ∧ c.Passed c'
  statement : ∀ loop c, c.inLoop = loop → Reads (n ≤ c.rest.length) inner.statement c
    fun s c' => SpansStatement loop c s c' ∧ c.Passed c'
  declaration : ∀ loop c, c.inLoop = loop → c.head.kind ≠ .eof →
    Reads (n ≤ c.rest.length) inner.declaration c fun o c' => c.Passed c' ∧ match o with
      | some s => SpansDeclaration loop c s c'
      | none => c'.faults ≠ []

theorem idsOfAll_eq_flatMap (es : List Expr) : idsOfAll es = es.flatMap Expr.ids := by
  induction es with
  | nil => simp [idsOfAll]
  | cons e es ih => simp [idsOfAll, ih]

theorem idsOfStatements_eq_flatMap (ss : List Stmt) :
    idsOfStatements ss = ss.flatMap Stmt.ids := by
  induction ss with
  | nil => simp [idsOfStatements]
  | cons s ss ih => simp [idsOfStatements, ih]

theorem idsOfMethods_eq_flatMap (ms : List Method) :
    idsOfMethods ms = ms.flatMap Method.ids := by
  induction ms with
  | nil => simp [idsOfMethods]
  | cons m ms ih => simp [idsOfMethods, ih]

/-- Items that each follow a comma. -/
inductive Trailing (item : List Token → α → Prop) : List Token → List α → Prop where
  | nil : Trailing item [] []
  | cons {ts₁ ts₂ a as} {comma : Token} : comma.kind = .comma → item ts₁ a →
      Trailing item ts₂ as → Trailing item (comma :: (ts₁ ++ ts₂)) (a :: as)

theorem Trailing.separated {item : List Token → α → Prop} {ts₁ ts₂ : List Token} {a : α}
    {as : List α} (ha : item ts₁ a) (h : Trailing item ts₂ as) :
    Separated item (ts₁ ++ ts₂) (a :: as) := by
  induction h generalizing ts₁ a with
  | nil => simpa using Separated.one ha
  | cons hcomma hitem _ ih => exact .more ha hcomma (ih hitem)

/-- Items behind the first `i`, up to the limit. -/
def Trails (ids : α → List Nat) (P : List Token → α → Prop) (i : Nat) : Cursor → List α → Cursor →
    Prop :=
  Stands (List.flatMap ids) fun ts as =>
    Trailing P ts as ∧ (as ≠ [] → i + as.length ≤ maxArguments)

/-- A comma and an item stand in front of more. -/
theorem Trails.cons {ids : α → List Nat} {P : List Token → α → Prop} {i : Nat} {comma : Token}
    {a : α} {as : List α} (hcomma : comma.kind = .comma) (hrest : c.rest = comma :: c₁.rest)
    (hle : c.nextId ≤ c₁.nextId) (hlt : c₁.faults = [] → i < maxArguments)
    (hs : c₁.Step c₂) (ha : Stands ids P c₁ a c₂) (hs' : c₂.Step c₃)
    (has : Trails ids P (i + 1) c₂ as c₃) : Trails ids P i c (a :: as) c₃ where
  fresh := (ha.fresh.append has.fresh hs.nextId hs'.nextId).mono hle (Nat.le_refl _)
  tokens hclean := by
    obtain ⟨ts₁, hts₁, hP⟩ := ha.tokens (hs'.clean hclean)
    obtain ⟨ts₂, hts₂, htrail, hlen⟩ := has.tokens hclean
    refine ⟨comma :: (ts₁ ++ ts₂), ?_, .cons hcomma hP htrail, fun _ => ?_⟩
    · rw [hrest, hts₁, hts₂]
      simp
    · have hi := hlt (hs.clean (hs'.clean hclean))
      cases as with
      | nil =>
        simp
        omega
      | cons b bs =>
        have := hlen (by simp)
        simp only [List.length_cons] at *
        omega

theorem reads_trailing {spent : Prop} {item : Parse α} {excess : GrammarFault}
    {ids : α → List Nat} {P : List Token → α → Prop} (c₀ : Cursor)
    (hitem : ∀ c, c₀.Step c → c₀.Passed c → Reads spent item c (Stands ids P c)) :
    Reads spent (many (fun i => do
      if !(← accept .comma) then
        return none
      if maxArguments ≤ i then
        record (← head).line excess
      return some (← item)) 1) c₀ fun as c' =>
        Stands (List.flatMap ids) (fun ts as => Trailing P ts as ∧ as.length < maxArguments)
          c₀ as c' := by
  refine (reads_many (S := Trails ids P) ?_).imp id ?_
  · intro i c hc
    refine (reads_accept (by simp)).bind fun b c₁ hs₁ hb => ?_
    cases b with
    | false =>
      obtain ⟨-, rfl⟩ := hb
      exact Reads.pure (a := none) ⟨.nil, fun _ => ⟨[], by simp, .nil, by simp⟩⟩
    | true =>
      obtain ⟨comma, hcomma, ha⟩ := hb
      have hp : c₀.Passed c₁ := Nat.lt_of_lt_of_le ha.length_lt hc.length_le
      -- From the limit on a fault is recorded, and nothing more is claimed.
      have hrest : ∀ c₂, c₁.Step c₂ → c₂.rest = c₁.rest → (c₂.faults = [] → i < maxArguments) →
          Reads spent item c₂ fun a c' => c'.rest.length < c.rest.length ∧ ∀ as c'', c'.Step c'' →
            Trails ids P (i + 1) c' as c'' → Trails ids P i c (a :: as) c'' := by
        intro c₂ hs₂ hrec hlt
        have hp₂ : c₀.Passed c₂ := by rwa [Cursor.Passed, hrec]
        have hcut : c.rest = comma :: c₂.rest := by rw [hrec, ha.rest]
        have hle := Nat.le_trans hs₁.nextId hs₂.nextId
        refine (hitem c₂ (hc.trans (hs₁.trans hs₂)) hp₂).imp id
          fun a c₃ hs₃ hspan => ⟨?_, fun as c₄ hs₄ => .cons hcomma hcut hle hlt hs₃ hspan hs₄⟩
        have hless := hs₃.length_le
        rw [hcut, List.length_cons]
        omega
      simp only [Bool.not_true, Bool.false_eq_true, ↓reduceIte]
      split
      next hi =>
        refine reads_head.bind ?_
        rintro _ _ _ ⟨rfl, rfl⟩
        exact reads_record.bind fun _ c₂ hs₂ h =>
          Reads.map (hrest c₂ hs₂ h.1 fun hclean => absurd hclean h.2)
      next hi => exact Reads.map (hrest c₁ (.refl _) rfl fun _ => by omega)
  · intro as c' _ h
    refine h.imp rfl fun ts hts => ?_
    obtain ⟨htrail, hlen⟩ := hts
    refine ⟨htrail, ?_⟩
    cases as with
    | nil => exact Nat.zero_lt_succ _
    | cons a as =>
      have := hlen (by simp)
      omega

/-- A list ends before the parenthesis, or right at once. -/
theorem reads_commaList {spent : Prop} {item : Parse α} {excess : GrammarFault}
    (ids : α → List Nat) (P : List Token → α → Prop) (c₀ : Cursor)
    (hitem : ∀ c, c₀.Step c → Reads spent item c fun a c' => Stands ids P c a c' ∧ c.Passed c') :
    Reads spent (commaList excess item) c₀ (Stands (List.flatMap ids) (fun ts as =>
      ts = [] ∧ as = [] ∨ Separated P ts as ∧ as.length ≤ maxArguments) c₀) := by
  unfold commaList
  refine reads_kind.bind ?_
  rintro _ _ _ ⟨rfl, rfl⟩
  split
  · exact Reads.pure ⟨.nil, fun _ => ⟨[], by simp, .inl ⟨rfl, rfl⟩⟩⟩
  · refine (hitem _ (.refl _)).bind fun a c₁ hs₁ ha => ?_
    refine (reads_trailing c₁ fun c hc _ => (hitem c (hs₁.trans hc)).imp id
      fun _ _ _ h => h.1).bind fun as c₂ hs₂ has => ?_
    refine Reads.pure ⟨?_, fun hclean => ?_⟩
    · exact ha.1.fresh.append has.fresh hs₁.nextId hs₂.nextId
    · obtain ⟨ts₁, hts₁, hP⟩ := ha.1.tokens (hs₂.clean hclean)
      obtain ⟨ts₂, hts₂, htrail, hlen⟩ := has.tokens hclean
      refine ⟨ts₁ ++ ts₂, by rw [hts₁, hts₂, List.append_assoc], .inr ⟨htrail.separated hP, ?_⟩⟩
      simp only [List.length_cons]
      omega

theorem Separated.items {ts : List Token} {es : List Expr}
    (h : Separated (Derives true loop (.expression .assignment)) ts es) :
    Derives true loop .items ts es := by
  induction h with
  | one h => exact .item h
  | more h hcomma _ ih => exact .items h hcomma ih

theorem reads_arguments (loop : Bool) {spent : Prop} (c₀ : Cursor)
    (hitem : ∀ c, c₀.Step c → Reads spent inner.expression c fun e c' =>
      Spans loop (.expression .assignment) c e c' ∧ c.Passed c') :
    Reads spent (commaList .tooManyArguments inner.expression) c₀ (Spans loop .arguments c₀) := by
  refine (reads_commaList _ _ c₀ hitem).imp id fun es c' _ h => h.imp rfl ?_
  rintro ts (⟨rfl, rfl⟩ | ⟨hsep, hlen⟩)
  · exact .noArguments
  · exact .arguments hsep.items hlen

theorem reads_parameters {spent : Prop} (c₀ : Cursor) :
    Reads spent (commaList .tooManyParameters (expect .identifier "parameter name")) c₀
      (Stands (fun _ => []) Parameters c₀) := by
  refine (reads_commaList (fun _ => []) (fun ts (name : Token) =>
    name.kind = .identifier ∧ ts = [name]) c₀ fun c _ => ?_).imp id ?_
  · refine (reads_expect (by simp)).imp id fun t c' _ ⟨hk, ha⟩ => ?_
    exact ⟨⟨.nil, fun _ => ⟨[t], ha.rest, hk, rfl⟩⟩, ha.length_lt⟩
  · intro params c' _ h
    refine h.imp (by simp) ?_
    rintro ts (⟨rfl, rfl⟩ | ⟨hsep, hlen⟩)
    · exact .none
    · exact .some hsep hlen

end Lox.Grammar
