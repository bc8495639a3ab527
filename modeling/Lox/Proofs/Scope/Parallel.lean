import Lox.Proofs.Parallel
import Lox.Proofs.Tree.Twin
import Lox.Proofs.Scope.Resolver

namespace Lox

variable (K : Link)

inductive Finding.Twin : Finding → Finding → Prop where
  | address {i i'} (a : Address) : K.node i i' → Finding.Twin (.address i a) (.address i' a)
  | misuse {d d'} : d.Twin K d' → Finding.Twin (.misuse d) (.misuse d')
  | unread {d d'} : d.Twin K d' → Finding.Twin (.unread d) (.unread d')

structure Binding.Twin (b b' : Binding) : Prop where
  name : b.name = b'.name
  line : K.line b.line b'.line
  ready : b.ready = b'.ready
  used : b.used = b'.used

def Scope.Twin (s s' : Scope) : Prop := List.Forall₂ (Binding.Twin K) s s'

/-- The walks go alike, behind what they had found when they met. -/
structure Walk.Twin (before before' : List Finding) (w w' : Walk) : Prop where
  scopes : List.Forall₂ (Scope.Twin K) w.scopes w'.scopes
  findings : ∃ fs fs', w.findings.toList = before ++ fs ∧ w'.findings.toList = before' ++ fs' ∧
    List.Forall₂ (Finding.Twin K) fs fs'

structure Resolution.Twin (r r' : Resolution) : Prop where
  addresses : List.Forall₂ (fun x y => K.node x.1 y.1 ∧ x.2 = y.2) r.addresses r'.addresses
  warnings : List.Forall₂ (Diagnostic.Twin K) r.warnings r'.warnings

variable {K}

namespace Scope.Twin

variable {s s' : Scope}

theorem slot?_eq (h : s.Twin K s') (name : String) : s.slot? name = s'.slot? name := by
  induction h with
  | nil => rfl
  | cons hb _ ih =>
    unfold slot? at ih ⊢
    rw [List.findIdx?_cons, List.findIdx?_cons, hb.name, ih]

theorem isPending_eq (h : s.Twin K s') (name : String) : s.isPending name = s'.isPending name := by
  induction h with
  | nil => rfl
  | cons hb _ ih =>
    unfold isPending at ih ⊢
    rw [List.any_cons, List.any_cons, hb.name, hb.ready, ih]

theorem declare (h : s.Twin K s') (name : String) {line line' : Nat} (hline : K.line line line') :
    (s.declare name line).Twin K (s'.declare name line') :=
  List.rel_append h (.cons ⟨rfl, hline, rfl, rfl⟩ .nil)

theorem define (h : s.Twin K s') (name : String) : (s.define name).Twin K (s'.define name) := by
  refine List.rel_map (fun b b' hb => ?_) h
  rw [hb.name]
  split
  · exact ⟨rfl, hb.line, rfl, hb.used⟩
  · exact hb

theorem use (h : s.Twin K s') (slot : Nat) : (s.use slot).Twin K (s'.use slot) := by
  induction h generalizing slot with
  | nil => cases slot <;> exact .nil
  | cons hb hs ih =>
    cases slot with
    | zero => exact .cons ⟨hb.name, hb.line, hb.ready, rfl⟩ hs
    | succ slot => exact .cons hb (ih slot)

theorem unread (h : s.Twin K s') :
    List.Forall₂ (Diagnostic.Twin K) s.unread s'.unread := by
  refine List.rel_map (R := Binding.Twin K) (fun b b' hb => ?_)
    (List.rel_filter (R := Binding.Twin K) (fun b b' hb => ?_) h)
  · exact ⟨hb.line, by rw [hb.name]⟩
  · show (!b.used) = true ↔ (!b'.used) = true
    rw [hb.used]

theorem implicit (name : String) {line line' : Nat} (hline : K.line line line') :
    (Scope.implicit name line).Twin K (Scope.implicit name line') :=
  .cons ⟨rfl, hline, rfl, rfl⟩ .nil

end Scope.Twin

namespace Scope

variable {scopes scopes' : List Scope}

theorem address?_eq (h : List.Forall₂ (Scope.Twin K) scopes scopes') (name : String) :
    address? scopes name = address? scopes' name := by
  induction h with
  | nil => rfl
  | cons hs _ ih => rw [address?, address?, hs.slot?_eq, ih]

theorem twin_useAt (h : List.Forall₂ (Scope.Twin K) scopes scopes') (a : Address) :
    List.Forall₂ (Scope.Twin K) (useAt scopes a) (useAt scopes' a) := by
  obtain ⟨depth, slot⟩ := a
  induction h generalizing depth with
  | nil => cases depth <;> exact .nil
  | cons hs hss ih =>
    cases depth with
    | zero => exact .cons (hs.use slot) hss
    | succ depth => exact .cons hs (ih depth)

end Scope

namespace Walk.Twin

variable {before before' : List Finding} {w w' : Walk} {i i' : Nat} {name name' : Token}

theorem find (h : w.Twin K before before' w') {f f' : Finding} (hf : f.Twin K f') :
    (w.find f).Twin K before before' (w'.find f') := by
  obtain ⟨fs, fs', hw, hw', hfs⟩ := h.findings
  refine ⟨h.scopes, fs ++ [f], fs' ++ [f'], ?_, ?_, List.rel_append hfs (.cons hf .nil)⟩
  · rw [Walk.find, Array.toList_push, hw, List.append_assoc]
  · rw [Walk.find, Array.toList_push, hw', List.append_assoc]

theorem misuse (h : w.Twin K before before' w') {line line' : Nat} (hline : K.line line line')
    (fault : ScopeFault) :
    (w.misuse line fault).Twin K before before' (w'.misuse line' fault) :=
  h.find (.misuse ⟨hline, rfl⟩)

theorem withScopes (h : w.Twin K before before' w') {scopes scopes' : List Scope}
    (hscopes : List.Forall₂ (Scope.Twin K) scopes scopes') :
    Walk.Twin K before before' { w with scopes } { w' with scopes := scopes' } :=
  ⟨hscopes, h.findings⟩

theorem enter (h : w.Twin K before before' w') {s s' : Scope} (hs : s.Twin K s') :
    (w.enter s).Twin K before before' (w'.enter s') :=
  h.withScopes (.cons hs h.scopes)

theorem leave (h : w.Twin K before before' w') : w.leave.Twin K before before' w'.leave := by
  have hscopes := h.scopes
  unfold Walk.leave
  generalize w.scopes = scopes at hscopes ⊢
  generalize w'.scopes = scopes' at hscopes ⊢
  cases hscopes with
  | nil => exact h
  | cons hs hss =>
    refine List.rel_foldl (P := Walk.Twin K before before') (fun w w' hw d d' hd => ?_)
      (h.withScopes hss) hs.unread
    exact hw.find (.unread hd)

theorem declare (h : w.Twin K before before' w') (ht : name.Twin K name') :
    (w.declare name).Twin K before before' (w'.declare name') := by
  have hscopes := h.scopes
  unfold Walk.declare
  generalize w.scopes = scopes at hscopes ⊢
  generalize w'.scopes = scopes' at hscopes ⊢
  cases hscopes with
  | nil => exact h
  | @cons s s' outer outer' hs hss =>
    dsimp only
    rw [← ht.lexeme, ← hs.slot?_eq]
    cases s.slot? name.lexeme with
    | some _ => exact h.misuse ht.line _
    | none => exact h.withScopes (.cons (hs.declare _ ht.line) hss)

theorem define (h : w.Twin K before before' w') (ht : name.Twin K name') :
    (w.define name).Twin K before before' (w'.define name') := by
  have hscopes := h.scopes
  unfold Walk.define
  generalize w.scopes = scopes at hscopes ⊢
  generalize w'.scopes = scopes' at hscopes ⊢
  cases hscopes with
  | nil => exact h
  | cons hs hss =>
    rw [ht.lexeme]
    exact h.withScopes (.cons (hs.define _) hss)

theorem introduce (h : w.Twin K before before' w') (ht : name.Twin K name') :
    (w.introduce name).Twin K before before' (w'.introduce name') :=
  (h.declare ht).define ht

theorem isPending_eq (h : w.Twin K before before' w') (ht : name.Twin K name') :
    w.isPending name = w'.isPending name' := by
  have hscopes := h.scopes
  unfold Walk.isPending
  generalize w.scopes = scopes at hscopes ⊢
  generalize w'.scopes = scopes' at hscopes ⊢
  cases hscopes with
  | nil => rfl
  | cons hs _ =>
    rw [ht.lexeme]
    exact hs.isPending_eq _

theorem refer (h : w.Twin K before before' w') (hi : K.node i i') (ht : name.Twin K name') :
    (w.refer i name).Twin K before before' (w'.refer i' name') := by
  rw [Walk.refer, Walk.refer, ← ht.lexeme, ← Scope.address?_eq h.scopes]
  cases Scope.address? w.scopes name.lexeme with
  | none => exact h
  | some a => exact h.find (.address a hi)

theorem read (h : w.Twin K before before' w') (hi : K.node i i') (ht : name.Twin K name') :
    (w.read i name).Twin K before before' (w'.read i' name') := by
  rw [Walk.read, Walk.read, ← ht.lexeme, ← Scope.address?_eq h.scopes]
  cases Scope.address? w.scopes name.lexeme with
  | none => exact h
  | some a => exact (h.withScopes (Scope.twin_useAt h.scopes a)).find (.address a hi)

theorem readVariable (h : w.Twin K before before' w') (hi : K.node i i') (ht : name.Twin K name') :
    (w.readVariable i name).Twin K before before' (w'.readVariable i' name') := by
  rw [Walk.readVariable, Walk.readVariable, h.isPending_eq ht]
  split
  · exact (h.misuse ht.line _).read hi ht
  · exact h.read hi ht

theorem assignVariable (h : w.Twin K before before' w') (hi : K.node i i')
    (ht : name.Twin K name') :
    (w.assignVariable i name).Twin K before before' (w'.assignVariable i' name') := by
  rw [Walk.assignVariable, Walk.assignVariable, h.isPending_eq ht]
  split
  · exact (h.misuse ht.line _).refer hi ht
  · exact h.refer hi ht

theorem readThis (h : w.Twin K before before' w') (c : ClassContext) (hi : K.node i i')
    (ht : name.Twin K name') :
    (w.readThis c i name).Twin K before before' (w'.readThis c i' name') := by
  cases c with
  | none => exact h.misuse ht.line _
  | base | subclass => exact h.read hi ht

theorem readSuper (h : w.Twin K before before' w') (c : ClassContext) (hi : K.node i i')
    (ht : name.Twin K name') :
    (w.readSuper c i name).Twin K before before' (w'.readSuper c i' name') := by
  cases c with
  | none | base => exact h.misuse ht.line _
  | subclass => exact h.read hi ht

theorem leaveFunction (h : w.Twin K before before' w') (c : FunctionContext)
    (ht : name.Twin K name') :
    (w.leaveFunction c name).Twin K before before' (w'.leaveFunction c name') := by
  unfold Walk.leaveFunction
  split
  · exact h.misuse ht.line _
  · exact h

theorem returnValue (h : w.Twin K before before' w') (c : FunctionContext)
    (ht : name.Twin K name') :
    (w.returnValue c name).Twin K before before' (w'.returnValue c name') := by
  unfold Walk.returnValue
  split
  · exact h.misuse ht.line _
  · exact h

theorem checkSuperclass (h : w.Twin K before before' w') (ht : name.Twin K name') {e e' : Expr}
    (he : e.Twin K e') :
    (w.checkSuperclass name e).Twin K before before' (w'.checkSuperclass name' e') := by
  cases he with
  | @«variable» _ _ t t' _ hu =>
    unfold Walk.checkSuperclass
    dsimp only [inheritsFrom]
    rw [← ht.lexeme, ← hu.lexeme]
    by_cases hname : t.lexeme = name.lexeme
    · rw [if_pos hname, if_pos hname]
      exact h.misuse hu.line _
    · rw [if_neg hname, if_neg hname]
      exact h
  | _ => exact h

theorem introduceAll {params params' : List Token} (h : w.Twin K before before' w')
    (hparams : List.Forall₂ (Token.Twin K) params params') :
    (params.foldl Walk.introduce w).Twin K before before' (params'.foldl Walk.introduce w') :=
  List.rel_foldl (P := Walk.Twin K before before') (R := Token.Twin K)
    (fun _ _ hw _ _ ht => introduce hw ht) h hparams

end Walk.Twin

theorem methodContext_eq {t t' : Token} (ht : t.Twin K t') :
    methodContext t = methodContext t' := by
  rw [methodContext, methodContext, ht.lexeme]

variable {before before' : List Finding}

mutual

theorem Expr.Twin.walk {e e' : Expr} : e.Twin K e' → (c : Context) → {w w' : Walk} →
    w.Twin K before before' w' → (e.walk c w).Twin K before before' (e'.walk c w')
  | .literal _, _, _, _, hw => hw
  | .grouping h, c, _, _, hw => h.walk c hw
  | .unary _ h, c, _, _, hw => h.walk c hw
  | .binary h₁ _ h₂, c, _, _, hw => h₂.walk c (h₁.walk c hw)
  | .logical h₁ _ h₂, c, _, _, hw => h₂.walk c (h₁.walk c hw)
  | .variable hi ht, _, _, _, hw => hw.readVariable hi ht
  | .assign hi ht h, c, _, _, hw => (h.walk c hw).assignVariable hi ht
  | .call h _ hs, c, _, _, hw => hs.walk c (h.walk c hw)
  | .get h _, c, _, _, hw => h.walk c hw
  | .set h₁ _ h₂, c, _, _, hw => h₁.walk c (h₂.walk c hw)
  | .this hi ht, _, _, _, hw => hw.readThis _ hi ht
  | .super hi ht _, _, _, _, hw => hw.readSuper _ hi ht
  | .function h, _, _, _, hw => h.walk _ hw
termination_by structural h => h

theorem TwinAll.walk {es es' : List Expr} : TwinAll K es es' → (c : Context) → {w w' : Walk} →
    w.Twin K before before' w' →
    (walkArguments c w es).Twin K before before' (walkArguments c w' es')
  | .nil, _, _, _, hw => hw
  | .cons h hs, c, _, _, hw => hs.walk c (h.walk c hw)
termination_by structural h => h

theorem Function.Twin.walk {f f' : Function} : f.Twin K f' → (c : Context) → {w w' : Walk} →
    w.Twin K before before' w' → (f.walk c w).Twin K before before' (f'.walk c w')
  | .mk hparams hbody, c, _, _, hw => (hbody.walk c ((hw.enter .nil).introduceAll hparams)).leave
termination_by structural h => h

theorem Stmt.Twin.walk {s s' : Stmt} : s.Twin K s' → (c : Context) → {w w' : Walk} →
    w.Twin K before before' w' → (s.walk c w).Twin K before before' (s'.walk c w')
  | .expression h, c, _, _, hw => h.walk c hw
  | .print h, c, _, _, hw => h.walk c hw
  | .var ht, _, _, _, hw => hw.introduce ht
  | .initialized ht h, c, _, _, hw => (h.walk c (hw.declare ht)).define ht
  | .block h, c, _, _, hw => (h.walk c (hw.enter .nil)).leave
  | .if h hs, c, _, _, hw => hs.walk c (h.walk c hw)
  | .ifElse h hs₁ hs₂, c, _, _, hw => hs₂.walk c (hs₁.walk c (h.walk c hw))
  | .while h hs, c, _, _, hw => hs.walk c (h.walk c hw)
  | .break _, _, _, _, hw => hw
  | .return ht, _, _, _, hw => hw.leaveFunction _ ht
  | .returned ht h, c, _, _, hw => h.walk c ((hw.leaveFunction _ ht).returnValue _ ht)
  | .function (.mk ht hf), _, _, _, hw => hf.walk _ (hw.introduce ht)
  | .class ht hms, _, _, _, hw =>
    (hms.walk _ ((hw.introduce ht).enter (.implicit _ ht.line))).leave
  | .subclass ht h hms, c, _, _, hw => by
    have hsuperclass := h.walk { c with inClass := .subclass }
      ((hw.introduce ht).checkSuperclass ht h)
    have hinside := (hsuperclass.enter (.implicit "super" ht.line)).enter
      (.implicit "this" ht.line)
    exact (hms.walk _ hinside).leave.leave
termination_by structural h => h

theorem TwinStatements.walk {ss ss' : List Stmt} : TwinStatements K ss ss' → (c : Context) →
    {w w' : Walk} → w.Twin K before before' w' →
    (walkStatements c w ss).Twin K before before' (walkStatements c w' ss')
  | .nil, _, _, _, hw => hw
  | .cons h hs, c, _, _, hw => hs.walk c (h.walk c hw)
termination_by structural h => h

theorem TwinMethods.walk {ms ms' : List Method} : TwinMethods K ms ms' → (c : Context) →
    {w w' : Walk} → w.Twin K before before' w' →
    (walkMethods c w ms).Twin K before before' (walkMethods c w' ms')
  | .nil, _, _, _, hw => hw
  | .cons (.mk ht hf) hs, c, _, _, hw => by
    rw [walkMethods, walkMethods, methodContext_eq ht]
    exact hs.walk c (hf.walk _ hw)
termination_by structural h => h

end

namespace Finding.Twin

variable {f f' : Finding}

theorem address? (h : f.Twin K f') :
    Option.Rel (fun x y => K.node x.1 y.1 ∧ x.2 = y.2) f.address? f'.address? := by
  cases h with
  | address a hi => exact .some ⟨hi, rfl⟩
  | misuse | unread => exact .none

theorem error? (lint : Lint) (h : f.Twin K f') :
    Option.Rel (Diagnostic.Twin K) (f.error? lint) (f'.error? lint) := by
  cases h with
  | address a hi => exact .none
  | misuse hd => exact .some hd
  | unread hd =>
    dsimp only [Finding.error?]
    split
    · exact .some hd
    · exact .none

theorem warning? (lint : Lint) (h : f.Twin K f') :
    Option.Rel (Diagnostic.Twin K) (f.warning? lint) (f'.warning? lint) := by
  cases h with
  | address | misuse => exact .none
  | unread hd =>
    dsimp only [Finding.warning?]
    split
    · exact .some hd
    · exact .none

end Finding.Twin

theorem twin_verdict (lint : Lint) {fs fs' : List Finding}
    (h : List.Forall₂ (Finding.Twin K) fs fs') :
    ExceptRel (List.Forall₂ (Diagnostic.Twin K)) (Resolution.Twin K) (verdict lint fs)
      (verdict lint fs') := by
  have herrors : List.Forall₂ (Diagnostic.Twin K) (fs.filterMap (Finding.error? lint))
      (fs'.filterMap (Finding.error? lint)) := List.rel_filterMap (fun _ _ hf => hf.error? lint) h
  unfold verdict
  generalize fs.filterMap (Finding.error? lint) = ds at herrors
  generalize fs'.filterMap (Finding.error? lint) = ds' at herrors
  cases herrors with
  | nil =>
    exact .ok ⟨List.rel_filterMap (fun _ _ hf => hf.address?) h,
      List.rel_filterMap (fun _ _ hf => hf.warning? lint) h⟩
  | cons hd hds => exact .error (.cons hd hds)

/-- Programs that are alike get the same verdict. -/
theorem twin_resolve (lint : Lint) {program program' : List Stmt}
    (h : TwinStatements K program program') :
    ExceptRel (List.Forall₂ (Diagnostic.Twin K)) (Resolution.Twin K) (resolve lint program)
      (resolve lint program') := by
  have hstart : Walk.Twin K [] [] ⟨[], #[]⟩ ⟨[], #[]⟩ := ⟨.nil, [], [], rfl, rfl, .nil⟩
  obtain ⟨fs, fs', hw, hw', hfs⟩ := (h.walk .top hstart).findings
  have hverdict := twin_verdict lint hfs
  rw [← List.nil_append fs, ← List.nil_append fs', ← hw, ← hw'] at hverdict
  rw [resolve_eq_verdict, resolve_eq_verdict]
  exact hverdict

end Lox
