import Lox.Proofs.Loop.Inset
import Lox.Proofs.Scope.Binding
import Lox.Proofs.Tree.Same

namespace Lox

/-- Points of scopes with the same names, where as many of them have been declared. -/
structure Place.Same (p p' : Place) : Prop where
  names : p.site.names = p'.site.names
  count : p.count = p'.count
  pending : p.pending.isSome = p'.pending.isSome

theorem Place.Same.names_eq {p p' : Place} (h : p.Same p') : p.names = p'.names := by
  rw [Place.names, Place.names, h.names, h.count, h.pending]

namespace Lexical

/-- `L` has the scopes of `L'` and an empty block more, unless this is outside. -/
inductive Widens : Inset → Lexical → Lexical → Prop where
  | nil : Widens .outside [] []
  | cons {k p p' L L'} : p.Same p' → Widens k L L' → Widens k.inner (p :: L) (p' :: L')
  | empty {ss count L L'} : declaredNames ss = [] → Widens .outside L L' →
      Widens (.inside 0) ((Site.block ss).enter count L) L'

variable {k : Inset} {L L' : Lexical}

theorem Widens.self (L : Lexical) : Widens .outside L L := by
  induction L with
  | nil => exact .nil
  | cons p L ih => exact .cons (k := .outside) ⟨rfl, rfl, rfl⟩ ih

theorem Widens.enter (h : Widens k L L') (site site' : Site) (hnames : site.names = site'.names)
    (count : Nat) : Widens k.inner (site.enter count L) (site'.enter count L') :=
  .cons ⟨hnames, rfl, rfl⟩ h

theorem Widens.declare (h : Widens k L L') (hk : k ≠ .inside 0) :
    Widens k L.declare L'.declare := by
  cases h with
  | nil => exact .nil
  | cons hp h => exact .cons ⟨hp.names, congrArg (· + 1) hp.count, hp.pending⟩ h
  | empty => exact absurd rfl hk

theorem Widens.await (h : Widens k L L') (hk : k ≠ .inside 0) (t : Token) (e e' : Expr) :
    Widens k (L.await t e) (L'.await t e') := by
  cases h with
  | nil => exact .nil
  | cons hp h => exact .cons ⟨hp.names, hp.count, rfl⟩ h
  | empty => exact absurd rfl hk

theorem map_skip_outside (a? : Option Address) : a?.map (Inset.skip .outside) = a? := by
  cases a? <;> rfl

/-- Names are bound alike, but over the empty scope. -/
theorem Widens.lookup (h : Widens k L L') (name : String) :
    L.lookup name = (L'.lookup name).map k.skip := by
  induction h with
  | nil => rfl
  | @cons k p p' L L' hp _ ih =>
    unfold Lexical.lookup
    rw [hp.names_eq]
    cases p'.names.findIdx? (· = name) with
    | some slot =>
      exact congrArg (fun depth => some (Address.mk depth slot)) (Inset.hops_zero k.inner_ne).symm
    | none =>
      dsimp only
      rw [ih, Option.map_map, Option.map_map]
      refine congrArg (Option.map · _) (funext fun a => ?_)
      exact congrArg (Address.mk · a.slot) (Inset.hops_inner k a.depth).symm
  | @empty ss count L L' hempty _ ih =>
    have hnames : Place.names ⟨.block ss, count, none⟩ = [] := by
      simp [Place.names, Site.names, hempty]
    unfold Site.enter
    rw [Lexical.lookup, hnames, ih, map_skip_outside]
    rfl

/-- The empty scope is a block. -/
theorem Widens.block {scopes : Nat} (h : Widens (.inside scopes) L L') :
    ∃ ss, (L.map Place.site)[scopes]? = some (.block ss) := by
  generalize hk : Inset.inside scopes = k at h
  induction h generalizing scopes with
  | nil => cases hk
  | @cons k p p' L L' _ _ ih =>
    cases k with
    | outside => cases hk
    | inside further =>
      cases hk
      exact ih rfl
  | @empty ss =>
    cases hk
    exact ⟨ss, rfl⟩

/-- In proper places the empty scope is not between a `super` and its `this`. -/
theorem Widens.ne_super (h : Widens k L L') (hL : L.Proper) {a : Address}
    (ha : L'.lookup "super" = some a) : k ≠ .inside a.depth := by
  rintro rfl
  have hlookup : L.lookup "super" = some ⟨a.depth + 1, a.slot⟩ := by
    rw [h.lookup, ha]
    simp [Inset.skip, Inset.hops]
  obtain ⟨p, hp, hname, -⟩ := (lookup_eq_some_iff.mp hlookup).declared
  have hsite : (L.map Place.site)[a.depth + 1]? = some p.site := by
    rw [List.getElem?_map, hp]
    rfl
  have hnames := (Place.getElem?_names hname).1
  obtain ⟨ms, hsuper⟩ := Site.eq_super hnames (hL.ordinary p.site (List.mem_of_getElem? hsite))
  rw [hsuper] at hsite
  obtain ⟨j, f, hj, hthis⟩ := hL.enclosed _ ms hsite
  obtain ⟨ss, hblock⟩ := h.block
  obtain rfl : a.depth = j := Nat.succ.inj hj
  rw [hblock] at hthis
  cases hthis

end Lexical

variable {K : Link}

theorem Stmt.Twin.declared? {s s' : Stmt} (h : s.Twin K s') :
    s.declared?.map Token.lexeme = s'.declared?.map Token.lexeme := by
  cases h with
  | var ht | initialized ht _ | «class» ht _ | subclass ht _ _ => exact congrArg some ht.lexeme
  | function hm =>
    cases hm with
    | mk ht _ => exact congrArg some ht.lexeme
  | _ => rfl

theorem TwinStatements.declaredNames {ss ss' : List Stmt} (h : TwinStatements K ss ss') :
    declaredNames ss = declaredNames ss' := by
  induction ss generalizing ss' with
  | nil =>
    cases h
    rfl
  | cons s ss ih =>
    cases h with
    | @cons _ s' _ ss' hs hss =>
      have hdeclared := hs.declared?
      unfold Lox.declaredNames at ih ⊢
      rw [List.filterMap_cons, List.filterMap_cons, ih hss, hdeclared]

theorem Lexical.Widens.after {k : Inset} {L L' : Lexical} (h : Widens k L L') (hk : k ≠ .inside 0)
    {s s' : Stmt} (hs : s.Twin K s') : Widens k (L.after s) (L'.after s') := by
  have hdeclared := hs.declared?
  unfold Lexical.after
  cases ht : s.declared? <;> cases ht' : s'.declared? <;> rw [ht, ht'] at hdeclared
  · exact h
  · cases hdeclared
  · cases hdeclared
  · exact h.declare hk

namespace Lexical

variable {k : Inset} {L L' : Lexical}

theorem Widens.enterBlock (h : Widens k L L') {ss ss' : List Stmt}
    (hss : TwinStatements K ss ss') (count : Nat) :
    Widens k.inner ((Site.block ss).enter count L) ((Site.block ss').enter count L') :=
  h.enter (.block ss) (.block ss') hss.declaredNames count

theorem Widens.enterFunction (h : Widens k L L') (params : List Token) {body body' : List Stmt}
    (hbody : TwinStatements K body body') (count : Nat) :
    Widens k.inner ((Site.function ⟨params, body⟩).enter count L)
      ((Site.function ⟨params, body'⟩).enter count L') :=
  h.enter (.function ⟨params, body⟩) (.function ⟨params, body'⟩)
    (congrArg (params.map Token.lexeme ++ ·) hbody.declaredNames) count

theorem Widens.enterSuper (h : Widens k L L') (ms ms' : List Method) :
    Widens k.inner ((Site.super ms).enter 1 L) ((Site.super ms').enter 1 L') :=
  h.enter (.super ms) (.super ms') rfl 1

theorem Widens.enterThis (h : Widens k L L') (f f' : Function) :
    Widens k.inner ((Site.this f).enter 1 L) ((Site.this f').enter 1 L') :=
  h.enter (.this f) (.this f') rfl 1

end Lexical

/-- For these nodes it is noted what they are bound to. -/
def Noted (B : Std.TreeMap Nat Address) (nodes : List Node) : Prop :=
  ∀ node ∈ nodes, B[node.id]? = node.address?

section

variable {A : Tables} {k : Inset} {L L' : Lexical} {nodes nodes' : List Node}

theorem noted_append {B : Std.TreeMap Nat Address} :
    Noted B (nodes ++ nodes') ↔ Noted B nodes ∧ Noted B nodes' :=
  List.forall_mem_append

theorem noted_singleton {B : Std.TreeMap Nat Address} {node : Node} :
    Noted B [node] ↔ B[node.id]? = node.address? :=
  List.forall_mem_singleton

theorem Lexical.Widens.shifts (h : Widens k L L') {role : Role} {i i' : Nat} {t : Token}
    (hi : Noted A.left [⟨role, i, t, L⟩]) (hi' : Noted A.right [⟨role, i', t, L'⟩]) :
    Shifts A k i i' := by
  have hleft := noted_singleton.mp hi
  have hright := noted_singleton.mp hi'
  unfold Shifts
  rw [hleft, hright]
  exact h.lookup t.lexeme

theorem Lexical.Widens.shiftsSuper (h : Widens k L L') (hL : L.Proper) {i i' : Nat} {t : Token}
    (ht : t.lexeme = "super") (hi : Noted A.left [⟨.super, i, t, L⟩])
    (hi' : Noted A.right [⟨.super, i', t, L'⟩]) : ShiftsSuper A k i i' := by
  refine ⟨h.shifts hi hi', fun a ha => h.ne_super hL ?_⟩
  rw [← ht]
  exact (noted_singleton.mp hi').symm.trans ha

end

theorem formed_of_variable {e : Expr} (h : ∃ id t, e = .variable id t ∧ t.Ordinary) : e.Formed := by
  obtain ⟨id, t, rfl, ht⟩ := h
  exact ht

open Lexical

mutual

theorem Expr.Twin.moved {A : Tables} {k : Inset} {L L' : Lexical} {e e' : Expr} :
    e.Twin .anyNodes e' → Widens k L L' → L.Proper → e.Formed → Noted A.left (e.nodes L) →
    Noted A.right (e'.nodes L') → e.Moved A k e'
  | .literal value, _, _, _, _, _ => .literal value
  | .grouping h, hw, hL, hf, hn, hn' => .grouping (h.moved hw hL hf hn hn')
  | .unary ht h, hw, hL, hf, hn, hn' => by
    obtain rfl := ht.eq
    exact .unary _ (h.moved hw hL hf hn hn')
  | .binary h₁ ht h₂, hw, hL, hf, hn, hn' => by
    obtain rfl := ht.eq
    obtain ⟨hn₁, hn₂⟩ := noted_append.mp hn
    obtain ⟨hn₁', hn₂'⟩ := noted_append.mp hn'
    exact .binary _ (h₁.moved hw hL hf.1 hn₁ hn₁') (h₂.moved hw hL hf.2 hn₂ hn₂')
  | .logical h₁ ht h₂, hw, hL, hf, hn, hn' => by
    obtain rfl := ht.eq
    obtain ⟨hn₁, hn₂⟩ := noted_append.mp hn
    obtain ⟨hn₁', hn₂'⟩ := noted_append.mp hn'
    exact .logical _ (h₁.moved hw hL hf.1 hn₁ hn₁') (h₂.moved hw hL hf.2 hn₂ hn₂')
  | .variable _ ht, hw, _, _, hn, hn' => by
    obtain rfl := ht.eq
    exact .variable _ (hw.shifts hn hn')
  | .assign _ ht h, hw, hL, hf, hn, hn' => by
    obtain rfl := ht.eq
    obtain ⟨hn₁, hn₂⟩ := noted_append.mp hn
    obtain ⟨hn₁', hn₂'⟩ := noted_append.mp hn'
    exact .assign _ (hw.shifts hn₂ hn₂') (h.moved hw hL hf.2 hn₁ hn₁')
  | .call h ht hs, hw, hL, hf, hn, hn' => by
    obtain rfl := ht.eq
    obtain ⟨hn₁, hn₂⟩ := noted_append.mp hn
    obtain ⟨hn₁', hn₂'⟩ := noted_append.mp hn'
    exact .call _ (h.moved hw hL hf.1 hn₁ hn₁') (hs.moved hw hL hf.2 hn₂ hn₂')
  | .get h ht, hw, hL, hf, hn, hn' => by
    obtain rfl := ht.eq
    exact .get _ (h.moved hw hL hf hn hn')
  | .set h₁ ht h₂, hw, hL, hf, hn, hn' => by
    obtain rfl := ht.eq
    obtain ⟨hn₂, hn₁⟩ := noted_append.mp hn
    obtain ⟨hn₂', hn₁'⟩ := noted_append.mp hn'
    exact .set _ (h₁.moved hw hL hf.1 hn₁ hn₁') (h₂.moved hw hL hf.2 hn₂ hn₂')
  | .this _ ht, hw, _, _, hn, hn' => by
    obtain rfl := ht.eq
    exact .this _ (hw.shifts hn hn')
  | .super _ ht hu, hw, hL, hf, hn, hn' => by
    obtain rfl := ht.eq
    obtain rfl := hu.eq
    exact .super _ _ (hw.shiftsSuper hL hf hn hn')
  | .function h, hw, hL, hf, hn, hn' => .function (h.moved hw hL hf hn hn')
termination_by structural h => h

theorem TwinAll.moved {A : Tables} {k : Inset} {L L' : Lexical}
    {es es' : List Expr} : TwinAll .anyNodes es es' → Widens k L L' → L.Proper → FormedAll es →
    Noted A.left (nodesOfAll L es) → Noted A.right (nodesOfAll L' es') → MovedAll A k es es'
  | .nil, _, _, _, _, _ => .nil k
  | .cons h hs, hw, hL, hf, hn, hn' => by
    obtain ⟨hn₁, hn₂⟩ := noted_append.mp hn
    obtain ⟨hn₁', hn₂'⟩ := noted_append.mp hn'
    exact .cons (h.moved hw hL hf.1 hn₁ hn₁') (hs.moved hw hL hf.2 hn₂ hn₂')
termination_by structural h => h

theorem Function.Twin.moved {A : Tables} {k : Inset} {L L' : Lexical}
    {f f' : Function} : f.Twin .anyNodes f' → Widens k L L' → L.Proper → f.Formed →
    Noted A.left (f.nodes L) → Noted A.right (f'.nodes L') → f.Moved A k f'
  | .mk hparams h, hw, hL, hf, hn, hn' => by
    obtain rfl := eq_of_forall₂_twin hparams
    exact .mk _ (h.moved (hw.enterFunction _ h _) k.inner_ne
      (hL.enter (Function.Formed.ordinary hf) nofun _) hf.2 hn hn')
termination_by structural h => h

theorem Stmt.Twin.moved {A : Tables} {k : Inset} {L L' : Lexical} {loop : Bool}
    {s s' : Stmt} : s.Twin .anyNodes s' → Widens k L L' → (s.declared? ≠ none → k ≠ .inside 0) →
    L.Proper → s.Formed loop → Noted A.left (s.nodes L) → Noted A.right (s'.nodes L') →
    s.Moved A k s'
  | .expression h, hw, _, hL, hf, hn, hn' => .expression (h.moved hw hL hf hn hn')
  | .print h, hw, _, hL, hf, hn, hn' => .print (h.moved hw hL hf hn hn')
  | .var ht, _, hk, _, _, _, _ => by
    obtain rfl := ht.eq
    exact .var _ (hk nofun)
  | .initialized ht h, hw, hk, hL, hf, hn, hn' => by
    obtain rfl := ht.eq
    exact .initialized _ (hk nofun)
      (h.moved (hw.await (hk nofun) _ _ _) (hL.await _ _) hf.2 hn hn')
  | .block h, hw, _, hL, hf, hn, hn' =>
    have hproper := hL.enter (ordinary_block hf) nofun 0
    .block (h.moved (hw.enterBlock h 0) k.inner_ne hproper hf hn hn')
  | .if h hs, hw, _, hL, hf, hn, hn' => by
    obtain ⟨hn₁, hn₂⟩ := noted_append.mp hn
    obtain ⟨hn₁', hn₂'⟩ := noted_append.mp hn'
    exact .if (h.moved hw hL hf.1 hn₁ hn₁')
      (hs.moved hw (fun hne => absurd hf.2.2 hne) hL hf.2.1 hn₂ hn₂')
  | .ifElse h hs₁ hs₂, hw, _, hL, hf, hn, hn' => by
    obtain ⟨hn₁, hn⟩ := noted_append.mp hn
    obtain ⟨hn₁', hn'⟩ := noted_append.mp hn'
    obtain ⟨hn₂, hn₃⟩ := noted_append.mp hn
    obtain ⟨hn₂', hn₃'⟩ := noted_append.mp hn'
    exact .ifElse (h.moved hw hL hf.1 hn₁ hn₁')
      (hs₁.moved hw (fun hne => absurd hf.2.1.2 hne) hL hf.2.1.1 hn₂ hn₂')
      (hs₂.moved hw (fun hne => absurd hf.2.2.2 hne) hL hf.2.2.1 hn₃ hn₃')
  | .while h hs, hw, _, hL, hf, hn, hn' => by
    obtain ⟨hn₁, hn₂⟩ := noted_append.mp hn
    obtain ⟨hn₁', hn₂'⟩ := noted_append.mp hn'
    exact .while (h.moved hw hL hf.1 hn₁ hn₁')
      (hs.moved hw (fun hne => absurd hf.2.2 hne) hL hf.2.1 hn₂ hn₂')
  | .break ht, _, _, _, _, _, _ => by
    obtain rfl := ht.eq
    exact .break k _
  | .return ht, _, _, _, _, _, _ => by
    obtain rfl := ht.eq
    exact .return k _
  | .returned ht h, hw, _, hL, hf, hn, hn' => by
    obtain rfl := ht.eq
    exact .returned _ (h.moved hw hL hf hn hn')
  | .function (.mk ht h), hw, hk, hL, hf, hn, hn' => by
    obtain rfl := ht.eq
    exact .function _ (hk nofun) (h.moved (hw.declare (hk nofun)) hL.declare hf.2 hn hn')
  | .class ht hs, hw, hk, hL, hf, hn, hn' => by
    obtain rfl := ht.eq
    have hthis : ∀ f, (Site.this f).Ordinary := fun _ => trivial
    exact .class _ (hk nofun) (hs.moved (hw.declare (hk nofun))
      (fun f => hL.declare.enter (hthis f) nofun 1) hf.2 hn hn')
  | .subclass ht h hs, hw, hk, hL, hf, hn, hn' => by
    obtain rfl := ht.eq
    obtain ⟨hn₁, hn₂⟩ := noted_append.mp hn
    obtain ⟨hn₁', hn₂'⟩ := noted_append.mp hn'
    have he := formed_of_variable hf.2.1
    exact .subclass _ (hk nofun) (h.moved hw hL he hn₁ hn₁')
      (hs.moved ((hw.declare (hk nofun)).enterSuper _ _) (fun f => hL.declare.subclass f _)
        hf.2.2 hn₂ hn₂')
termination_by structural h => h

theorem TwinStatements.moved {A : Tables} {k : Inset} {L L' : Lexical}
    {loop : Bool} {ss ss' : List Stmt} : TwinStatements .anyNodes ss ss' → Widens k L L' →
    k ≠ .inside 0 → L.Proper → FormedStatements loop ss → Noted A.left (nodesOfStatements L ss) →
    Noted A.right (nodesOfStatements L' ss') → MovedStatements A k ss ss'
  | .nil, _, _, _, _, _, _ => .nil k
  | .cons h hs, hw, hk, hL, hf, hn, hn' => by
    obtain ⟨hn₁, hn₂⟩ := noted_append.mp hn
    obtain ⟨hn₁', hn₂'⟩ := noted_append.mp hn'
    exact .cons (h.moved hw (fun _ => hk) hL hf.1 hn₁ hn₁')
      (hs.moved (hw.after hk h) hk (hL.after _) hf.2 hn₂ hn₂')
termination_by structural h => h

theorem TwinMethods.moved {A : Tables} {k : Inset} {L L' : Lexical}
    {ms ms' : List Method} : TwinMethods .anyNodes ms ms' → Widens k L L' →
    (∀ f, ((Site.this f).enter 1 L).Proper) → FormedMethods ms →
    Noted A.left (nodesOfMethods L ms) → Noted A.right (nodesOfMethods L' ms') →
    MovedMethods A k.inner ms ms'
  | .nil, _, _, _, _, _ => .nil _
  | .cons (.mk ht h) hs, hw, hL, hf, hn, hn' => by
    obtain rfl := ht.eq
    obtain ⟨hn₁, hn₂⟩ := noted_append.mp hn
    obtain ⟨hn₁', hn₂'⟩ := noted_append.mp hn'
    exact .cons _ (h.moved (hw.enterThis _ _) (hL _) hf.1 hn₁ hn₁') (hs.moved hw hL hf.2 hn₂ hn₂')
termination_by structural h => h

end

end Lox
