import Lox.Proofs.Loop.Meaning
import Lox.Proofs.Loop.Scope
import Lox.Proofs.Scope.Table
import Lox.Proofs.Tree.Fresh

namespace Lox.ForLoop

/-- Loops of the same text. -/
structure Twin (K : Link) (l l' : ForLoop) : Prop where
  start : Option.Rel (fun s s' => s.tree.Twin K s'.tree) l.start l'.start
  condition : Option.Rel (Expr.Twin K) l.condition l'.condition
  step : Option.Rel (Expr.Twin K) l.step l'.step
  body : l.body.Twin K l'.body

/-- The nodes of an expression that may be absent. -/
def nodesOf (L : Lexical) : Option Expr → List Node
  | none => []
  | some e => e.nodes L

/-- The scope that the start has to itself. -/
def scope (start : ForStart) (L : Lexical) : Lexical := (Site.block [start.tree]).enter 0 L

/-- Where the clauses behind the start stand: they see what the start declares. -/
def inner (l : ForLoop) (L : Lexical) : Lexical :=
  match l.start with
  | none => L
  | some start => (scope start L).after start.tree

/-- The nodes of the clauses. What the body declares is in none of the other clauses, as there is no
scope that they share with it but the one of the start. -/
def nodes (l : ForLoop) (L : Lexical) : List Node :=
  (match l.start with
    | none => []
    | some start => start.tree.nodes (scope start L)) ++
  (nodesOf (l.inner L) l.condition ++
    (l.body.nodes (l.inner L) ++ nodesOf (l.inner L) l.step))

open Lexical

variable {l l' : ForLoop} {L L' : Lexical} {A : Tables} {loop : Bool}

theorem declaredNames_round (l : ForLoop) (e : Expr) :
    declaredNames [l.body, .expression e] = [] := by
  unfold declaredNames
  rw [List.filterMap_cons_none (by rw [l.undeclaring]; rfl)]
  rfl

/-- The clauses behind the start. -/
theorem Twin.moved_inner (h : l.Twin .anyNodes l') (hw : Widens .outside L L') (hL : L.Proper)
    (hf : (Stmt.while (l.condition.getD (.literal .true)) l.round).Formed loop)
    (hn : Noted A.left ((Stmt.while (l.condition.getD (.literal .true)) l.round).nodes L))
    (hn' : Noted A.right
      (nodesOf L' l'.condition ++ (l'.body.nodes L' ++ nodesOf L' l'.step)))
    (hstart : Option.Rel (fun s s' => s.tree.Moved A .outside s'.tree) l.start l'.start) :
    l.Moved A l' := by
  obtain ⟨hcondition, hround, -⟩ := hf
  obtain ⟨hnc, hnr⟩ := noted_append.mp hn
  obtain ⟨hnc', hnr'⟩ := noted_append.mp hn'
  obtain ⟨hnb', hns'⟩ := noted_append.mp hnr'
  have hmovedCondition : Option.Rel (Expr.Moved A .outside) l.condition l'.condition := by
    have htwin := h.condition
    generalize l.condition = e? at htwin hcondition hnc
    generalize l'.condition = e?' at htwin hnc'
    cases htwin with
    | none => exact .none
    | some he => exact .some (he.moved hw hL hcondition hnc hnc')
  have hstep := h.step
  have hbody : l.body.declared? ≠ none → ∀ k : Inset, k ≠ .inside 0 :=
    fun hne => absurd l.undeclaring hne
  unfold round at hround hnr
  cases he : l.step with
  | none =>
    rw [he] at hstep hround hnr
    refine ⟨hstart, hmovedCondition, ?_, ?_⟩
    · rw [he]
      generalize l'.step = e?' at hstep ⊢
      cases hstep
      exact .none
    · rw [he, if_neg nofun]
      exact h.body.moved hw (hbody · _) hL hround hnr hnb'
  | some e =>
    rw [he] at hstep hround hnr
    obtain ⟨hnb, hns⟩ := noted_append.mp hnr
    rw [after_of_declared?_eq_none l.undeclaring, nodesOfStatements, nodesOfStatements,
      List.append_nil] at hns
    have hin : Widens (.inside 0) ((Site.block [l.body, .expression e]).enter 0 L) L' :=
      .empty (l.declaredNames_round e) hw
    have hproper := hL.enter (ordinary_block hround) nofun 0
    refine ⟨hstart, hmovedCondition, ?_, ?_⟩
    · rw [he]
      generalize l'.step = e?' at hstep hns' ⊢
      cases hstep with
      | some htwin => exact .some (htwin.moved hin hproper hround.2.1 hns hns')
    · rw [he, if_pos Option.isSome_some]
      exact h.body.moved hin (hbody · _) hproper hround.1 hnb hnb'

/-- The tree of a loop has one scope more around its rounds than the clauses, if there is a step. -/
theorem Twin.moved (h : l.Twin .anyNodes l') (hL : L.Proper) (hf : l.tree.Formed loop)
    (hn : Noted A.left (l.tree.nodes L)) (hn' : Noted A.right (l'.nodes L)) : l.Moved A l' := by
  have hstart := h.start
  obtain ⟨hns', hni'⟩ := noted_append.mp hn'
  rw [tree_eq] at hf hn
  cases hs : l.start with
  | none =>
    rw [hs] at hstart hf hn
    have hnone : l'.start = none := by
      generalize l'.start = s?' at hstart
      cases hstart
      rfl
    have hinner : l'.inner L = L := by rw [inner, hnone]
    rw [hinner] at hni'
    refine h.moved_inner (.self L) hL hf hn hni' ?_
    rw [hs, hnone]
    exact .none
  | some start =>
    rw [hs] at hstart hf hn
    obtain ⟨start', hs', htwin⟩ : ∃ start', l'.start = some start' ∧
        start.tree.Twin .anyNodes start'.tree := by
      generalize l'.start = s?' at hstart
      cases hstart with
      | some htwin => exact ⟨_, rfl, htwin⟩
    rw [hs'] at hns'
    obtain ⟨hnstart, hnloop⟩ := noted_append.mp hn
    rw [nodesOfStatements, nodesOfStatements, List.append_nil] at hnloop
    have hnames : declaredNames [start.tree, .while (l.condition.getD (.literal .true)) l.round] =
        declaredNames [start'.tree] :=
      (TwinStatements.cons htwin .nil).declaredNames
    have hwiden := (Widens.self L).enter (.block _) (.block [start'.tree]) hnames 0
    have hproper := hL.enter (ordinary_block hf) nofun 0
    have hinner : l'.inner L = (scope start' L).after start'.tree := by rw [inner, hs']
    rw [hinner] at hni'
    refine h.moved_inner (hwiden.after nofun htwin) (hproper.after _) hf.2.1 hnloop hni' ?_
    rw [hs, hs']
    exact .some (htwin.moved hwiden (fun _ => nofun) hproper hf.1 hnstart hns')

def idsOfStart : Option ForStart → List Nat
  | none => []
  | some start => start.tree.ids

def idsOf : Option Expr → List Nat
  | none => []
  | some e => e.ids

/-- The identities of the nodes. -/
def ids (l : ForLoop) : List Nat :=
  idsOfStart l.start ++ (idsOf l.condition ++ (l.body.ids ++ idsOf l.step))

theorem map_id_nodes (l : ForLoop) (L : Lexical) : (l.nodes L).map Node.id = l.ids := by
  have hclause : ∀ (L : Lexical) (clause : Option Expr), (nodesOf L clause).map Node.id =
      idsOf clause := by
    intro L clause
    cases clause with
    | none => rfl
    | some e => exact e.map_id_nodes L
  unfold nodes ids
  rw [List.map_append, List.map_append, List.map_append, hclause, hclause, l.body.map_id_nodes]
  cases l.start with
  | none => rfl
  | some start => exact congrArg (· ++ _) (start.tree.map_id_nodes _)

theorem renews_start (n : Nat) (start : Option ForStart) :
    Renews (Option.Rel (fun s s' : ForStart => s.tree.Twin .anyNodes s'.tree) start) idsOfStart n :=
  match start with
  | none => .of_nil .none rfl
  | some (.var t none) => .of_nil (a := some (.var t none)) (.some (.var t.twin_self)) rfl
  | some (.var t (some e)) => (e.renews n).map (f := fun e' => some (.var t (some e')))
      (fun _ h => .some (.initialized t.twin_self h)) fun _ => rfl
  | some (.expression e) => (e.renews n).map (f := fun e' => some (.expression e'))
      (fun _ h => .some (.expression h)) fun _ => rfl

theorem renews_clause (n : Nat) (clause : Option Expr) :
    Renews (Option.Rel (Expr.Twin .anyNodes) clause) idsOf n :=
  match clause with
  | none => .of_nil .none rfl
  | some e => (e.renews n).map (f := some) (fun _ => .some) fun _ => rfl

theorem renews (l : ForLoop) (n : Nat) : Renews (l.Twin .anyNodes) ids n := by
  obtain ⟨start, b₁, hstart, hn, hfresh₁⟩ := renews_start n l.start
  obtain ⟨condition, b₂, hcondition, hb₁, hfresh₂⟩ := renews_clause b₁ l.condition
  obtain ⟨body, b₃, hbody, hb₂, hfresh₃⟩ := l.body.renews b₂
  obtain ⟨step, b₄, hstep, hb₃, hfresh₄⟩ := renews_clause b₃ l.step
  have hdeclared : body.declared? = none := by
    have hsame := hbody.declared?
    rw [l.undeclaring] at hsame
    exact Option.map_eq_none_iff.mp hsame.symm
  have hb₁₃ := Nat.le_trans hb₂ hb₃
  have hb₁₄ := Nat.le_trans hb₁ hb₁₃
  exact ⟨⟨start, condition, step, body, hdeclared⟩, b₄, ⟨hstart, hcondition, hstep, hbody⟩,
    Nat.le_trans hn hb₁₄,
    hfresh₁.append (hfresh₂.append (hfresh₃.append hfresh₄ hb₂ hb₃) hb₁ hb₁₃) hn hb₁₄⟩

end Lox.ForLoop
