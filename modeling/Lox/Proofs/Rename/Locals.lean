import Lox.Proofs.Rename.Tree

namespace Lox

/-- A variable or a parameter that is declared inside of a block or a function: the way to its
scope, and its place there. -/
structure Local where
  path : List Nat
  slot : Nat
  name : Token

/-- From the root of the tree. -/
def Local.aim (l : Local) : Aim := .ahead l.path l.slot

def Local.under (i : Nat) (l : Local) : Local := { l with path := i :: l.path }

/-- What a statement declares in the scope that it stands in. A function and a class take a place,
but are no variables. -/
def Stmt.declares : Stmt → List (Option Token)
  | .var name _ => [some name]
  | .function _ => [none]
  | .class _ _ _ => [none]
  | _ => []

/-- The variables among the places of a scope, from some place on. -/
def ownLocals : Nat → List (Option Token) → List Local
  | _, [] => []
  | slot, none :: places => ownLocals (slot + 1) places
  | slot, some name :: places => ⟨[], slot, name⟩ :: ownLocals (slot + 1) places

mutual

def Expr.locals : Expr → List Local
  | .literal _ | .variable _ _ | .this _ _ | .super _ _ _ => []
  | .grouping e | .unary _ e | .assign _ _ e | .get e _ => e.locals.map (.under 0)
  | .binary e _ e' | .logical e _ e' | .set e _ e' =>
    e.locals.map (.under 0) ++ e'.locals.map (.under 1)
  | .call e _ es => e.locals.map (.under 0) ++ (localsOfAll es).map (.under 1)
  | .function f => f.locals.map (.under 0)

def localsOfAll : List Expr → List Local
  | [] => []
  | e :: es => e.locals.map (.under 0) ++ (localsOfAll es).map (.under 1)

def Function.locals : Function → List Local
  | ⟨params, body⟩ =>
    ownLocals 0 (params.map some ++ body.flatMap Stmt.declares) ++ localsOfStatements body

def Stmt.locals : Stmt → List Local
  | .expression e | .print e | .var _ (some e) | .return _ (some e) => e.locals.map (.under 0)
  | .var _ none | .break _ | .return _ none => []
  | .block ss => ownLocals 0 (ss.flatMap Stmt.declares) ++ localsOfStatements ss
  | .ifElse e s none => e.locals.map (.under 0) ++ s.locals.map (.under 1)
  | .ifElse e s (some s') =>
    e.locals.map (.under 0) ++ s.locals.map (.under 1) ++ s'.locals.map (.under 2)
  | .while e s => e.locals.map (.under 0) ++ s.locals.map (.under 1)
  | .function ⟨_, f⟩ => f.locals.map (.under 0)
  | .class _ none ms => (localsOfMethods ms).map (.under 0)
  | .class _ (some e) ms => e.locals.map (.under 0) ++ (localsOfMethods ms).map (.under 1)

def localsOfStatements : List Stmt → List Local
  | [] => []
  | s :: ss => s.locals.map (.under 0) ++ (localsOfStatements ss).map (.under 1)

def localsOfMethods : List Method → List Local
  | [] => []
  | ⟨_, f⟩ :: ms => f.locals.map (.under 0) ++ (localsOfMethods ms).map (.under 1)

end

namespace Aim

/-- Is the local the one that is aimed at? -/
def hits : Aim → Local → Bool
  | .ahead path slot, l => l.path = path && l.slot = slot
  | _, _ => false

variable (aim : Aim)

@[simp] theorem hits_skip : aim.skip.hits = aim.hits := by
  cases aim with
  | coming passed left => cases left <;> rfl
  | _ => rfl

@[simp] theorem hits_pass : aim.pass.hits = aim.hits := by cases aim <;> rfl

theorem hits_under (i : Nat) (l : Local) : aim.hits (l.under i) = (aim.child i).hits l := by
  cases aim with
  | ahead path slot =>
    cases path with
    | nil => rfl
    | cons j path =>
      rw [child_ahead]
      by_cases h : i = j
      · simp [hits, Local.under, h]
      · simp [hits, Local.under, h]
  | _ => rfl

end Aim

namespace Renaming

variable (R : Renaming) (aim : Aim)

/-- The local with its new name, if it is the one that is aimed at. -/
def renamed (l : Local) : Local := if aim.hits l then { l with name := R.respell l.name } else l

@[simp] theorem hits_past (t : Token) : (R.past t aim).hits = aim.hits := by
  cases aim with
  | coming passed left =>
    cases left with
    | zero => rw [past_coming]; split <;> rfl
    | succ left => rfl
  | _ => rfl

@[simp] theorem hits_after (s : Stmt) : (R.after s aim).hits = aim.hits := by
  cases s <;> simp [after]

@[simp] theorem hits_pastAll (ts : List Token) : (R.pastAll ts aim).hits = aim.hits := by
  induction ts generalizing aim with
  | nil => rfl
  | cons t ts ih => exact (ih _).trans (R.hits_past aim t)

theorem renamed_congr {aim aim' : Aim} (h : aim.hits = aim'.hits) :
    R.renamed aim = R.renamed aim' := by
  funext l
  rw [renamed, renamed, h]

theorem renamed_child_congr {aim aim' : Aim} (h : aim.hits = aim'.hits) (i : Nat) :
    R.renamed (aim.child i) = R.renamed (aim'.child i) := by
  refine R.renamed_congr (funext fun l => ?_)
  rw [← Aim.hits_under, ← Aim.hits_under, h]

theorem renamed_under (i : Nat) (l : Local) :
    R.renamed aim (l.under i) = (R.renamed (aim.child i) l).under i := by
  rw [renamed, renamed, aim.hits_under]
  split <;> rfl

theorem map_renamed_under (i : Nat) (ls : List Local) :
    (ls.map (.under i)).map (R.renamed aim) = (ls.map (R.renamed (aim.child i))).map (.under i) := by
  rw [List.map_map, List.map_map]
  exact List.map_congr_left fun l _ => R.renamed_under aim i l

end Renaming

namespace Aim

/-- How many declarations of the scope at hand are still to come before the one that is aimed at. -/
def left? : Aim → Option Nat
  | .coming _ left => some left
  | _ => none

@[simp] theorem left?_child (aim : Aim) (i : Nat) : (aim.child i).left? = aim.left? := by
  cases aim with
  | ahead path slot =>
    cases path with
    | nil => rfl
    | cons j path => rw [child_ahead]; split <;> rfl
  | _ => rfl

end Aim

namespace Renaming

variable (R : Renaming)

/-- The places of a scope, one of them with the new name. -/
def respellAt : Option Nat → List (Option Token) → List (Option Token)
  | some left, places => places.modify left (Option.map R.respell)
  | none, places => places

theorem respellAt_skip (aim : Aim) (places : List (Option Token)) :
    none :: R.respellAt aim.skip.left? places = R.respellAt aim.left? (none :: places) := by
  cases aim with
  | coming passed left => cases left <;> rfl
  | _ => rfl

theorem respellAt_past (t : Token) (aim : Aim) (places : List (Option Token)) :
    some (R.declared t aim) :: R.respellAt (R.past t aim).left? places =
      R.respellAt aim.left? (some t :: places) := by
  cases aim with
  | coming passed left =>
    cases left with
    | zero => rw [past_coming]; split <;> rfl
    | succ left => rfl
  | _ => rfl

theorem respellAt_params (ts : List Token) (aim : Aim) (places : List (Option Token)) :
    (R.params ts aim).map some ++ R.respellAt (R.pastAll ts aim).left? places =
      R.respellAt aim.left? (ts.map some ++ places) := by
  induction ts generalizing aim with
  | nil => rfl
  | cons t ts ih =>
    rw [List.map_cons, List.cons_append, ← R.respellAt_past, ← ih]
    rfl

theorem declared_child (t : Token) (aim : Aim) (i : Nat) :
    R.declared t (aim.child i) = R.declared t aim := by
  cases aim with
  | ahead path slot =>
    cases path with
    | nil => rfl
    | cons j path => rw [Aim.child_ahead]; split <;> rfl
  | _ => rfl

theorem declares_rename (s : Stmt) (aim : Aim) (places : List (Option Token)) :
    (s.rename R (aim.child 0)).declares ++ R.respellAt (R.after s (aim.child 1)).left? places =
      R.respellAt aim.left? (s.declares ++ places) := by
  have hother : R.respellAt (aim.child 1).left? places = R.respellAt aim.left? places := by
    rw [Aim.left?_child]
  have hskip : none :: R.respellAt (aim.child 1).skip.left? places =
      R.respellAt aim.left? (none :: places) := by
    rw [R.respellAt_skip, Aim.left?_child]
  cases s with
  | var t value =>
    have hpast : some (R.declared t (aim.child 0)) ::
        R.respellAt (R.past t (aim.child 1)).left? places =
          R.respellAt aim.left? (some t :: places) := by
      rw [R.declared_child, ← R.declared_child t aim 1, R.respellAt_past, Aim.left?_child]
    cases value <;> exact hpast
  | function d =>
    obtain ⟨t, f⟩ := d
    exact hskip
  | «class» t superclass ms => cases superclass <;> exact hskip
  | ifElse condition thenBranch elseBranch => cases elseBranch <;> exact hother
  | «return» t value => cases value <;> exact hother
  | _ => exact hother

/-- Of the places of the scope at hand one has the new name, if it is still to come. -/
theorem declares_renameStatements (ss : List Stmt) (aim : Aim) :
    (renameStatements R aim ss).flatMap Stmt.declares =
      R.respellAt aim.left? (ss.flatMap Stmt.declares) := by
  induction ss generalizing aim with
  | nil => cases aim <;> simp [renameStatements, respellAt, Aim.left?]
  | cons s ss ih =>
    rw [renameStatements, List.flatMap_cons, List.flatMap_cons, ih]
    exact R.declares_rename s aim _

theorem mem_ownLocals {slot : Nat} {places : List (Option Token)} {l : Local}
    (h : l ∈ ownLocals slot places) : l.path = [] ∧ slot ≤ l.slot := by
  induction places generalizing slot with
  | nil => cases h
  | cons name? places ih =>
    cases name? with
    | none => exact (ih h).imp id Nat.le_of_succ_le
    | some name =>
      rcases List.mem_cons.mp h with rfl | h
      · exact ⟨rfl, Nat.le_refl _⟩
      · exact (ih h).imp id Nat.le_of_succ_le

theorem map_renamed_of_hits {aim : Aim} {ls : List Local} (h : ∀ l ∈ ls, aim.hits l = false) :
    ls.map (R.renamed aim) = ls := by
  refine (List.map_congr_left fun l hl => ?_).trans (List.map_id ls)
  rw [renamed, h l hl]
  rfl

theorem ownLocals_modify (slot left : Nat) (places : List (Option Token)) :
    ownLocals slot (places.modify left (Option.map R.respell)) =
      (ownLocals slot places).map (R.renamed (.ahead [] (slot + left))) := by
  induction places generalizing slot left with
  | nil =>
    rw [List.modify_nil]
    rfl
  | cons name? places ih =>
    cases left with
    | zero =>
      rw [Nat.add_zero]
      have hlater : (ownLocals (slot + 1) places).map (R.renamed (.ahead [] slot)) =
          ownLocals (slot + 1) places := by
        refine R.map_renamed_of_hits fun l hl => ?_
        have hslot := (mem_ownLocals hl).2
        have hne : l.slot ≠ slot := by omega
        simp [Aim.hits, hne]
      cases name? with
      | none => exact hlater.symm
      | some name =>
        have hfirst : R.renamed (.ahead [] slot) ⟨[], slot, name⟩ = ⟨[], slot, R.respell name⟩ := by
          simp [renamed, Aim.hits]
        show ⟨[], slot, R.respell name⟩ :: ownLocals (slot + 1) places =
          R.renamed (.ahead [] slot) ⟨[], slot, name⟩ :: (ownLocals (slot + 1) places).map _
        rw [hfirst, hlater]
    | succ left =>
      have hrest := ih (slot + 1) left
      rw [Nat.add_assoc, Nat.add_comm 1 left] at hrest
      cases name? with
      | none => exact hrest
      | some name =>
        have hfirst : R.renamed (.ahead [] (slot + (left + 1))) ⟨[], slot, name⟩ =
            ⟨[], slot, name⟩ := by
          simp [renamed, Aim.hits]
        show ⟨[], slot, name⟩ :: ownLocals (slot + 1) (places.modify left _) =
          R.renamed (.ahead [] (slot + (left + 1))) ⟨[], slot, name⟩ ::
            (ownLocals (slot + 1) places).map _
        rw [hfirst, hrest]

theorem ownLocals_respellAt (aim : Aim) (places : List (Option Token)) :
    ownLocals 0 (R.respellAt aim.enter.left? places) =
      (ownLocals 0 places).map (R.renamed aim) := by
  have hmiss (h : ∀ l : Local, l.path = [] → aim.hits l = false) :
      ownLocals 0 places = (ownLocals 0 places).map (R.renamed aim) :=
    (R.map_renamed_of_hits fun l hl => h l (mem_ownLocals hl).1).symm
  cases aim with
  | ahead path slot =>
    cases path with
    | nil =>
      have hown := R.ownLocals_modify 0 slot places
      rwa [Nat.zero_add] at hown
    | cons i path => exact hmiss fun l hl => by simp [Aim.hits, hl]
  | _ => exact hmiss fun _ _ => rfl

/-- What is farther in is aimed at from inside of a scope as it is from around it. -/
theorem map_renamed_enter {aim : Aim} {ls : List Local} (h : ∀ l ∈ ls, l.path ≠ []) :
    ls.map (R.renamed aim.enter) = ls.map (R.renamed aim) := by
  refine List.map_congr_left fun l hl => ?_
  cases aim with
  | ahead path slot =>
    cases path with
    | nil => simp [renamed, Aim.enter, Aim.hits, h l hl]
    | cons i path => rfl
  | _ => rfl

end Renaming

theorem path_ne_nil_of_mem_localsOfStatements {ss : List Stmt} {l : Local}
    (h : l ∈ localsOfStatements ss) : l.path ≠ [] := by
  cases ss with
  | nil => simp [localsOfStatements] at h
  | cons s ss =>
    rw [localsOfStatements, List.mem_append] at h
    rcases h with h | h
    · obtain ⟨k, -, rfl⟩ := List.mem_map.mp h
      simp [Local.under]
    · obtain ⟨k, -, rfl⟩ := List.mem_map.mp h
      simp [Local.under]

section Trees

variable (R : Renaming)

open Renaming

/-- From inside of a scope with these places. -/
theorem locals_scope {aim : Aim} (ts : List Token) (ss : List Stmt)
    (h : localsOfStatements (renameStatements R (R.pastAll ts aim.enter) ss) =
      (localsOfStatements ss).map (R.renamed (R.pastAll ts aim.enter))) :
    ownLocals 0 ((R.params ts aim.enter).map some ++
        (renameStatements R (R.pastAll ts aim.enter) ss).flatMap Stmt.declares) ++
      localsOfStatements (renameStatements R (R.pastAll ts aim.enter) ss) =
    (ownLocals 0 (ts.map some ++ ss.flatMap Stmt.declares) ++ localsOfStatements ss).map
      (R.renamed aim) := by
  rw [h, R.renamed_congr (R.hits_pastAll _ ts),
    R.map_renamed_enter fun l => path_ne_nil_of_mem_localsOfStatements,
    R.declares_renameStatements, R.respellAt_params, R.ownLocals_respellAt, List.map_append]

mutual

theorem Expr.locals_rename (aim : Aim) : (e : Expr) →
    (e.rename R aim).locals = e.locals.map (R.renamed aim)
  | .literal _ | .variable _ _ | .this _ _ | .super _ _ _ => rfl
  | .grouping e | .unary _ e | .assign _ _ e | .get e _ => by
    simp only [Expr.rename, Expr.locals, e.locals_rename, map_renamed_under]
  | .binary e _ e' | .logical e _ e' | .set e _ e' => by
    simp only [Expr.rename, Expr.locals, e.locals_rename, e'.locals_rename, List.map_append,
      map_renamed_under]
  | .call e _ es => by
    simp only [Expr.rename, Expr.locals, e.locals_rename, localsOfAll_rename, List.map_append,
      map_renamed_under]
  | .function f => by
    simp only [Expr.rename, Expr.locals, f.locals_rename, map_renamed_under]

theorem localsOfAll_rename (aim : Aim) : (es : List Expr) →
    localsOfAll (renameAll R aim es) = (localsOfAll es).map (R.renamed aim)
  | [] => rfl
  | e :: es => by
    simp only [renameAll, localsOfAll, e.locals_rename, localsOfAll_rename, List.map_append,
      map_renamed_under]

theorem Function.locals_rename (aim : Aim) : (f : Function) →
    (f.rename R aim).locals = f.locals.map (R.renamed aim)
  | ⟨params, body⟩ => locals_scope R params body (localsOfStatements_rename _ body)

theorem Stmt.locals_rename (aim : Aim) : (s : Stmt) →
    (s.rename R aim).locals = s.locals.map (R.renamed aim)
  | .expression e | .print e | .return _ (some e) => by
    simp only [Stmt.rename, Stmt.locals, e.locals_rename, map_renamed_under]
  | .var t (some e) => by
    simp only [Stmt.rename, Stmt.locals, e.locals_rename, map_renamed_under,
      R.renamed_child_congr (R.hits_past aim t)]
  | .var _ none | .break _ | .return _ none => rfl
  | .block ss => locals_scope R [] ss (localsOfStatements_rename _ ss)
  | .ifElse e s none | .while e s => by
    simp only [Stmt.rename, Stmt.locals, e.locals_rename, s.locals_rename, List.map_append,
      map_renamed_under]
  | .ifElse e s (some s') => by
    simp only [Stmt.rename, Stmt.locals, e.locals_rename, s.locals_rename, s'.locals_rename,
      List.map_append, map_renamed_under]
  | .function ⟨_, f⟩ => by
    simp only [Stmt.rename, Stmt.locals, f.locals_rename, map_renamed_under,
      R.renamed_child_congr aim.hits_skip]
  | .class _ none ms => by
    have hhits : aim.skip.pass.hits = aim.hits := by simp
    simp only [Stmt.rename, Stmt.locals, localsOfMethods_rename, map_renamed_under,
      R.renamed_child_congr hhits]
  | .class _ (some e) ms => by
    have hhits : aim.skip.pass.pass.hits = aim.hits := by simp
    simp only [Stmt.rename, Stmt.locals, e.locals_rename, localsOfMethods_rename, List.map_append,
      map_renamed_under, R.renamed_child_congr aim.hits_skip, R.renamed_child_congr hhits]

theorem localsOfStatements_rename (aim : Aim) : (ss : List Stmt) →
    localsOfStatements (renameStatements R aim ss) = (localsOfStatements ss).map (R.renamed aim)
  | [] => rfl
  | s :: ss => by
    simp only [renameStatements, localsOfStatements, s.locals_rename, localsOfStatements_rename,
      List.map_append, map_renamed_under, R.renamed_congr (R.hits_after (aim.child 1) s)]

theorem localsOfMethods_rename (aim : Aim) : (ms : List Method) →
    localsOfMethods (renameMethods R aim ms) = (localsOfMethods ms).map (R.renamed aim)
  | [] => rfl
  | ⟨_, f⟩ :: ms => by
    simp only [renameMethods, localsOfMethods, f.locals_rename, localsOfMethods_rename,
      List.map_append, map_renamed_under]

end

end Trees

end Lox
