import Lox.Proofs.Scope.Place
import Lox.Proofs.Scope.Resolver
import Mathlib.Data.List.Forall2

namespace Lox

/-- The scope holds the names that can be seen from a place, and what is pending there is not
ready. -/
def Scope.Fits (s : Scope) (p : Place) : Prop :=
  s.map (·.name) = p.names ∧ ∀ t value, p.pending = some (t, value) → s.isPending t.lexeme

abbrev Scope.FitAll (scopes : List Scope) (L : Lexical) : Prop := List.Forall₂ Scope.Fits scopes L

namespace Scope

variable {s : Scope} {p : Place} {scopes : List Scope} {L : Lexical}

theorem slot?_eq (s : Scope) (name : String) :
    s.slot? name = (s.map (·.name)).findIdx? (· = name) := by
  rw [List.findIdx?_map]
  rfl

theorem slot?_eq_none_iff {name : String} : s.slot? name = none ↔ name ∉ s.map (·.name) := by
  rw [slot?_eq, List.findIdx?_eq_none_iff]
  simp only [decide_eq_false_iff_not]
  exact ⟨fun h hmem => h name hmem rfl, fun h other hmem heq => h (heq ▸ hmem)⟩

theorem Fits.slot? (h : s.Fits p) (name : String) :
    s.slot? name = p.names.findIdx? (· = name) := by
  rw [slot?_eq, h.1]

theorem FitAll.address? (h : FitAll scopes L) (name : String) :
    Scope.address? scopes name = L.lookup name := by
  induction h with
  | nil => rfl
  | @cons _ p _ _ hp _ ih =>
    have hslot := hp.slot? name
    cases hname : p.names.findIdx? (· = name) with
    | none => simp only [Scope.address?, Lexical.lookup, hslot, hname, ih]
    | some slot => simp only [Scope.address?, Lexical.lookup, hslot, hname]

/-- A name is found in the innermost scope that has it. -/
theorem address?_cons_eq_some {outer : List Scope} {name : String} {a : Address} :
    address? (s :: outer) name = some a ↔
      (∃ slot, s.slot? name = some slot ∧ ⟨0, slot⟩ = a) ∨
        s.slot? name = none ∧ ∃ b, address? outer name = some b ∧ b.outward = a := by
  rw [Scope.address?]
  cases s.slot? name <;> simp

theorem map_name_use (s : Scope) (slot : Nat) : (s.use slot).map (·.name) = s.map (·.name) := by
  refine List.ext_getElem? fun i => ?_
  rw [use, List.getElem?_map, List.getElem?_map, List.getElem?_modify]
  cases s[i]? <;> simp
  split <;> rfl

theorem isPending_use (s : Scope) (slot : Nat) (name : String) :
    (s.use slot).isPending name = s.isPending name := by
  induction s generalizing slot with
  | nil => cases slot <;> rfl
  | cons b s ih =>
    cases slot with
    | zero => rfl
    | succ slot =>
      have hs := ih slot
      simp_all [use, isPending]

theorem Fits.use (h : s.Fits p) (slot : Nat) : (s.use slot).Fits p := by
  refine ⟨(map_name_use s slot).trans h.1, fun t value hp => ?_⟩
  rw [isPending_use]
  exact h.2 t value hp

theorem FitAll.useAt (h : FitAll scopes L) (a : Address) : FitAll (Scope.useAt scopes a) L := by
  obtain ⟨depth, slot⟩ := a
  induction h generalizing depth with
  | nil => cases depth <;> exact .nil
  | cons hp hps ih =>
    cases depth with
    | zero => exact .cons (hp.use slot) hps
    | succ depth => exact .cons hp (ih depth)

theorem map_name_define (s : Scope) (name : String) :
    (s.define name).map (·.name) = s.map (·.name) := by
  rw [define, List.map_map]
  refine List.map_congr_left fun b _ => ?_
  simp only [Function.comp_apply]
  split <;> rfl

end Scope

namespace Walk

variable {w w' : Walk} {L L' : Lexical} {ns ns' : List Node}

/-- Nothing has been misused so far. -/
def Clean (w : Walk) : Prop := ∀ d, Finding.misuse d ∉ w.findings.toList

def entries (w : Walk) : List (Nat × Address) := w.findings.toList.filterMap Finding.address?

/-- What has been found stays found. -/
def Keeps (w w' : Walk) : Prop := w.findings.toList <+: w'.findings.toList

theorem Keeps.clean (h : Keeps w w') (hw : w'.Clean) : w.Clean :=
  fun d hd => hw d (h.subset hd)

theorem keeps_refl (w : Walk) : Keeps w w := List.prefix_refl _

theorem Keeps.trans {w'' : Walk} (h : Keeps w w') (h' : Keeps w' w'') : Keeps w w'' :=
  List.IsPrefix.trans h h'

theorem keeps_find (w : Walk) (f : Finding) : Keeps w (w.find f) := by
  rw [Keeps, find, Array.toList_push]
  exact List.prefix_append _ _

theorem keeps_misuse (w : Walk) (line : Nat) (fault : ScopeFault) :
    Keeps w (w.misuse line fault) := keeps_find _ _

theorem not_clean_misuse (w : Walk) (line : Nat) (fault : ScopeFault) :
    ¬(w.misuse line fault).Clean := by
  intro h
  refine h ⟨line, .scope fault⟩ ?_
  simp [misuse, find]

theorem keeps_leave (w : Walk) : Keeps w w.leave := by
  have hfold : ∀ (ds : List Diagnostic) (w : Walk),
      Keeps w (ds.foldl (fun w d => w.find (.unread d)) w) := by
    intro ds
    induction ds with
    | nil => exact keeps_refl
    | cons d ds ih => exact fun w => (keeps_find w _).trans (ih _)
  unfold leave
  split
  · exact keeps_refl w
  next s outer _ => exact hfold s.unread { w with scopes := outer }

/-- No name is declared twice in a scope. -/
theorem slot?_of_clean_declare {w : Walk} {name : Token} (h : (w.declare name).Clean) :
    ∀ s ∈ w.scopes.head?, s.slot? name.lexeme = none := by
  intro s hs
  unfold declare at h
  generalize w.scopes = scopes at hs h
  cases scopes with
  | nil => simp at hs
  | cons s' outer =>
    obtain rfl := Option.some.inj hs
    cases hslot : Scope.slot? s' name.lexeme with
    | none => rfl
    | some slot =>
      simp only [hslot] at h
      exact absurd h (not_clean_misuse _ _ _)

theorem keeps_declare (w : Walk) (name : Token) : Keeps w (w.declare name) := by
  unfold declare
  split
  · exact keeps_refl w
  · split
    · exact keeps_misuse _ _ _
    · exact List.prefix_refl _

theorem keeps_define (w : Walk) (name : Token) : Keeps w (w.define name) := by
  unfold define
  split
  · exact keeps_refl w
  · exact List.prefix_refl _

theorem keeps_introduce (w : Walk) (name : Token) : Keeps w (w.introduce name) :=
  (keeps_declare w name).trans (keeps_define _ name)

theorem keeps_read (w : Walk) (id : Nat) (name : Token) : Keeps w (w.read id name) := by
  unfold read
  split
  · exact keeps_refl w
  next a _ => exact keeps_find { w with scopes := Scope.useAt w.scopes a } _

theorem keeps_readVariable (w : Walk) (id : Nat) (name : Token) :
    Keeps w (w.readVariable id name) := by
  unfold readVariable
  split
  · exact (keeps_misuse _ _ _).trans (keeps_read _ _ _)
  · exact keeps_read _ _ _

theorem keeps_refer (w : Walk) (id : Nat) (name : Token) : Keeps w (w.refer id name) := by
  unfold refer
  split
  · exact keeps_refl w
  · exact keeps_find _ _

theorem keeps_assignVariable (w : Walk) (id : Nat) (name : Token) :
    Keeps w (w.assignVariable id name) := by
  unfold assignVariable
  split
  · exact (keeps_misuse _ _ _).trans (keeps_refer _ _ _)
  · exact keeps_refer _ _ _

theorem keeps_readThis (w : Walk) (c : ClassContext) (id : Nat) (keyword : Token) :
    Keeps w (w.readThis c id keyword) := by
  cases c
  · exact keeps_misuse _ _ _
  all_goals exact keeps_read _ _ _

theorem keeps_readSuper (w : Walk) (c : ClassContext) (id : Nat) (keyword : Token) :
    Keeps w (w.readSuper c id keyword) := by
  cases c
  · exact keeps_misuse _ _ _
  · exact keeps_misuse _ _ _
  · exact keeps_read _ _ _

theorem keeps_leaveFunction (w : Walk) (c : FunctionContext) (keyword : Token) :
    Keeps w (w.leaveFunction c keyword) := by
  unfold leaveFunction
  split
  · exact keeps_misuse _ _ _
  · exact keeps_refl w

theorem keeps_returnValue (w : Walk) (c : FunctionContext) (keyword : Token) :
    Keeps w (w.returnValue c keyword) := by
  unfold returnValue
  split
  · exact keeps_misuse _ _ _
  · exact keeps_refl w

theorem keeps_checkSuperclass (w : Walk) (name : Token) (superclass : Expr) :
    Keeps w (w.checkSuperclass name superclass) := by
  unfold checkSuperclass
  split
  · exact keeps_misuse _ _ _
  · exact keeps_refl w

theorem keeps_introduceAll (params : List Token) (w : Walk) :
    Keeps w (params.foldl introduce w) := by
  induction params generalizing w with
  | nil => exact keeps_refl w
  | cons t ts ih => exact (keeps_introduce w t).trans (ih _)

end Walk

open Walk in
mutual

theorem Expr.walk_keeps (c : Context) (w : Walk) : (e : Expr) → Keeps w (e.walk c w)
  | .literal _ => keeps_refl w
  | .grouping e => e.walk_keeps c w
  | .unary _ e => e.walk_keeps c w
  | .binary e₁ _ e₂ => (e₁.walk_keeps c w).trans (e₂.walk_keeps c _)
  | .logical e₁ _ e₂ => (e₁.walk_keeps c w).trans (e₂.walk_keeps c _)
  | .variable id name => keeps_readVariable w id name
  | .assign id name e => (e.walk_keeps c w).trans (keeps_assignVariable _ id name)
  | .call e _ es => (e.walk_keeps c w).trans (walkArguments_keeps c _ es)
  | .get e _ => e.walk_keeps c w
  | .set e₁ _ e₂ => (e₂.walk_keeps c w).trans (e₁.walk_keeps c _)
  | .this id keyword => keeps_readThis w c.inClass id keyword
  | .super id keyword _ => keeps_readSuper w c.inClass id keyword
  | .function f => f.walk_keeps _ w

theorem walkArguments_keeps (c : Context) (w : Walk) :
    (es : List Expr) → Keeps w (walkArguments c w es)
  | [] => keeps_refl w
  | e :: es => (e.walk_keeps c w).trans (walkArguments_keeps c _ es)

theorem Function.walk_keeps (c : Context) (w : Walk) : (f : Function) → Keeps w (f.walk c w)
  | ⟨params, body⟩ =>
    (keeps_introduceAll params (w.enter [])).trans
      ((walkStatements_keeps c _ body).trans (keeps_leave _))

theorem Stmt.walk_keeps (c : Context) (w : Walk) : (s : Stmt) → Keeps w (s.walk c w)
  | .expression e => e.walk_keeps c w
  | .print e => e.walk_keeps c w
  | .var name none => keeps_introduce w name
  | .var name (some e) =>
    (keeps_declare w name).trans ((e.walk_keeps c _).trans (keeps_define _ name))
  | .block ss => (walkStatements_keeps c (w.enter []) ss).trans (keeps_leave _)
  | .ifElse e s none => (e.walk_keeps c w).trans (s.walk_keeps c _)
  | .ifElse e s (some s') =>
    (e.walk_keeps c w).trans ((s.walk_keeps c _).trans (s'.walk_keeps c _))
  | .while e s => (e.walk_keeps c w).trans (s.walk_keeps c _)
  | .break _ => keeps_refl w
  | .return keyword none => keeps_leaveFunction w c.inFunction keyword
  | .return keyword (some e) =>
    (keeps_leaveFunction w c.inFunction keyword).trans
      ((keeps_returnValue _ c.inFunction keyword).trans (e.walk_keeps c _))
  | .function ⟨name, f⟩ => (keeps_introduce w name).trans (f.walk_keeps _ _)
  | .class name none ms =>
    have hmethods := walkMethods_keeps { c with inClass := .base }
      ((w.introduce name).enter (Scope.implicit "this" name.line)) ms
    (keeps_introduce w name).trans (hmethods.trans (keeps_leave _))
  | .class name (some e) ms =>
    have hsuperclass := (keeps_introduce w name).trans ((keeps_checkSuperclass _ name e).trans
      (e.walk_keeps { c with inClass := .subclass } _))
    have hmethods := walkMethods_keeps { c with inClass := .subclass }
      (((e.walk { c with inClass := .subclass }
        ((w.introduce name).checkSuperclass name e)).enter (Scope.implicit "super" name.line)).enter
          (Scope.implicit "this" name.line)) ms
    hsuperclass.trans (hmethods.trans ((keeps_leave _).trans (keeps_leave _)))

theorem walkStatements_keeps (c : Context) (w : Walk) :
    (ss : List Stmt) → Keeps w (walkStatements c w ss)
  | [] => keeps_refl w
  | s :: ss => (s.walk_keeps c w).trans (walkStatements_keeps c _ ss)

theorem walkMethods_keeps (c : Context) (w : Walk) :
    (ms : List Method) → Keeps w (walkMethods c w ms)
  | [] => keeps_refl w
  | ⟨_, f⟩ :: ms => (f.walk_keeps _ w).trans (walkMethods_keeps c _ ms)

end

section Return

open Walk

variable {c : Context} {w : Walk} {keyword : Token}

theorem Stmt.inFunction_of_clean {value? : Option Expr}
    (h : ((Stmt.return keyword value?).walk c w).Clean) : c.inFunction ≠ .none := by
  intro hnone
  have hleave : (w.leaveFunction c.inFunction keyword).Clean := by
    cases value? with
    | none => exact h
    | some e => exact (keeps_returnValue _ _ _).clean ((e.walk_keeps c _).clean h)
  rw [leaveFunction, if_pos hnone] at hleave
  exact not_clean_misuse _ _ _ hleave

theorem Stmt.not_inInitializer_of_clean {e : Expr}
    (h : ((Stmt.return keyword (some e)).walk c w).Clean) : c.inFunction ≠ .initializer := by
  intro hinit
  have hreturn := (e.walk_keeps c _).clean h
  rw [returnValue, if_pos hinit] at hreturn
  exact not_clean_misuse _ _ _ hreturn

end Return

/-- In a program that is accepted no name is misused, and its addresses are those that are found. -/
theorem clean_of_resolve {lint : Lint} {program : List Stmt} {r : Resolution}
    (h : resolve lint program = .ok r) :
    (walkStatements .top ⟨[], #[]⟩ program).Clean ∧
      r.addresses = (walkStatements .top ⟨[], #[]⟩ program).entries := by
  rw [resolve_eq_verdict, verdict] at h
  split at h
  next herrors =>
    obtain rfl := Except.ok.inj h
    refine ⟨fun d hd => ?_, rfl⟩
    have hmem := List.mem_filterMap.mpr ⟨_, hd, (rfl : Finding.error? lint (.misuse d) = some d)⟩
    rw [herrors] at hmem
    exact absurd hmem (by simp)
  next => simp at h

end Lox
