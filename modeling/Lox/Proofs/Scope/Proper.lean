import Lox.Proofs.Scope.Place

namespace Lox

/-- Does the scope hide neither `this` nor `super`? -/
def Site.Ordinary : Site → Prop
  | this _ => True
  | super _ => True
  | site => ∀ name ∈ site.names, name ≠ "this" ∧ name ≠ "super"

/-- A `super` is around a `this`. -/
structure Lexical.Proper (L : Lexical) : Prop where
  ordinary : ∀ site ∈ L.map Place.site, site.Ordinary
  enclosed : ∀ i ms, (L.map Place.site)[i]? = some (.super ms) →
    ∃ j f, i = j + 1 ∧ (L.map Place.site)[j]? = some (.this f)

/-- The name that a role looks up. -/
def Role.Names (role : Role) (name : Token) : Prop :=
  match role with
  | .read | .write => name.Ordinary
  | .this => name.lexeme = "this"
  | .super => name.lexeme = "super"

/-- Statements that are formed declare neither `this` nor `super`. -/
theorem ordinary_of_formedStatements {loop : Bool} {ss : List Stmt} {name : String}
    (h : FormedStatements loop ss) (hname : name ∈ declaredNames ss) :
    name ≠ "this" ∧ name ≠ "super" := by
  obtain ⟨s, hs, hdeclared⟩ := List.mem_filterMap.mp hname
  obtain ⟨t, ht, rfl⟩ := Option.map_eq_some_iff.mp hdeclared
  exact ((formedStatements_iff loop ss).mp h s hs).ordinary ht

theorem Function.Formed.ordinary {f : Function} (h : f.Formed) : (Site.function f).Ordinary := by
  obtain ⟨params, body⟩ := f
  obtain ⟨hparams, hbody⟩ := h
  intro name hname
  rcases List.mem_append.mp hname with hname | hname
  · obtain ⟨t, ht, rfl⟩ := List.mem_map.mp hname
    exact hparams t ht
  · exact ordinary_of_formedStatements hbody hname

/-- Only the scope of a `this` holds that name. -/
theorem Site.eq_this {site : Site} {slot : Nat} (h : site.names[slot]? = some "this")
    (hsite : site.Ordinary) : ∃ f, site = .this f := by
  have hmem := List.mem_of_getElem? h
  cases site with
  | this f => exact ⟨f, rfl⟩
  | super _ => simp [names] at hmem
  | block _ => exact absurd rfl (hsite _ hmem).1
  | function _ => exact absurd rfl (hsite _ hmem).1

theorem Site.eq_super {site : Site} {slot : Nat} (h : site.names[slot]? = some "super")
    (hsite : site.Ordinary) : ∃ ms, site = .super ms := by
  have hmem := List.mem_of_getElem? h
  cases site with
  | super ms => exact ⟨ms, rfl⟩
  | this _ => simp [names] at hmem
  | block _ => exact absurd rfl (hsite _ hmem).2
  | function _ => exact absurd rfl (hsite _ hmem).2

namespace Lexical

variable {L L' : Lexical}

theorem Proper.of_sites (h : L.Proper) (hs : L'.map Place.site = L.map Place.site) :
    L'.Proper := by
  obtain ⟨hordinary, henclosed⟩ := h
  rw [← hs] at hordinary henclosed
  exact ⟨hordinary, henclosed⟩

theorem Proper.nil : Proper [] := ⟨by simp, by simp⟩

theorem Proper.enter (h : L.Proper) {site : Site} (hs : site.Ordinary)
    (hsuper : ∀ ms, site ≠ .super ms) (count : Nat) : Proper (site.enter count L) := by
  refine ⟨?_, fun i ms hi => ?_⟩
  · rw [Site.enter, List.map_cons, List.forall_mem_cons]
    exact ⟨hs, h.ordinary⟩
  · cases i with
    | zero => exact absurd (Option.some.inj hi) (hsuper ms)
    | succ i =>
      obtain ⟨j, f, rfl, hj⟩ := h.enclosed i ms hi
      exact ⟨j + 1, f, rfl, hj⟩

/-- The scopes around the methods of a subclass. -/
theorem Proper.subclass (h : L.Proper) (f : Function) (ms : List Method) :
    Proper ((Site.this f).enter 1 ((Site.super ms).enter 1 L)) := by
  refine ⟨?_, fun i ms' hi => ?_⟩
  · rw [Site.enter, Site.enter, List.map_cons, List.map_cons, List.forall_mem_cons,
      List.forall_mem_cons]
    exact ⟨trivial, trivial, h.ordinary⟩
  · match i, hi with
    | 0, hi => exact absurd (Option.some.inj hi) (by simp)
    | 1, _ => exact ⟨0, f, rfl, rfl⟩
    | i + 2, hi =>
      obtain ⟨j, g, rfl, hj⟩ := h.enclosed i ms' hi
      exact ⟨j + 2, g, rfl, hj⟩

theorem Proper.declare (h : L.Proper) : L.declare.Proper :=
  h.of_sites (by cases L <;> rfl)

theorem Proper.await (h : L.Proper) (t : Token) (value : Expr) : (L.await t value).Proper :=
  h.of_sites (by cases L <;> rfl)

theorem Proper.after (h : L.Proper) (s : Stmt) : (L.after s).Proper := by
  unfold Lexical.after
  split
  · exact h.declare
  · exact h

end Lexical

end Lox
