import Lox.Machine
import Mathlib.Data.List.Forall2
import Mathlib.Data.Option.Defs

namespace Lox

/-- Rows of the same length with corresponding entries. -/
def RowTwin {α β : Type} (R : α → β → Prop) (a : Array α) (b : Array β) : Prop :=
  ∀ i : Nat, Option.Rel R a[i]? b[i]?

/-- Tables of the same names with corresponding entries. -/
def TableTwin {α β : Type} (R : α → β → Prop) (t : Std.TreeMap String α)
    (u : Std.TreeMap String β) : Prop :=
  ∀ name : String, Option.Rel R t[name]? u[name]?

section Containers

variable {α β : Type} {R : α → β → Prop}

theorem isSome_eq_of_rel {a : Option α} {b : Option β} (h : Option.Rel R a b) :
    a.isSome = b.isSome := by
  cases h <;> rfl

theorem rel_map {γ δ : Type} {S : γ → δ → Prop} {a : Option α} {b : Option β} {f : α → γ}
    {g : β → δ} (h : Option.Rel R a b) (hfg : ∀ x y, R x y → S (f x) (g y)) :
    Option.Rel S (a.map f) (b.map g) := by
  cases h with
  | none => exact .none
  | some hxy => exact .some (hfg _ _ hxy)

theorem rel_imp {S : α → β → Prop} {a : Option α} {b : Option β} (h : Option.Rel R a b)
    (himp : ∀ x y, R x y → S x y) : Option.Rel S a b := by
  cases h with
  | none => exact .none
  | some hxy => exact .some (himp _ _ hxy)

theorem RowTwin.imp {S : α → β → Prop} {a : Array α} {b : Array β} (h : RowTwin R a b)
    (himp : ∀ x y, R x y → S x y) : RowTwin S a b :=
  fun i => rel_imp (h i) himp

theorem TableTwin.imp {S : α → β → Prop} {t : Std.TreeMap String α} {u : Std.TreeMap String β}
    (h : TableTwin R t u) (himp : ∀ x y, R x y → S x y) : TableTwin S t u :=
  fun name => rel_imp (h name) himp

theorem RowTwin.empty : RowTwin R #[] #[] := fun _ => .none

theorem RowTwin.size_eq {a : Array α} {b : Array β} (h : RowTwin R a b) : a.size = b.size := by
  have hiff : ∀ i, a.size ≤ i ↔ b.size ≤ i := by
    intro i
    have hi := isSome_eq_of_rel (h i)
    rw [← Array.getElem?_eq_none_iff, ← Array.getElem?_eq_none_iff, ← Option.isNone_iff_eq_none,
      ← Option.isNone_iff_eq_none, ← Option.not_isSome, ← Option.not_isSome, hi]
  exact Nat.le_antisymm ((hiff _).mpr (Nat.le_refl _)) ((hiff _).mp (Nat.le_refl _))

theorem RowTwin.push {a : Array α} {b : Array β} {x : α} {y : β} (h : RowTwin R a b)
    (hxy : R x y) : RowTwin R (a.push x) (b.push y) := by
  intro i
  rw [Array.getElem?_push, Array.getElem?_push, h.size_eq]
  split
  · exact .some hxy
  · exact h i

theorem RowTwin.modify {a : Array α} {b : Array β} {f : α → α} {g : β → β} (h : RowTwin R a b)
    (k : Nat) (hfg : ∀ x y, R x y → R (f x) (g y)) : RowTwin R (a.modify k f) (b.modify k g) := by
  intro i
  rw [Array.getElem?_modify, Array.getElem?_modify]
  split
  · exact rel_map (h i) hfg
  · exact h i

theorem RowTwin.setIfInBounds {a : Array α} {b : Array β} {x : α} {y : β} (h : RowTwin R a b)
    (k : Nat) (hxy : R x y) : RowTwin R (a.setIfInBounds k x) (b.setIfInBounds k y) := by
  intro i
  rw [Array.getElem?_setIfInBounds, Array.getElem?_setIfInBounds, h.size_eq]
  split
  · split
    · exact .some hxy
    · exact .none
  · exact h i

theorem RowTwin.ofList {xs : List α} {ys : List β} (h : List.Forall₂ R xs ys) :
    RowTwin R xs.toArray ys.toArray := by
  intro i
  rw [List.getElem?_toArray, List.getElem?_toArray]
  induction h generalizing i with
  | nil => exact .none
  | cons hxy _ ih =>
    cases i with
    | zero => exact .some hxy
    | succ i => exact ih i

theorem TableTwin.empty : TableTwin R ∅ ∅ := by
  intro name
  rw [Std.TreeMap.getElem?_emptyc, Std.TreeMap.getElem?_emptyc]
  exact .none

theorem TableTwin.insert {t : Std.TreeMap String α} {u : Std.TreeMap String β} {x : α} {y : β}
    (h : TableTwin R t u) (name : String) (hxy : R x y) :
    TableTwin R (t.insert name x) (u.insert name y) := by
  intro other
  rw [Std.TreeMap.getElem?_insert, Std.TreeMap.getElem?_insert]
  split
  · exact .some hxy
  · exact h other

theorem TableTwin.contains_eq {t : Std.TreeMap String α} {u : Std.TreeMap String β}
    (h : TableTwin R t u) (name : String) : t.contains name = u.contains name := by
  rw [Std.TreeMap.contains_eq_isSome_getElem?, Std.TreeMap.contains_eq_isSome_getElem?,
    isSome_eq_of_rel (h name)]

end Containers

end Lox
