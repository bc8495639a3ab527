import Lox.Proofs.Scope.Declaration
import Lox.Proofs.Scope.Walk
import Mathlib.Data.List.Nodup

namespace Lox

namespace Scope

/-- Has the name at this slot been read? -/
def IsUsed (s : Scope) (slot : Nat) : Prop := ∃ b, s[slot]? = some b ∧ b.used = true

/-- Has the name at this slot of the scope that has `level` scopes around it been read? -/
def Used (scopes : List Scope) (level slot : Nat) : Prop :=
  ∃ depth s, scopes[depth]? = some s ∧ depth + level + 1 = scopes.length ∧ s.IsUsed slot

/-- The names with the lines of their declarations. -/
def labels (s : Scope) : List (String × Nat) := s.map fun b => (b.name, b.line)

variable {s s' : Scope} {scopes : List Scope} {level slot : Nat} {name : String} {line : Nat}

@[simp] theorem not_isUsed_nil : ¬IsUsed [] slot := by simp [IsUsed]

theorem isUsed_use (k : Nat) :
    (s.use k).IsUsed slot ↔ s.IsUsed slot ∨ (k = slot ∧ slot < s.length) := by
  unfold IsUsed use
  rw [List.getElem?_modify]
  by_cases hlt : slot < s.length
  · rw [List.getElem?_eq_getElem hlt]
    by_cases hk : k = slot <;> simp [hk, hlt]
  · rw [List.getElem?_eq_none (by omega)]
    simp [hlt]

theorem isUsed_declare : (s.declare name line).IsUsed slot ↔ s.IsUsed slot := by
  unfold IsUsed declare
  rw [List.getElem?_append]
  split
  · rfl
  next hlt =>
    have hnone : s[slot]? = none := List.getElem?_eq_none (by omega)
    rw [hnone]
    cases slot - s.length <;> simp

theorem isUsed_define : (s.define name).IsUsed slot ↔ s.IsUsed slot := by
  unfold IsUsed define
  rw [List.getElem?_map]
  cases s[slot]? with
  | none => simp
  | some b => by_cases hb : b.name = name <;> simp [hb]

theorem labels_use (s : Scope) (k : Nat) : (s.use k).labels = s.labels := by
  refine List.ext_getElem? fun i => ?_
  rw [use, labels, labels, List.getElem?_map, List.getElem?_map, List.getElem?_modify]
  cases s[i]? <;> simp
  split <;> exact ⟨rfl, rfl⟩

theorem labels_useAt (scopes : List Scope) (a : Address) :
    (useAt scopes a).map labels = scopes.map labels := by
  refine List.ext_getElem? fun i => ?_
  rw [useAt, List.getElem?_map, List.getElem?_map, List.getElem?_modify]
  cases scopes[i]? <;> simp
  split
  · exact labels_use _ a.slot
  · rfl

theorem labels_declare (s : Scope) (name : String) (line : Nat) :
    (s.declare name line).labels = s.labels ++ [(name, line)] := by
  simp [labels, declare]

theorem labels_define (s : Scope) (name : String) : (s.define name).labels = s.labels := by
  rw [labels, labels, define, List.map_map]
  refine List.map_congr_left fun b _ => ?_
  simp only [Function.comp_apply]
  split <;> rfl

theorem map_fst_labels (s : Scope) : s.labels.map Prod.fst = s.map (·.name) := by
  simp [labels]

/-- Scopes further out do not change when one is opened. -/
theorem used_cons_of_lt (hlevel : level < scopes.length) :
    Used (s :: scopes) level slot ↔ Used scopes level slot := by
  constructor
  · rintro ⟨depth, s', hs', hdepth, hused⟩
    cases depth with
    | zero =>
      simp only [List.length_cons] at hdepth
      omega
    | succ depth =>
      simp only [List.length_cons] at hdepth
      exact ⟨depth, s', hs', by omega, hused⟩
  · rintro ⟨depth, s', hs', hdepth, hused⟩
    exact ⟨depth + 1, s', hs', by simp only [List.length_cons]; omega, hused⟩

theorem used_cons_length : Used (s :: scopes) scopes.length slot ↔ s.IsUsed slot := by
  constructor
  · rintro ⟨depth, s', hs', hdepth, hused⟩
    simp only [List.length_cons] at hdepth
    obtain rfl : depth = 0 := by omega
    obtain rfl := Option.some.inj hs'
    exact hused
  · exact fun hused => ⟨0, s, rfl, by simp, hused⟩

theorem used_cons_congr (h : ∀ slot, s'.IsUsed slot ↔ s.IsUsed slot) :
    Used (s' :: scopes) level slot ↔ Used (s :: scopes) level slot := by
  by_cases hlt : level < scopes.length
  · rw [used_cons_of_lt hlt, used_cons_of_lt hlt]
  · by_cases heq : level = scopes.length
    · rw [heq, used_cons_length, used_cons_length, h]
    · refine iff_of_false ?_ ?_
      all_goals
        rintro ⟨depth, _, _, hdepth, _⟩
        simp only [List.length_cons] at hdepth
        omega

/-- The address leads to a name. -/
theorem exists_of_address? {scopes : List Scope} {a : Address} (h : address? scopes name = some a) :
    ∃ s, scopes[a.depth]? = some s ∧ a.slot < s.length := by
  induction scopes generalizing a with
  | nil => simp [address?] at h
  | cons s scopes ih =>
    rcases address?_cons_eq_some.mp h with ⟨slot, hslot, rfl⟩ | ⟨-, b, hb, rfl⟩
    · obtain ⟨hlt, -⟩ := List.findIdx?_eq_some_iff_getElem.mp hslot
      exact ⟨s, rfl, hlt⟩
    · exact ih hb

theorem used_useAt {a : Address} (h : address? scopes name = some a) :
    Used (useAt scopes a) level slot ↔
      Used scopes level slot ∨ (a.depth + level + 1 = scopes.length ∧ a.slot = slot) := by
  obtain ⟨target, htarget, hslot⟩ := exists_of_address? h
  have hget : ∀ depth, (useAt scopes a)[depth]? =
      if a.depth = depth then some (target.use a.slot) else scopes[depth]? := by
    intro depth
    rw [useAt, List.getElem?_modify]
    by_cases hdepth : a.depth = depth
    · subst hdepth
      simp [htarget]
    · simp [hdepth]
  have hlen : (useAt scopes a).length = scopes.length := List.length_modify ..
  constructor
  · rintro ⟨depth, s, hs, hdepth, hused⟩
    rw [hget] at hs
    rw [hlen] at hdepth
    by_cases heq : a.depth = depth
    · subst heq
      rw [if_pos rfl] at hs
      obtain rfl := Option.some.inj hs
      rcases (isUsed_use a.slot).mp hused with hused | ⟨rfl, -⟩
      · exact .inl ⟨a.depth, target, htarget, hdepth, hused⟩
      · exact .inr ⟨hdepth, rfl⟩
    · rw [if_neg heq] at hs
      exact .inl ⟨depth, s, hs, hdepth, hused⟩
  · rintro (⟨depth, s, hs, hdepth, hused⟩ | ⟨hdepth, rfl⟩)
    · by_cases heq : a.depth = depth
      · subst heq
        obtain rfl := Option.some.inj (htarget.symm.trans hs)
        exact ⟨a.depth, target.use a.slot, by rw [hget, if_pos rfl], hlen ▸ hdepth,
          (isUsed_use a.slot).mpr (.inl hused)⟩
      · exact ⟨depth, s, by rw [hget, if_neg heq, hs], hlen ▸ hdepth, hused⟩
    · exact ⟨a.depth, target.use a.slot, by rw [hget, if_pos rfl], hlen ▸ hdepth,
        (isUsed_use a.slot).mpr (.inr ⟨rfl, hslot⟩)⟩

end Scope

def Token.label (t : Token) : String × Nat := (t.lexeme, t.line)

namespace Scope

open Classical in
/-- The names that have not been read are those of the slots that are not `P`. -/
theorem unread_eq {P : Nat → Prop} (s : Scope) (ts : List Token) (k : Nat)
    (hlabels : s.labels = ts.map Token.label) (hused : ∀ slot, s.IsUsed slot ↔ P (slot + k)) :
    s.unread = ((ts.zipIdx k).filter fun x => ¬P x.2).map
      fun x => ⟨x.1.line, .scope (.unused x.1.lexeme)⟩ := by
  induction s generalizing ts k with
  | nil =>
    obtain rfl : ts = [] := by simpa [labels] using hlabels.symm
    rfl
  | cons b s ih =>
    cases ts with
    | nil => simp [labels] at hlabels
    | cons t ts =>
      obtain ⟨hlabel, hlabels⟩ := List.cons.inj hlabels
      obtain ⟨hname, hline⟩ := Prod.mk.inj hlabel
      have htail := ih ts (k + 1) hlabels fun slot => by
        have hslot := hused (slot + 1)
        rwa [Nat.add_right_comm] at hslot
      have hhead : b.used = true ↔ P k := by simpa [IsUsed] using hused 0
      rw [unread] at htail ⊢
      rw [List.zipIdx_cons]
      by_cases hb : b.used = true
      · rw [List.filter_cons_of_neg (by simp [hb]), htail,
          List.filter_cons_of_neg (by simpa using hhead.mp hb)]
      · rw [List.filter_cons_of_pos (by simp [hb]), List.map_cons, htail,
          List.filter_cons_of_pos (by simpa using mt hhead.mpr hb), List.map_cons]
        simp [hname, hline]

end Scope

end Lox
