import Lox.Proofs.Rename.Tree
import Lox.Proofs.Scope.Walk

namespace Lox

section Names

variable {names : List String} {name new : String} {k : Nat}

theorem findIdx?_modify_self (hk : k < names.length) (hnew : new ∉ names) :
    (names.modify k fun _ => new).findIdx? (· = new) = some k := by
  induction names generalizing k with
  | nil => simp at hk
  | cons other names ih =>
    obtain ⟨hne, hnew⟩ := List.ne_and_not_mem_of_not_mem_cons hnew
    cases k with
    | zero => simp [List.findIdx?_cons]
    | succ k =>
      have htail := ih (Nat.lt_of_succ_lt_succ hk) hnew
      rw [List.modify_succ_cons, List.findIdx?_cons, htail]
      simp [hne.symm]

theorem findIdx?_modify_of_ne (hname : name ≠ new) (hk : names.findIdx? (· = name) ≠ some k) :
    (names.modify k fun _ => new).findIdx? (· = name) = names.findIdx? (· = name) := by
  induction names generalizing k with
  | nil => cases k <;> rfl
  | cons other names ih =>
    rw [List.findIdx?_cons] at hk ⊢
    by_cases hother : other = name
    · cases k with
      | zero => simp [hother] at hk
      | succ k => simp [List.findIdx?_cons, hother]
    · cases k with
      | zero => simp [List.findIdx?_cons, hother, hname.symm]
      | succ k =>
        have htail : names.findIdx? (· = name) ≠ some k := by
          intro heq
          simp [hother, heq] at hk
        simp [List.findIdx?_cons, hother, ih htail]

end Names

namespace Scope

/-- The scope with another name in a slot. -/
def rename (s : Scope) (slot : Nat) (new : String) : Scope :=
  s.modify slot fun b => { b with name := new }

/-- The scopes with another name at an address, if there is one. -/
def renameAt (new : String) : Option Address → List Scope → List Scope
  | none, scopes => scopes
  | some a, scopes => scopes.modify a.depth fun s => s.rename a.slot new

variable {s : Scope} {scopes : List Scope} {name old new : String} {k : Nat} {a : Address}

theorem getElem?_rename (s : Scope) (slot : Nat) (new : String) (i : Nat) :
    (s.rename slot new)[i]? =
      if slot = i then s[i]?.map fun b => { b with name := new } else s[i]? := by
  rw [rename, List.getElem?_modify]
  split <;> simp

theorem map_name_rename (s : Scope) (slot : Nat) (new : String) :
    (s.rename slot new).map (·.name) = (s.map (·.name)).modify slot fun _ => new := by
  refine List.ext_getElem? fun i => ?_
  rw [List.getElem?_map, getElem?_rename, List.getElem?_modify, List.getElem?_map]
  by_cases hi : slot = i <;> cases s[i]? <;> simp [hi]

theorem slot?_rename_self (hk : k < s.length) (hnew : new ∉ s.map (·.name)) :
    (s.rename k new).slot? new = some k := by
  rw [slot?_eq, map_name_rename]
  exact findIdx?_modify_self (by simpa using hk) hnew

theorem slot?_rename_of_ne (hname : name ≠ new) (hk : s.slot? name ≠ some k) :
    (s.rename k new).slot? name = s.slot? name := by
  rw [slot?_eq] at hk
  rw [slot?_eq, slot?_eq, map_name_rename]
  exact findIdx?_modify_of_ne hname hk

theorem lt_of_slot? (h : s.slot? name = some k) : k < s.length := by
  unfold slot? at h
  exact (List.findIdx?_eq_some_iff_getElem.mp h).1

/-- What was found at the address is found there by its new name. -/
theorem address?_renameAt_self (hnew : ∀ s ∈ scopes, new ∉ s.map (·.name))
    (h : address? scopes name = some a) : address? (renameAt new (some a) scopes) new = some a := by
  induction scopes generalizing a with
  | nil => simp [address?] at h
  | cons s outer ih =>
    rcases address?_cons_eq_some.mp h with ⟨slot, hslot, rfl⟩ | ⟨-, b, hb, rfl⟩
    · have hself := slot?_rename_self (lt_of_slot? hslot) (hnew s (by simp))
      simp only [renameAt, List.modify_zero_cons, address?, hself]
    · have hinner := slot?_eq_none_iff.mpr (hnew s (by simp))
      have houter := ih (fun s' hs' => hnew s' (by simp [hs'])) hb
      simp only [renameAt] at houter
      simp only [renameAt, Address.outward, List.modify_succ_cons, address?, hinner, houter,
        Option.map_some]

/-- What is found elsewhere is still found there. -/
theorem address?_renameAt_of_ne (hname : name ≠ new) (h : address? scopes name ≠ some a) :
    address? (renameAt new (some a) scopes) name = address? scopes name := by
  obtain ⟨depth, slot⟩ := a
  induction scopes generalizing depth with
  | nil => cases depth <;> rfl
  | cons s outer ih =>
    rw [address?] at h
    cases depth with
    | zero =>
      have hslot : s.slot? name ≠ some slot := by
        intro heq
        simp [heq] at h
      simp only [renameAt, List.modify_zero_cons, address?, slot?_rename_of_ne hname hslot]
    | succ depth =>
      simp only [renameAt, List.modify_succ_cons, address?]
      cases hslot : s.slot? name with
      | some _ => rfl
      | none =>
        rw [hslot] at h
        have houter : address? outer name ≠ some ⟨depth, slot⟩ := by
          intro heq
          simp [heq, Address.outward] at h
        have hrest := ih depth houter
        simp only [renameAt] at hrest
        simp only [hrest]

theorem rename_use (s : Scope) (slot k : Nat) (new : String) :
    (s.use slot).rename k new = (s.rename k new).use slot := by
  refine List.ext_getElem? fun i => ?_
  simp only [use, rename, List.getElem?_modify]
  cases s[i]? <;> simp
  split <;> split <;> rfl

theorem renameAt_useAt (new : String) (a? : Option Address) (scopes : List Scope) (a : Address) :
    renameAt new a? (useAt scopes a) = useAt (renameAt new a? scopes) a := by
  cases a? with
  | none => rfl
  | some b =>
    refine List.ext_getElem? fun i => ?_
    simp only [renameAt, useAt, List.getElem?_modify]
    cases scopes[i]? <;> simp
    split <;> split <;> simp [rename_use]

theorem map_name_useAt (scopes : List Scope) (a : Address) :
    (useAt scopes a).map (fun s => s.map (·.name)) = scopes.map fun s => s.map (·.name) := by
  refine List.ext_getElem? fun i => ?_
  rw [useAt, List.getElem?_map, List.getElem?_map, List.getElem?_modify]
  cases scopes[i]? <;> simp
  split
  · exact map_name_use _ _
  · rfl

theorem rename_append (hk : k < s.length) (new : String) (b : Binding) :
    (s ++ [b]).rename k new = s.rename k new ++ [b] := by
  have hlength : (s.rename k new).length = s.length := List.length_modify ..
  refine List.ext_getElem? fun i => ?_
  rw [getElem?_rename, List.getElem?_append, List.getElem?_append, hlength, getElem?_rename]
  by_cases hi : i < s.length
  · simp [hi]
  · have hne : k ≠ i := by omega
    simp [hi, hne]

theorem rename_append_self (s : Scope) (new : String) (b : Binding) :
    (s ++ [b]).rename s.length new = s ++ [{ b with name := new }] := by
  refine List.ext_getElem? fun i => ?_
  rw [getElem?_rename, List.getElem?_append, List.getElem?_append]
  by_cases hi : i < s.length
  · have hne : s.length ≠ i := by omega
    simp [hi, hne]
  · by_cases heq : s.length = i
    · simp [heq]
    · have hpos : i - s.length ≠ 0 := by omega
      simp [hi, heq, hpos]

theorem getElem?_define (s : Scope) (name : String) (i : Nat) :
    (s.define name)[i]? = s[i]?.map fun b => if b.name = name then { b with ready := true } else b :=
  List.getElem?_map ..

/-- The new name becomes ready where the old one would have. -/
theorem rename_define_self (hold : ∀ i b, s[i]? = some b → (b.name = old ↔ k = i))
    (hnew : ∀ b ∈ s, b.name ≠ new) :
    (s.define old).rename k new = (s.rename k new).define new := by
  refine List.ext_getElem? fun i => ?_
  rw [getElem?_rename, getElem?_define, getElem?_define, getElem?_rename]
  cases hb : s[i]? with
  | none => simp
  | some b =>
    have hne := hnew b (List.mem_of_getElem? hb)
    have hiff := hold i b hb
    by_cases hi : k = i
    · simp [hi, hiff.mpr hi]
    · have hother : b.name ≠ old := fun heq => hi (hiff.mp heq)
      simp [hi, hother, hne]

theorem rename_define_of_ne (hname : name ≠ new) (hold : ∀ b, s[k]? = some b → b.name ≠ name) :
    (s.define name).rename k new = (s.rename k new).define name := by
  refine List.ext_getElem? fun i => ?_
  rw [getElem?_rename, getElem?_define, getElem?_define, getElem?_rename]
  cases hb : s[i]? with
  | none => simp
  | some b =>
    by_cases hi : k = i
    · subst hi
      have hother := hold b hb
      simp [hother, hname.symm]
    · simp [hi]

end Scope

end Lox
