import Lox.Proofs.Rename.Scope
import Lox.Proofs.Scope.Exact

namespace Lox

variable (R : Renaming)

/-- The same diagnostic, or that of a local that is not read, with its new name. -/
inductive Diagnostic.Renamed : Diagnostic → Diagnostic → Prop where
  | same (d : Diagnostic) : Diagnostic.Renamed d d
  | unused (line : Nat) :
    Diagnostic.Renamed ⟨line, .scope (.unused R.old)⟩ ⟨line, .scope (.unused R.new)⟩

inductive Finding.Renamed : Finding → Finding → Prop where
  | address (id : Nat) (a : Address) : Finding.Renamed (.address id a) (.address id a)
  | unread {d d'} : d.Renamed R d' → Finding.Renamed (.unread d) (.unread d')

/-- No name twice, and the new one not at all. -/
def Scope.Plain (s : Scope) : Prop := (s.map (·.name)).Nodup ∧ R.new ∉ s.map (·.name)

/-- The name at an address. -/
def Scope.name? (scopes : List Scope) (a : Address) : Option String :=
  scopes[a.depth]?.bind fun s => s[a.slot]?.map (·.name)

/-- The innermost one of some scopes, with the new name at an address if it is there. -/
def Scope.renameHead (new : String) : Option Address → Scope → Scope
  | some ⟨0, slot⟩, s => s.rename slot new
  | _, s => s

/-- The address from the scope around the innermost one. -/
def Address.inward? : Address → Option Address
  | ⟨0, _⟩ => none
  | ⟨depth + 1, slot⟩ => some ⟨depth, slot⟩

/-- The same scopes, but for the new name at an address where the old one is. -/
structure Scope.Renamed (a? : Option Address) (scopes scopes' : List Scope) : Prop where
  plain : ∀ s ∈ scopes, s.Plain R
  named : ∀ a, a? = some a → Scope.name? scopes a = some R.old
  eq : scopes' = Scope.renameAt R.new a? scopes

structure Walk.Renamed (a? : Option Address) (w w' : Walk) : Prop where
  scopes : Scope.Renamed R a? w.scopes w'.scopes
  findings : List.Forall₂ (Finding.Renamed R) w.findings.toList w'.findings.toList

variable {R}

/-- The name itself, or the new one in place of the old one. -/
def Token.Renamed (R : Renaming) (t t' : Token) : Prop :=
  t' = t ∨ t.lexeme = R.old ∧ t' = { t with lexeme := R.new }

namespace Scope

variable {s : Scope} {scopes scopes' : List Scope} {a? : Option Address} {a : Address}
  {name : String}

theorem name?_of_address? (h : address? scopes name = some a) : name? scopes a = some name := by
  induction scopes generalizing a with
  | nil => simp [address?] at h
  | cons s outer ih =>
    rcases address?_cons_eq_some.mp h with ⟨slot, hslot, rfl⟩ | ⟨-, b, hb, rfl⟩
    · obtain ⟨hlt, hname, -⟩ := List.findIdx?_eq_some_iff_getElem.mp hslot
      show s[slot]?.map (·.name) = some name
      rw [List.getElem?_eq_getElem hlt]
      simpa using hname
    · exact ih hb

theorem name?_useAt (scopes : List Scope) (a b : Address) :
    name? (useAt scopes a) b = name? scopes b := by
  have hnames : ∀ s : Scope, (s.use a.slot)[b.slot]?.map (·.name) = s[b.slot]?.map (·.name) := by
    intro s
    rw [← List.getElem?_map, map_name_use, List.getElem?_map]
  rw [name?, useAt, List.getElem?_modify]
  cases hs : scopes[b.depth]? with
  | none => simp [name?, hs]
  | some s =>
    by_cases hdepth : a.depth = b.depth
    · simp [name?, hs, hdepth, hnames]
    · simp [name?, hs, hdepth]

theorem renameAt_cons (new : String) (a? : Option Address) (s : Scope) (outer : List Scope) :
    renameAt new a? (s :: outer) =
      renameHead new a? s :: renameAt new (a?.bind Address.inward?) outer := by
  cases a? with
  | none => rfl
  | some a =>
    obtain ⟨depth, slot⟩ := a
    cases depth <;> rfl

/-- The old name is in the scope, if its address says so. -/
def Holds (R : Renaming) (a? : Option Address) (s : Scope) : Prop :=
  ∀ slot, a? = some ⟨0, slot⟩ → ∃ b, s[slot]? = some b ∧ b.name = R.old

theorem renamed_nil : Renamed R a? [] scopes' ↔ a? = none ∧ scopes' = [] := by
  constructor
  · intro h
    cases a? with
    | none => exact ⟨rfl, h.eq⟩
    | some a => exact absurd (h.named a rfl) (by simp [name?])
  · rintro ⟨rfl, rfl⟩
    exact ⟨by simp, by simp, rfl⟩

theorem renamed_cons : Renamed R a? (s :: scopes) scopes' ↔ ∃ outer',
    scopes' = renameHead R.new a? s :: outer' ∧ s.Plain R ∧ s.Holds R a? ∧
      Renamed R (a?.bind Address.inward?) scopes outer' := by
  constructor
  · intro h
    have heq := h.eq
    rw [renameAt_cons] at heq
    refine ⟨_, heq, h.plain s (List.mem_cons_self ..), ?_, ?_, ?_, rfl⟩
    · rintro slot rfl
      exact Option.map_eq_some_iff.mp (h.named _ rfl)
    · exact fun s' hs' => h.plain s' (List.mem_cons_of_mem _ hs')
    · intro a ha
      obtain ⟨⟨depth, slot⟩, rfl, ha'⟩ := Option.bind_eq_some_iff.mp ha
      cases depth with
      | zero => simp [Address.inward?] at ha'
      | succ depth =>
        obtain rfl := Option.some.inj ha'
        exact h.named _ rfl
  · rintro ⟨outer', rfl, hplain, hholds, h⟩
    refine ⟨fun s' hs' => ?_, ?_, ?_⟩
    · rcases List.mem_cons.mp hs' with rfl | hs'
      · exact hplain
      · exact h.plain s' hs'
    · rintro ⟨depth, slot⟩ rfl
      cases depth with
      | zero => exact Option.map_eq_some_iff.mpr (hholds slot rfl)
      | succ depth => exact h.named _ rfl
    · rw [renameAt_cons, h.eq]

namespace Renamed

theorem useAt (h : Renamed R a? scopes scopes') (a : Address) :
    Renamed R a? (Scope.useAt scopes a) (Scope.useAt scopes' a) where
  plain s hs := by
    have hnames : s.map (·.name) ∈ scopes.map fun s => s.map (·.name) := by
      rw [← map_name_useAt scopes a]
      exact List.mem_map_of_mem hs
    obtain ⟨s₀, hs₀, heq⟩ := List.mem_map.mp hnames
    rw [Plain, ← heq]
    exact h.plain s₀ hs₀
  named b hb := (name?_useAt scopes a b).trans (h.named b hb)
  eq := by rw [h.eq, renameAt_useAt]

/-- A name that is not at the address is found where it was. -/
theorem address?_same (h : Renamed R a? scopes scopes') (hne : name ≠ R.new)
    (hother : ∀ a, a? = some a → address? scopes name ≠ some a) :
    address? scopes' name = address? scopes name := by
  rw [h.eq]
  cases a? with
  | none => rfl
  | some a => exact address?_renameAt_of_ne hne (hother a rfl)

theorem address?_new (h : Renamed R (some a) scopes scopes') (ha : address? scopes name = some a) :
    address? scopes' R.new = some a := by
  rw [h.eq]
  exact address?_renameAt_self (fun s hs => (h.plain s hs).2) ha

end Renamed

theorem isPending_eq_false {s : Scope} {name : String} :
    s.isPending name = false ↔ ∀ (i : Nat) b, s[i]? = some b → b.name = name → b.ready = true := by
  rw [isPending, List.any_eq_false]
  constructor
  · intro h i b hb hname
    have hready := h b (List.mem_of_getElem? hb)
    simpa [hname] using hready
  · intro h b hb
    obtain ⟨i, hi⟩ := List.getElem?_of_mem hb
    have hready := h i b hi
    simpa using hready

/-- Whoever is not in an initializer is not in one under the new name. -/
theorem isPending_renameHead (hs : s.Plain R) (hholds : s.Holds R a?) {t t' : Token}
    (ht : t.Renamed R t') (hne : t.lexeme ≠ R.new) (hp : s.isPending t.lexeme = false) :
    (renameHead R.new a? s).isPending t'.lexeme = false := by
  rw [isPending_eq_false] at hp
  have hsame : ∀ {i : Nat} {b}, s[i]? = some b → b.name = t'.lexeme → b.ready = true := by
    intro i b hb hname
    rcases ht with rfl | ⟨-, rfl⟩
    · exact hp i b hb hname
    · exact absurd (List.mem_map.mpr ⟨b, List.mem_of_getElem? hb, hname⟩) hs.2
  have hpending : s.isPending t'.lexeme = false := isPending_eq_false.mpr fun i b => hsame
  unfold renameHead
  split
  next s slot =>
    refine isPending_eq_false.mpr fun i b' hb' hname => ?_
    rw [getElem?_rename] at hb'
    split at hb'
    next hi =>
      subst hi
      obtain ⟨b, hb, hold⟩ := hholds slot rfl
      rw [hb] at hb'
      obtain rfl := Option.some.inj hb'
      rcases ht with rfl | ⟨ht, -⟩
      · exact absurd hname.symm hne
      · exact hp slot b hb (hold.trans ht.symm)
    next => exact hsame hb' hname
  next => exact hpending

theorem unread_cons (b : Binding) (s : Scope) :
    unread (b :: s) =
      if b.used then unread s else ⟨b.line, .scope (.unused b.name)⟩ :: unread s := by
  unfold unread
  rw [List.filter_cons]
  cases b.used <;> rfl

theorem renamed_unread {slot : Nat} (hold : ∀ b, s[slot]? = some b → b.name = R.old) :
    List.Forall₂ (Diagnostic.Renamed R) s.unread (s.rename slot R.new).unread := by
  induction s generalizing slot with
  | nil => cases slot <;> exact .nil
  | cons b s ih =>
    cases slot with
    | zero =>
      have hname : b.name = R.old := hold b rfl
      show List.Forall₂ _ (unread (b :: s)) (unread ({ b with name := R.new } :: s))
      rw [unread_cons, unread_cons, hname]
      have hrest : List.Forall₂ (Diagnostic.Renamed R) (unread s) (unread s) :=
        List.forall₂_same.mpr fun d _ => .same d
      split
      · exact hrest
      · exact .cons (.unused b.line) hrest
    | succ slot =>
      have hrest := ih fun b hb => hold b hb
      show List.Forall₂ _ (unread (b :: s)) (unread (b :: rename s slot R.new))
      rw [unread_cons, unread_cons]
      split
      · exact hrest
      · exact .cons (.same _) hrest

/-- The reports on a scope that is closed differ in the new name at most. -/
theorem unread_renameHead (hholds : s.Holds R a?) :
    List.Forall₂ (Diagnostic.Renamed R) s.unread (renameHead R.new a? s).unread := by
  unfold renameHead
  split
  next s slot =>
    refine renamed_unread fun b hb => ?_
    obtain ⟨b', hb', hname⟩ := hholds slot rfl
    obtain rfl := Option.some.inj (hb.symm.trans hb')
    exact hname
  next => exact List.forall₂_same.mpr fun d _ => .same d

theorem plain_declare (hs : s.Plain R) (hslot : s.slot? name = none) (hne : name ≠ R.new)
    (line : Nat) : (s.declare name line).Plain R := by
  have hnotin := slot?_eq_none_iff.mp hslot
  have hnames : (s.declare name line).map (·.name) = s.map (·.name) ++ [name] := by
    simp [declare]
  rw [Plain, hnames, List.nodup_append, List.mem_append]
  refine ⟨⟨hs.1, by simp, fun other hother t ht => ?_⟩, by simp [hs.2, hne.symm]⟩
  rintro rfl
  exact hnotin (List.mem_singleton.mp ht ▸ hother)

/-- Something else is declared on both sides. -/
theorem Renamed.declare (h : Renamed R a? (s :: scopes) scopes') (hslot : s.slot? name = none)
    (hne : name ≠ R.new) (line : Nat) : ∃ s' outer', scopes' = s' :: outer' ∧
      s'.slot? name = none ∧
      Renamed R a? (s.declare name line :: scopes) (s'.declare name line :: outer') := by
  obtain ⟨outer', rfl, hplain, hholds, houter⟩ := renamed_cons.mp h
  refine ⟨_, outer', rfl, ?_, renamed_cons.mpr ⟨outer', ?_, plain_declare hplain hslot hne line, ?_,
    houter⟩⟩
  · unfold renameHead
    split
    · rw [slot?_rename_of_ne hne (by simp [hslot]), hslot]
    · exact hslot
  · unfold renameHead
    split
    next s slot =>
      obtain ⟨b, hb, -⟩ := hholds slot rfl
      rw [Scope.declare, Scope.declare, rename_append (List.getElem?_eq_some_iff.mp hb).1]
    next => rfl
  · intro slot hslot
    obtain ⟨b, hb, hname⟩ := hholds slot hslot
    refine ⟨b, ?_, hname⟩
    rw [Scope.declare, List.getElem?_append_left (List.getElem?_eq_some_iff.mp hb).1, hb]

/-- The local itself is declared, on the other side by its new name. -/
theorem Renamed.declareNew (h : Renamed R none (s :: scopes) scopes')
    (hslot : s.slot? R.old = none) (hne : R.old ≠ R.new) (line : Nat) :
    scopes' = s :: scopes ∧ s.slot? R.new = none ∧
      Renamed R (some ⟨0, s.length⟩) (s.declare R.old line :: scopes)
        (s.declare R.new line :: scopes) := by
  obtain ⟨outer', rfl, hplain, hholds, houter⟩ := renamed_cons.mp h
  obtain rfl : outer' = scopes := houter.eq
  refine ⟨rfl, slot?_eq_none_iff.mpr hplain.2, renamed_cons.mpr ⟨outer', ?_,
    plain_declare hplain hslot hne line, ?_, houter⟩⟩
  · rw [renameHead, Scope.declare, Scope.declare, rename_append_self]
  · rintro _ ⟨⟩
    exact ⟨⟨R.old, line, false, false⟩, by simp [Scope.declare], rfl⟩

theorem plain_define (s : Scope) (name : String) : (s.define name).Plain R ↔ s.Plain R := by
  rw [Plain, Plain, map_name_define]

theorem holds_define (hholds : s.Holds R a?) (name : String) : (s.define name).Holds R a? := by
  intro slot hslot
  obtain ⟨b, hb, hname⟩ := hholds slot hslot
  rw [getElem?_define, hb]
  refine ⟨_, rfl, ?_⟩
  dsimp only
  split <;> exact hname

/-- Something else is defined on both sides. -/
theorem Renamed.define (h : Renamed R a? (s :: scopes) scopes') (hne : name ≠ R.new)
    (hother : ∀ slot, a? = some ⟨0, slot⟩ → name ≠ R.old) : ∃ s' outer', scopes' = s' :: outer' ∧
      Renamed R a? (s.define name :: scopes) (s'.define name :: outer') := by
  obtain ⟨outer', rfl, hplain, hholds, houter⟩ := renamed_cons.mp h
  refine ⟨_, outer', rfl, renamed_cons.mpr ⟨outer', ?_, (plain_define s name).mpr hplain,
    holds_define hholds name, houter⟩⟩
  unfold renameHead
  split
  next s slot =>
    obtain ⟨b, hb, hname⟩ := hholds slot rfl
    rw [rename_define_of_ne hne]
    intro b' hb' heq
    obtain rfl := Option.some.inj (hb.symm.trans hb')
    exact hother slot rfl (heq.symm.trans hname)
  next => rfl

/-- The local itself is defined, on the other side by its new name. -/
theorem Renamed.defineNew {slot : Nat} (h : Renamed R (some ⟨0, slot⟩) (s :: scopes) scopes') :
    ∃ s' outer', scopes' = s' :: outer' ∧
      Renamed R (some ⟨0, slot⟩) (s.define R.old :: scopes) (s'.define R.new :: outer') := by
  obtain ⟨outer', rfl, hplain, hholds, houter⟩ := renamed_cons.mp h
  refine ⟨_, outer', rfl, renamed_cons.mpr ⟨outer', ?_, (plain_define s R.old).mpr hplain,
    holds_define hholds R.old, houter⟩⟩
  obtain ⟨b, hb, hname⟩ := hholds slot rfl
  have hslot : (s.map (·.name))[slot]? = some R.old := by
    rw [List.getElem?_map, hb, ← hname]
    rfl
  rw [renameHead, renameHead, rename_define_self]
  · intro i b' hb'
    have hi : (s.map (·.name))[i]? = some b'.name := by
      rw [List.getElem?_map, hb']
      rfl
    constructor
    · intro heq
      rw [heq] at hi
      exact (List.getElem?_inj (List.getElem?_eq_some_iff.mp hslot).1 hplain.1).mp
        (hslot.trans hi.symm)
    · rintro rfl
      rw [hb] at hb'
      obtain rfl := Option.some.inj hb'
      exact hname
  · intro b' hb' heq
    exact hplain.2 (List.mem_map.mpr ⟨b', hb', heq⟩)

end Scope

end Lox
