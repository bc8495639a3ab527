import Lox.Proofs.Scope.Regular
import Lox.Proofs.Scope.Table

namespace Lox

namespace Lexical

/-- The innermost scope in which the name has been declared is at this depth, and so many names were
declared there before it. -/
structure Binds (L : Lexical) (name : String) (a : Address) : Prop where
  declared : ∃ p, L[a.depth]? = some p ∧ p.names[a.slot]? = some name ∧ name ∉ p.names.take a.slot
  innermost : ∀ p ∈ L.take a.depth, name ∉ p.names

variable {L : Lexical} {name : String} {a : Address}

theorem findIdx?_eq_some_iff {names : List String} {slot : Nat} :
    names.findIdx? (· = name) = some slot ↔ names[slot]? = some name ∧ name ∉ names.take slot := by
  rw [List.findIdx?_eq_some_iff_getElem]
  constructor
  · rintro ⟨hlt, hname, hfirst⟩
    refine ⟨List.getElem?_eq_some_iff.mpr ⟨hlt, by simpa using hname⟩, fun hmem => ?_⟩
    obtain ⟨i, hi, heq⟩ := List.mem_take_iff_getElem.mp hmem
    exact absurd heq (by simpa using hfirst i (by omega))
  · rintro ⟨hname, hfirst⟩
    obtain ⟨hlt, heq⟩ := List.getElem?_eq_some_iff.mp hname
    refine ⟨hlt, by simpa using heq, fun i hi => ?_⟩
    have hne : names[i] ≠ name := fun h =>
      hfirst (List.mem_take_iff_getElem.mpr ⟨i, by omega, h⟩)
    simpa using hne

theorem findIdx?_eq_none_iff {names : List String} :
    names.findIdx? (· = name) = none ↔ name ∉ names := by
  rw [List.findIdx?_eq_none_iff]
  constructor
  · intro h hmem
    simpa using h name hmem
  · intro h other hother
    have hne : other ≠ name := fun heq => h (heq ▸ hother)
    simpa using hne

theorem binds_cons_zero {p : Place} {slot : Nat} : Binds (p :: L) name ⟨0, slot⟩ ↔
    p.names.findIdx? (· = name) = some slot := by
  rw [findIdx?_eq_some_iff]
  constructor
  · rintro ⟨⟨q, hq, hname⟩, -⟩
    obtain rfl : p = q := Option.some.inj hq
    exact hname
  · exact fun h => ⟨⟨p, rfl, h⟩, by simp⟩

theorem binds_cons_succ {p : Place} {depth slot : Nat} :
    Binds (p :: L) name ⟨depth + 1, slot⟩ ↔ name ∉ p.names ∧ Binds L name ⟨depth, slot⟩ := by
  constructor
  · rintro ⟨hdeclared, hinner⟩
    rw [List.take_succ_cons, List.forall_mem_cons] at hinner
    exact ⟨hinner.1, hdeclared, hinner.2⟩
  · rintro ⟨hp, hdeclared, hinner⟩
    exact ⟨hdeclared, List.forall_mem_cons.mpr ⟨hp, hinner⟩⟩

theorem map_outward_eq_some {a? : Option Address} {depth slot : Nat} :
    a?.map Address.outward = some ⟨depth + 1, slot⟩ ↔ a? = some ⟨depth, slot⟩ := by
  cases a? with
  | none => simp
  | some b =>
    obtain ⟨depth', slot'⟩ := b
    simp [Address.outward]

theorem lookup_eq_some_iff : L.lookup name = some a ↔ L.Binds name a := by
  induction L generalizing a with
  | nil => exact iff_of_false nofun fun h => by simpa using h.declared
  | cons p L ih =>
    obtain ⟨depth, slot⟩ := a
    unfold lookup
    cases hp : p.names.findIdx? (· = name) with
    | some i =>
      have hmem : name ∈ p.names := List.mem_of_getElem? (findIdx?_eq_some_iff.mp hp).1
      cases depth with
      | zero => simp [binds_cons_zero, hp]
      | succ depth =>
        have hnot : ¬Binds (p :: L) name ⟨depth + 1, slot⟩ :=
          fun h => (binds_cons_succ.mp h).1 hmem
        exact iff_of_false (by simp) hnot
    | none =>
      have hnot := findIdx?_eq_none_iff.mp hp
      cases depth with
      | zero => simp [binds_cons_zero, hp, Address.outward]
      | succ depth =>
        rw [binds_cons_succ, and_iff_right hnot, ← ih]
        exact map_outward_eq_some

theorem lookup_eq_none_iff : L.lookup name = none ↔ ∀ p ∈ L, name ∉ p.names := by
  induction L with
  | nil => simp [lookup]
  | cons p L ih =>
    unfold lookup
    rw [List.forall_mem_cons, ← findIdx?_eq_none_iff]
    cases p.names.findIdx? (· = name) with
    | some i => simp
    | none => simp [ih]

/-- Scopes without the name are passed over. -/
theorem Binds.outward {inner outer : Lexical} (h : Binds outer name a)
    (hinner : ∀ p ∈ inner, name ∉ p.names) :
    Binds (inner ++ outer) name ⟨inner.length + a.depth, a.slot⟩ := by
  induction inner with
  | nil => simpa using h
  | cons p inner ih =>
    obtain ⟨hp, hrest⟩ := List.forall_mem_cons.mp hinner
    have hsucc := binds_cons_succ.mpr ⟨hp, ih hrest⟩
    rwa [Nat.add_right_comm] at hsucc

/-- No scope of the text holds `this` or `super`. -/
theorem Proper.not_mem_names (h : L.Proper) {p : Place} (hp : p ∈ L) (hplain : ¬p.site.Implicit)
    (hname : name = "this" ∨ name = "super") : name ∉ p.names := by
  intro hmem
  obtain ⟨slot, hslot⟩ := List.getElem?_of_mem hmem
  have hsite := h.ordinary p.site (List.mem_map_of_mem hp)
  have hnames := (Place.getElem?_names hslot).1
  obtain rfl | rfl := hname
  · obtain ⟨f, heq⟩ := Site.eq_this hnames hsite
    exact hplain (heq ▸ trivial)
  · obtain ⟨ms, heq⟩ := Site.eq_super hnames hsite
    exact hplain (heq ▸ trivial)

/-- A `this` is the one of the innermost method around it. -/
theorem Proper.binds_this {inner outer : Lexical} {f : Function}
    (h : Proper (inner ++ (Site.this f).enter 1 outer)) (hplain : ∀ p ∈ inner, ¬p.site.Implicit) :
    Binds (inner ++ (Site.this f).enter 1 outer) "this" ⟨inner.length, 0⟩ := by
  have hhere : Binds ((Site.this f).enter 1 outer) "this" ⟨0, 0⟩ :=
    binds_cons_zero.mpr (by simp [Place.names, Site.names])
  exact hhere.outward fun p hp => h.not_mem_names (List.mem_append_left _ hp) (hplain p hp) (.inl rfl)

end Lexical

namespace Node

variable {node : Node}

theorem binds_this (h : node.Regular) (hrole : node.role = .this) : ∃ inner f outer,
    node.context = inner ++ (Site.this f).enter 1 outer ∧ (∀ p ∈ inner, ¬p.site.Implicit) ∧
      node.context.Binds node.name.lexeme ⟨inner.length, 0⟩ := by
  have hname : node.name.lexeme = "this" := by
    have hnamed := h.named
    rwa [hrole] at hnamed
  obtain ⟨f, outer, inner, hcontext, hplain⟩ := h.inMethod hrole
  have hproper := h.proper
  refine ⟨inner, f, outer, hcontext, hplain, ?_⟩
  rw [hcontext] at hproper ⊢
  rw [hname]
  exact hproper.binds_this hplain

theorem binds_super (h : node.Regular) (hrole : node.role = .super) : ∃ inner f ms outer,
    node.context = inner ++ (Site.this f).enter 1 ((Site.super ms).enter 1 outer) ∧
      f ∈ ms.map Method.function ∧ (∀ p ∈ inner, ¬p.site.Implicit) ∧
      node.context.Binds node.name.lexeme ⟨inner.length + 1, 0⟩ := by
  have hname : node.name.lexeme = "super" := by
    have hnamed := h.named
    rwa [hrole] at hnamed
  obtain ⟨f, ms, outer, ⟨inner, hcontext, hplain⟩, hmem⟩ := h.inSubclass hrole
  refine ⟨inner, f, ms, outer, hcontext, hmem, hplain, ?_⟩
  have hproper := h.proper
  rw [hcontext] at hproper ⊢
  have hhere : Lexical.Binds ((Site.this f).enter 1 ((Site.super ms).enter 1 outer))
      node.name.lexeme ⟨1, 0⟩ := by
    rw [hname]
    refine Lexical.binds_cons_succ.mpr ⟨by simp [Place.names, Site.names], ?_⟩
    exact Lexical.binds_cons_zero.mpr (by simp [Place.names, Site.names])
  exact hhere.outward fun p hp => hproper.not_mem_names (List.mem_append_left _ hp) (hplain p hp)
    (.inr hname)

/-- What is recorded for the node is what its name is bound to where it stands. A `this` belongs to
the innermost method around it, and a `super` to the class of this method. -/
structure Bound (entries : List (Nat × Address)) (node : Node) : Prop where
  distinct : ∀ p ∈ node.context, p.names.Nodup
  recorded : ∀ a, (node.id, a) ∈ entries ↔ node.context.Binds node.name.lexeme a
  unrecorded : (∀ a, (node.id, a) ∉ entries) ↔ ∀ p ∈ node.context, node.name.lexeme ∉ p.names
  this : node.role = .this → ∃ inner f outer,
    node.context = inner ++ (Site.this f).enter 1 outer ∧ (∀ p ∈ inner, ¬p.site.Implicit) ∧
      ∀ a, (node.id, a) ∈ entries ↔ a = ⟨inner.length, 0⟩
  super : node.role = .super → ∃ inner f ms outer,
    node.context = inner ++ (Site.this f).enter 1 ((Site.super ms).enter 1 outer) ∧
      f ∈ ms.map Method.function ∧ (∀ p ∈ inner, ¬p.site.Implicit) ∧
      ∀ a, (node.id, a) ∈ entries ↔ a = ⟨inner.length + 1, 0⟩

theorem mem_entries {nodes : List Node} (hnodup : (nodes.map Node.id).Nodup) (hnode : node ∈ nodes)
    (a : Address) : (node.id, a) ∈ nodes.filterMap Node.entry? ↔ node.address? = some a := by
  rw [List.mem_filterMap]
  constructor
  · rintro ⟨other, hother, he⟩
    obtain ⟨a', ha', heq⟩ := Option.map_eq_some_iff.mp he
    obtain ⟨hid, rfl⟩ := Prod.mk.inj heq
    obtain rfl := List.inj_on_of_nodup_map hnodup hother hnode hid
    exact ha'
  · exact fun ha => ⟨node, hnode, by simp [Node.entry?, ha]⟩

theorem bound_of_regular {nodes : List Node} (hnodup : (nodes.map Node.id).Nodup)
    (hnode : node ∈ nodes) (hregular : node.Regular) (hdistinct : node.context.Distinct) :
    node.Bound (nodes.filterMap Node.entry?) := by
  have hrecorded : ∀ a, (node.id, a) ∈ nodes.filterMap Node.entry? ↔
      node.context.Binds node.name.lexeme a :=
    fun a => (mem_entries hnodup hnode a).trans Lexical.lookup_eq_some_iff
  have hunique : ∀ {b}, node.context.Binds node.name.lexeme b →
      ∀ a, (node.id, a) ∈ nodes.filterMap Node.entry? ↔ a = b := by
    intro b hb a
    rw [mem_entries hnodup hnode, Node.address?, Lexical.lookup_eq_some_iff.mpr hb]
    exact ⟨fun h => (Option.some.inj h).symm, fun h => congrArg some h.symm⟩
  refine ⟨hdistinct, hrecorded, ?_, fun hrole => ?_, fun hrole => ?_⟩
  · rw [← Lexical.lookup_eq_none_iff]
    constructor
    · intro h
      exact Option.eq_none_iff_forall_not_mem.mpr fun a ha =>
        h a ((mem_entries hnodup hnode a).mpr ha)
    · intro h a ha
      have hsome := (mem_entries hnodup hnode a).mp ha
      rw [Node.address?, h] at hsome
      cases hsome
  · obtain ⟨inner, f, outer, hcontext, hplain, hbinds⟩ := binds_this hregular hrole
    exact ⟨inner, f, outer, hcontext, hplain, hunique hbinds⟩
  · obtain ⟨inner, f, ms, outer, hcontext, hmem, hplain, hbinds⟩ := binds_super hregular hrole
    exact ⟨inner, f, ms, outer, hcontext, hmem, hplain, hunique hbinds⟩

end Node

end Lox
