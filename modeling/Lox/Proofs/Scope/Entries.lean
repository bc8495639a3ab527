import Lox.Proofs.Scope.Walk

namespace Lox

/-- A variable is not used directly in its own initializer. -/
def Node.Ready (node : Node) : Prop :=
  node.role = .read ∨ node.role = .write → ∀ p ∈ node.context.head?, ∀ t value,
    p.pending = some (t, value) → node.name.lexeme ≠ t.lexeme

namespace Walk

variable {w w' w'' : Walk} {L L' L'' : Lexical} {ns ns' : List Node} {name : Token}

/-- From `w` to `w'` the addresses of these nodes have been found, and `w'` is at the places `L`. -/
structure Finds (w w' : Walk) (L : Lexical) (ns : List Node) : Prop where
  scopes : Scope.FitAll w'.scopes L
  entries : w'.entries = w.entries ++ ns.filterMap Node.entry?
  ready : ∀ node ∈ ns, node.Ready

theorem Finds.nil (h : Scope.FitAll w'.scopes L) (he : w'.entries = w.entries) :
    Finds w w' L [] := ⟨h, by simp [he], by simp⟩

theorem Finds.trans (h : Finds w w' L ns) (h' : Finds w' w'' L' ns') :
    Finds w w'' L' (ns ++ ns') := by
  refine ⟨h'.scopes, ?_, fun node hnode => ?_⟩
  · rw [h'.entries, h.entries, List.filterMap_append, List.append_assoc]
  · exact (List.mem_append.mp hnode).elim (h.ready node) (h'.ready node)

theorem Finds.of_enter {s : Scope} (h : Finds (w.enter s) w'' L ns) : Finds w w'' L ns :=
  ⟨h.scopes, h.entries, h.ready⟩

/-- Steps that find no address may follow. -/
theorem Finds.then (h : Finds w w' L ns) (hs : Scope.FitAll w''.scopes L')
    (he : w''.entries = w'.entries) : Finds w w'' L' ns :=
  ⟨hs, by rw [he, h.entries], h.ready⟩

theorem entries_find_address (w : Walk) (id : Nat) (a : Address) :
    (w.find (.address id a)).entries = w.entries ++ [(id, a)] := by
  simp [entries, find, Finding.address?]

theorem finds_read {node : Node} (h : Scope.FitAll w.scopes node.context) (hnode : node.Ready) :
    Finds w (w.read node.id node.name) node.context [node] := by
  have hready : ∀ node' ∈ [node], node'.Ready := by simpa using hnode
  unfold read
  rw [h.address?]
  cases ha : node.context.lookup node.name.lexeme with
  | none => exact ⟨h, by simp [Node.entry?, Node.address?, ha], hready⟩
  | some a =>
    refine ⟨h.useAt a, ?_, hready⟩
    rw [entries_find_address]
    simp [Node.entry?, Node.address?, ha, entries]

theorem finds_refer {node : Node} (h : Scope.FitAll w.scopes node.context) (hnode : node.Ready) :
    Finds w (w.refer node.id node.name) node.context [node] := by
  have hready : ∀ node' ∈ [node], node'.Ready := by simpa using hnode
  unfold refer
  rw [h.address?]
  cases ha : node.context.lookup node.name.lexeme with
  | none => exact ⟨h, by simp [Node.entry?, Node.address?, ha], hready⟩
  | some a =>
    refine ⟨h, ?_, hready⟩
    rw [entries_find_address]
    simp [Node.entry?, Node.address?, ha]

theorem ready_of_not_isPending (h : Scope.FitAll w.scopes L) (hp : w.isPending name = false)
    (role : Role) (id : Nat) : (⟨role, id, name, L⟩ : Node).Ready := by
  obtain ⟨scopes, findings⟩ := w
  rintro - p hmem t value hpending heq
  cases h with
  | nil => simp at hmem
  | cons hs _ =>
    obtain rfl := Option.some.inj hmem
    have ht := hs.2 t value hpending
    simp only [isPending] at hp
    rw [← heq, hp] at ht
    exact absurd ht (by simp)

theorem fits_declare {s : Scope} {p : Place} (h : s.Fits p) (hp : p.pending = none)
    (hname : p.site.names[p.count]? = some name.lexeme) (value : Expr) :
    (s.declare name.lexeme name.line).Fits { p with pending := some (name, value) } := by
  refine ⟨?_, ?_⟩
  · have hnames := h.1
    simp only [Place.names, hp, Option.isSome_none, Bool.false_eq_true, if_false] at hnames
    simp only [Scope.declare, List.map_append, hnames, Place.names, Option.isSome_some, if_true]
    rw [List.take_add_one, hname]
    rfl
  · rintro _ _ ⟨⟩
    simp [Scope.isPending, Scope.declare]

theorem fits_define {s : Scope} {p : Place} {value : Expr}
    (h : s.Fits { p with pending := some (name, value) }) (hp : p.pending = none) :
    (s.define name.lexeme).Fits { p with count := p.count + 1 } := by
  refine ⟨?_, by simp [hp]⟩
  rw [Scope.map_name_define, h.1]
  simp [Place.names, hp]

theorem fitAll_declare (h : Scope.FitAll w.scopes L)
    (hL : ∀ p ∈ L.head?, p.pending = none ∧ p.site.names[p.count]? = some name.lexeme)
    (hclean : (w.declare name).Clean) (value : Expr) :
    Scope.FitAll (w.declare name).scopes (L.await name value) ∧
      (w.declare name).entries = w.entries := by
  obtain ⟨scopes, findings⟩ := w
  cases h with
  | nil => exact ⟨.nil, rfl⟩
  | @cons s p scopes L hs hscopes =>
    obtain ⟨hp, hname⟩ := hL p rfl
    have hslot := slot?_of_clean_declare hclean s rfl
    unfold declare
    simp only [hslot]
    exact ⟨.cons (fits_declare hs hp hname value) hscopes, rfl⟩

theorem fitAll_define {value : Expr} (h : Scope.FitAll w.scopes (L.await name value))
    (hL : ∀ p ∈ L.head?, p.pending = none) :
    Scope.FitAll (w.define name).scopes L.declare ∧ (w.define name).entries = w.entries := by
  obtain ⟨scopes, findings⟩ := w
  cases L with
  | nil =>
    cases h
    exact ⟨.nil, rfl⟩
  | cons p L =>
    cases h with
    | cons hs hscopes => exact ⟨.cons (fits_define hs (hL p rfl)) hscopes, rfl⟩

theorem fitAll_introduce (h : Scope.FitAll w.scopes L)
    (hL : ∀ p ∈ L.head?, p.pending = none ∧ p.site.names[p.count]? = some name.lexeme)
    (hclean : (w.introduce name).Clean) :
    Scope.FitAll (w.introduce name).scopes L.declare ∧
      (w.introduce name).entries = w.entries := by
  obtain ⟨hs, he⟩ := fitAll_declare h hL ((keeps_define _ _).clean hclean) (.literal .nil)
  obtain ⟨hs', he'⟩ := fitAll_define hs fun p hp => (hL p hp).1
  exact ⟨hs', he'.trans he⟩

theorem fitAll_leave (h : Scope.FitAll w.scopes L) :
    Scope.FitAll w.leave.scopes L.tail ∧ w.leave.entries = w.entries := by
  have hfold : ∀ (ds : List Diagnostic) (w : Walk),
      (ds.foldl (fun w d => w.find (.unread d)) w).scopes = w.scopes ∧
        (ds.foldl (fun w d => w.find (.unread d)) w).entries = w.entries := by
    intro ds
    induction ds with
    | nil => exact fun w => ⟨rfl, rfl⟩
    | cons d ds ih =>
      intro w
      obtain ⟨hs, he⟩ := ih (w.find (.unread d))
      exact ⟨hs, he.trans (by simp [entries, find, Finding.address?])⟩
  obtain ⟨scopes, findings⟩ := w
  cases h with
  | nil => exact ⟨.nil, rfl⟩
  | @cons s p scopes L _ hscopes =>
    obtain ⟨hs, he⟩ := hfold (Scope.unread s) ⟨scopes, findings⟩
    exact ⟨hs ▸ hscopes, he⟩

end Walk

end Lox
