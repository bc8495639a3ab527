import Lox.Proofs.Machine.Program
import Lox.Proofs.Scope.Around

namespace Lox

variable {P : History} {W : World} {m : Machine} {L : Lexical} {s : Frames Value}

/-- What is called or bound at a moment has been made at another. -/
def Moment.Rooted (P : History) (M : Moment) : Prop :=
  ∀ f, (∃ paren arguments, M.task = .call f paren arguments) ∨ (∃ v, M.task = .bind f v) →
    ∃ O, P.moment O ∧ O.Makes f

/-- The frames from here outwards were made when the scopes around a place were entered. A frame is
linked to the one in which its block was executed, or in which what was called had been made. -/
inductive Instances (P : History) (s : Frames Value) : Option FrameRef → Lexical → Prop where
  | top : Instances P s none []
  | frame {f p L frame M} : s.get? f = some frame → P.moment M → M.Creates f p.site →
      frame.enclosing = M.enclosing → M.Rooted P → Instances P s frame.enclosing L →
      Instances P s (some f) (p :: L)

theorem Stands.instances {f : Option FrameRef} (h : Sound P W m)
    (hL : Stands P W m.frames f L) : Instances P m.frames f L := by
  induction hL with
  | top => exact .top
  | @frame f p L frame M hget hM hsite _ _ _ ih =>
    obtain ⟨site, hi⟩ := h.frames f frame M hget hM
    obtain rfl : site = p.site := Option.some.inj (hi.creates.site.symm.trans hsite)
    exact .frame hget hi.happened hi.creates hi.link hi.lineage ih

/-- A frame so many links out is an instance of the scope so many places out. -/
theorem Stands.drop {f : Option FrameRef} {depth : Nat} {p : Place} {L' : Lexical}
    (h : Stands P W s f L) (hdrop : L.drop depth = p :: L') :
    ∃ f₀ g, f = some f₀ ∧ s.ancestor? f₀ depth = some g ∧ Stands P W s (some g) (p :: L') := by
  induction depth generalizing f L with
  | zero =>
    rw [List.drop_zero] at hdrop
    subst hdrop
    cases h with
    | frame hget hM hsite hcount hawaits hL =>
      exact ⟨_, _, rfl, rfl, .frame hget hM hsite hcount hawaits hL⟩
  | succ depth ih =>
    cases h with
    | top => simp at hdrop
    | @frame f _ _ frame _ hget _ _ _ _ hL =>
      obtain ⟨f₀, g, hf₀, hg, hstands⟩ := ih hL hdrop
      obtain ⟨enclosing, cells⟩ := frame
      obtain rfl : enclosing = some f₀ := hf₀
      exact ⟨f, g, rfl, (Frames.ancestor?_succ hget depth).trans hg, hstands⟩

theorem Task.eq_bind {task : Task} {f : Function} (h : task.site? = some (.this f)) :
    ∃ g v, task = .bind g v := by
  unfold Task.site? at h
  split at h <;> simp_all

theorem Task.eq_declareClass {task : Task} {ms : List Method}
    (h : task.site? = some (.super ms)) :
    ∃ name c, task = .declareClass name (some c) ms := by
  unfold Task.site? at h
  split at h <;> simp_all

/-- The frame of a `this` holds the receiver, which it was made for. -/
theorem Instance.this {M : Moment} {g : FrameRef} {frame : Frame Value} {f : Function}
    (h : Instance P M g frame (.this f)) :
    ∃ closure i c, M.task = .bind closure (.instance i c) ∧ frame.cells = #[.instance i c] := by
  obtain ⟨closure, v, htask⟩ := Task.eq_bind h.creates.site
  obtain ⟨hcells, i, c, rfl⟩ := h.receiver closure v htask
  exact ⟨closure, i, c, htask, hcells⟩

/-- The frame of a `super` holds the superclass, which it was made for. -/
theorem Instance.super {M : Moment} {g : FrameRef} {frame : Frame Value} {ms : List Method}
    (h : Instance P M g frame (.super ms)) :
    ∃ name c, M.task = .declareClass name (some c) ms ∧ frame.cells = #[.class c] := by
  obtain ⟨name, c, htask⟩ := Task.eq_declareClass h.creates.site
  exact ⟨name, c, htask, h.superclass name c ms htask⟩

/-- From the frame `f` the address leads to the frame `g`, which was made for the scope at the place
`p` that holds the name. -/
structure Leads (P : History) (m : Machine) (L : Lexical) (name : Token) (a : Address)
    (f g : FrameRef) (p : Place) : Prop where
  lookup : L.lookup name.lexeme = some a
  frame : m.frame = some f
  chain : Instances P m.frames (some f) L
  hops : m.frames.ancestor? f a.depth = some g
  place : L[a.depth]? = some p
  slot : p.site.names[a.slot]? = some name.lexeme
  outer : Instances P m.frames (some g) (L.drop a.depth)

/-- The cell at the address has been made, and made for the name. -/
structure Made (P : History) (m : Machine) (role : Role) (name : Token) (a : Address)
    (g : FrameRef) (v : Value) : Prop where
  cell : m.frames.cell? g a.slot = some v
  owner : ∃ D, P.moment D ∧ D.Appends g a.slot name.lexeme
  receiver : role = .this → (∃ N f, P.moment N ∧ N.task = .bind f v ∧ g = N.newRef) ∧
    ∃ i c, v = .instance i c
  superclass : role = .super → ∃ N t c ms, P.moment N ∧ N.task = .declareClass t (some c) ms ∧
    g = N.newRef ∧ v = .class c

/-- The cell has not been made: the node is in a function in the initializer of the variable, which
has been begun in this frame but not been completed. -/
structure Awaited (P : History) (m : Machine) (L : Lexical) (role : Role) (id : Nat) (name : Token)
    (a : Address) (g : FrameRef) (p : Place) : Prop where
  missing : m.frames.size g = a.slot
  named : role = .read ∨ role = .write
  begun : ∃ t value D, t.lexeme = name.lexeme ∧ P.moment D ∧
    D.task = .execute (.var t (some value)) ∧ D.machine.frame = some g ∧
    D.machine.frames.size g = a.slot ∧ ⟨role, id, name, L⟩ ∈ value.nodes (L.drop a.depth)
  function : ∃ inner q f, q.site = .function f ∧ L = inner ++ q :: L.drop a.depth

/-- A node that looks up its name in a cell. -/
structure Succeeds (m : Machine) (role : Role) (id : Nat) (name : Token) (a : Address)
    (g : FrameRef) (v : Value) : Prop where
  read : role = .read ∨ role = .this → Machine.readVariable id name m = .ok v m
  write : role = .write → ∀ u, Machine.assignVariable id name u m =
    .ok () { m with frames := m.frames.set g a.slot u }
  super : role = .super → ∀ method, (∃ u m', Machine.superMethod id name method m = .ok u m') ∨
    Machine.superMethod id name method m =
      .error (.error (.undefinedProperty method.lexeme method.line)) m

/-- A node that finds no cell. -/
structure Fails (m : Machine) (role : Role) (id : Nat) (name : Token) : Prop where
  read : role = .read → Machine.readVariable id name m =
    .error (.error (.undefinedVariable name.lexeme name.line)) m
  write : role = .write → ∀ u, Machine.assignVariable id name u m =
    .error (.error (.undefinedVariable name.lexeme name.line)) m

/-- What a node with an address finds. -/
def Found (P : History) (m : Machine) (role : Role) (id : Nat) (name : Token) (a : Address) : Prop :=
  ∃ L f g p, P.node ⟨role, id, name, L⟩ ∧ Leads P m L name a f g p ∧
    ((∃ v, Made P m role name a g v ∧ Succeeds m role id name a g v) ∨
      (Awaited P m L role id name a g p ∧ Fails m role id name))

variable {role : Role} {id : Nat} {name : Token} {a : Address} {f g : FrameRef} {p : Place}

theorem Stands.leads (h : Sound P W m) (hL : Stands P W m.frames m.frame L)
    (ha : L.lookup name.lexeme = some a) :
    ∃ f g p L', Leads P m L name a f g p ∧ L.drop a.depth = p :: L' ∧
      Stands P W m.frames (some g) (p :: L') ∧ p.names[a.slot]? = some name.lexeme := by
  obtain ⟨f, g, p, L', hf, hg, hdrop, hstands, hslot⟩ := hL.ancestor ha
  refine ⟨f, g, p, L', ⟨ha, hf, hf ▸ hL.instances h, hg, ?_, (Place.getElem?_names hslot).1, ?_⟩,
    hdrop, hstands, hslot⟩
  · rw [← List.head?_drop, hdrop]
    rfl
  · rw [hdrop]
    exact hstands.instances h

/-- The cell of a name that is declared before is there; only a pending one may be missing. -/
theorem Stands.slot_lt {L' : Lexical} (hstands : Stands P W s (some g) (p :: L'))
    (hslot : p.names[a.slot]? = some name.lexeme) (hmissing : s.cell? g a.slot = none) :
    a.slot = p.count ∧ s.size g = p.count ∧ p.pending.isSome := by
  obtain ⟨frame, M, hget, -, -, hcount, -⟩ := hstands.head
  obtain ⟨-, hlt⟩ := Place.getElem?_names hslot
  have hsize := Frames.size_of_get? hget
  have hnot : ¬a.slot < s.size g := by
    rw [Frames.slot_lt_size_iff, hmissing]
    simp
  split at hlt
  next hpending => exact ⟨by omega, by omega, hpending⟩
  next => omega

theorem awaited (hknown : Known P L [⟨role, id, name, L⟩])
    (hready : ∀ node, P.node node → node.Ready) {L' : Lexical} (hdrop : L.drop a.depth = p :: L')
    (hstands : Stands P W m.frames (some g) (p :: L'))
    (hslot : p.names[a.slot]? = some name.lexeme) (hmissing : m.frames.cell? g a.slot = none)
    (hvariable : role = .read ∨ role = .write) : Awaited P m L role id name a g p := by
  obtain ⟨heq, hsize, hpending⟩ := hstands.slot_lt hslot hmissing
  obtain ⟨⟨t, value⟩, hpending⟩ := Option.isSome_iff_exists.mp hpending
  obtain ⟨-, -, -, -, -, -, hawaits, -⟩ := hstands.head
  obtain ⟨ht, D, hD, htask, hframe, hcount⟩ := hawaits t value hpending
  have hp : L[a.depth]? = some p := by
    rw [← List.head?_drop, hdrop]
    rfl
  have hnode := hknown.awaited a.depth p t value hp hpending _ (List.mem_singleton_self _)
  have hlexeme : t.lexeme = name.lexeme := by
    have hnames := (Place.getElem?_names hslot).1
    rw [heq, ht] at hnames
    exact Option.some.inj hnames
  refine ⟨hsize.trans heq.symm, hvariable, ⟨t, value, D, hlexeme, hD, htask, hframe,
    hcount.trans heq.symm, hnode⟩, ?_⟩
  rcases value.enclosed_nodes _ _ hnode with hcontext | ⟨inner, q, h, hq, hcontext⟩
  · have hhead : p ∈ L.head? := by
      have hcontext' : L = L.drop a.depth := hcontext
      rw [hcontext', hdrop]
      rfl
    have hne := hready _ (hknown.accepted _ (List.mem_singleton_self _)) hvariable p hhead t value
      hpending
    exact absurd hlexeme.symm hne
  · exact ⟨inner, q, h, hq, hcontext⟩

theorem Leads.ordinary (h : Leads P m L name a f g p) (hproper : L.Proper) : p.site.Ordinary :=
  hproper.ordinary _ (List.mem_map.mpr ⟨p, List.mem_of_getElem? h.place, rfl⟩)

theorem Leads.slot_eq_zero (h : Leads P m L name a f g p) (hone : p.site.names.length = 1) :
    a.slot = 0 := by
  have hlt := (List.getElem?_eq_some_iff.mp h.slot).1
  omega

theorem cell?_isSome_of_slot_eq {frame : Frame Value} {slot : Nat} {v : Value}
    (hget : s.get? g = some frame) (hcells : frame.cells = #[v]) (hslot : slot = 0) :
    s.cell? g slot = some v := by
  rw [Frames.cell?_of_get? hget, hcells, hslot]
  rfl

/-- A `this` finds the receiver that its method was bound to. -/
theorem made_this {L' : Lexical} (h : Sound P W m) (hproper : L.Proper)
    (hleads : Leads P m L name a f g p) (hstands : Stands P W m.frames (some g) (p :: L'))
    (hname : name.lexeme = "this") :
    ∃ i c, Made P m .this name a g (.instance i c) := by
  obtain ⟨frame, M, hget, hM, hi⟩ := instance_of_stands h hstands
  obtain ⟨h', hsite⟩ := Site.eq_this (hname ▸ hleads.slot) (hleads.ordinary hproper)
  have hslot := hleads.slot_eq_zero (by rw [hsite]; rfl)
  rw [hsite] at hi
  obtain ⟨closure, i, c, htask, hcells⟩ := hi.this
  have hcell := cell?_isSome_of_slot_eq hget hcells hslot
  refine ⟨i, c, hcell, ?_, fun _ => ⟨⟨M, closure, hi.happened, htask, hi.creates.ref⟩, i, c, rfl⟩,
    nofun⟩
  refine ⟨M, hi.happened, ?_⟩
  rw [Moment.Appends, htask]
  exact ⟨hi.creates.ref, hslot, hname⟩

/-- A `super` finds the superclass that its class was made with. -/
theorem made_super {L' : Lexical} (h : Sound P W m) (hproper : L.Proper)
    (hleads : Leads P m L name a f g p) (hstands : Stands P W m.frames (some g) (p :: L'))
    (hname : name.lexeme = "super") :
    (∃ c, Made P m .super name a g (.class c)) ∧ ∃ ms, p.site = .super ms := by
  obtain ⟨frame, M, hget, hM, hi⟩ := instance_of_stands h hstands
  obtain ⟨ms, hsite⟩ := Site.eq_super (hname ▸ hleads.slot) (hleads.ordinary hproper)
  have hslot := hleads.slot_eq_zero (by rw [hsite]; rfl)
  rw [hsite] at hi
  obtain ⟨t, c, htask, hcells⟩ := hi.super
  have hcell := cell?_isSome_of_slot_eq hget hcells hslot
  refine ⟨⟨c, hcell, ?_, nofun, fun _ => ⟨M, t, c, ms, hi.happened, htask, hi.creates.ref, rfl⟩⟩,
    ms, hsite⟩
  refine ⟨M, hi.happened, ?_⟩
  rw [Moment.Appends, htask]
  exact ⟨hi.creates.ref, hslot, hname⟩

/-- A variable that has a cell has the one that was made for it. -/
theorem made_variable {L' : Lexical} {v : Value} (h : Sound P W m)
    (hleads : Leads P m L name a f g p) (hstands : Stands P W m.frames (some g) (p :: L'))
    (hrole : role = .read ∨ role = .write) (hcell : m.frames.cell? g a.slot = some v) :
    Made P m role name a g v := by
  obtain ⟨frame, M, hget, hM, hi⟩ := instance_of_stands h hstands
  rw [Frames.cell?_of_get? hget] at hcell
  obtain ⟨D, other, hD, hother, happends⟩ := hi.filled a.slot (Array.getElem?_eq_some_iff.mp hcell).1
  obtain rfl : name.lexeme = other := Option.some.inj (hleads.slot.symm.trans hother)
  refine ⟨Frames.cell?_of_get? hget a.slot ▸ hcell, ⟨D, hD, happends⟩, ?_, ?_⟩
  · rintro rfl
    simp at hrole
  · rintro rfl
    simp at hrole

theorem readVariable_of_leads (h : Leads P m L name a f g p) (haddress : m.addresses[id]? = some a) :
    Machine.readVariable id name m = match m.frames.cell? g a.slot with
      | some v => .ok v m
      | none => .error (.error (.undefinedVariable name.lexeme name.line)) m := by
  rw [Machine.readVariable_of_address haddress, Machine.readLocal_apply name a h.frame]
  cases hcell : m.frames.cell? g a.slot with
  | some v => rw [Frames.getAt_of_ancestor? h.hops hcell]
  | none => rw [Frames.getAt_of_cell?_eq_none h.hops hcell]

theorem assignVariable_of_leads (h : Leads P m L name a f g p)
    (haddress : m.addresses[id]? = some a) (u : Value) :
    Machine.assignVariable id name u m = match m.frames.cell? g a.slot with
      | some _ => .ok () { m with frames := m.frames.set g a.slot u }
      | none => .error (.error (.undefinedVariable name.lexeme name.line)) m := by
  have hlt : a.slot < m.frames.size g ↔ (m.frames.cell? g a.slot).isSome := Frames.slot_lt_size_iff
  rw [Machine.assignVariable_of_address haddress, Machine.assignLocal_apply name a u h.frame,
    Frames.locate, h.hops]
  cases hcell : m.frames.cell? g a.slot with
  | some v =>
    have hin : a.slot < m.frames.size g := hlt.mpr (by rw [hcell]; rfl)
    simp only [if_pos hin]
  | none =>
    have hout : ¬a.slot < m.frames.size g := by simp [hlt, hcell]
    simp only [if_neg hout]

/-- The receiver is in the frame further in. -/
theorem receiver_of_leads {ms : List Method} (h : Sound P W m)
    (hL : Stands P W m.frames m.frame L) (hproper : L.Proper) (hleads : Leads P m L name a f g p)
    (hsite : p.site = .super ms) :
    ∃ i c, Machine.receiver name a m = .ok (i, c) m := by
  have hp : (L.map Place.site)[a.depth]? = some (.super ms) := by
    rw [List.getElem?_map, hleads.place, ← hsite]
    rfl
  obtain ⟨depth, method, hdepth, hthis⟩ := hproper.enclosed a.depth ms hp
  obtain ⟨q, hq, hqsite⟩ := Option.map_eq_some_iff.mp ((List.getElem?_map ..).symm.trans hthis)
  have hdrop' : L.drop depth = q :: L.drop (depth + 1) :=
    List.drop_eq_getElem?_toList_append.trans (by rw [hq]; rfl)
  obtain ⟨f₀, g', hf₀, hg', hstands⟩ := hL.drop hdrop'
  obtain rfl : f = f₀ := Option.some.inj (hleads.frame.symm.trans hf₀)
  obtain ⟨frame, M, hget, hM, hi⟩ := instance_of_stands h hstands
  rw [hqsite] at hi
  obtain ⟨closure, i, c, -, hcells⟩ := hi.this
  have hread : m.frames.getAt f ⟨depth, 0⟩ = .ok (.instance i c) :=
    Frames.getAt_of_ancestor? hg' (cell?_isSome_of_slot_eq hget hcells rfl)
  obtain ⟨_, slot⟩ := a
  obtain rfl : _ = depth + 1 := hdepth
  exact ⟨i, c, Machine.receiver_apply hf₀ hread name slot⟩

/-- With the superclass and the receiver at hand a `super` binds the method that the superclass has,
or fails for want of one. -/
theorem superMethod_of_receiver {c d : Class} {i : InstanceRef}
    (haddress : m.addresses[id]? = some a) (hread : Machine.readLocal name a m = .ok (.class c) m)
    (hreceiver : Machine.receiver name a m = .ok (i, d) m) (method : Token) :
    Machine.superMethod id name method m = match c.method? method.lexeme with
      | some f => .ok (.function m.nextIdentity { f with frame := some ⟨m.frames.frames.size⟩ })
          { m with
            frames := m.frames.push f.frame [.instance i d], nextIdentity := m.nextIdentity + 1 }
      | none => .error (.error (.undefinedProperty method.lexeme method.line)) m := by
  rw [Machine.superMethod, Machine.get_bind_apply, haddress]
  dsimp only
  rw [Machine.bind_of_ok hread]
  dsimp only
  rw [Machine.bind_of_ok hreceiver]
  dsimp only
  cases c.method? method.lexeme with
  | none => rfl
  | some f =>
    dsimp only
    rw [Machine.bind_of_ok (Machine.bindReceiver_apply f _ m), Machine.functionValue_apply]

/-- A node with an address, wherever it looks up its name, finds what its place in the text says. -/
theorem found_of_located (hready : ∀ node, P.node node → node.Ready)
    (h : Located P m role id name) (haddress : m.addresses[id]? = some a) :
    Found P m role id name a := by
  obtain ⟨W, L, hsound, hL, hproper, hknown, hname⟩ := h
  have hnode := hknown.accepted _ (List.mem_singleton_self _)
  have hlookup : L.lookup name.lexeme = some a := (hsound.table _ hnode).symm.trans haddress
  obtain ⟨f, g, p, L', hleads, hdrop, hstands, hslot⟩ := hL.leads hsound hlookup
  refine ⟨L, f, g, p, hnode, hleads, ?_⟩
  have hread := readVariable_of_leads hleads haddress
  have hwrite := assignVariable_of_leads hleads haddress
  have hvariable : role = .read ∨ role = .write →
      (∃ v, Made P m role name a g v ∧ Succeeds m role id name a g v) ∨
        (Awaited P m L role id name a g p ∧ Fails m role id name) := by
    intro hrole
    cases hcell : m.frames.cell? g a.slot with
    | some v =>
      rw [hcell] at hread hwrite
      refine .inl ⟨v, made_variable hsound hleads hstands hrole hcell, fun _ => hread, fun _ => hwrite, ?_⟩
      rintro rfl
      simp at hrole
    | none =>
      rw [hcell] at hread hwrite
      exact .inr ⟨awaited hknown hready hdrop hstands hslot hcell hrole, fun _ => hread, fun _ => hwrite⟩
  cases role with
  | read => exact hvariable (.inl rfl)
  | write => exact hvariable (.inr rfl)
  | this =>
    obtain ⟨i, c, hmade⟩ := made_this hsound hproper hleads hstands hname
    rw [hmade.cell] at hread
    exact .inl ⟨_, hmade, fun _ => hread, nofun, nofun⟩
  | super =>
    obtain ⟨⟨c, hmade⟩, ms, hsite⟩ := made_super hsound hproper hleads hstands hname
    obtain ⟨i, d, hreceiver⟩ := receiver_of_leads hsound hL hproper hleads hsite
    have hclass := Frames.getAt_of_ancestor? hleads.hops hmade.cell
    have hlocal : Machine.readLocal name a m = .ok (.class c) m := by
      rw [Machine.readLocal_apply name a hleads.frame, hclass]
    refine .inl ⟨_, hmade, nofun, nofun, fun _ method => ?_⟩
    rw [superMethod_of_receiver haddress hlocal hreceiver method]
    cases c.method? method.lexeme with
    | none => exact .inr rfl
    | some closure => exact .inl ⟨_, _, rfl⟩

end Lox
