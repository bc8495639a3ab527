import Lox.Proofs.Machine.History
import Lox.Proofs.Machine.Lineage
import Lox.Proofs.Scope.Binding

namespace Lox

/-- What comes of a method that is looked up in a class and bound to a receiver. -/
def Machine.boundNearest (m : Machine) (c : Class) (receiver : Value) (method : Token) :
    EStateM.Result Stop Machine Value :=
  match c.lineage.findSome? (Class.own? method.lexeme) with
  | some f => .ok (.function m.nextIdentity { f with frame := some ⟨m.frames.frames.size⟩ })
      { m with
        frames := m.frames.push f.frame [receiver], nextIdentity := m.nextIdentity + 1 }
  | none => .error (.error (.undefinedProperty method.lexeme method.line)) m

/-- So many scopes around, the method `f` of the class declared at `D` is active for a receiver: it
has been bound to the receiver, which is what `this` means there. -/
structure Machine.Serves (P : History) (m : Machine) (hops : Nat) (f : Function) (D : Moment)
    (receiver : Value) : Prop where
  bound : ∃ B closure g, P.moment B ∧ B.task = .bind closure receiver ∧ closure.function = f ∧
    closure.frame = some D.newRef ∧ m.frame = some g ∧
    m.frames.ancestor? g hops = some B.newRef ∧ m.frames.ancestor? g (hops + 1) = some D.newRef
  this : ∀ id keyword, m.addresses[id]? = some ⟨hops, 0⟩ →
    Machine.readVariable id keyword m = .ok receiver m

variable {P P' : History} {W : World} {m : Machine} {L outer : Lexical} {f : Function}
  {ms : List Method}

theorem Machine.Serves.within {hops : Nat} {D : Moment} {receiver : Value}
    (h : m.Serves P hops f D receiver) (hP : P.Within P') : m.Serves P' hops f D receiver := by
  obtain ⟨B, closure, g, hB, hrest⟩ := h.bound
  exact ⟨⟨B, closure, g, hP.moment B hB, hrest⟩, h.this⟩

/-- In a method the receiver is found, and behind it the frame that the method was made in. -/
theorem Stands.method {inner : Lexical} (h : Sound P W m)
    (hL : Stands P W m.frames m.frame (inner ++ (Site.this f).enter 1 outer)) :
    ∃ g B closure i c frame, m.frame = some g ∧ P.moment B ∧ B.task = .bind closure (.instance i c) ∧
      closure.function = f ∧ m.frames.ancestor? g inner.length = some B.newRef ∧
      m.frames.get? B.newRef = some frame ∧ frame.enclosing = closure.frame ∧
      m.frames.getAt g ⟨inner.length, 0⟩ = .ok (.instance i c) ∧
      Stands P W m.frames closure.frame outer := by
  obtain ⟨g, r, hg, hr, hstands⟩ := hL.drop (List.drop_left' rfl)
  obtain ⟨frame, B, hget, hB, hi⟩ := instance_of_stands h hstands
  obtain ⟨closure, i, c, htask, hcells⟩ := hi.this
  obtain rfl : r = B.newRef := hi.creates.ref
  have hlink : frame.enclosing = closure.frame := by
    rw [hi.link, Moment.enclosing, htask]
  have hfunction : closure.function = f := by
    have hsite := hi.creates.site
    rw [htask] at hsite
    exact Site.this.inj (Option.some.inj hsite)
  have houter : Stands P W m.frames frame.enclosing outer := by
    obtain ⟨frame', -, hget', -, -, -, -, houter⟩ := hstands.head
    rwa [Option.some.inj (hget.symm.trans hget')]
  refine ⟨g, B, closure, i, c, frame, hg, hi.happened, htask, hfunction, hr, hget, hlink, ?_, ?_⟩
  · exact Frames.getAt_of_ancestor? hr (cell?_isSome_of_slot_eq hget hcells rfl)
  · rwa [← hlink]

/-- The methods of a subclass are made in the frame that holds the superclass. -/
theorem Stands.subclass {f? : Option FrameRef} (h : Sound P W m)
    (hL : Stands P W m.frames f? ((Site.super ms).enter 1 outer)) :
    ∃ D name c frame, f? = some D.newRef ∧ P.moment D ∧ D.task = .declareClass name (some c) ms ∧
      m.frames.get? D.newRef = some frame ∧ frame.cells = #[.class c] := by
  cases f? with
  | none => cases hL
  | some r =>
    obtain ⟨frame, D, hget, -, hi⟩ := instance_of_stands h hL
    obtain ⟨name, c, htask, hcells⟩ := hi.super
    obtain rfl : r = D.newRef := hi.creates.ref
    exact ⟨D, name, c, frame, rfl, hi.happened, htask, hget, hcells⟩

/-- In a method of a subclass a `super` starts at the superclass that the class was declared with,
and binds what it finds to the receiver of the method. -/
theorem Stands.super {inner : Lexical} (h : Sound P W m)
    (hL : Stands P W m.frames m.frame
      (inner ++ (Site.this f).enter 1 ((Site.super ms).enter 1 outer))) :
    ∃ D name c i d, P.moment D ∧ D.task = .declareClass name (some c) ms ∧
      m.Serves P inner.length f D (.instance i d) ∧
      ∀ id keyword method, m.addresses[id]? = some ⟨inner.length + 1, 0⟩ →
        Machine.superMethod id keyword method m = m.boundNearest c (.instance i d) method := by
  obtain ⟨g, B, closure, i, d, frame, hg, hB, hbind, hf, hhops, hget, hlink, hthis, houter⟩ :=
    hL.method h
  obtain ⟨D, name, c, outerFrame, hframe, hD, hdeclare, hget', hcells⟩ := houter.subclass h
  have hnext : m.frames.ancestor? g (inner.length + 1) = some D.newRef := by
    obtain ⟨enclosing, cells⟩ := frame
    obtain rfl : enclosing = some D.newRef := hlink.trans hframe
    rw [Frames.ancestor?_add hhops 1, Frames.ancestor?_succ hget]
    rfl
  refine ⟨D, name, c, i, d, hD, hdeclare, ⟨⟨B, closure, g, hB, hbind, hf, hframe, hg, hhops, hnext⟩,
    fun id keyword haddress => ?_⟩, fun id keyword method haddress => ?_⟩
  · rw [Machine.readVariable_of_address haddress, Machine.readLocal_apply keyword _ hg, hthis]
  · have hclass : m.frames.getAt g ⟨inner.length + 1, 0⟩ = .ok (.class c) :=
      Frames.getAt_of_ancestor? hnext (cell?_isSome_of_slot_eq hget' hcells rfl)
    have hread : Machine.readLocal keyword ⟨inner.length + 1, 0⟩ m = .ok (.class c) m := by
      rw [Machine.readLocal_apply keyword _ hg, hclass]
    rw [superMethod_of_receiver haddress hread (Machine.receiver_apply hg hthis keyword 0) method,
      Class.method?_eq_findSome?]
    rfl

end Lox
