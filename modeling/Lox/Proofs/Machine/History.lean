import Lox.Proofs.Machine.Found

namespace Lox

namespace History

def empty : History := ⟨fun _ => False, fun _ => False⟩

/-- The history with these nodes, and all that is gone through from the moment on. -/
def extend (P : History) (nodes : List Node) (M : Moment) : History where
  node node := P.node node ∨ node ∈ nodes
  moment M' := P.moment M' ∨ M.Reaches M'

structure Within (P P' : History) : Prop where
  node : ∀ node, P.node node → P'.node node
  moment : ∀ M, P.moment M → P'.moment M

theorem Within.refl (P : History) : P.Within P := ⟨fun _ => id, fun _ => id⟩

theorem Within.trans {P P' P'' : History} (h : P.Within P') (h' : P'.Within P'') : P.Within P'' :=
  ⟨fun node hnode => h'.node node (h.node node hnode),
    fun M hM => h'.moment M (h.moment M hM)⟩

theorem within_extend (P : History) (nodes : List Node) (M : Moment) :
    P.Within (P.extend nodes M) := ⟨fun _ => .inl, fun _ => .inl⟩

end History

variable {P P' : History} {W : World} {s : Frames Value} {m : Machine} {L : Lexical}

theorem Place.Awaits.within {f : FrameRef} {p : Place} (h : p.Awaits P f) (hP : P.Within P') :
    p.Awaits P' f := by
  intro t value hpending
  obtain ⟨hname, D, hD, htask⟩ := h t value hpending
  exact ⟨hname, D, hP.moment D hD, htask⟩

theorem Stands.within {f : Option FrameRef} (h : Stands P W s f L) (hP : P.Within P') :
    Stands P' W s f L := by
  induction h with
  | top => exact .top
  | frame hget hM hsite hcount hawaits _ ih =>
    exact .frame hget hM hsite hcount (hawaits.within hP) ih

theorem Known.within {nodes : List Node} (h : Known P L nodes) (hP : P.Within P') :
    Known P' L nodes :=
  ⟨fun node hnode => hP.node node (h.accepted node hnode), h.awaited⟩

theorem Function.Suits.within {f : Function} (h : f.Suits P L) (hP : P.Within P') :
    f.Suits P' L := ⟨h.proper, h.known.within hP, h.formed⟩

theorem Closure.Callable.within {f : Closure} (h : f.Callable P W s) (hP : P.Within P') :
    f.Callable P' W s := by
  obtain ⟨⟨L, hstands, hsuits⟩, O, hO, hmakes⟩ := h
  exact ⟨⟨L, hstands.within hP, hsuits.within hP⟩, O, hP.moment O hO, hmakes⟩

theorem Closure.Unbound.within {f : Closure} (h : f.Unbound P W s) (hP : P.Within P') :
    f.Unbound P' W s := by
  obtain ⟨⟨L, hstands, hsuits⟩, O, hO, hmakes⟩ := h
  exact ⟨⟨L, hstands.within hP, hsuits.within hP⟩, O, hP.moment O hO, hmakes⟩

theorem Class.Fits.within {c : Class} (h : c.Fits P W m) (hP : P.Within P') : c.Fits P' W m :=
  ⟨fun name f hf => (h.good name f hf).within hP, h.named⟩

theorem Value.Fits.within {v : Value} (h : v.Fits P W m) (hP : P.Within P') : v.Fits P' W m := by
  cases v with
  | function i f => exact ⟨h.callable.within hP, h.bound⟩
  | «class» c => exact Class.Fits.within h hP
  | «instance» i c => exact ⟨h.1.within hP, h.2⟩
  | _ => trivial

theorem Instance.within {M : Moment} {g : FrameRef} {frame : Frame Value} {site : Site}
    (h : Instance P M g frame site) (hP : P.Within P') : Instance P' M g frame site := by
  refine ⟨hP.moment M h.happened, h.creates, h.link, h.size, fun slot hslot => ?_, h.receiver,
    h.superclass, fun f hf => ?_⟩
  · obtain ⟨D, name, hD, hname⟩ := h.filled slot hslot
    exact ⟨D, name, hP.moment D hD, hname⟩
  · obtain ⟨O, hO, hmakes⟩ := h.lineage f hf
    exact ⟨O, hP.moment O hO, hmakes⟩

/-- A longer history needs notes for its new nodes. -/
theorem Sound.within (h : Sound P W m) (hP : P.Within P')
    (htable : ∀ node, P'.node node → m.addresses[node.id]? = node.address?) : Sound P' W m := by
  refine ⟨htable, h.length, fun g frame M hg hM => ?_, h.stored.imp fun _ hv => hv.within hP,
    h.natives⟩
  obtain ⟨site, hsite⟩ := h.frames g frame M hg hM
  exact ⟨site, hsite.within hP⟩

theorem Moment.Rooted.within {M : Moment} (h : M.Rooted P) (hP : P.Within P') : M.Rooted P' := by
  intro f hf
  obtain ⟨O, hO, hmakes⟩ := h f hf
  exact ⟨O, hP.moment O hO, hmakes⟩

theorem Instances.within {f : Option FrameRef} (h : Instances P s f L) (hP : P.Within P') :
    Instances P' s f L := by
  induction h with
  | top => exact .top
  | frame hget hM hcreates hlink hrooted _ ih =>
    exact .frame hget (hP.moment _ hM) hcreates hlink (hrooted.within hP) ih

section

variable {role : Role} {id : Nat} {name : Token} {a : Address} {f g : FrameRef} {p : Place}

theorem Leads.within (h : Leads P m L name a f g p) (hP : P.Within P') :
    Leads P' m L name a f g p :=
  ⟨h.lookup, h.frame, h.chain.within hP, h.hops, h.place, h.slot, h.outer.within hP⟩

theorem Made.within {v : Value} (h : Made P m role name a g v) (hP : P.Within P') :
    Made P' m role name a g v := by
  obtain ⟨D, hD, happends⟩ := h.owner
  refine ⟨h.cell, ⟨D, hP.moment D hD, happends⟩, fun hrole => ?_, fun hrole => ?_⟩
  · obtain ⟨⟨N, f, hN, hbind⟩, hv⟩ := h.receiver hrole
    exact ⟨⟨N, f, hP.moment N hN, hbind⟩, hv⟩
  · obtain ⟨N, t, c, ms, hN, hdeclare⟩ := h.superclass hrole
    exact ⟨N, t, c, ms, hP.moment N hN, hdeclare⟩

theorem Awaited.within (h : Awaited P m L role id name a g p) (hP : P.Within P') :
    Awaited P' m L role id name a g p := by
  obtain ⟨t, value, D, ht, hD, hrest⟩ := h.begun
  exact ⟨h.missing, h.named, ⟨t, value, D, ht, hP.moment D hD, hrest⟩, h.function⟩

theorem Found.within (h : Found P m role id name a) (hP : P.Within P') :
    Found P' m role id name a := by
  obtain ⟨L, f, g, p, hnode, hleads, hend⟩ := h
  refine ⟨L, f, g, p, hP.node _ hnode, hleads.within hP, ?_⟩
  rcases hend with ⟨v, hmade, hsucceeds⟩ | ⟨hawaited, hfails⟩
  · exact .inl ⟨v, hmade.within hP, hsucceeds⟩
  · exact .inr ⟨hawaited.within hP, hfails⟩

end

end Lox
