import Lox.Proofs.Machine.Steps

namespace Lox

variable {P : History} {g? : Option FrameRef} {W W' : World} {m m' : Machine} {L : Lexical}
  {s : Frames Value}

/-- The frame that an address leads to is an instance of the scope that the name was found in. -/
theorem Stands.ancestor {f : Option FrameRef} {name : String} {a : Address}
    (h : Stands P W s f L) (ha : L.lookup name = some a) :
    ∃ f₀ g p L', f = some f₀ ∧ s.ancestor? f₀ a.depth = some g ∧ L.drop a.depth = p :: L' ∧
      Stands P W s (some g) (p :: L') ∧ p.names[a.slot]? = some name := by
  induction h generalizing a with
  | top => simp [Lexical.lookup] at ha
  | @frame f p L frame M hf hM hsite hcount hawaits hL ih =>
    simp only [Lexical.lookup] at ha
    cases hslot : p.names.findIdx? (· = name) with
    | some slot =>
      rw [hslot] at ha
      obtain rfl := Option.some.inj ha
      obtain ⟨hlt, hname, -⟩ := List.findIdx?_eq_some_iff_getElem.mp hslot
      refine ⟨f, f, p, L, rfl, rfl, rfl, .frame hf hM hsite hcount hawaits hL, ?_⟩
      rw [List.getElem?_eq_getElem hlt]
      exact congrArg some (by simpa using hname)
    | none =>
      rw [hslot] at ha
      obtain ⟨b, hb, rfl⟩ := Option.map_eq_some_iff.mp ha
      obtain ⟨f₀, g, q, L', hf₀, hg, hdrop, hstands, hname⟩ := ih hb
      refine ⟨f, g, q, L', rfl, ?_, hdrop, hstands, hname⟩
      obtain ⟨enclosing, cells⟩ := frame
      obtain rfl : enclosing = some f₀ := hf₀
      exact (Frames.ancestor?_succ hf b.depth).trans hg

/-- The innermost place of a frame. -/
theorem Stands.head {f : FrameRef} {p : Place} (h : Stands P W s (some f) (p :: L)) :
    ∃ frame M, s.get? f = some frame ∧ W[f.index]? = some M ∧ M.task.site? = some p.site ∧
      p.count ≤ frame.cells.size ∧ p.Awaits P f ∧ Stands P W s frame.enclosing L := by
  cases h with
  | frame hf hM hsite hcount hawaits hL => exact ⟨_, _, hf, hM, hsite, hcount, hawaits, hL⟩

/-- Where a machine executes statements: the names that come before are the cells there are. -/
structure Here (P : History) (W : World) (m : Machine) (L : Lexical) : Prop where
  stands : Stands P W m.frames m.frame L
  proper : L.Proper
  exact : ∀ f p, m.frame = some f → p ∈ L.head? → m.frames.size f = p.count ∧ p.pending = none

theorem Here.pending (h : Here P W m L) : ∀ p ∈ L.head?, p.pending = none := by
  intro p hp
  obtain ⟨hstands, -, hexact⟩ := h
  cases hf : m.frame with
  | none =>
    rw [hf] at hstands
    cases hstands
    simp at hp
  | some f => exact (hexact f p hf hp).2

/-- Steps that add no cells to the frame do not change where the machine is. -/
theorem Here.kept (h : Here P W m L) (hk : Kept P none W m W' m') : Here P W' m' L := by
  refine ⟨hk.stands h.stands, h.proper, fun f p hf hp => ?_⟩
  rw [hk.frame] at hf
  obtain ⟨hsize, hpending⟩ := h.exact f p hf hp
  refine ⟨?_, hpending⟩
  have hstands := h.stands
  rw [hf] at hstands
  cases hstands with
  | frame hget => rw [hk.grown.frames.size (by simp [hget]), hsize]

theorem instance_of_stands {f : FrameRef} {p : Place} (h : Sound P W m)
    (hL : Stands P W m.frames (some f) (p :: L)) :
    ∃ frame M, m.frames.get? f = some frame ∧ W[f.index]? = some M ∧
      Instance P M f frame p.site := by
  obtain ⟨frame, M, hf, hM, hsite, -⟩ := hL.head
  obtain ⟨site, hinstance⟩ := h.frames f frame M hf hM
  obtain rfl : site = p.site := Option.some.inj (hinstance.creates.site.symm.trans hsite)
  exact ⟨frame, M, hf, hM, hinstance⟩

/-- Is the scope one that statements or parameters add names to? -/
def Site.IsOpen : Site → Prop
  | block _ => True
  | function _ => True
  | _ => False

theorem Site.isOpen_of_name {site : Site} {name : String} {slot : Nat}
    (h : site.names[slot]? = some name) (hthis : name ≠ "this") (hsuper : name ≠ "super") :
    site.IsOpen := by
  have hmem := List.mem_of_getElem? h
  cases site with
  | block _ => trivial
  | function _ => trivial
  | this _ => exact absurd (List.mem_singleton.mp hmem) hthis
  | super _ => exact absurd (List.mem_singleton.mp hmem) hsuper

/-- A declared name has been added to an open scope. -/
theorem Lexical.isOpen_declare {name : Token} (hname : name.Ordinary)
    (hnext : ∀ p ∈ L.head?, p.site.names[p.count]? = some name.lexeme) :
    ∀ p ∈ L.declare.head?, p.site.IsOpen := by
  intro p hp
  cases L with
  | nil => simp [Lexical.declare] at hp
  | cons q L =>
    obtain rfl := Option.some.inj hp
    exact Site.isOpen_of_name (hnext q rfl) hname.1 hname.2

/-- A frame of an open scope may be given other values. -/
theorem Sound.set {g : FrameRef} {frame : Frame Value} {M : Moment} {site : Site} {v : Value}
    (h : Sound P W m) (hg : m.frames.get? g = some frame) (hM : W[g.index]? = some M)
    (hsite : M.task.site? = some site) (hopen : site.IsOpen) (slot : Nat)
    (hv : v.Fits P W m) :
    Sound P W { m with frames := m.frames.set g slot v } := by
  refine ⟨h.table, ?_, fun f frame' M' hf hM' => ?_, ?_, h.natives⟩
  · rw [h.length, Frames.size_frames_set]
  · rw [Frames.get?_set] at hf
    split at hf
    next heq =>
      subst heq
      rw [hg] at hf
      obtain rfl := Option.some.inj hf
      obtain rfl := Option.some.inj (hM.symm.trans hM')
      obtain ⟨site', hi⟩ := h.frames g frame M hg hM
      obtain rfl : site' = site := Option.some.inj (hi.creates.site.symm.trans hsite)
      refine ⟨site', hi.happened, hi.creates, hi.link, ?_, ?_, ?_, ?_, hi.lineage⟩
      · simpa using hi.size
      · intro k hk
        exact hi.filled k (by simpa using hk)
      · intro f' u htask
        rw [htask] at hsite
        obtain rfl := Option.some.inj hsite
        exact absurd hopen (by simp [Site.IsOpen])
      · intro name c ms htask
        rw [htask] at hsite
        obtain rfl := Option.some.inj hsite
        exact absurd hopen (by simp [Site.IsOpen])
    next => exact h.frames f frame' M' hf hM'
  · have hgrown : Grown none W m W { m with frames := m.frames.set g slot v } :=
      .of_frames (Frames.grows_set _ _ _ _) (List.prefix_refl W)
    exact (h.stored.set g slot hv).imp fun _ => hgrown.fits

theorem Sound.defineGlobal {v : Value} (h : Sound P W m) (name : String) (hv : v.Fits P W m) :
    Sound P W (m.defineGlobal name v) :=
  h.store rfl rfl rfl (Nat.le_refl _) (h.stored.defineGlobal name hv)

theorem safe_assignLocal {name : Token} {a : Address} {v : Value} (h : Sound P W m)
    (hL : Stands P W m.frames m.frame L) (ha : L.lookup name.lexeme = some a)
    (hname : name.Ordinary) (hv : v.Fits P W m) :
    Safe P g? W m (Machine.assignLocal name a v) [] fun _ _ _ => True := by
  obtain ⟨f, g, p, L', hf, hg, -, hstands, hslot⟩ := hL.ancestor ha
  obtain ⟨frame, M, hget, hM, hinstance⟩ := instance_of_stands h hstands
  have hopen := Site.isOpen_of_name (Place.getElem?_names hslot).1 hname.1 hname.2
  have hset := h.set hget hM hinstance.creates.site hopen a.slot hv
  have happly := Machine.assignLocal_apply (m := m) name a v hf
  rw [Frames.locate, hg] at happly
  by_cases hslot : a.slot < m.frames.size g
  · simp only [if_pos hslot] at happly
    have hgrown : Grown g? W m W { m with frames := m.frames.set g a.slot v } :=
      .of_frames (Frames.grows_set _ _ _ _) (List.prefix_refl W)
    exact .of_eq happly ⟨hgrown, rfl, hset⟩ trivial
  · simp only [if_neg hslot] at happly
    exact .of_error happly h

theorem safe_assignVariable {id : Nat} {name : Token} {v : Value} (h : Sound P W m)
    (hL : Stands P W m.frames m.frame L) (hnode : P.node ⟨.write, id, name, L⟩)
    (hname : name.Ordinary) (hv : v.Fits P W m) :
    Safe P g? W m (Machine.assignVariable id name v) [] fun _ _ _ => True := by
  refine Safe.andThen (safe_get h) ?_
  rintro _ _ _ - - ⟨rfl, rfl, rfl⟩
  rw [h.table _ hnode]
  split
  next a ha => exact safe_assignLocal h hL ha hname hv
  · split
    · exact .of_eq rfl (.of_frames (h.defineGlobal name.lexeme hv) rfl rfl (Nat.le_refl _) rfl) trivial
    · exact .fail h

/-- The frame of a scope gets the cell of the next name of the scope. -/
theorem Sound.define {f : FrameRef} {p : Place} {M : Moment} {name : String} {v : Value}
    (h : Sound P W m) (hL : Stands P W m.frames (some f) (p :: L))
    (hexact : m.frames.size f = p.count) (hname : p.site.names[p.count]? = some name)
    (hopen : p.site.IsOpen) (hM : P.moment M) (happends : M.Appends f p.count name)
    (hv : v.Fits P W { m with frames := (m.frames.define f v).2 }) :
    Sound P W { m with frames := (m.frames.define f v).2 } := by
  obtain ⟨frame, N, hget, hN, hi⟩ := instance_of_stands h hL
  rw [Frames.size_of_get? hget] at hexact
  refine ⟨h.table, ?_, fun g frame' N' hg hN' => ?_, ?_, h.natives⟩
  · rw [h.length, Frames.size_frames_define]
  · rw [Frames.get?_define] at hg
    split at hg
    next heq =>
      subst heq
      rw [hget] at hg
      obtain rfl := Option.some.inj hg
      obtain rfl := Option.some.inj (hN.symm.trans hN')
      refine ⟨p.site, hi.happened, hi.creates, hi.link, ?_, fun slot hslot => ?_, ?_, ?_, hi.lineage⟩
      · have hlt := (List.getElem?_eq_some_iff.mp hname).1
        simp only [Array.size_push]
        omega
      · simp only [Array.size_push] at hslot
        by_cases hlast : slot < frame.cells.size
        · exact hi.filled slot hlast
        · obtain rfl : slot = p.count := by omega
          exact ⟨M, name, hM, hname, happends⟩
      · intro f' u htask
        have hsite := hi.creates.site
        rw [htask] at hsite
        rw [← Option.some.inj hsite] at hopen
        exact absurd hopen (by simp [Site.IsOpen])
      · intro name c ms htask
        have hsite := hi.creates.site
        rw [htask] at hsite
        rw [← Option.some.inj hsite] at hopen
        exact absurd hopen (by simp [Site.IsOpen])
    next => exact h.frames g frame' N' hg hN'
  · have hgrown : Grown (some f) W m W { m with frames := (m.frames.define f v).2 } :=
      .of_frames (Frames.grows_define m.frames f v) (List.prefix_refl W)
    have hstored : m.Stores (Value.Fits P W { m with frames := (m.frames.define f v).2 }) :=
      h.stored.imp fun _ => hgrown.fits
    exact hstored.define f hv

/-- The frames after a declaration. -/
def Machine.framesWith (m : Machine) (v : Value) : Frames Value :=
  match m.frame with
  | none => m.frames
  | some f => (m.frames.define f v).2

theorem grows_framesWith (m : Machine) (v : Value) :
    Frames.Grows m.frame m.frames (m.framesWith v) := by
  unfold Machine.framesWith
  split
  · exact .refl _ _
  next f hf =>
    rw [hf]
    exact Frames.grows_define _ _ _

/-- Behind a declaration the frame has the cell of its name. -/
theorem Here.declare (h : Here P W m L) (v : Value) :
    Stands P W (m.framesWith v) m.frame L.declare ∧ L.declare.Proper ∧
      ∀ f p, m.frame = some f → p ∈ L.declare.head? →
        (m.framesWith v).size f = p.count ∧ p.pending = none := by
  obtain ⟨hstands, hproper, hexact⟩ := h
  unfold Machine.framesWith
  cases hf : m.frame with
  | none =>
    rw [hf] at hstands
    cases hstands
    exact ⟨.top, hproper, by simp⟩
  | some f =>
    rw [hf] at hstands
    cases hstands with
    | @frame _ p L frame N hget hN hsite hcount hawaits houter =>
      obtain ⟨hsize, hpending⟩ := hexact f p hf rfl
      have hget' : (m.frames.define f v).2.get? f =
          some { frame with cells := frame.cells.push v } := by
        rw [Frames.get?_define, if_pos rfl, hget]
        rfl
      rw [Frames.size_of_get? hget] at hsize
      refine ⟨.frame hget' hN hsite ?_ ?_ ?_, hproper.declare, ?_⟩
      · simp only [Array.size_push]
        omega
      · intro t value ht
        exact absurd (ht.symm.trans hpending) (by simp)
      · exact houter.mono (List.prefix_refl W) (Frames.grows_define m.frames f v)
      · rintro _ _ ⟨⟩ ⟨⟩
        refine ⟨?_, hpending⟩
        show (m.frames.define f v).2.size f = p.count + 1
        rw [Frames.size_of_get? hget']
        simp only [Array.size_push]
        omega

theorem safe_define {M : Moment} {name : Token} {v : Value} (h : Sound P W m) (hL : Here P W m L)
    (hnext : ∀ p ∈ L.head?, p.site.names[p.count]? = some name.lexeme) (hname : name.Ordinary)
    (hM : P.moment M) (hmachine : M.machine = m) (htask : ∃ u, M.task = .define name u)
    (hv : v.Fits P W { m with frames := m.framesWith v }) :
    Safe P m.frame W m (Machine.define name v) [] fun W' m' _ =>
      W = W' ∧ Here P W' m' L.declare := by
  obtain ⟨hstands', hproper', hexact'⟩ := hL.declare v
  have hgrows := grows_framesWith m v
  cases hf : m.frame with
  | none =>
    have heq : Machine.define name v m = .ok none (m.defineGlobal name.lexeme v) := by
      rw [Machine.define_apply, hf]
    have hframes : m.framesWith v = m.frames := by
      rw [Machine.framesWith, hf]
    rw [hframes] at hv hstands' hexact'
    exact .of_eq heq (.of_frames (h.defineGlobal name.lexeme hv) rfl rfl (Nat.le_refl _) rfl)
      ⟨rfl, hstands', hproper', hexact'⟩
  | some f =>
    have hframes : m.framesWith v = (m.frames.define f v).2 := by
      rw [Machine.framesWith, hf]
    rw [hframes] at hv hstands' hexact' hgrows
    have hsound : Sound P W { m with frames := (m.frames.define f v).2 } := by
      obtain ⟨hstands, -, hexact⟩ := hL
      rw [hf] at hstands
      cases hstands with
      | @frame _ p L frame N hget hN hsite hcount hawaits houter =>
        obtain ⟨hsize, -⟩ := hexact f p hf rfl
        have hlast := hnext p rfl
        refine h.define (.frame hget hN hsite hcount hawaits houter) hsize hlast
          (Site.isOpen_of_name hlast hname.1 hname.2) hM ?_ hv
        obtain ⟨u, htask⟩ := htask
        rw [Moment.Appends, htask, hmachine]
        exact ⟨hf, hsize, rfl⟩
    have heq : Machine.define name v m =
        .ok (some (m.frames.size f)) { m with frames := (m.frames.define f v).2 } := by
      rw [Machine.define_apply, hf]
    rw [← hf]
    exact .of_eq heq ⟨.of_frames hgrows (List.prefix_refl W), rfl, hsound⟩
      ⟨rfl, hstands', hproper', hexact'⟩

theorem fits_framesWith {v u : Value} (h : v.Fits P W m) :
    v.Fits P W { m with frames := m.framesWith u } :=
  (Grown.of_frames (grows_framesWith m u) (List.prefix_refl W)).fits h

end Lox
