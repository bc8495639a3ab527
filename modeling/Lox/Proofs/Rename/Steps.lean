import Lox.Proofs.Rename.Walk

namespace Lox

variable {R : Renaming}

namespace Aim

/-- The address, behind the declaration. -/
def address? : Aim → Option Address
  | .declared a => some a
  | _ => none

/-- What is known of the scopes around a point from where the local is. -/
def Fits (R : Renaming) (L : Lexical) : Aim → Prop
  | .coming passed _ => ∃ p ∈ L.head?, p.names.length = passed
  | .declared _ => R.old ≠ "this" ∧ R.old ≠ "super"
  | _ => True

variable {aim : Aim} {L L' : Lexical} {t : Token}

@[simp] theorem address?_child (i : Nat) (aim : Aim) : (aim.child i).address? = aim.address? := by
  cases aim with
  | ahead path slot =>
    cases path with
    | nil => rfl
    | cons j path =>
      rw [child_ahead]
      split <;> rfl
  | _ => rfl

@[simp] theorem address?_skip (aim : Aim) : aim.skip.address? = aim.address? := by
  cases aim with
  | coming passed left => cases left <;> rfl
  | _ => rfl

@[simp] theorem inward_pass (aim : Aim) :
    aim.pass.address?.bind Address.inward? = aim.address? := by
  cases aim <;> rfl

@[simp] theorem inward_enter (aim : Aim) :
    aim.enter.address?.bind Address.inward? = aim.address? := by
  cases aim with
  | ahead path slot => cases path <;> rfl
  | _ => rfl

@[simp] theorem inward_past (t : Token) (aim : Aim) :
    (R.past t aim).address?.bind Address.inward? = aim.address?.bind Address.inward? := by
  cases aim with
  | coming passed left =>
    cases left with
    | zero =>
      rw [Renaming.past_coming]
      split <;> rfl
    | succ left => rfl
  | _ => rfl

theorem Fits.child (h : aim.Fits R L) (i : Nat) : (aim.child i).Fits R L := by
  cases aim with
  | ahead path slot =>
    cases path with
    | nil => trivial
    | cons j path =>
      rw [child_ahead]
      split <;> trivial
  | _ => exact h

theorem Fits.pass (h : aim.Fits R L) : aim.pass.Fits R L' := by
  cases aim with
  | declared a => exact h
  | _ => trivial

theorem Fits.enter (h : aim.Fits R L) (site : Site) : aim.enter.Fits R (site.enter 0 L) := by
  cases aim with
  | ahead path slot =>
    cases path with
    | nil => exact ⟨_, rfl, by simp [Place.names]⟩
    | cons j path => trivial
  | coming passed left => trivial
  | declared a => exact h
  | gone => trivial

end Aim

/-- The next name comes into sight with its initializer and stays. -/
theorem Place.names_next {p : Place} {name : String} (hp : p.pending = none)
    (hname : p.site.names[p.count]? = some name) (x : Token × Expr) :
    Place.names { p with pending := some x } = p.names ++ [name] ∧
      Place.names { p with count := p.count + 1 } = p.names ++ [name] := by
  have htake : p.site.names.take (p.count + 1) = p.site.names.take p.count ++ [name] := by
    rw [List.take_add_one, hname]
    rfl
  simp [Place.names, hp, htake]

namespace Aim

variable {aim : Aim} {L : Lexical} {t : Token}

/-- Behind any declaration one name more is in sight. -/
theorem Fits.skip (h : aim.Fits R L)
    (hL : ∀ p ∈ L.head?, p.pending = none ∧ p.site.names[p.count]? = some t.lexeme) (value : Expr) :
    aim.skip.Fits R (L.await t value) ∧ aim.skip.Fits R L.declare := by
  cases aim with
  | coming passed left =>
    cases left with
    | zero => exact ⟨trivial, trivial⟩
    | succ left =>
      obtain ⟨p, hp, rfl⟩ := h
      cases L with
      | nil => simp at hp
      | cons p' outer =>
        obtain rfl := Option.some.inj hp
        obtain ⟨hpending, hname⟩ := hL p' rfl
        obtain ⟨hawait, hdeclare⟩ := Place.names_next hpending hname (t, value)
        exact ⟨⟨_, rfl, by rw [hawait]; simp⟩, ⟨_, rfl, by rw [hdeclare]; simp⟩⟩
  | declared a => exact ⟨h, h⟩
  | _ => exact ⟨trivial, trivial⟩

theorem Fits.past (h : aim.Fits R L)
    (hL : ∀ p ∈ L.head?, p.pending = none ∧ p.site.names[p.count]? = some t.lexeme) (value : Expr)
    (ht : t.Ordinary) :
    (R.past t aim).Fits R (L.await t value) ∧ (R.past t aim).Fits R L.declare := by
  have hskip := h.skip hL value
  cases aim with
  | coming passed left =>
    cases left with
    | zero =>
      rw [Renaming.past_coming]
      split
      next hold =>
        rw [Token.Ordinary, hold] at ht
        exact ⟨ht, ht⟩
      next => exact ⟨trivial, trivial⟩
    | succ left => exact hskip
  | _ => exact hskip

end Aim

theorem Renaming.renamed_respell (t : Token) : t.Renamed R (R.respell t) := by
  unfold respell
  split
  next hold => exact .inr ⟨hold, rfl⟩
  next => exact .inl rfl

theorem Renaming.renamed_used (id : Nat) (t : Token) (aim : Aim) :
    t.Renamed R (R.used id t aim) := by
  unfold used
  split
  · split
    · exact renamed_respell t
    · exact .inl rfl
  · exact .inl rfl

namespace Walk.Renamed

variable {w w' : Walk} {a? : Option Address} {aim : Aim} {L : Lexical} {id : Nat} {t t' : Token}

theorem find (h : w.Renamed R a? w') {f f' : Finding} (hf : f.Renamed R f') :
    (w.find f).Renamed R a? (w'.find f') := by
  refine ⟨h.scopes, ?_⟩
  rw [Walk.find, Walk.find, Array.toList_push, Array.toList_push]
  exact List.rel_append h.findings (.cons hf .nil)

theorem withScopes (h : w.Renamed R a? w') {b? : Option Address} {scopes scopes' : List Scope}
    (hscopes : Scope.Renamed R b? scopes scopes') :
    Walk.Renamed R b? { w with scopes } { w' with scopes := scopes' } :=
  ⟨hscopes, h.findings⟩

theorem enter (h : w.Renamed R (a?.bind Address.inward?) w') {s : Scope} (hs : s.Plain R)
    (ha : ∀ slot, a? ≠ some ⟨0, slot⟩) : (w.enter s).Renamed R a? (w'.enter s) := by
  refine h.withScopes (Scope.renamed_cons.mpr ⟨_, ?_, hs, ?_, h.scopes⟩)
  · unfold Scope.renameHead
    split
    next s slot => exact absurd rfl (ha slot)
    next => rfl
  · rintro slot rfl
    exact absurd rfl (ha slot)

theorem leave (h : w.Renamed R a? w') :
    w.leave.Renamed R (a?.bind Address.inward?) w'.leave := by
  have hscopes := h.scopes
  unfold Walk.leave
  generalize w.scopes = scopes at hscopes ⊢
  generalize w'.scopes = scopes' at hscopes ⊢
  cases scopes with
  | nil =>
    obtain ⟨rfl, rfl⟩ := Scope.renamed_nil.mp hscopes
    exact h
  | cons s outer =>
    obtain ⟨outer', rfl, -, hholds, houter⟩ := Scope.renamed_cons.mp hscopes
    refine List.rel_foldl (P := Walk.Renamed R _) (fun w w' hw d d' hd => ?_)
      (h.withScopes houter) (Scope.unread_renameHead hholds)
    exact hw.find (.unread hd)

/-- What is found on both sides at one address is read on both. -/
theorem read (h : w.Renamed R a? w')
    (heq : Scope.address? w'.scopes t'.lexeme = Scope.address? w.scopes t.lexeme) :
    (w.read id t).Renamed R a? (w'.read id t') := by
  rw [Walk.read, Walk.read, heq]
  cases Scope.address? w.scopes t.lexeme with
  | none => exact h
  | some a => exact (h.withScopes (h.scopes.useAt a)).find (.address id a)

theorem refer (h : w.Renamed R a? w')
    (heq : Scope.address? w'.scopes t'.lexeme = Scope.address? w.scopes t.lexeme) :
    (w.refer id t).Renamed R a? (w'.refer id t') := by
  rw [Walk.refer, Walk.refer, heq]
  cases Scope.address? w.scopes t.lexeme with
  | none => exact h
  | some a => exact h.find (.address id a)

theorem address?_used (h : w.Renamed R aim.address? w') (hfit : Scope.FitAll w.scopes L)
    (hnote : ∀ a, (id, a) ∈ R.notes ↔ L.lookup t.lexeme = some a) (hne : t.lexeme ≠ R.new) :
    Scope.address? w'.scopes (R.used id t aim).lexeme = Scope.address? w.scopes t.lexeme := by
  cases aim with
  | declared a =>
    have hfound := hfit.address? t.lexeme
    rw [Renaming.used_declared]
    split
    next hmem =>
      have ha := hfound.trans ((hnote a).mp hmem)
      have hold : t.lexeme = R.old :=
        Option.some.inj ((Scope.name?_of_address? ha).symm.trans (h.scopes.named a rfl))
      rw [Renaming.respell, if_pos hold, ha]
      exact h.scopes.address?_new ha
    next hmem =>
      refine h.scopes.address?_same hne fun b hb ha => hmem ((hnote a).mpr ?_)
      obtain rfl := Option.some.inj hb
      rw [← hfound, ha]
  | _ => exact h.scopes.address?_same hne fun b hb => nomatch hb

theorem address?_keyword (h : w.Renamed R aim.address? w') (haim : aim.Fits R L)
    (ht : t.lexeme = "this" ∨ t.lexeme = "super") (hne : t.lexeme ≠ R.new) :
    Scope.address? w'.scopes t.lexeme = Scope.address? w.scopes t.lexeme := by
  cases aim with
  | declared a =>
    refine h.scopes.address?_same hne fun b hb ha => ?_
    have hold : t.lexeme = R.old :=
      Option.some.inj ((Scope.name?_of_address? ha).symm.trans (h.scopes.named b hb))
    rcases ht with ht | ht
    · exact haim.1 (hold.symm.trans ht)
    · exact haim.2 (hold.symm.trans ht)
  | _ => exact h.scopes.address?_same hne fun b hb => nomatch hb

/-- Outside of the initializer of a name, one is outside of it under the new name too. -/
theorem isPending_used (h : w.Renamed R aim.address? w') (hne : t.lexeme ≠ R.new)
    (hp : w.isPending t = false) : w'.isPending (R.used id t aim) = false := by
  have hscopes := h.scopes
  unfold Walk.isPending at hp ⊢
  generalize w.scopes = scopes at hscopes hp
  generalize w'.scopes = scopes' at hscopes ⊢
  cases scopes with
  | nil =>
    obtain ⟨-, rfl⟩ := Scope.renamed_nil.mp hscopes
    rfl
  | cons s outer =>
    obtain ⟨outer', rfl, hplain, hholds, -⟩ := Scope.renamed_cons.mp hscopes
    exact Scope.isPending_renameHead hplain hholds (Renaming.renamed_used id t aim) hne hp

theorem readVariable (h : w.Renamed R aim.address? w') (hfit : Scope.FitAll w.scopes L)
    (hnote : ∀ a, (id, a) ∈ R.notes ↔ L.lookup t.lexeme = some a) (hne : t.lexeme ≠ R.new)
    (hclean : (w.readVariable id t).Clean) :
    (w.readVariable id t).Renamed R aim.address? (w'.readVariable id (R.used id t aim)) := by
  unfold Walk.readVariable at *
  cases hp : w.isPending t with
  | true =>
    rw [hp, if_pos rfl] at hclean
    exact absurd ((keeps_read _ _ _).clean hclean) (not_clean_misuse _ _ _)
  | false =>
    rw [h.isPending_used hne hp]
    exact h.read (h.address?_used hfit hnote hne)

theorem assignVariable (h : w.Renamed R aim.address? w') (hfit : Scope.FitAll w.scopes L)
    (hnote : ∀ a, (id, a) ∈ R.notes ↔ L.lookup t.lexeme = some a) (hne : t.lexeme ≠ R.new)
    (hclean : (w.assignVariable id t).Clean) :
    (w.assignVariable id t).Renamed R aim.address? (w'.assignVariable id (R.used id t aim)) := by
  unfold Walk.assignVariable at *
  cases hp : w.isPending t with
  | true =>
    rw [hp, if_pos rfl] at hclean
    exact absurd ((keeps_refer _ _ _).clean hclean) (not_clean_misuse _ _ _)
  | false =>
    rw [h.isPending_used hne hp]
    exact h.refer (h.address?_used hfit hnote hne)

theorem readThis (h : w.Renamed R aim.address? w') (haim : aim.Fits R L) (c : ClassContext)
    (ht : t.lexeme = "this") (hne : t.lexeme ≠ R.new) (hclean : (w.readThis c id t).Clean) :
    (w.readThis c id t).Renamed R aim.address? (w'.readThis c id t) := by
  cases c with
  | none => exact absurd hclean (not_clean_misuse _ _ _)
  | base | subclass => exact h.read (h.address?_keyword haim (.inl ht) hne)

theorem readSuper (h : w.Renamed R aim.address? w') (haim : aim.Fits R L) (c : ClassContext)
    (ht : t.lexeme = "super") (hne : t.lexeme ≠ R.new) (hclean : (w.readSuper c id t).Clean) :
    (w.readSuper c id t).Renamed R aim.address? (w'.readSuper c id t) := by
  cases c with
  | none | base => exact absurd hclean (not_clean_misuse _ _ _)
  | subclass => exact h.read (h.address?_keyword haim (.inr ht) hne)

theorem declareOther (h : w.Renamed R a? w') (hne : t.lexeme ≠ R.new)
    (hclean : (w.declare t).Clean) : (w.declare t).Renamed R a? (w'.declare t) := by
  have hscopes := h.scopes
  have hfree := Walk.slot?_of_clean_declare hclean
  unfold Walk.declare
  generalize w.scopes = scopes at hscopes hfree ⊢
  generalize w'.scopes = scopes' at hscopes ⊢
  cases scopes with
  | nil =>
    obtain ⟨-, rfl⟩ := Scope.renamed_nil.mp hscopes
    exact h
  | cons s outer =>
    have hslot := hfree s rfl
    obtain ⟨s', outer', rfl, hslot', hdeclare⟩ := hscopes.declare hslot hne t.line
    simp only [hslot, hslot']
    exact h.withScopes hdeclare

theorem defineOther (h : w.Renamed R a? w') (hne : t.lexeme ≠ R.new)
    (hother : ∀ slot, a? = some ⟨0, slot⟩ → t.lexeme ≠ R.old) :
    (w.define t).Renamed R a? (w'.define t) := by
  have hscopes := h.scopes
  unfold Walk.define
  generalize w.scopes = scopes at hscopes ⊢
  generalize w'.scopes = scopes' at hscopes ⊢
  cases scopes with
  | nil =>
    obtain ⟨-, rfl⟩ := Scope.renamed_nil.mp hscopes
    exact h
  | cons s outer =>
    obtain ⟨s', outer', rfl, hdefine⟩ := hscopes.define hne hother
    exact h.withScopes hdefine

/-- The local itself is declared, in a scope with so many names. -/
theorem declareNew {slot : Nat} (h : w.Renamed R none w') (hold : t.lexeme = R.old)
    (hne : t.lexeme ≠ R.new) (hslot : ∃ s ∈ w.scopes.head?, s.length = slot)
    (hclean : (w.declare t).Clean) :
    (w.declare t).Renamed R (some ⟨0, slot⟩) (w'.declare { t with lexeme := R.new }) := by
  have hscopes := h.scopes
  have hfree := Walk.slot?_of_clean_declare hclean
  unfold Walk.declare
  generalize w.scopes = scopes at hscopes hslot hfree ⊢
  generalize w'.scopes = scopes' at hscopes ⊢
  obtain ⟨s, hs, rfl⟩ := hslot
  cases scopes with
  | nil => simp at hs
  | cons s' outer =>
    obtain rfl := Option.some.inj hs
    rw [hold] at hfree hne ⊢
    have hslot := hfree s' rfl
    obtain ⟨rfl, hslot', hdeclare⟩ := hscopes.declareNew hslot hne t.line
    simp only [hslot, hslot']
    exact h.withScopes hdeclare

theorem defineNew {slot : Nat} (h : w.Renamed R (some ⟨0, slot⟩) w') (hold : t.lexeme = R.old) :
    (w.define t).Renamed R (some ⟨0, slot⟩) (w'.define { t with lexeme := R.new }) := by
  have hscopes := h.scopes
  unfold Walk.define
  generalize w.scopes = scopes at hscopes ⊢
  generalize w'.scopes = scopes' at hscopes ⊢
  cases scopes with
  | nil => exact absurd (Scope.renamed_nil.mp hscopes).1 (by simp)
  | cons s outer =>
    obtain ⟨s', outer', rfl, hdefine⟩ := hscopes.defineNew
    rw [hold]
    exact h.withScopes hdefine

/-- In a scope with the local nothing else is declared by the old name. -/
theorem ne_old_of_declare (h : w.Renamed R a? w') (hclean : (w.declare t).Clean) (slot : Nat)
    (ha : a? = some ⟨0, slot⟩) : t.lexeme ≠ R.old := by
  have hscopes := h.scopes
  have hfree := Walk.slot?_of_clean_declare hclean
  generalize w.scopes = scopes at hscopes hfree
  cases scopes with
  | nil => exact absurd ((Scope.renamed_nil.mp hscopes).1.symm.trans ha) (by simp)
  | cons s outer =>
    obtain ⟨-, -, -, hholds, -⟩ := Scope.renamed_cons.mp hscopes
    obtain ⟨b, hb, hname⟩ := hholds slot ha
    have hmem : R.old ∈ s.map (·.name) :=
      List.mem_map.mpr ⟨b, List.mem_of_getElem? hb, hname⟩
    intro hold
    exact Scope.slot?_eq_none_iff.mp (hfree s rfl) (hold ▸ hmem)

theorem declareVariable (h : w.Renamed R aim.address? w') (hfit : Scope.FitAll w.scopes L)
    (haim : aim.Fits R L) (hne : t.lexeme ≠ R.new) (hclean : (w.declare t).Clean) :
    (w.declare t).Renamed R (R.past t aim).address? (w'.declare (R.declared t aim)) := by
  have hother : (w.declare t).Renamed R aim.address? (w'.declare t) := h.declareOther hne hclean
  cases aim with
  | coming passed left =>
    cases left with
    | succ left => exact hother
    | zero =>
      show (w.declare t).Renamed R (R.past t (.coming passed 0)).address? (w'.declare (R.respell t))
      rw [Renaming.past_coming, Renaming.respell]
      split
      next hold =>
        refine h.declareNew hold hne ?_ hclean
        obtain ⟨p, hp, hlength⟩ := haim
        generalize w.scopes = scopes at hfit
        cases hfit with
        | nil => simp at hp
        | @cons s p' _ _ hs _ =>
          obtain rfl := Option.some.inj hp
          rw [← hs.1, List.length_map] at hlength
          exact ⟨s, rfl, hlength⟩
      next => exact hother
  | _ => exact hother

theorem defineVariable (h : w.Renamed R (R.past t aim).address? w') (hne : t.lexeme ≠ R.new)
    (hother : ∀ slot, aim.address? = some ⟨0, slot⟩ → t.lexeme ≠ R.old) :
    (w.define t).Renamed R (R.past t aim).address? (w'.define (R.declared t aim)) := by
  cases aim with
  | coming passed left =>
    cases left with
    | succ left => exact h.defineOther hne (by simp [Renaming.past, Aim.skip, Aim.address?])
    | zero =>
      show (w.define t).Renamed R (R.past t (.coming passed 0)).address? (w'.define (R.respell t))
      rw [Renaming.past_coming] at h ⊢
      rw [Renaming.respell]
      split at h
      next hold =>
        rw [if_pos hold, if_pos hold]
        exact h.defineNew hold
      next hold =>
        rw [if_neg hold, if_neg hold]
        exact h.defineOther hne (by simp [Aim.address?])
  | declared a => exact h.defineOther hne hother
  | _ => exact h.defineOther hne (by simp [Renaming.past, Aim.skip, Aim.address?])

theorem introduceVariable (h : w.Renamed R aim.address? w') (hfit : Scope.FitAll w.scopes L)
    (haim : aim.Fits R L) (hne : t.lexeme ≠ R.new) (hclean : (w.introduce t).Clean) :
    (w.introduce t).Renamed R (R.past t aim).address? (w'.introduce (R.declared t aim)) := by
  have hdeclare := (keeps_define _ t).clean hclean
  exact (h.declareVariable hfit haim hne hdeclare).defineVariable hne (h.ne_old_of_declare hdeclare)

theorem introduceOther (h : w.Renamed R a? w') (hne : t.lexeme ≠ R.new)
    (hclean : (w.introduce t).Clean) : (w.introduce t).Renamed R a? (w'.introduce t) := by
  have hdeclare := (keeps_define _ t).clean hclean
  exact (h.declareOther hne hdeclare).defineOther hne (h.ne_old_of_declare hdeclare)

/-- Parameters are introduced one after the other, in the order of the names of their scope. -/
theorem introduceAll {site : Site} {rest : List String} (params : List Token)
    (before : List String) (hnames : site.names = before ++ (params.map (·.lexeme) ++ rest))
    (h : w.Renamed R aim.address? w') (hfit : Scope.FitAll w.scopes (site.enter before.length L))
    (haim : aim.Fits R (site.enter before.length L)) (hne : ∀ t ∈ params, t.lexeme ≠ R.new)
    (hordinary : ∀ t ∈ params, t.Ordinary) (hclean : (params.foldl Walk.introduce w).Clean) :
    (params.foldl Walk.introduce w).Renamed R (R.pastAll params aim).address?
        ((R.params params aim).foldl Walk.introduce w') ∧
      (R.pastAll params aim).Fits R (site.enter (before.length + params.length) L) := by
  induction params generalizing before w w' aim with
  | nil => exact ⟨h, haim⟩
  | cons t ts ih =>
    have hclean' := (keeps_introduceAll ts (w.introduce t)).clean hclean
    obtain ⟨hnet, hnets⟩ := List.forall_mem_cons.mp hne
    obtain ⟨hordinaryt, hordinaryts⟩ := List.forall_mem_cons.mp hordinary
    have hL := @Site.expects_next L site before _ t hnames
    have hlength : before.length + 1 = (before ++ [t.lexeme]).length := by simp
    have hfit' := (fitAll_introduce hfit hL hclean').1
    have haim' := (haim.past hL (.literal .nil) hordinaryt).2
    have hsum : (before ++ [t.lexeme]).length + ts.length = before.length + (t :: ts).length := by
      simp only [List.length_append, List.length_cons, List.length_nil]
      omega
    rw [← hsum]
    exact ih (before ++ [t.lexeme]) (by simp [hnames])
      (h.introduceVariable hfit haim hnet hclean') (hlength ▸ hfit') (hlength ▸ haim') hnets
      hordinaryts hclean

end Walk.Renamed

end Lox
