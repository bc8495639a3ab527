import Lox.Proofs.Grammar.Exact
import Lox.Proofs.Scope.Succession
import Lox.Proofs.Session.Rejection
import Lox.Proofs.Token.Seam
import Lox.Proofs.Tree.Loose

namespace Lox

open Grammar

/-- The line so many lines further down. What has no line of its own stays on line zero. -/
def lineBelow (lines line : Nat) : Nat := if line = 0 then 0 else lines + line

theorem lineBelow_zero (lines : Nat) : 0 = lineBelow lines 0 := (if_pos rfl).symm

def Diagnostic.below (lines : Nat) (d : Diagnostic) : Diagnostic :=
  { d with line := lineBelow lines d.line }

/-- All lines are further down on the other side. -/
def Link.below (N : Nat → Nat → Prop) (lines : Nat) : Link :=
  ⟨N, fun l l' => l' = lineBelow lines l, lineBelow_zero lines⟩

/-- Lines are the same on the other side, or further down. -/
def Link.spread (N : Nat → Nat → Prop) (lines : Nat) : Link :=
  ⟨N, fun l l' => l' = l ∨ l' = lineBelow lines l, .inl rfl⟩

theorem Diagnostic.Twin.eq_below {N : Nat → Nat → Prop} {lines : Nat} {d d' : Diagnostic}
    (h : d.Twin (.below N lines) d') : d' = d.below lines := by
  obtain ⟨line, fault⟩ := d
  obtain ⟨line', fault'⟩ := d'
  obtain ⟨hline, rfl⟩ := h
  exact congrArg (Diagnostic.mk · fault) hline

theorem lowered_zero (source : String) : lowered 0 source = source := String.ofList_toList

theorem tokens_scan (source : String) : tokens (scan source) =
    wordsOf source ++ [⟨.eof, "", 1 + newlines source.toList⟩] := by
  rw [scan, tokens_itemsFrom, flatMap_text_pieces]
  rfl

theorem tokens_scan_lowered (lines : Nat) (source : String) :
    tokens (scan (lowered lines source)) = (tokens (scan source)).map (Token.down lines) := by
  have hlines : newlines (lowered lines source).toList = lines + newlines source.toList := by
    rw [lowered, String.toList_ofList, newlines_append, newlines, List.count_replicate_self]
  rw [tokens_scan, tokens_scan, wordsOf_lowered, List.map_append, hlines, Nat.add_left_comm]
  rfl

theorem line_pos_of_mem_tokens {source : String} {t : Token} (h : t ∈ tokens (scan source)) :
    0 < t.line := by
  rw [tokens_scan, wordsOf, ← Nat.add_zero 1, wordsFrom_add] at h
  rcases List.mem_append.mp h with h | h
  · obtain ⟨u, -, rfl⟩ := List.mem_map.mp h
    exact Nat.add_pos_left Nat.one_pos _
  · rw [List.mem_singleton.mp h]
    exact Nat.add_pos_left Nat.one_pos _

theorem twin_tokens_lowered (N : Nat → Nat → Prop) (lines more : Nat) (source : String) :
    List.Forall₂ (Token.Twin (.below N more)) (tokens (scan (lowered lines source)))
      (tokens (scan (lowered (more + lines) source))) := by
  rw [tokens_scan_lowered, tokens_scan_lowered, List.forall₂_map_left_iff,
    List.forall₂_map_right_iff]
  refine List.forall₂_same.mpr fun t ht => ⟨rfl, rfl, ?_⟩
  have hpos := line_pos_of_mem_tokens ht
  show more + lines + t.line = lineBelow more (lines + t.line)
  rw [lineBelow, if_neg (by omega), Nat.add_assoc]

theorem untilEnd_tokens_scan (source : String) :
    untilEnd (tokens (scan source)) = wordsOf source := by
  rw [tokens_scan]
  exact untilEnd_append (fun t => ne_eof_of_mem_wordsFrom) rfl

theorem Derives.append {nearest loop : Bool} {ts ts' : List Token} {ss ss' : List Stmt}
    (h : Derives nearest loop .declarations ts ss) (h' : Derives nearest loop .declarations ts' ss') :
    Derives nearest loop .declarations (ts ++ ts') (ss ++ ss') := by
  induction ss generalizing ts with
  | nil =>
    cases h
    exact h'
  | cons s ss ih =>
    cases h with
    | declarations hs hss =>
      rw [List.append_assoc]
      exact .declarations hs (ih hss)

theorem readProgram_result_of_faults {source : String} (h : faults (scan source) = [])
    (firstId : Nat) : (readProgram source firstId).result =
      (read program (tokens (scan source)) firstId).result := by
  rw [readProgram_result, h]

/-- A source without faults is read to what its tokens derive, but for identities. -/
theorem readProgram_of_derives {source : String} {p : List Stmt} (firstId : Nat)
    (hfaults : faults (scan source) = [])
    (h : Derives true false .declarations (untilEnd (tokens (scan source))) p) :
    ∃ q, (readProgram source firstId).result = .ok q ∧
      q.map (Stmt.forget id) = p.map (Stmt.forget id) := by
  obtain ⟨q, hread, hforget⟩ := read_program_of_derives firstId h
  exact ⟨q, (readProgram_result_of_faults hfaults firstId).trans hread, hforget⟩

namespace Session

variable {s s' : Session} {source source' : String}

/-- What is accepted is accepted further down as well, with the same diagnostics there. -/
theorem check_lowered {lines : Nat} {p : List Stmt} {r : Resolution} (more : Nat)
    (hlint : s.lint = s'.lint) (h : s.check (lowered lines source) = .ok (p, r)) :
    ∃ p' r', s'.check (lowered (more + lines) source) = .ok (p', r') ∧
      TwinStatements (.below (Link.counted s.nextId s'.nextId).node more) p p' ∧
      r.Twin (.below (Link.counted s.nextId s'.nextId).node more) r' := by
  obtain ⟨hread, hresolve⟩ := check_eq_ok.mp h
  obtain ⟨hfaults, hread⟩ := readProgram_eq_ok hread
  have hfaults' : faults (scan (lowered (more + lines) source)) = [] :=
    (faults_scan_lowered _ source).mpr ((faults_scan_lowered lines source).mp hfaults)
  have hsteady : (Link.below (Link.counted s.nextId s'.nextId).node more).Steady :=
    Link.steady_counted s.nextId s'.nextId
  have hfirst : (Link.below (Link.counted s.nextId s'.nextId).node more).node s.nextId s'.nextId :=
    ⟨0, rfl, rfl⟩
  obtain ⟨hresult, -⟩ :=
    parallel_read_program hsteady (twin_tokens_lowered _ lines more source) hfirst
  rw [hread] at hresult
  generalize hread' : (read program (tokens (scan (lowered (more + lines) source)))
    s'.nextId).result = result at hresult
  cases hresult with
  | @ok _ p' hp =>
    have htwin := twin_resolve s.lint hp
    rw [hresolve, hlint] at htwin
    generalize hresolve' : resolve s'.lint p' = v at htwin
    cases htwin with
    | @ok _ r' hr =>
      refine ⟨p', r', check_eq_ok.mpr ⟨?_, hresolve'⟩, hp, hr⟩
      rw [readProgram_result_of_faults hfaults', hread']

/-- The tree of the joined source consists of the trees of both, but for identities. -/
theorem read_joined {a b c : Nat} {p p' : List Stmt}
    (h : (readProgram source a).result = .ok p)
    (h' : (readProgram (lowered (newlines source.toList + 1) source') b).result = .ok p') :
    ∃ q q', (readProgram (joined source source') c).result = .ok (q ++ q') ∧
      forgetStatements id p = forgetStatements id q ∧
      forgetStatements id p' = forgetStatements id q' := by
  have hfaults := (readProgram_eq_ok h).1
  have hfaults' := (faults_scan_lowered _ source').mp (readProgram_eq_ok h').1
  have hderives := derives_of_readProgram h
  have hderives' := derives_of_readProgram h'
  rw [untilEnd_tokens_scan] at hderives hderives'
  have hjoined : Derives true false .declarations
      (untilEnd (tokens (scan (joined source source')))) (p ++ p') := by
    rw [untilEnd_tokens_scan, wordsOf_joined hfaults]
    exact Derives.append hderives hderives'
  obtain ⟨w, hread, hforget⟩ :=
    readProgram_of_derives c (faults_scan_joined hfaults hfaults') hjoined
  rw [List.map_append] at hforget
  obtain ⟨q, q', rfl, hq, hq'⟩ := List.map_eq_append_iff.mp hforget
  refine ⟨q, q', hread, ?_, ?_⟩
  · rw [forgetStatements_eq_map, forgetStatements_eq_map, hq]
  · rw [forgetStatements_eq_map, forgetStatements_eq_map, hq']

/-- The nodes at the same place of two lists. -/
def zipped (is is' : List Nat) : Nat → Nat → Prop := fun i i' => (i, i') ∈ is.zip is'

/-- The nodes that corresponded before, and those at the same place of two lists. -/
def paired (N : Nat → Nat → Prop) (is is' : List Nat) : Nat → Nat → Prop :=
  fun i i' => N i i' ∨ zipped is is' i i'

theorem oneToOne_zip {is is' : List Nat} (h : is.Nodup) (h' : is'.Nodup) {i i' k k' : Nat}
    (hi : zipped is is' i i') (hk : zipped is is' k k') : i = k ↔ i' = k' := by
  obtain ⟨j, hj, heq⟩ := List.mem_iff_getElem.mp hi
  obtain ⟨l, hl, heq'⟩ := List.mem_iff_getElem.mp hk
  rw [List.getElem_zip] at heq heq'
  obtain ⟨rfl, rfl⟩ := Prod.mk.inj heq
  obtain ⟨rfl, rfl⟩ := Prod.mk.inj heq'
  rw [h.getElem_inj_iff, h'.getElem_inj_iff]

theorem oneToOne_paired {N : Nat → Nat → Prop} {is is' : List Nat} {a a' : Nat}
    (hone : (Link.ofNodes N).OneToOne) (hN : ∀ i i', N i i' → i < a ∧ i' < a')
    (his : ∀ i ∈ is, a ≤ i) (his' : ∀ i ∈ is', a' ≤ i) (h : is.Nodup) (h' : is'.Nodup) :
    (Link.ofNodes (paired N is is')).OneToOne := by
  have happart : ∀ i i' k k', N i i' → zipped is is' k k' → i ≠ k ∧ i' ≠ k' := by
    intro i i' k k' hi hk
    obtain ⟨hmem, hmem'⟩ := List.of_mem_zip hk
    have hlt := hN i i' hi
    have hle := his k hmem
    have hle' := his' k' hmem'
    omega
  intro i i' k k' hi hk
  rcases hi with hi | hi
  · rcases hk with hk | hk
    · exact hone i i' k k' hi hk
    · obtain ⟨hne, hne'⟩ := happart i i' k k' hi hk
      exact iff_of_false hne hne'
  · rcases hk with hk | hk
    · obtain ⟨hne, hne'⟩ := happart k k' i i' hk hi
      exact iff_of_false hne.symm hne'.symm
    · exact oneToOne_zip h h' hi hk

theorem twinStatements_zipped {K : Link} {ss ss' : List Stmt} (h : TwinStatements K ss ss') :
    TwinStatements { K with node := zipped (idsOfStatements ss) (idsOfStatements ss') } ss ss' := by
  have hlength := h.paired.length_eq
  exact h.relink (List.forall₂_iff_zip.mpr ⟨hlength, id⟩) fun _ _ => id

/-- The joined source is accepted, with the notes and the warnings of both, and their trees are
alike with its parts. -/
theorem check_joined {lines more : Nat} {p p' : List Stmt} {r r' : Resolution}
    (hlint : s'.lint = s.lint) (hlines : more + lines = newlines source.toList + 1)
    (h : s.check source = .ok (p, r)) (h' : s'.check (lowered lines source') = .ok (p', r')) :
    ∃ q q' t t', s.check (joined source source') =
        .ok (q ++ q', ⟨t.addresses ++ t'.addresses, t.warnings ++ t'.warnings⟩) ∧
      TwinStatements (.ofNodes (zipped (idsOfStatements p) (idsOfStatements q))) p q ∧
      r.Twin (.ofNodes (zipped (idsOfStatements p) (idsOfStatements q))) t ∧
      TwinStatements (.below (zipped (idsOfStatements p') (idsOfStatements q')) more) p' q' ∧
      r'.Twin (.below (zipped (idsOfStatements p') (idsOfStatements q')) more) t' := by
  obtain ⟨hread, hresolve⟩ := check_eq_ok.mp h
  obtain ⟨-, hresolve'⟩ := check_eq_ok.mp h'
  rw [hlint] at hresolve'
  obtain ⟨p'', r'', hcheck, hp'', -⟩ := check_lowered more rfl h'
  rw [hlines] at hcheck
  obtain ⟨q, q', hjoined, hq, hq'⟩ :=
    read_joined (c := s.nextId) hread (check_eq_ok.mp hcheck).1
  have hself : TwinStatements (.counted s.nextId s.nextId) p p := by
    have hresult := (twin_readProgram source s.nextId s.nextId).1
    rw [hread] at hresult
    cases hresult with
    | ok hp => exact hp
  have hpq : TwinStatements (.ofNodes (zipped (idsOfStatements p) (idsOfStatements q))) p q :=
    twinStatements_zipped (hself.of_forget q hq)
  have hpq' :
      TwinStatements (.below (zipped (idsOfStatements p') (idsOfStatements q')) more) p' q' :=
    twinStatements_zipped (hp''.of_forget q' hq')
  obtain ⟨t, t', hverdict, ht, ht'⟩ := resolve_append hpq hpq' hresolve hresolve'
  exact ⟨q, q', t, t', check_eq_ok.mpr ⟨hjoined, hverdict⟩, hpq, ht, hpq', ht'⟩

end Session

namespace Machine

theorem interpret_append (n : Nat) (ss ss' : List Stmt) :
    interpret n (ss ++ ss') = (do
      interpret n ss
      interpret n ss') := by
  induction ss with
  | nil => rfl
  | cons s ss ih =>
    show (do interpretOne n s; interpret n (ss ++ ss')) = (do
      (do interpretOne n s; interpret n ss)
      interpret n ss')
    rw [ih, bind_assoc]

/-- A program that follows another one with notes of its own does what the two do as one program
that has all the notes from the beginning. -/
theorem Twin.interpret_after {K₀ K₁ K₂ : Link} {n : Nat} {m m' m₁ : Machine}
    {p q p' q' : List Stmt} {t₁ t₂ u : Std.TreeMap Nat Address} (h : m.Twin K₀ m')
    (h₁ : K₀.Within K₁) (h₂ : K₁.Within K₂) (hp : TwinStatements K₁ p q)
    (hp' : TwinStatements K₂ p' q') (ht₁ : ∀ i i', K₁.node i i' → t₁[i]? = u[i']?)
    (ht₂ : ∀ i i', K₂.node i i' → t₂[i]? = u[i']?)
    (hrun : interpret n p { m with addresses := t₁ } = .ok () m₁) :
    ResultRel (Machine.Twin K₂) (StopTwin K₂) Eq (interpret n p' { m₁ with addresses := t₂ })
      (interpret n (q ++ q') { m' with addresses := u }) := by
  have hfirst := agreeing_interpret n hp _ _ (h.noting h₁ ht₁)
  have hkept := (retaining_interpret n q { m' with addresses := u }).addresses
  have hwhole : interpret n (q ++ q') { m' with addresses := u } =
      EStateM.bind (interpret n q) (fun _ => interpret n q') { m' with addresses := u } :=
    congrFun (interpret_append n q q') _
  rw [hwhole]
  unfold EStateM.bind
  rw [hrun] at hfirst
  generalize interpret n q { m' with addresses := u } = result at hfirst hkept
  cases hfirst with
  | @ok _ _ _ m₁' _ hm₁ =>
    obtain rfl : m₁'.addresses = u := hkept
    exact agreeing_interpret n hp' _ _ (hm₁.noting h₂ ht₂)

theorem noteAddresses_eq {m m' : Machine} (h : m'.addresses = m.addresses)
    (entries : List (Nat × Address)) :
    m'.noteAddresses entries = { m' with addresses := (m.noteAddresses entries).addresses } := by
  rw [noteAddresses, noteAddresses, h]

end Machine

namespace Session

variable {N : Nat → Nat → Prop} {s : Session} {source source' : String}

theorem interpret_lint (s : Session) (n : Nat) (program : List Stmt) :
    (s.interpret n program).2.lint = s.lint := by
  unfold interpret
  split <;> rfl

theorem interpret_eq_done {n : Nat} {program : List Stmt} (h : (s.interpret n program).1 = .done) :
    ∃ m, Machine.interpret n program s.machine = .ok () m ∧
      (s.interpret n program).2 = { s with machine := m } := by
  unfold interpret at h ⊢
  split at h
  next m hm => exact ⟨m, hm, rfl⟩
  next => exact nomatch h
  next => exact nomatch h

theorem within_paired_append {is js is' js' : List Nat} (h : is.length = js.length) {i i' : Nat} :
    (zipped is js i i' → zipped (is ++ is') (js ++ js') i i') ∧
      (zipped is' js' i i' → zipped (is ++ is') (js ++ js') i i') := by
  unfold zipped
  rw [List.zip_append h]
  exact ⟨List.mem_append_left _, List.mem_append_right _⟩

/-- Identities that have been minted one after the other, on each side. -/
theorem nodes_joined {b b' : Nat} {is js is' js' : List Nat} (hs : s.Twin (.ofNodes N) s)
    (h : Fresh s.nextId b (is ++ is')) (h' : Fresh s.nextId b' (js ++ js')) :
    (Link.ofNodes (paired N (is ++ is') (js ++ js'))).OneToOne ∧
    (∀ i i', paired N (is ++ is') (js ++ js') i i' →
      s.machine.addresses[i]? = s.machine.addresses[i']?) ∧
    ∀ i i', paired N is js i i' → i' ∉ js' := by
  have hge : ∀ i ∈ is ++ is', s.nextId ≤ i := fun i hi => (h.range i hi).1
  have hge' : ∀ i ∈ js ++ js', s.nextId ≤ i := fun i hi => (h'.range i hi).1
  refine ⟨oneToOne_paired hs.oneToOne hs.minted hge hge' h.nodup h'.nodup, ?_, ?_⟩
  · rintro i i' (hi | hi)
    · exact hs.machine.addresses i i' hi
    · obtain ⟨hmem, hmem'⟩ := List.of_mem_zip hi
      rw [hs.unnoted i (hge i hmem), hs.unnoted i' (hge' i' hmem')]
  · rintro i i' (hi | hi) hmem
    · have hlt := (hs.minted i i' hi).2
      have hle := hge' i' (List.mem_append_right _ hmem)
      omega
    · exact List.disjoint_of_nodup_append h'.nodup (List.of_mem_zip hi).2 hmem

/-- The notes on two programs, made in two steps, agree with those on the joined program, made at
once. While the first program runs, the notes on the second one are there but are of other nodes. -/
theorem notes_joined {is js is' js' : List Nat} {es fs es' fs' : List (Nat × Address)}
    {m : Machine} (hlength : is.length = js.length)
    (hone : (Link.ofNodes (paired N (is ++ is') (js ++ js'))).OneToOne)
    (hbefore : ∀ i i', paired N (is ++ is') (js ++ js') i i' → m.addresses[i]? = m.addresses[i']?)
    (happart : ∀ i i', paired N is js i i' → i' ∉ js')
    (he : List.Forall₂ (fun x y => zipped is js x.1 y.1 ∧ x.2 = y.2) es fs)
    (he' : List.Forall₂ (fun x y => zipped is' js' x.1 y.1 ∧ x.2 = y.2) es' fs') :
    (∀ i i', paired N is js i i' →
      (m.noteAddresses es).addresses[i]? = (m.noteAddresses (fs ++ fs')).addresses[i']?) ∧
    ∀ i i', paired N (is ++ is') (js ++ js') i i' →
      ((m.noteAddresses es).noteAddresses es').addresses[i]? =
        (m.noteAddresses (fs ++ fs')).addresses[i']? := by
  have hboth : (m.noteAddresses (fs ++ fs')).addresses =
      ((m.noteAddresses fs).noteAddresses fs').addresses := List.foldl_append
  rw [hboth]
  have hfirst : ∀ i i', paired N (is ++ is') (js ++ js') i i' →
      (m.noteAddresses es).addresses[i]? = (m.noteAddresses fs).addresses[i']? := by
    refine getElem?_note_eq hone (he.imp fun x y hxy => ⟨.inr ?_, hxy.2⟩) hbefore
    exact (within_paired_append hlength).1 hxy.1
  refine ⟨fun i i' hi => ?_, getElem?_note_eq hone (he'.imp fun x y hxy => ⟨.inr ?_, hxy.2⟩) hfirst⟩
  · have hi' : paired N (is ++ is') (js ++ js') i i' := hi.imp id (within_paired_append hlength).1
    refine (hfirst i i' hi').trans (getElem?_note_of_notMem (fun a ha => happart i i' hi ?_) _).symm
    have hkeys : List.Forall₂ (fun (y : Nat × Address) (x : Nat × Address) =>
        y.1 ∈ js' ∧ zipped is' js' x.1 y.1) fs' es' :=
      he'.flip.imp fun y x hxy => ⟨(List.of_mem_zip hxy.1).2, hxy.1⟩
    exact ((List.forall₂_and_left _ _).mp hkeys).1 (i', a) ha
  · exact (within_paired_append hlength).2 hxy.1

/-- A run that is told apart from another one by nodes, and by lines that may be further down. -/
structure Continues (N : Nat → Nat → Prop) (more : Nat) (first : Session)
    (second whole : Outcome × Session) : Prop where
  oneToOne : (Link.spread N more).OneToOne
  outcome : second.1.Twin (.spread N more) whole.1
  machine : second.2.machine.Twin (.spread N more) whole.2.machine
  warnings : ∃ ds, second.2.warnings = first.warnings ++ ds ∧
    whole.2.warnings = first.warnings ++ ds.map (Diagnostic.below more)

theorem twin_interpret_of_rel {K : Link} {n : Nat} {p p' : List Stmt} (s s' : Session)
    (h : ResultRel (Machine.Twin K) (Machine.StopTwin K) Eq (Machine.interpret n p s.machine)
      (Machine.interpret n p' s'.machine)) :
    (s.interpret n p).1.Twin K (s'.interpret n p').1 ∧
      (s.interpret n p).2.machine.Twin K (s'.interpret n p').2.machine := by
  unfold interpret
  generalize Machine.interpret n p s.machine = result at h
  generalize Machine.interpret n p' s'.machine = result' at h
  cases h with
  | ok _ hm => exact ⟨.done, hm⟩
  | error he hm =>
    cases he with
    | error he => exact ⟨.failed he, hm⟩
    | exhausted => exact ⟨.exhausted, hm⟩

theorem Accepted.fresh_ids {p : List Stmt} {r : Resolution} (h : s.Accepted source p r) :
    Fresh s.nextId (readProgram source s.nextId).nextId (idsOfStatements p) := by
  rw [← map_id_nodesOfStatements []]
  exact h.fresh

theorem addresses_of_interpret {n : Nat} {p : List Stmt} {r : Resolution} {m : Machine}
    (h : Machine.interpret n p (s.begun source r).machine = .ok () m) :
    m.addresses = (s.machine.noteAddresses r.addresses).addresses := by
  have hretained := (Machine.retaining_interpret n p (s.begun source r).machine).addresses
  rw [h] at hretained
  exact hretained

theorem warnings_joined {M M' : Nat → Nat → Prop} {more : Nat} {r r' t t' : Resolution}
    (h : r.Twin (.ofNodes M) t) (h' : r'.Twin (.below M' more) t') :
    t.warnings ++ t'.warnings = r.warnings ++ r'.warnings.map (Diagnostic.below more) := by
  have hfirst : r.warnings = t.warnings := forall₂_eq h.warnings
  have hsecond : r'.warnings.map (Diagnostic.below more) = t'.warnings := by
    rw [← List.forall₂_eq_eq_eq, List.forall₂_map_left_iff]
    exact h'.warnings.imp fun _ _ hd => hd.eq_below.symm
  rw [hfirst, hsecond]

/-- Two sources, one after the other, and the joined source. -/
theorem run_joined_of_twin {n lines more : Nat} {p p' : List Stmt} {r r' : Resolution}
    (hs : s.Twin (.ofNodes N) s) (hlines : more + lines = newlines source.toList + 1)
    (h : s.check source = .ok (p, r)) (hdone : (s.run n source).1 = .done)
    (h' : (s.run n source).2.check (lowered lines source') = .ok (p', r')) :
    ∃ M, Continues M more (s.run n source).2 ((s.run n source).2.run n (lowered lines source'))
      (s.run n (joined source source')) := by
  rw [run_of_accepted n h] at hdone h' ⊢
  obtain ⟨m₁, hm₁, hfirst⟩ := interpret_eq_done hdone
  rw [hfirst] at h' ⊢
  generalize hs₁ : ({ s.begun source r with machine := m₁ } : Session) = s₁ at h' ⊢
  have hlint : s₁.lint = s.lint := by rw [← hs₁]; rfl
  obtain ⟨q, q', t, t', hjoined, hpq, ht, hpq', ht'⟩ := check_joined hlint hlines h h'
  rw [run_of_accepted n h', run_of_accepted n hjoined]
  have hnext : s₁.nextId = (readProgram source s.nextId).nextId := by rw [← hs₁]; rfl
  have hfresh := (accepted_of_check h).fresh_ids
  have hfresh' := (accepted_of_check h').fresh_ids
  have hwhole := (accepted_of_check hjoined).fresh_ids
  rw [hnext] at hfresh'
  have hboth := hfresh.append hfresh' (le_nextId source _) (le_nextId _ _)
  rw [idsOfStatements_eq_flatMap, List.flatMap_append, ← idsOfStatements_eq_flatMap,
    ← idsOfStatements_eq_flatMap] at hwhole
  have hlength := hpq.paired.length_eq
  obtain ⟨hone, hbefore, happart⟩ := nodes_joined hs hboth hwhole
  obtain ⟨hnotes, hnotes'⟩ :=
    notes_joined hlength hone hbefore happart ht.addresses ht'.addresses
  have hp : TwinStatements
      (.spread (paired N (idsOfStatements p) (idsOfStatements q)) more) p q :=
    hpq.relink (hpq.paired.imp fun _ _ => .inr) fun _ _ heq => .inl heq.symm
  have hp' : TwinStatements (.spread (paired N (idsOfStatements p ++ idsOfStatements p')
      (idsOfStatements q ++ idsOfStatements q')) more) p' q' :=
    hpq'.relink (hpq'.paired.imp fun _ _ hi => .inr ((within_paired_append hlength).2 hi))
      fun _ _ => .inr
  have hwithin : (Link.ofNodes N).Within
      (.spread (paired N (idsOfStatements p) (idsOfStatements q)) more) :=
    ⟨fun _ _ => .inl, fun _ _ heq => .inl heq.symm⟩
  have hwithin' : (Link.spread (paired N (idsOfStatements p) (idsOfStatements q)) more).Within
      (.spread (paired N (idsOfStatements p ++ idsOfStatements p')
        (idsOfStatements q ++ idsOfStatements q')) more) :=
    ⟨fun _ _ hi => hi.imp id (within_paired_append hlength).1, fun _ _ => id⟩
  have hrun := hs.machine.interpret_after hwithin hwithin' hp hp' hnotes hnotes' hm₁
  have hmachine₁ : s₁.machine = m₁ := by rw [← hs₁]
  have hbegun : (s₁.begun (lowered lines source') r').machine = { m₁ with
      addresses := ((s.machine.noteAddresses r.addresses).noteAddresses r'.addresses).addresses } := by
    rw [← Machine.noteAddresses_eq (addresses_of_interpret hm₁), ← hmachine₁]
    rfl
  rw [← hbegun] at hrun
  obtain ⟨houtcome, hmachine⟩ := twin_interpret_of_rel (s₁.begun (lowered lines source') r')
    (s.begun (joined source source') ⟨t.addresses ++ t'.addresses, t.warnings ++ t'.warnings⟩) hrun
  refine ⟨_, hone, houtcome, hmachine, r'.warnings, ?_, ?_⟩
  · rw [interpret_warnings]
    rfl
  · rw [interpret_warnings, ← hs₁]
    show s.warnings ++ (t.warnings ++ t'.warnings) = s.warnings ++ r.warnings ++ _
    rw [warnings_joined ht ht', List.append_assoc]

end Session

theorem exists_eq_ok {ε α : Type} {x : Except ε α} (h : x.isOk) : ∃ a, x = .ok a := by
  cases x with
  | ok a => exact ⟨a, rfl⟩
  | error e => exact absurd h (by simp [Except.isOk, Except.toBool])

def Outcome.isDone : Outcome → Bool
  | .done => true
  | _ => false

theorem Outcome.isDone_iff {o : Outcome} : o.isDone ↔ o = .done := by
  cases o <;> simp [Outcome.isDone]

/-- Two sources that a session accepts run one after the other as the joined source runs at once, if
the first one succeeds. The outcome, the output, the globals and the warnings are the same but for
the nodes and the lines of the second source, which stand further down. The line breaks that put
them there may be moved to its front, so that it is `more` lines that remain; with none remaining
all lines are the same. -/
theorem run_joined (lint : Lint) (clock : Clock) (requests : List Request)
    (hrequests : ∀ request ∈ requests, request.Blind) (n : Nat) (source source' : String) :
    let s := (Session.new lint clock).serve requests
    (s.check source).isOk → (s.check source').isOk → (s.run n source).1 = .done →
    ∀ lines more, more + lines = newlines source.toList + 1 →
      ∃ N, Session.Continues N more (s.run n source).2
        ((s.run n source).2.run n (lowered lines source')) (s.run n (joined source source')) := by
  intro s h h' hdone lines more hlines
  obtain ⟨N, hs⟩ := Session.twin_serve lint clock hrequests
  obtain ⟨⟨p, r⟩, hp⟩ := exists_eq_ok h
  obtain ⟨⟨p', r'⟩, hp'⟩ := exists_eq_ok h'
  have hlint : s.lint = (s.run n source).2.lint := by
    rw [Session.run_of_accepted n hp, Session.interpret_lint]
    rfl
  rw [← lowered_zero source'] at hp'
  obtain ⟨p'', r'', hp'', -, -⟩ := Session.check_lowered lines hlint hp'
  exact Session.run_joined_of_twin hs hlines hp hdone hp''

/-- A function and a closure over a local, and after them a source that calls both and fails. -/
theorem run_joined_closure :
    let requests : List Request :=
      [.defineNative "same" 1 fun _ vs => .ok (vs.headD .nil), .setEchoes true]
    let source := "var f; { var x = true; f = fun () { return x; }; }\nfun g(h) { var y; h(); } // \x7b"
    let source' := "print f; { var z; print same(f)(); }\ng(f);\nf.field;"
    let s := (Session.new .warn (.ticking 0 1)).serve requests
    (∀ request ∈ requests, request.Blind) ∧ (s.check source).isOk ∧ (s.check source').isOk ∧
      (s.run 90 source).1 = .done ∧
      ∃ N, Session.Continues N 2 (s.run 90 source).2
        ((s.run 90 source).2.run 90 (lowered 0 source')) (s.run 90 (joined source source')) := by
  intro requests source source' s
  have hsame : NativeBody.Blind fun _ vs => .ok (vs.headD .nil) := by
    intro K turn vs vs' hvs
    cases hvs with
    | nil => exact .ok .nil
    | cons hv _ => exact .ok hv
  have hrequests : ∀ request ∈ requests, request.Blind := by
    simp only [requests, List.mem_cons, List.not_mem_nil, or_false]
    rintro request (rfl | rfl)
    · exact hsame
    · exact trivial
  obtain ⟨h, h', hdone, hlines⟩ : (s.check source).isOk ∧ (s.check source').isOk ∧
      (s.run 90 source).1.isDone ∧ 2 + 0 = newlines source.toList + 1 := by decide +kernel
  have hdone' := Outcome.isDone_iff.mp hdone
  exact ⟨hrequests, h, h', hdone', run_joined .warn (.ticking 0 1) requests hrequests 90 source
    source' h h' hdone' 0 2 hlines⟩

end Lox
