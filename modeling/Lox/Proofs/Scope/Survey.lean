import Lox.Proofs.Scope.Entries
import Lox.Proofs.Scope.Usage

namespace Lox

/-- The node marks as read what it looks up: a name at this slot of the scope that has `level`
others around it. -/
def Node.Marks (node : Node) (level slot : Nat) : Prop :=
  node.role ≠ .write ∧
    ∃ depth, node.address? = some ⟨depth, slot⟩ ∧ depth + level + 1 = node.context.length

/-- Some node in its scope marks what is declared here. -/
def Declaration.Marked (d : Declaration) : Prop :=
  ∃ node ∈ d.site.nodes d.around, node.Marks d.around.length d.slot

open Classical in
/-- The reports of the declarations that no node marks. -/
noncomputable def unmarkedReports (ds : List Declaration) : List Diagnostic :=
  (ds.filter fun d => ¬d.Marked).map Declaration.report

@[simp] theorem unmarkedReports_nil : unmarkedReports [] = [] := rfl

@[simp] theorem unmarkedReports_append (ds ds' : List Declaration) :
    unmarkedReports (ds ++ ds') = unmarkedReports ds ++ unmarkedReports ds' := by
  simp [unmarkedReports]

/-- No name can be seen twice in one scope. -/
def Lexical.Distinct (L : Lexical) : Prop := ∀ p ∈ L, p.names.Nodup

/-- Before a declaration fewer names can be seen than behind it. -/
theorem Lexical.Distinct.of_declare {L : Lexical} (h : L.declare.Distinct)
    (hL : ∀ p ∈ L.head?, p.pending = none) : L.Distinct := by
  cases L with
  | nil => exact h
  | cons p L =>
    obtain ⟨hp, hrest⟩ := List.forall_mem_cons.mp h
    have hpending := hL p rfl
    refine List.forall_mem_cons.mpr ⟨hp.sublist ?_, hrest⟩
    simp only [Place.names, hpending, Option.isSome_none, Bool.false_eq_true, if_false]
    exact (List.take_prefix_take_left (Nat.le_succ _)).sublist

namespace Walk

variable {w w' w'' : Walk} {L L' L'' : Lexical} {ts ts' : List Token} {ds ds' : List Declaration}
  {ns ns' : List Node} {name : Token}

def labels (w : Walk) : List (List (String × Nat)) := w.scopes.map Scope.labels

/-- The labels when these names have been declared in the innermost scope. -/
def addLabels (ts : List Token) (labels : List (List (String × Nat))) :
    List (List (String × Nat)) := labels.modifyHead (· ++ ts.map Token.label)

@[simp] theorem addLabels_nil (labels : List (List (String × Nat))) :
    addLabels [] labels = labels := by
  cases labels <;> simp [addLabels]

theorem addLabels_append (ts ts' : List Token) (labels : List (List (String × Nat))) :
    addLabels (ts ++ ts') labels = addLabels ts' (addLabels ts labels) := by
  cases labels <;> simp [addLabels]

/-- No name has been declared twice in one scope. -/
def Distinct (w : Walk) : Prop := ∀ s ∈ w.labels, (s.map Prod.fst).Nodup

/-- The reports of names that have not been read. -/
def unread (w : Walk) : List Diagnostic := w.findings.toList.filterMap (Finding.warning? .warn)

/-- From `w` to `w'` these tokens have been declared, the scopes of these declarations been closed,
and these nodes have looked up their names. -/
structure Surveys (w w' : Walk) (L : Lexical) (ts : List Token) (ds : List Declaration)
    (ns : List Node) : Prop extends Finds w w' L ns where
  labels : w'.labels = addLabels ts w.labels
  distinct : w.Distinct → w'.Distinct ∧ ∀ node ∈ ns, node.context.Distinct
  used : ∀ level < w.scopes.length, ∀ slot, Scope.Used w'.scopes level slot ↔
    Scope.Used w.scopes level slot ∨ ∃ node ∈ ns, node.Marks level slot
  unread : w'.unread = w.unread ++ unmarkedReports ds

theorem Surveys.length (h : Surveys w w' L ts ds ns) : w'.scopes.length = w.scopes.length := by
  have hlen := congrArg List.length h.labels
  simpa [Walk.labels, addLabels] using hlen

theorem Surveys.trans (h : Surveys w w' L ts ds ns) (h' : Surveys w' w'' L' ts' ds' ns') :
    Surveys w w'' L' (ts ++ ts') (ds ++ ds') (ns ++ ns') := by
  refine ⟨h.toFinds.trans h'.toFinds, ?_, fun hw => ?_, fun level hlevel slot => ?_, ?_⟩
  · rw [h'.labels, h.labels, addLabels_append]
  · obtain ⟨hw', hns⟩ := h.distinct hw
    obtain ⟨hw'', hns'⟩ := h'.distinct hw'
    exact ⟨hw'', List.forall_mem_append.mpr ⟨hns, hns'⟩⟩
  · rw [h'.used level (by rw [h.length]; exact hlevel), h.used level hlevel, or_assoc]
    refine or_congr_right ?_
    simp only [List.mem_append, or_and_right, exists_or]
  · rw [h'.unread, h.unread, unmarkedReports_append, List.append_assoc]

/-- Steps that look up nothing and close nothing may follow. -/
theorem Surveys.then (h : Surveys w w' L ts ds ns) (h' : Surveys w' w'' L' ts' [] []) :
    Surveys w w'' L' (ts ++ ts') ds ns := by
  have htrans := h.trans h'
  rwa [List.append_nil, List.append_nil] at htrans

/-- A step that declares nothing and looks up nothing. -/
theorem Surveys.quiet (h : Scope.FitAll w'.scopes L) (he : w'.entries = w.entries)
    (hlabels : w'.labels = w.labels)
    (hused : ∀ level slot, Scope.Used w'.scopes level slot ↔ Scope.Used w.scopes level slot)
    (hunread : w'.unread = w.unread) : Surveys w w' L [] [] [] where
  toFinds := .nil h he
  labels := hlabels.trans (addLabels_nil _).symm
  distinct hw := ⟨by rwa [Distinct, hlabels], by simp⟩
  used level _ slot := by simp [hused]
  unread := by simp [hunread]

theorem Surveys.nil (h : Scope.FitAll w.scopes L) : Surveys w w L [] [] [] :=
  .quiet h rfl rfl (fun _ _ => Iff.rfl) rfl

theorem distinct_iff (h : Scope.FitAll w.scopes L) : w.Distinct ↔ L.Distinct := by
  unfold Distinct labels Lexical.Distinct
  generalize w.scopes = scopes at h
  induction h with
  | nil => simp
  | @cons s p scopes L hs _ ih =>
    have hnames : s.labels.map Prod.fst = p.names := (Scope.map_fst_labels s).trans hs.1
    rw [List.map_cons, List.forall_mem_cons, List.forall_mem_cons, hnames, ih]

@[simp] theorem unread_find_address (w : Walk) (id : Nat) (a : Address) :
    (w.find (.address id a)).unread = w.unread := by
  simp [unread, find, Finding.warning?]

theorem surveys_read {node : Node} (h : Scope.FitAll w.scopes node.context) (hnode : node.Ready)
    (hrole : node.role ≠ .write) :
    Surveys w (w.read node.id node.name) node.context [] [] [node] := by
  have hfinds := finds_read h hnode
  have hmarks : ∀ {level slot}, (∃ n ∈ [node], n.Marks level slot) ↔
      ∃ depth, node.address? = some ⟨depth, slot⟩ ∧ depth + level + 1 = w.scopes.length := by
    intro level slot
    simp [Node.Marks, hrole, h.length_eq]
  refine ⟨hfinds, ?_, fun hw => ?_, fun level _ slot => ?_, ?_⟩
  all_goals
    unfold read at *
    have haddress : Scope.address? w.scopes node.name.lexeme = node.address? := h.address? _
  · rw [addLabels_nil]
    split
    · rfl
    · exact Scope.labels_useAt _ _
  · refine ⟨?_, by simpa using (distinct_iff h).mp hw⟩
    split
    · exact hw
    next a _ =>
      have hlabels := Scope.labels_useAt w.scopes a
      unfold Distinct labels at *
      exact hlabels.symm ▸ hw
  · rw [hmarks]
    cases ha : node.address? with
    | none =>
      rw [ha] at haddress
      simp [haddress]
    | some a =>
      rw [ha] at haddress
      rw [haddress]
      refine (Scope.used_useAt haddress).trans (or_congr_right ?_)
      obtain ⟨depth, slot'⟩ := a
      constructor
      · rintro ⟨hdepth, rfl⟩
        exact ⟨depth, rfl, hdepth⟩
      · rintro ⟨_, heq, hdepth⟩
        obtain ⟨rfl, rfl⟩ := Address.mk.inj (Option.some.inj heq)
        exact ⟨hdepth, rfl⟩
  · split
    · simp
    · simp [unread, find, Finding.warning?]

theorem surveys_refer {node : Node} (h : Scope.FitAll w.scopes node.context) (hnode : node.Ready)
    (hrole : node.role = .write) :
    Surveys w (w.refer node.id node.name) node.context [] [] [node] := by
  have hfinds := finds_refer h hnode
  have hscopes : (w.refer node.id node.name).scopes = w.scopes := by
    unfold refer
    split <;> rfl
  refine ⟨hfinds, ?_, fun hw => ?_, fun level _ slot => ?_, ?_⟩
  · rw [addLabels_nil, labels, hscopes, labels]
  · refine ⟨by rwa [Distinct, labels, hscopes], by simpa using (distinct_iff h).mp hw⟩
  · rw [hscopes]
    simp [Node.Marks, hrole]
  · unfold refer
    split
    · simp
    · simp

theorem surveys_readVariable (h : Scope.FitAll w.scopes L) (id : Nat)
    (hclean : (w.readVariable id name).Clean) :
    Surveys w (w.readVariable id name) L [] [] [⟨.read, id, name, L⟩] := by
  unfold readVariable at *
  cases hp : w.isPending name with
  | true =>
    rw [hp, if_pos rfl] at hclean
    exact absurd ((keeps_read _ _ _).clean hclean) (not_clean_misuse _ _ _)
  | false => exact surveys_read h (ready_of_not_isPending h hp .read id) nofun

theorem surveys_assignVariable (h : Scope.FitAll w.scopes L) (id : Nat)
    (hclean : (w.assignVariable id name).Clean) :
    Surveys w (w.assignVariable id name) L [] [] [⟨.write, id, name, L⟩] := by
  unfold assignVariable at *
  cases hp : w.isPending name with
  | true =>
    rw [hp, if_pos rfl] at hclean
    exact absurd ((keeps_refer _ _ _).clean hclean) (not_clean_misuse _ _ _)
  | false => exact surveys_refer h (ready_of_not_isPending h hp .write id) rfl

theorem surveys_readThis {c : ClassContext} {id : Nat} (h : Scope.FitAll w.scopes L)
    (hclean : (w.readThis c id name).Clean) :
    Surveys w (w.readThis c id name) L [] [] [⟨.this, id, name, L⟩] := by
  have hread : Surveys w (w.read id name) L [] [] [⟨.this, id, name, L⟩] :=
    @surveys_read w ⟨.this, id, name, L⟩ h (by simp [Node.Ready]) nofun
  cases c with
  | none => exact absurd hclean (not_clean_misuse _ _ _)
  | base => exact hread
  | subclass => exact hread

theorem surveys_readSuper {c : ClassContext} {id : Nat} (h : Scope.FitAll w.scopes L)
    (hclean : (w.readSuper c id name).Clean) :
    Surveys w (w.readSuper c id name) L [] [] [⟨.super, id, name, L⟩] := by
  cases c with
  | none => exact absurd hclean (not_clean_misuse _ _ _)
  | base => exact absurd hclean (not_clean_misuse _ _ _)
  | subclass => exact @surveys_read w ⟨.super, id, name, L⟩ h (by simp [Node.Ready]) nofun

theorem surveys_declare (h : Scope.FitAll w.scopes L)
    (hL : ∀ p ∈ L.head?, p.pending = none ∧ p.site.names[p.count]? = some name.lexeme)
    (hclean : (w.declare name).Clean) (value : Expr) :
    Surveys w (w.declare name) (L.await name value) [name] [] [] := by
  obtain ⟨hs, he⟩ := fitAll_declare h hL hclean value
  obtain ⟨scopes, findings⟩ := w
  cases h with
  | nil => exact ⟨.nil hs he, rfl, fun hw => ⟨hw, by simp⟩, by simp, by simp [unread, declare]⟩
  | @cons s p scopes L hs' hscopes =>
    have hslot := slot?_of_clean_declare hclean s rfl
    unfold declare at *
    simp only [hslot] at hs he ⊢
    refine ⟨.nil hs he, ?_, fun hw => ⟨?_, by simp⟩, fun level _ slot => ?_, by simp [unread]⟩
    · simp [labels, Scope.labels_declare, Token.label, addLabels]
    · obtain ⟨hs'', hrest⟩ := List.forall_mem_cons.mp hw
      refine List.forall_mem_cons.mpr ⟨?_, hrest⟩
      rw [Scope.map_fst_labels] at hs''
      have hnot := Scope.slot?_eq_none_iff.mp hslot
      rw [Scope.labels_declare, List.map_append, Scope.map_fst_labels]
      exact List.concat_eq_append ▸ List.Nodup.concat hnot hs''
    · rw [Scope.used_cons_congr fun _ => Scope.isUsed_declare]
      simp

theorem surveys_define {value : Expr} (h : Scope.FitAll w.scopes (L.await name value))
    (hL : ∀ p ∈ L.head?, p.pending = none) : Surveys w (w.define name) L.declare [] [] [] := by
  obtain ⟨hs, he⟩ := fitAll_define h hL
  obtain ⟨scopes, findings⟩ := w
  cases scopes with
  | nil => exact .quiet hs he rfl (fun _ _ => Iff.rfl) rfl
  | cons s scopes =>
    refine .quiet hs he ?_ (fun level slot => ?_) rfl
    · simp [labels, define, Scope.labels_define]
    · exact Scope.used_cons_congr fun _ => Scope.isUsed_define

theorem surveys_introduce (h : Scope.FitAll w.scopes L)
    (hL : ∀ p ∈ L.head?, p.pending = none ∧ p.site.names[p.count]? = some name.lexeme)
    (hclean : (w.introduce name).Clean) : Surveys w (w.introduce name) L.declare [name] [] [] := by
  have hdeclare := surveys_declare h hL ((keeps_define _ _).clean hclean) (.literal .nil)
  exact hdeclare.then (surveys_define hdeclare.scopes fun p hp => (hL p hp).1)

theorem leave_findings (s : Scope) (scopes : List Scope) (findings : Array Finding) :
    (⟨s :: scopes, findings⟩ : Walk).leave.scopes = scopes ∧
      (⟨s :: scopes, findings⟩ : Walk).leave.unread =
        (⟨s :: scopes, findings⟩ : Walk).unread ++ s.unread := by
  have hfold : ∀ (reports : List Diagnostic) (w : Walk),
      (reports.foldl (fun w d => w.find (.unread d)) w).scopes = w.scopes ∧
        (reports.foldl (fun w d => w.find (.unread d)) w).unread = w.unread ++ reports := by
    intro reports
    induction reports with
    | nil => exact fun w => ⟨rfl, by simp⟩
    | cons d reports ih =>
      intro w
      obtain ⟨hscopes, hunread⟩ := ih (w.find (.unread d))
      refine ⟨hscopes, hunread.trans ?_⟩
      simp [unread, find, Finding.warning?]
  exact hfold s.unread ⟨scopes, findings⟩

/-- A scope is closed again, and reports the declarations `ds'` as far as they are unmarked. -/
theorem Surveys.leave {s : Scope} (hw : Scope.FitAll w.scopes L)
    (h : Surveys (w.enter s) w' L' ts ds ns) (htail : L'.tail = L)
    (hnodup : (s.labels.map Prod.fst).Nodup)
    (hreports : ∀ s' : Scope, s'.labels = s.labels ++ ts.map Token.label →
      (∀ slot, s'.IsUsed slot ↔ s.IsUsed slot ∨ ∃ node ∈ ns, node.Marks L.length slot) →
        s'.unread = unmarkedReports ds') : Surveys w w'.leave L [] (ds ++ ds') ns := by
  have hlen : w.scopes.length = L.length := hw.length_eq
  obtain ⟨hleave, hentries⟩ := fitAll_leave h.scopes
  have hfinds : Finds w w'.leave L ns :=
    Finds.of_enter (h.toFinds.then (htail ▸ hleave) hentries)
  have hlabels := h.labels
  have hdistinct := h.distinct
  have hused := h.used
  have hunread := h.unread
  obtain ⟨scopes, findings⟩ := w'
  cases scopes with
  | nil => simp [Walk.labels, enter, addLabels] at hlabels
  | cons s' scopes =>
    obtain ⟨hscopes, hread⟩ := leave_findings s' scopes findings
    obtain ⟨hs', hrest⟩ := List.cons.inj hlabels
    have hlength : scopes.length = w.scopes.length := by
      have hlen' := congrArg List.length hrest
      simpa [Walk.labels] using hlen'
    refine ⟨hfinds, ?_, fun hw' => ?_, fun level hlevel slot => ?_, ?_⟩
    · rw [addLabels_nil, Walk.labels, hscopes]
      exact hrest
    · obtain ⟨hall, hns⟩ := hdistinct (List.forall_mem_cons.mpr ⟨hnodup, hw'⟩)
      refine ⟨?_, hns⟩
      rw [Distinct, Walk.labels, hscopes]
      exact (List.forall_mem_cons.mp hall).2
    · have hlevel' : level < scopes.length := hlength ▸ hlevel
      have hin := hused level (by simp only [enter, List.length_cons]; omega) slot
      rw [Scope.used_cons_of_lt hlevel'] at hin
      rw [hscopes, hin]
      exact or_congr_left (Scope.used_cons_of_lt hlevel)
    · rw [hread, hunread, unmarkedReports_append, ← List.append_assoc]
      congr 1
      refine hreports s' hs' fun slot => ?_
      have hin := hused L.length (by simp only [enter, List.length_cons]; omega) slot
      rw [← hlen] at hin ⊢
      rw [← hlength, Scope.used_cons_length, hlength] at hin
      exact hin.trans (or_congr_left Scope.used_cons_length)

/-- A scope of the text reports what no node in it has marked. -/
theorem Surveys.leave_text {site : Site} (hw : Scope.FitAll w.scopes L)
    (h : Surveys (w.enter []) w' L' site.tokens ds (site.nodes L)) (htail : L'.tail = L) :
    Surveys w w'.leave L [] (ds ++ site.declarations L) (site.nodes L) := by
  refine h.leave hw htail (by simp [Scope.labels]) fun s' hlabels hused => ?_
  let marked (slot : Nat) : Prop := ∃ node ∈ site.nodes L, node.Marks L.length slot
  have hslots : ∀ slot, s'.IsUsed slot ↔ marked (slot + 0) :=
    fun slot => (hused slot).trans (by simp [marked])
  rw [Scope.unread_eq s' site.tokens 0 hlabels hslots, unmarkedReports, Site.declarations,
    List.filter_map, List.map_map]
  rfl

/-- A scope of `this` or `super` has nothing to report. -/
theorem Surveys.leave_implicit {text : String} {line : Nat} (hw : Scope.FitAll w.scopes L)
    (h : Surveys (w.enter (Scope.implicit text line)) w' L' [] ds ns) (htail : L'.tail = L) :
    Surveys w w'.leave L [] ds ns := by
  have hleave : Surveys w w'.leave L [] (ds ++ []) ns := by
    refine h.leave hw htail (by simp [Scope.labels, Scope.implicit]) fun s' hlabels hused => ?_
    obtain ⟨b, hb, hread⟩ : s'.IsUsed 0 := (hused 0).mpr (.inl ⟨_, rfl, rfl⟩)
    have hlen := congrArg List.length hlabels
    cases s' with
    | nil => simp at hb
    | cons b' s' =>
      obtain rfl : s' = [] := by simpa [Scope.labels, Scope.implicit] using hlen
      obtain rfl := Option.some.inj hb
      simp [Scope.unread, hread]
  rwa [List.append_nil] at hleave

end Walk

end Lox
