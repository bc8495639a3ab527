import Lox.Proofs.Token.Exact

namespace Lox

section Newline

variable (cs ds : List Char)

theorem takeWhile_append_newline {P : Char → Bool} (hP : P '\n' = false) :
    (cs ++ '\n' :: ds).takeWhile P = cs.takeWhile P := by
  induction cs with
  | nil => simp [hP]
  | cons c cs ih =>
    rw [List.cons_append, List.takeWhile_cons, List.takeWhile_cons, ih]

theorem dropWhile_append_newline {P : Char → Bool} (hP : P '\n' = false) :
    (cs ++ '\n' :: ds).dropWhile P = cs.dropWhile P ++ '\n' :: ds := by
  induction cs with
  | nil => simp [hP]
  | cons c cs ih =>
    rw [List.cons_append, List.dropWhile_cons, List.dropWhile_cons, ih]
    split <;> rfl

/-- The step with more text behind it, after a newline. -/
def Continued (step : Piece × List Char) : Piece × List Char := (step.1, step.2 ++ '\n' :: ds)

theorem numeral_append_newline : numeral (cs ++ '\n' :: ds) =
    ((numeral cs).1, (numeral cs).2.1, (numeral cs).2.2 ++ '\n' :: ds) := by
  have hdigit : Char.isDigit '\n' = false := rfl
  have htake := takeWhile_append_newline cs ds hdigit
  have hdrop := dropWhile_append_newline cs ds hdigit
  rcases numeral_cases cs with ⟨rest, hrest, hplaces, hnumeral⟩ | ⟨hnone, hnumeral⟩
  · have hdrop' : (cs ++ '\n' :: ds).dropWhile Char.isDigit = '.' :: (rest ++ '\n' :: ds) := by
      rw [hdrop, hrest, List.cons_append]
    rcases numeral_cases (cs ++ '\n' :: ds) with ⟨rest', hrest', -, hnumeral'⟩ | ⟨hnone', -⟩
    · obtain rfl : rest ++ '\n' :: ds = rest' := (List.cons.inj (hdrop'.symm.trans hrest')).2
      rw [hnumeral, hnumeral', htake, takeWhile_append_newline rest ds hdigit,
        dropWhile_append_newline rest ds hdigit]
    · have hzero := hnone' _ hdrop'
      rw [takeWhile_append_newline rest ds hdigit] at hzero
      exact absurd hzero hplaces
  · rcases numeral_cases (cs ++ '\n' :: ds) with ⟨rest', hrest', hplaces', -⟩ | ⟨-, hnumeral'⟩
    · rw [hdrop] at hrest'
      cases hrest : cs.dropWhile Char.isDigit with
      | nil =>
        rw [hrest] at hrest'
        exact absurd (List.cons.inj hrest').1 (by decide)
      | cons d rest =>
        rw [hrest, List.cons_append] at hrest'
        obtain ⟨rfl, rfl⟩ := List.cons.inj hrest'
        rw [takeWhile_append_newline rest ds hdigit] at hplaces'
        exact absurd (hnone rest hrest) hplaces'
    · rw [hnumeral, hnumeral', htake, hdrop]

theorem ofOperator_append_newline (c : Char) (short long : Kind) :
    Piece.ofOperator c short long (cs ++ '\n' :: ds) =
      Continued ds (Piece.ofOperator c short long cs) := by
  cases cs with
  | nil => rfl
  | cons d cs =>
    by_cases hequal : d = '='
    · subst hequal
      rfl
    · have hshort : ∀ rest, Piece.ofOperator c short long (d :: rest) =
          (.word short [c], d :: rest) := by
        intro rest
        unfold Piece.ofOperator
        split
        next heq => exact absurd (List.cons.inj heq).1 hequal
        next => rfl
      rw [List.cons_append, hshort, hshort]
      rfl

theorem ofComment_append_newline :
    Piece.ofComment (cs ++ '\n' :: ds) = Continued ds (Piece.ofComment cs) := by
  have hline : decide ('\n' ≠ '\n') = false := rfl
  unfold Piece.ofComment Continued
  rw [takeWhile_append_newline cs ds (P := fun c => decide (c ≠ '\n')) hline,
    dropWhile_append_newline cs ds (P := fun c => decide (c ≠ '\n')) hline]

theorem ofNumeral_append_newline :
    Piece.ofNumeral (cs ++ '\n' :: ds) = Continued ds (Piece.ofNumeral cs) := by
  rw [ofNumeral_eq, ofNumeral_eq, numeral_append_newline]
  rfl

theorem ofName_append_newline :
    Piece.ofName (cs ++ '\n' :: ds) = Continued ds (Piece.ofName cs) := by
  have hname : isNameChar '\n' = false := rfl
  unfold Piece.ofName Continued
  rw [takeWhile_append_newline cs ds hname, dropWhile_append_newline cs ds hname]

theorem ofString_append_newline (hclosed : ∀ text, (Piece.ofString cs).1 ≠ .openString text) :
    Piece.ofString (cs ++ '\n' :: ds) = Continued ds (Piece.ofString cs) := by
  have hcs := List.takeWhile_append_dropWhile (p := fun c => decide (c ≠ '"')) (l := cs)
  unfold Piece.ofString at hclosed ⊢
  dsimp only at hclosed ⊢
  cases hrest : cs.dropWhile (· ≠ '"') with
  | nil =>
    rw [hrest] at hclosed
    exact absurd rfl (hclosed _)
  | cons quote rest =>
    have hdrop : (cs ++ '\n' :: ds).dropWhile (· ≠ '"') = quote :: rest ++ '\n' :: ds := by
      rw [List.dropWhile_append, hrest]
      rfl
    have hshorter : (cs.takeWhile (· ≠ '"')).length ≠ cs.length := by
      have hlen := congrArg List.length hcs
      rw [hrest, List.length_append, List.length_cons] at hlen
      omega
    have htake : (cs ++ '\n' :: ds).takeWhile (· ≠ '"') = cs.takeWhile (· ≠ '"') := by
      rw [List.takeWhile_append, if_neg hshorter]
    rw [hdrop, htake]
    rfl

/-- A piece that does not go on for ever ends before the next newline, or after one of its own. -/
theorem next_append_newline (c : Char) (hclosed : ∀ text, (Piece.next c cs).1 ≠ .openString text) :
    Piece.next c (cs ++ '\n' :: ds) = Continued ds (Piece.next c cs) := by
  unfold Piece.next at hclosed ⊢
  split at hclosed
  all_goals try rfl
  all_goals try exact ofOperator_append_newline cs ds _ _ _
  · cases cs with
    | nil => rfl
    | cons d cs =>
      by_cases hslash : d = '/'
      · subst hslash
        exact ofComment_append_newline cs ds
      · have hword : ∀ rest, Piece.next '/' (d :: rest) = (.word .slash ['/'], d :: rest) := by
          intro rest
          simp only [Piece.next]
          split
          next heq => exact absurd (List.cons.inj heq).1 hslash
          next => rfl
        exact (hword _).trans (congrArg (Continued ds) (hword cs)).symm
  · exact ofString_append_newline cs ds hclosed
  · split
    next => rfl
    next =>
      split
      next => exact ofNumeral_append_newline (c :: cs) ds
      next =>
        split
        next => exact ofName_append_newline (c :: cs) ds
        next => rfl

end Newline

/-- No string is left open in the text. -/
def Closed (cs : List Char) : Prop := ∀ text, .openString text ∉ pieces cs

theorem pieces_append_newline {cs : List Char} (hclosed : Closed cs) (ds : List Char) :
    pieces (cs ++ '\n' :: ds) = pieces cs ++ .blank '\n' :: pieces ds := by
  -- The rest behind the first piece is shorter, and closed as well.
  induction hlen : cs.length using Nat.strong_induction_on generalizing cs with
  | _ n ih =>
    cases cs with
    | nil => exact pieces_cons '\n' ds
    | cons c cs =>
      have hpieces := pieces_cons c cs
      have hfirst : ∀ text, (Piece.next c cs).1 ≠ .openString text := by
        intro text heq
        apply hclosed text
        rw [hpieces, heq]
        exact List.mem_cons_self
      have hrest : Closed (Piece.next c cs).2 := by
        intro text hmem
        apply hclosed text
        rw [hpieces]
        exact List.mem_cons_of_mem _ hmem
      have hshorter : (Piece.next c cs).2.length < n := by
        have hle := length_next c cs
        rw [List.length_cons] at hlen
        omega
      rw [List.cons_append, pieces_cons, next_append_newline cs ds c hfirst, hpieces,
        List.cons_append]
      exact congrArg (_ :: ·) (ih _ hshorter hrest rfl)

/-- Nothing is lost between the pieces. -/
theorem flatMap_text_pieces (cs : List Char) : (pieces cs).flatMap Piece.text = cs := by
  induction hlen : cs.length using Nat.strong_induction_on generalizing cs with
  | _ n ih =>
    cases cs with
    | nil => rfl
    | cons c cs =>
      have hshorter : (Piece.next c cs).2.length < n := by
        have hle := length_next c cs
        rw [List.length_cons] at hlen
        omega
      rw [pieces_cons, List.flatMap_cons, ih _ hshorter _ rfl, text_append_next]

/-- The tokens without the end, if the first piece starts on this line. -/
def wordsFrom (line : Nat) : List Piece → List Token
  | [] => []
  | .word kind text :: ps =>
    ⟨kind, String.ofList text, line + newlines text⟩ :: wordsFrom (line + newlines text) ps
  | p :: ps => wordsFrom (line + newlines p.text) ps

theorem line_pieces_cons (line : Nat) (p : Piece) (ps : List Piece) :
    line + newlines ((p :: ps).flatMap Piece.text) =
      line + newlines p.text + newlines (ps.flatMap Piece.text) := by
  rw [List.flatMap_cons, newlines_append, Nat.add_assoc]

theorem tokens_itemsFrom (line : Nat) (ps : List Piece) : tokens (itemsFrom line ps) =
    wordsFrom line ps ++ [⟨.eof, "", line + newlines (ps.flatMap Piece.text)⟩] := by
  induction ps generalizing line with
  | nil => rfl
  | cons p ps ih =>
    rw [line_pieces_cons]
    cases p with
    | word kind text => exact congrArg (_ :: ·) (ih _)
    | blank c | comment text | stray c | openString text => exact ih _

theorem wordsFrom_append (line : Nat) (before after : List Piece) :
    wordsFrom line (before ++ after) = wordsFrom line before ++
      wordsFrom (line + newlines (before.flatMap Piece.text)) after := by
  induction before generalizing line with
  | nil => rfl
  | cons p before ih =>
    rw [line_pieces_cons]
    cases p with
    | word kind text => exact congrArg (_ :: ·) (ih _)
    | blank c | comment text | stray c | openString text => exact ih _

/-- The same token so many lines further down. -/
def Token.down (lines : Nat) (t : Token) : Token := { t with line := lines + t.line }

theorem wordsFrom_add (lines line : Nat) (ps : List Piece) :
    wordsFrom (lines + line) ps = (wordsFrom line ps).map (Token.down lines) := by
  induction ps generalizing line with
  | nil => rfl
  | cons p ps ih =>
    have hline : lines + line + newlines p.text = lines + (line + newlines p.text) :=
      Nat.add_assoc _ _ _
    have ih' := ih (line + newlines p.text)
    rw [← hline] at ih'
    cases p with
    | word kind text =>
      exact congrArg₂ List.cons (congrArg (Token.mk kind (String.ofList text)) hline) ih'
    | blank c | comment text | stray c | openString text => exact ih'

theorem IsWord.ne_eof {k : Kind} {w : List Char} (h : IsWord k w) : k ≠ .eof := by
  obtain ⟨c, cs, rfl, hnext⟩ := h [] (endsWord_nil k)
  exact (lexeme_of_next hnext).ne_eof

theorem kind_of_mem_wordsFrom {line : Nat} {ps : List Piece} {t : Token}
    (h : t ∈ wordsFrom line ps) : ∃ w, .word t.kind w ∈ ps := by
  induction ps generalizing line with
  | nil => cases h
  | cons p ps ih =>
    have hrest : ∀ {line}, t ∈ wordsFrom line ps → ∃ w, .word t.kind w ∈ p :: ps := by
      intro line hmem
      obtain ⟨w, hw⟩ := ih hmem
      exact ⟨w, List.mem_cons_of_mem p hw⟩
    cases p with
    | word kind text =>
      rcases List.mem_cons.mp h with rfl | h
      · exact ⟨text, List.mem_cons_self⟩
      · exact hrest h
    | blank c | comment text | stray c | openString text => exact hrest h

/-- No token but the end is one. -/
theorem ne_eof_of_mem_wordsFrom {line : Nat} {cs : List Char} {t : Token}
    (h : t ∈ wordsFrom line (pieces cs)) : t.kind ≠ .eof := by
  obtain ⟨w, hw⟩ := kind_of_mem_wordsFrom h
  exact (isWord_of_mem_pieces _ cs _ hw t.kind w rfl).ne_eof

/-- There is nothing wrong with the piece. -/
def Piece.Sound : Piece → Prop
  | .stray _ | .openString _ => False
  | _ => True

theorem faults_itemsFrom_eq_nil_iff (line : Nat) (ps : List Piece) :
    faults (itemsFrom line ps) = [] ↔ ∀ p ∈ ps, p.Sound := by
  induction ps generalizing line with
  | nil => exact ⟨fun _ => List.forall_mem_nil _, fun _ => rfl⟩
  | cons p ps ih =>
    rw [List.forall_mem_cons]
    cases p with
    | word kind text | blank c | comment text =>
      exact (ih _).trans (iff_of_eq (true_and _)).symm
    | stray c | openString text =>
      exact ⟨fun h => absurd h (List.cons_ne_nil _ _), fun h => h.1.elim⟩

/-- The tokens of a source without the end. -/
def wordsOf (source : String) : List Token := wordsFrom 1 (pieces source.toList)

/-- The source with some empty lines in front. -/
def lowered (lines : Nat) (source : String) : String :=
  String.ofList (List.replicate lines '\n' ++ source.toList)

theorem pieces_replicate_newline (lines : Nat) (cs : List Char) :
    pieces (List.replicate lines '\n' ++ cs) =
      List.replicate lines (.blank '\n') ++ pieces cs := by
  induction lines with
  | zero => rfl
  | succ lines ih =>
    rw [List.replicate_succ, List.cons_append, pieces_cons, List.replicate_succ, List.cons_append]
    exact congrArg (_ :: ·) ih

theorem wordsOf_lowered (lines : Nat) (source : String) :
    wordsOf (lowered lines source) = (wordsOf source).map (Token.down lines) := by
  have hlines : ∀ n, newlines ((List.replicate n (Piece.blank '\n')).flatMap Piece.text) = n := by
    intro n
    induction n with
    | zero => rfl
    | succ n ih =>
      rw [List.replicate_succ, List.flatMap_cons, newlines_append, ih, Nat.add_comm]
      rfl
  have hwords : ∀ n line, wordsFrom line (List.replicate n (.blank '\n')) = [] := by
    intro n
    induction n with
    | zero => exact fun _ => rfl
    | succ n ih => exact fun line => ih (line + 1)
  unfold wordsOf lowered
  rw [String.toList_ofList, pieces_replicate_newline, wordsFrom_append, hwords, hlines,
    Nat.add_comm, wordsFrom_add]
  rfl

theorem faults_scan_lowered (lines : Nat) (source : String) :
    faults (scan (lowered lines source)) = [] ↔ faults (scan source) = [] := by
  unfold scan lowered
  rw [String.toList_ofList, pieces_replicate_newline, faults_itemsFrom_eq_nil_iff,
    faults_itemsFrom_eq_nil_iff, List.forall_mem_append]
  refine and_iff_right fun p hp => ?_
  obtain ⟨-, rfl⟩ := List.mem_replicate.mp hp
  trivial

/-- Two sources with a newline in between. -/
def joined (source source' : String) : String := source ++ "\n" ++ source'

theorem pieces_joined {source source' : String} (h : faults (scan source) = []) :
    pieces (joined source source').toList =
      pieces source.toList ++ .blank '\n' :: pieces source'.toList := by
  have hclosed : Closed source.toList := by
    intro text hmem
    exact (faults_itemsFrom_eq_nil_iff 1 _).mp h _ hmem
  have htext : (joined source source').toList = source.toList ++ '\n' :: source'.toList := by
    unfold joined
    rw [String.toList_append, String.toList_append, List.append_assoc]
    rfl
  rw [htext, pieces_append_newline hclosed]

/-- The tokens of both, those of the second further down by the lines of the first. -/
theorem wordsOf_joined {source source' : String} (h : faults (scan source) = []) :
    wordsOf (joined source source') =
      wordsOf source ++ wordsOf (lowered (newlines source.toList + 1) source') := by
  rw [wordsOf_lowered]
  unfold wordsOf
  rw [pieces_joined h, wordsFrom_append, flatMap_text_pieces]
  show _ ++ wordsFrom (1 + newlines source.toList + 1) _ = _
  rw [← wordsFrom_add, Nat.add_comm 1 (newlines source.toList)]

theorem faults_scan_joined {source source' : String} (h : faults (scan source) = [])
    (h' : faults (scan source') = []) : faults (scan (joined source source')) = [] := by
  unfold scan at h h' ⊢
  rw [faults_itemsFrom_eq_nil_iff] at h h' ⊢
  rw [pieces_joined ((faults_itemsFrom_eq_nil_iff 1 _).mpr h), List.forall_mem_append,
    List.forall_mem_cons]
  exact ⟨h, trivial, h'⟩

end Lox
