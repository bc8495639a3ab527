import Lox.Proofs.Token.Exact

namespace Lox

def Item.line : Item → Nat
  | .ok t => t.line
  | .error d => d.line

/-- The text between two stretches of a source that an item is made of. Nothing is left behind a
string that is never closed, nor behind the end. -/
inductive Item.MadeOf : Item → List Char → List Char → Prop where
  | token {k text line} (rest : List Char) : Lexeme k text →
      MadeOf (.ok ⟨k, String.ofList text, line⟩) text rest
  | stray {c line} (rest : List Char) : MadeOf (.error ⟨line, .lexical (.unexpected c)⟩) [c] rest
  | openString {body line} : (∀ c ∈ body, c ≠ '"') →
      MadeOf (.error ⟨line, .lexical .unterminatedString⟩) ('"' :: body) []
  | finish {line} : MadeOf (.ok ⟨.eof, "", line⟩) [] []

theorem Piece.Stands.madeOf {p : Piece} {rest : List Char} {line : Nat} {item : Item}
    (h : p.Stands rest) (hitem : p.item? line = some item) :
    Item.MadeOf item p.text rest ∧ Item.line item = line := by
  cases h with
  | blank => cases hitem
  | comment => cases hitem
  | word hlexeme =>
    cases hitem
    exact ⟨.token _ hlexeme, rfl⟩
  | stray =>
    cases hitem
    exact ⟨.stray _, rfl⟩
  | openString hbody =>
    cases hitem
    exact ⟨.openString hbody, rfl⟩

theorem Lexeme.string_eq {body : String} {text : List Char} (h : Lexeme (.string body) text) :
    text = '"' :: body.toList ++ ['"'] := by
  have hspelling : text = ("\"" ++ body ++ "\"").toList := h.isWord.spelling rfl
  rw [hspelling, String.toList_append, String.toList_append]
  rfl

namespace Scanner

/-- The call number `n`, from zero on: what it yields, and the scanner behind it. -/
def call : Nat → Scanner → Option (Option Item × Scanner)
  | 0, s => s.next
  | n + 1, s => s.next.bind fun (_, s) => call n s

theorem yielded_eq (n : Nat) (s : Scanner) : s.yielded n = (s.call n).map Prod.fst := by
  induction n generalizing s with
  | zero => rfl
  | succ n ih =>
    rw [yielded, call]
    cases s.next with
    | none => rfl
    | some step => exact ih step.2

/-- The scanner `s` has just made an item of the text behind `before`. Its offset is the end of that
text, or beyond the source if the source has ended, and the newlines up to there are counted. -/
structure Marks (source : List Char) (item : Item) (s : Scanner) (before text after : List Char) :
    Prop where
  parts : source = before ++ text ++ after
  madeOf : Item.MadeOf item text after
  offset : min s.curr s.bytes.length = (encode (before ++ text)).length
  line : Item.line item = 1 + newlines (before ++ text)

/-- The scanner stands behind `done` and has counted its newlines. -/
structure Counted (s : Scanner) (done rest : List Char) : Prop extends s.At done rest where
  line : s.line = 1 + newlines done

theorem counted_new (source : String) : (new source).Counted [] source.toList :=
  ⟨⟨rfl, rfl⟩, rfl⟩

/-- What a call comes to is on the line on which it ends, and the count goes on from there. -/
theorem Comes.marks {s s' : Scanner} {done rest : List Char} {item : Item}
    (h : s.Comes done rest item s') (hs : s.Counted done rest) :
    ∃ before text after, s'.Marks (done ++ rest) item before text after ∧
      (s'.Counted (before ++ text) after ∨ s'.curr = s'.bytes.length + 1) := by
  cases h with
  | @piece gap c cs _ _ hrest hitem hat hline =>
    obtain ⟨hmade, hitemLine⟩ := (stands_next c cs).madeOf hitem
    have hcount : s'.line = 1 + newlines (done ++ gap ++ (Piece.next c cs).1.text) := by
      rw [hline, hs.line, List.append_assoc, newlines_append done, Nat.add_assoc]
    refine ⟨done ++ gap, _, _, ⟨?_, hmade, ?_, hitemLine.trans hcount⟩, .inl ⟨hat, hcount⟩⟩
    · rw [hrest, List.append_assoc, List.append_assoc, text_append_next]
    · rw [hat.length, Nat.min_eq_left (Nat.le_add_right _ _), hat.curr]
  | finish htext hcurr hline =>
    refine ⟨done ++ rest, [], [], ⟨?_, .finish, ?_, ?_⟩, .inr hcurr⟩
    · rw [List.append_nil, List.append_nil]
    · have hbytes : s'.bytes = s.bytes := congrArg (·.toByteArray.data.toList) htext
      rw [List.append_nil, hcurr, Nat.min_eq_right (Nat.le_succ _), hbytes, bytes_eq, hs.text]
    · show s'.line = _
      rw [hline, hs.line, List.append_nil, newlines_append, Nat.add_assoc]

/-- Every call goes on counting from where the one before it stopped. -/
theorem Counted.marks {n : Nat} {s s' : Scanner} {done rest : List Char} {item : Item}
    (h : s.Counted done rest) (hcall : s.call n = some (some item, s')) :
    ∃ before text after, s'.Marks (done ++ rest) item before text after := by
  induction n generalizing s done rest with
  | zero =>
    obtain ⟨_, _, _, -, hnext, hcomes, -⟩ := h.toAt.next
    rw [call, hnext] at hcall
    cases hcall
    obtain ⟨before, text, after, hmarks, -⟩ := hcomes.marks h
    exact ⟨before, text, after, hmarks⟩
  | succ n ih =>
    obtain ⟨_, _, s₁, -, hnext, hcomes, -⟩ := h.toAt.next
    rw [call, hnext] at hcall
    obtain ⟨before, text, after, hmarks, hcounted | hend⟩ := hcomes.marks h
    · rw [hmarks.parts]
      exact ih hcounted hcall
    · -- Behind the end of input no call yields anything.
      have hnone := (Left.behind hend).yielded n
      rw [yielded_eq, show s₁.call n = _ from hcall] at hnone
      cases hnone

end Scanner

theorem line_le_of_mem_itemsFrom {line : Nat} {ps : List Piece} {item : Item}
    (h : item ∈ itemsFrom line ps) : line ≤ Item.line item := by
  induction ps generalizing line with
  | nil =>
    rw [itemsFrom, List.mem_singleton] at h
    rw [h]
    exact Nat.le_refl _
  | cons p ps ih =>
    have hrest : item ∈ itemsFrom (line + newlines p.text) ps → line ≤ Item.line item :=
      fun hmem => Nat.le_trans (Nat.le_add_right _ _) (ih hmem)
    cases p with
    | blank c | comment text => exact hrest h
    | word k text | stray c | openString text =>
      rcases List.mem_cons.mp h with rfl | h
      · exact Nat.le_add_right _ _
      · exact hrest h

theorem pairwise_lines_itemsFrom (line : Nat) (ps : List Piece) :
    ((itemsFrom line ps).map Item.line).Pairwise (· ≤ ·) := by
  induction ps generalizing line with
  | nil => exact List.pairwise_singleton _ _
  | cons p ps ih =>
    have hrest := ih (line + newlines p.text)
    have hhead : ∀ l ∈ (itemsFrom (line + newlines p.text) ps).map Item.line,
        line + newlines p.text ≤ l := by
      intro l hl
      obtain ⟨item, hitem, rfl⟩ := List.mem_map.mp hl
      exact line_le_of_mem_itemsFrom hitem
    cases p with
    | blank c | comment text => exact hrest
    | word k text | stray c | openString text => exact .cons hhead hrest

/-- Every item is on the line on which its text ends: a string on that of its closing quote, and a
string that is never closed and the end of input on the last. No line is below one of an item
before it. -/
theorem lines_exact (source : String) :
    ((scan source).map Item.line).Pairwise (· ≤ ·) ∧
    ∀ n item, (scan source)[n]? = some item → ∃ s before text after,
      (Scanner.new source).call n = some (some item, s) ∧
      s.Marks source.toList item before text after ∧
      (∀ body lexeme line, item = .ok ⟨.string body, lexeme, line⟩ →
        text = '"' :: body.toList ++ ['"'] ∧ line = 1 + newlines (before ++ '"' :: body.toList)) ∧
      (∀ line, item = .error ⟨line, .lexical .unterminatedString⟩ →
        line = 1 + newlines source.toList) ∧
      ∀ lexeme line, item = .ok ⟨.eof, lexeme, line⟩ → line = 1 + newlines source.toList := by
  refine ⟨pairwise_lines_itemsFrom 1 _, fun n item hitem => ?_⟩
  have hyielded := Scanner.yielded_new source n
  rw [Scanner.yielded_eq, hitem] at hyielded
  obtain ⟨⟨_, s⟩, hcall, rfl⟩ := Option.map_eq_some_iff.mp hyielded
  obtain ⟨before, text, after, hmarks⟩ := (Scanner.counted_new source).marks hcall
  rw [List.nil_append] at hmarks
  have hline := hmarks.line
  have hparts := hmarks.parts
  refine ⟨s, before, text, after, hcall, hmarks, ?_, ?_, ?_⟩
  · rintro body lexeme line rfl
    cases hmarks.madeOf with
    | token _ hlexeme =>
      have htext := hlexeme.string_eq
      refine ⟨htext, hline.trans ?_⟩
      rw [htext, ← List.append_assoc, newlines_append _ ['"']]
      rfl
  · rintro line rfl
    cases hmarks.madeOf with
    | openString => rwa [← List.append_nil (before ++ _), ← hparts] at hline
  · rintro lexeme line rfl
    cases hmarks.madeOf with
    | token _ hlexeme => exact absurd rfl hlexeme.ne_eof
    | finish => rwa [← List.append_nil (before ++ _), ← hparts] at hline

/-- A string over two lines behind a comment, and one that is never closed. -/
theorem lines_exact_quoted :
    let source := "// a\n\"x\ny\" $\n\"z\n"
    (scan source).map Item.line = [3, 3, 5, 5] ∧
      (scan source)[0]? = some (.ok ⟨.string "x\ny", "\"x\ny\"", 3⟩) ∧
      ∃ s before text after, (Scanner.new source).call 0 =
          some (some (.ok ⟨.string "x\ny", "\"x\ny\"", 3⟩), s) ∧
        s.Marks source.toList (.ok ⟨.string "x\ny", "\"x\ny\"", 3⟩) before text after := by
  intro source
  have hitem : (scan source)[0]? = some (.ok ⟨.string "x\ny", "\"x\ny\"", 3⟩) := by
    decide +kernel
  obtain ⟨s, before, text, after, hcall, hmarks, -⟩ := (lines_exact source).2 0 _ hitem
  exact ⟨by decide +kernel, hitem, s, before, text, after, hcall, hmarks⟩

end Lox
