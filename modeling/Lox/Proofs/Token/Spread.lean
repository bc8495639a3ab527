import Lox.Proofs.Token.Exact

namespace Lox

/-- Blanks, and comments with the newlines that end them. -/
inductive Filling : List Char → Prop where
  | nil : Filling []
  | blank {c gap} : c ∈ [' ', '\t', '\r', '\n'] → Filling gap → Filling (c :: gap)
  | comment {text gap} : (∀ c ∈ text, c ≠ '\n') → Filling gap →
    Filling ('/' :: '/' :: text ++ '\n' :: gap)

/-- What keeps two words apart: a blank, and any layout behind it. -/
inductive Separator : List Char → Prop where
  | blank {c gap} : c ∈ [' ', '\t', '\r', '\n'] → Filling gap → Separator (c :: gap)

/-- A token apart from its line. -/
def Token.face (t : Token) : Kind × String := (t.kind, t.lexeme)

/-- The lexemes of the tokens, each with its layout behind it. -/
def spread (spaced : List (Token × List Char)) : List Char :=
  spaced.flatMap fun (t, gap) => t.lexeme.toList ++ gap

theorem Filling.layout {gap : List Char} (h : Filling gap) (rest : List Char) :
    Layout gap rest := by
  induction h with
  | nil => exact .nil
  | blank hc _ ih => exact .blank hc ih
  | @comment text gap htext _ ih =>
    exact .comment htext (.inr ⟨gap ++ rest, rfl⟩) (.blank (by simp) ih)

theorem Separator.layout {gap : List Char} (h : Separator gap) (rest : List Char) :
    Layout gap rest := by
  cases h with
  | blank hc hgap => exact .blank hc (hgap.layout rest)

/-- A blank prolongs no word: not an operator, not a number by digits or by a point, and no name. -/
theorem endsWord_of_blank {c : Char} (hc : c ∈ [' ', '\t', '\r', '\n']) (rest : List Char)
    (k : Kind) : endsWord (c :: rest) k := by
  simp only [List.mem_cons, List.not_mem_nil, or_false] at hc
  rcases hc with rfl | rfl | rfl | rfl <;> cases k <;> rfl

theorem Separator.endsWord {gap : List Char} (h : Separator gap) (rest : List Char) (k : Kind) :
    endsWord (gap ++ rest) k := by
  cases h with
  | blank hc _ => exact endsWord_of_blank hc _ k

theorem items_spread {spaced : List (Token × List Char)}
    (hspaced : ∀ p ∈ spaced, p.1.Written ∧ Separator p.2) (line : Nat) :
    ∃ (ts : List Token) (last : Nat),
      items line (spread spaced) = ts.map .ok ++ [.ok ⟨.eof, "", last⟩] ∧
      ts.map Token.face = spaced.map fun p => p.1.face := by
  induction spaced generalizing line with
  | nil => exact ⟨[], line, items_nil line, rfl⟩
  | cons p spaced ih =>
    obtain ⟨⟨hword, hgap⟩, hspaced⟩ := List.forall_mem_cons.mp hspaced
    have htext : spread (p :: spaced) = p.1.lexeme.toList ++ (p.2 ++ spread spaced) := by
      rw [spread, List.flatMap_cons, List.append_assoc]
      rfl
    obtain ⟨line', hitems⟩ := items_word hword (hgap.endsWord (spread spaced) p.1.kind) line
    rw [String.ofList_toList, items_of_layout (hgap.layout _), ← htext] at hitems
    obtain ⟨ts, last, hrest, hts⟩ := ih hspaced (line' + newlines p.2)
    refine ⟨⟨p.1.kind, p.1.lexeme, line'⟩ :: ts, last, ?_, ?_⟩
    · rw [hitems, hrest]
      rfl
    · rw [List.map_cons, List.map_cons, hts]
      rfl

/-- Tokens do not depend on layout. Where a source is scanned to tokens without a fault, their
lexemes are scanned to tokens of the same kinds and lexemes whatever keeps them apart. -/
theorem scan_spread {source : String} {spaced : List (Token × List Char)} {line : Nat}
    (h : scan source = spaced.map (fun p => .ok p.1) ++ [.ok ⟨.eof, "", line⟩])
    (hgaps : ∀ p ∈ spaced, Separator p.2) :
    ∃ (ts : List Token) (last : Nat),
      scan (String.ofList (spread spaced)) = ts.map .ok ++ [.ok ⟨.eof, "", last⟩] ∧
      ts.map Token.face = spaced.map fun p => p.1.face := by
  have hwritten : ∀ p ∈ spaced, p.1.Written ∧ Separator p.2 := by
    intro p hp
    -- The tokens stand in front of the only end of input, so none of them is one.
    have hmem : (.ok p.1 : Item) ∈ spaced.map (fun p => .ok p.1) := List.mem_map_of_mem hp
    obtain ⟨before, last, hscan, hbefore⟩ := (tokenized_items 1 source.toList).finishes
    have heq := (List.append_inj' (h.symm.trans hscan) rfl).1
    have htoken : p.1 ∈ tokens (scan source) :=
      List.mem_filterMap.mpr ⟨.ok p.1, h ▸ List.mem_append_left _ hmem, rfl⟩
    exact ⟨(written_of_mem_tokens htoken).resolve_left (hbefore p.1 (heq ▸ hmem)), hgaps p hp⟩
  have hspread := items_spread hwritten 1
  rwa [← String.toList_ofList (l := spread spaced)] at hspread

/-- A number in front of a point, a string that looks like a comment, and operators apart. -/
theorem scan_spread_crowded :
    let source := "1.x\"//\"/!or"
    let spaced : List (Token × List Char) :=
      [(⟨.number (numeralValue ['1'] []), "1", 1⟩, ['\n']),
        (⟨.dot, ".", 1⟩, [' ', '/', '/', '=', '\n']), (⟨.identifier, "x", 1⟩, ['\t']),
        (⟨.string "//", "\"//\"", 1⟩, [' ']), (⟨.slash, "/", 1⟩, [' ', '/', '/', '\n']),
        (⟨.bang, "!", 1⟩, ['\r']), (⟨.or, "or", 1⟩, [' '])]
    scan source = spaced.map (fun p => .ok p.1) ++ [.ok ⟨.eof, "", 1⟩] ∧
      (∀ p ∈ spaced, Separator p.2) ∧
      ∃ (ts : List Token) (last : Nat),
        scan "1\n. //=\nx\t\"//\" / //\n!\ror " = ts.map .ok ++ [.ok ⟨.eof, "", last⟩] ∧
        ts.map Token.face = spaced.map fun p => p.1.face := by
  intro source spaced
  have h : scan source = spaced.map (fun p => .ok p.1) ++ [.ok ⟨.eof, "", 1⟩] := by decide +kernel
  have hgaps : ∀ p ∈ spaced, Separator p.2 := by
    have hcomment : ∀ text, (∀ c ∈ text, c ≠ '\n') → Filling ('/' :: '/' :: text ++ ['\n']) :=
      fun _ htext => .comment htext .nil
    simp only [spaced, List.forall_mem_cons]
    exact ⟨.blank (by simp) .nil, .blank (by simp) (hcomment ['='] (by simp)),
      .blank (by simp) .nil, .blank (by simp) .nil, .blank (by simp) (hcomment [] (by simp)),
      .blank (by simp) .nil, .blank (by simp) .nil, by simp⟩
  have htext : String.ofList (spread spaced) = "1\n. //=\nx\t\"//\" / //\n!\ror " := by
    decide +kernel
  exact ⟨h, hgaps, htext ▸ scan_spread h hgaps⟩

end Lox
