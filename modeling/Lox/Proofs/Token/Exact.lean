import Lox.Proofs.Token.Longest
import Lox.Proofs.Token.Scanner

namespace Lox

/-- Layout in front of `rest`: blanks, and comments up to the next newline or the end. -/
inductive Layout : List Char → List Char → Prop where
  | nil {rest} : Layout [] rest
  | blank {c gap rest} : c ∈ [' ', '\t', '\r', '\n'] → Layout gap rest → Layout (c :: gap) rest
  | comment {text gap rest} : (∀ c ∈ text, c ≠ '\n') →
    (gap ++ rest = [] ∨ ∃ more, gap ++ rest = '\n' :: more) → Layout gap rest →
    Layout ('/' :: '/' :: text ++ gap) rest

/-- The items of a text that starts on a line. Between layout stands a piece at a time, each behind
the one before it, and its item is on the line that it ends on. -/
inductive Tokenized : Nat → List Char → List Item → Prop where
  | finish {line gap} : Layout gap [] → Tokenized line gap [.ok ⟨.eof, "", line + newlines gap⟩]
  | item {line gap} {p : Piece} {rest item items} : Layout gap (p.text ++ rest) → p.Stands rest →
    p.item? (line + newlines (gap ++ p.text)) = some item →
    Tokenized (line + newlines (gap ++ p.text)) rest items →
    Tokenized line (gap ++ p.text ++ rest) (item :: items)

theorem Piece.Stands.text_ne_nil {p : Piece} {rest : List Char} (h : p.Stands rest) :
    p.text ≠ [] := by
  cases h with
  | word hlexeme => exact lexeme_ne_nil hlexeme
  | _ => exact List.cons_ne_nil _ _

theorem items_of_stands {p : Piece} {rest : List Char} (h : p.Stands rest) (line : Nat) :
    items line (p.text ++ rest) = itemsFrom line (p :: pieces rest) := by
  obtain ⟨c, cs, htext⟩ := List.exists_cons_of_ne_nil h.text_ne_nil
  have happend : p.text ++ rest = c :: (cs ++ rest) := by rw [htext, List.cons_append]
  rw [happend, items, pieces_cons, next_of_stands h happend]

theorem items_of_layout {gap rest : List Char} (h : Layout gap rest) (line : Nat) :
    items line (gap ++ rest) = items (line + newlines gap) rest := by
  induction h generalizing line with
  | nil => rfl
  | @blank c gap rest hc _ ih =>
    have hitems := items_of_stands (.blank hc : (Piece.blank c).Stands (gap ++ rest)) line
    rw [show newlines (c :: gap) = newlines [c] + newlines gap from newlines_append [c] gap,
      ← Nat.add_assoc, ← ih]
    exact hitems
  | @comment text gap rest htext hrest _ ih =>
    have hitems := items_of_stands (Piece.Stands.comment htext hrest) line
    rw [newlines_append, ← Nat.add_assoc, ← ih, List.append_assoc]
    exact hitems

/-- No text is tokenized in two ways. -/
theorem Tokenized.eq_items {line : Nat} {cs : List Char} {all : List Item}
    (h : Tokenized line cs all) : all = items line cs := by
  induction h with
  | @finish line gap hgap =>
    have hitems := items_of_layout hgap line
    rw [List.append_nil] at hitems
    rw [hitems, items_nil]
  | @item line gap p rest item rest' hgap hp hitem _ ih =>
    rw [List.append_assoc, items_of_layout hgap, items_of_stands hp, itemsFrom,
      Nat.add_assoc, ← newlines_append, hitem, ih]
    rfl

theorem Layout.piece {p : Piece} {gap rest : List Char} {line : Nat} (h : Layout gap rest)
    (hp : p.Stands (gap ++ rest)) (hitem : p.item? line = none) : Layout (p.text ++ gap) rest := by
  generalize hall : gap ++ rest = all at hp
  cases hp with
  | blank hc => exact .blank hc h
  | comment htext hrest => exact .comment htext (hall ▸ hrest) h
  | word => cases hitem
  | stray => cases hitem
  | openString => cases hitem

/-- Layout in front of a text adds no item. -/
theorem Tokenized.piece {p : Piece} {rest : List Char} {line line' : Nat} {all : List Item}
    (hp : p.Stands rest) (hitem : p.item? line' = none)
    (h : Tokenized (line + newlines p.text) rest all) : Tokenized line (p.text ++ rest) all := by
  cases h with
  | finish hgap =>
    rw [← List.append_nil rest] at hp
    rw [Nat.add_assoc, ← newlines_append]
    exact .finish (hgap.piece hp hitem)
  | @item _ gap q rest item items hgap hq hitem' hrest =>
    have hgap' := hgap.piece (by rwa [List.append_assoc] at hp) hitem
    have hlines : line + newlines p.text + newlines (gap ++ q.text) =
        line + newlines (p.text ++ gap ++ q.text) := by
      rw [List.append_assoc, newlines_append p.text, Nat.add_assoc]
    rw [hlines] at hitem' hrest
    have hall := Tokenized.item hgap' hq hitem' hrest
    simpa only [List.append_assoc] using hall

theorem tokenized_items (line : Nat) (cs : List Char) : Tokenized line cs (items line cs) := by
  induction hn : cs.length using Nat.strong_induction_on generalizing line cs with
  | _ n ih =>
  cases cs with
  | nil => exact .finish .nil
  | cons c cs =>
    have hp := stands_next c cs
    have hlen := length_next c cs
    rw [List.length_cons] at hn
    have hlt : (Piece.next c cs).2.length < n := by omega
    have hrest := ih _ hlt (line + newlines (Piece.next c cs).1.text) _ rfl
    have hcut := items_of_stands hp line
    rw [itemsFrom] at hcut
    rw [← text_append_next c cs, hcut]
    cases hitem : (Piece.next c cs).1.item? (line + newlines (Piece.next c cs).1.text) with
    | none => exact .piece hp hitem hrest
    | some item => exact .item .nil hp hitem hrest

theorem Lexeme.ne_eof {k : Kind} {text : List Char} (h : Lexeme k text) : k ≠ .eof := by
  rintro rfl
  cases h with
  | mark h => exact absurd h (by simp [marks])
  | keyword h =>
    have hk := spelling?_of_keyword? h
    cases hk

/-- The end of input comes once, behind everything else. -/
theorem Tokenized.finishes {line : Nat} {cs : List Char} {all : List Item}
    (h : Tokenized line cs all) :
    ∃ before last, all = before ++ [.ok ⟨.eof, "", last⟩] ∧
      ∀ t, .ok t ∈ before → t.kind ≠ .eof := by
  induction h with
  | finish => exact ⟨[], _, rfl, by simp⟩
  | @item _ _ p _ item _ _ hp hitem _ ih =>
    obtain ⟨before, last, rfl, hbefore⟩ := ih
    refine ⟨item :: before, last, rfl, fun t ht => ?_⟩
    rcases List.mem_cons.mp ht with rfl | ht
    · cases hp with
      | word hlexeme =>
        cases hitem
        exact hlexeme.ne_eof
      | _ => cases hitem
    · exact hbefore t ht

/-- Scanning loses nothing and adds nothing. The items are the only ones that the text has, the end
of input is the last of them and the only one of its kind, and the scanner yields one a call and
then none, without ever slicing the text within a character. -/
theorem scan_exact (source : String) :
    (∀ all, Tokenized 1 source.toList all ↔ all = scan source) ∧
    (∃ before last, scan source = before ++ [.ok ⟨.eof, "", last⟩] ∧
      ∀ t, .ok t ∈ before → t.kind ≠ .eof) ∧
    ∀ n, (Scanner.new source).yielded n = some (scan source)[n]? := by
  have hscan : Tokenized 1 source.toList (scan source) := tokenized_items 1 source.toList
  refine ⟨fun all => ⟨Tokenized.eq_items, ?_⟩, hscan.finishes, Scanner.yielded_new source⟩
  rintro rfl
  exact hscan

end Lox
