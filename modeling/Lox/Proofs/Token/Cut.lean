import Lox.Proofs.Token.Word

namespace Lox

theorem newlines_append (cs ds : List Char) : newlines (cs ++ ds) = newlines cs + newlines ds :=
  List.count_append

theorem length_takeWhile_add (P : Char → Bool) (cs : List Char) :
    (cs.dropWhile P).length ≤ cs.length := (List.dropWhile_suffix P).length_le

theorem length_numeral (cs : List Char) (hne : cs.takeWhile Char.isDigit ≠ []) :
    (numeral cs).2.2.length < cs.length := by
  have hlen := congrArg List.length (List.takeWhile_append_dropWhile (p := Char.isDigit) (l := cs))
  rw [List.length_append] at hlen
  have hpos := List.length_pos_iff.mpr hne
  unfold numeral
  dsimp only
  split
  next rest heq =>
    rw [heq, List.length_cons] at hlen
    have := length_takeWhile_add Char.isDigit rest
    split
    · simp only [List.length_cons]
      omega
    · show (rest.dropWhile Char.isDigit).length < cs.length
      omega
  next rest heq =>
    show (cs.dropWhile Char.isDigit).length < cs.length
    omega

/-- Every piece takes a character. -/
theorem length_next (c : Char) (cs : List Char) : (Piece.next c cs).2.length ≤ cs.length := by
  have hoperator : ∀ short long, (Piece.ofOperator c short long cs).2.length ≤ cs.length := by
    intro short long
    unfold Piece.ofOperator
    split <;> simp
  unfold Piece.next
  split
  all_goals try exact Nat.le_refl _
  all_goals try exact hoperator _ _
  · split
    next rest =>
      have := length_takeWhile_add (· ≠ '\n') rest
      simp only [Piece.ofComment, List.length_cons]
      omega
    next => exact Nat.le_refl _
  · have := length_takeWhile_add (· ≠ '"') cs
    unfold Piece.ofString
    dsimp only
    split
    · simp
    next quote rest heq =>
      rw [heq, List.length_cons] at this
      show rest.length ≤ cs.length
      omega
  · split
    · exact Nat.le_refl _
    · split
      next hc =>
        have := length_numeral (c :: cs) (by simp [hc])
        unfold Piece.ofNumeral
        split
        next heq =>
          rw [heq, List.length_cons] at this
          exact Nat.le_of_lt_succ this
        next heq =>
          rw [heq, List.length_cons] at this
          exact Nat.le_of_lt_succ this
      next =>
        split
        next hc =>
          have := length_takeWhile_add isNameChar cs
          simpa [Piece.ofName, isNameChar_of_isNameStart hc] using this
        next => exact Nat.le_refl _

theorem piecesUpTo_eq {n m : Nat} {cs : List Char} (hn : cs.length ≤ n) (hm : cs.length ≤ m) :
    piecesUpTo n cs = piecesUpTo m cs := by
  induction n generalizing m cs with
  | zero =>
    obtain rfl := List.eq_nil_of_length_eq_zero (Nat.le_zero.mp hn)
    cases m <;> rfl
  | succ n ih =>
    cases cs with
    | nil => cases m <;> rfl
    | cons c cs =>
      cases m with
      | zero => simp at hm
      | succ m =>
        have hlen := length_next c cs
        simp only [List.length_cons] at hn hm
        have htail := ih (Nat.le_trans hlen (Nat.le_of_succ_le_succ hn))
          (Nat.le_trans hlen (Nat.le_of_succ_le_succ hm))
        rw [piecesUpTo, piecesUpTo, htail]

theorem pieces_cons (c : Char) (cs : List Char) :
    pieces (c :: cs) = (Piece.next c cs).1 :: pieces (Piece.next c cs).2 := by
  have hlen := length_next c cs
  show piecesUpTo (cs.length + 1) (c :: cs) = _
  rw [piecesUpTo, pieces, piecesUpTo_eq hlen (Nat.le_refl _)]

/-- The items of a text that starts on a line. -/
def items (line : Nat) (cs : List Char) : List Item := itemsFrom line (pieces cs)

@[simp] theorem items_nil (line : Nat) : items line [] = [.ok ⟨.eof, "", line⟩] := rfl

@[simp] theorem items_space (line : Nat) (cs : List Char) :
    items line (' ' :: cs) = items line cs := by
  rw [items, pieces_cons]
  rfl

theorem items_word {k : Kind} {w rest : List Char} (hw : IsWord k w) (hrest : endsWord rest k)
    (line : Nat) : ∃ line', items line (w ++ rest) =
      .ok ⟨k, String.ofList w, line'⟩ :: items line' rest := by
  obtain ⟨c, cs, rfl, hnext⟩ := hw rest hrest
  refine ⟨line + newlines (c :: cs), ?_⟩
  rw [items, List.cons_append, pieces_cons, hnext]
  rfl

/-- A token as a word of its text. -/
def Token.Written (t : Token) : Prop := IsWord t.kind t.lexeme.toList

theorem Token.Written.lexeme {t : Token} {text : String} (h : t.Written)
    (hk : spelling? t.kind = some text) : t.lexeme = text :=
  String.toList_inj.mp (IsWord.spelling h hk)

theorem written_of_mem_itemsFrom {ps : List Piece} {line : Nat} {t : Token}
    (hps : ∀ p ∈ ps, ∀ k w, p = .word k w → IsWord k w) (h : .ok t ∈ itemsFrom line ps) :
    t.kind = .eof ∨ t.Written := by
  induction ps generalizing line with
  | nil =>
    simp only [itemsFrom, List.mem_singleton] at h
    cases h
    exact .inl rfl
  | cons p ps ih =>
    have ih := fun line => @ih line fun q hq => hps q (List.mem_cons_of_mem p hq)
    unfold itemsFrom at h
    dsimp only at h
    cases p with
    | word k w =>
      simp only [Piece.item?, List.mem_cons] at h
      rcases h with h | h
      · cases h
        refine .inr ?_
        simpa [Token.Written] using hps (.word k w) (by simp) k w rfl
      · exact ih _ h
    | blank c => exact ih _ h
    | comment text => exact ih _ h
    | stray c =>
      simp only [Piece.item?, List.mem_cons, reduceCtorEq, false_or] at h
      exact ih _ h
    | openString text =>
      simp only [Piece.item?, List.mem_cons, reduceCtorEq, false_or] at h
      exact ih _ h

theorem isWord_of_mem_pieces (n : Nat) (cs : List Char) :
    ∀ p ∈ piecesUpTo n cs, ∀ k w, p = .word k w → IsWord k w := by
  induction n generalizing cs with
  | zero => simp [piecesUpTo]
  | succ n ih =>
    cases cs with
    | nil => simp [piecesUpTo]
    | cons c cs =>
      intro p hp k w hw
      rw [piecesUpTo, List.mem_cons] at hp
      rcases hp with rfl | hp
      · exact isWord_of_next (Prod.ext hw rfl)
      · exact ih _ p hp k w hw

/-- Every token of a source but the end is a word. -/
theorem written_of_mem_tokens {source : String} {t : Token} (h : t ∈ tokens (scan source)) :
    t.kind = .eof ∨ t.Written := by
  obtain ⟨item, hitem, htoken⟩ := List.mem_filterMap.mp h
  cases item with
  | error d => simp [Item.token?] at htoken
  | ok u =>
    obtain rfl := Option.some.inj htoken
    exact written_of_mem_itemsFrom (isWord_of_mem_pieces _ _) hitem

end Lox
