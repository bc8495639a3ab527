import Lox.Proofs.Token.Bytes
import Lox.Proofs.Token.Longest

namespace Lox

namespace Scanner

theorem bytes_eq (s : Scanner) : s.bytes = encode s.text.toList := by
  rw [bytes, ← String.utf8Encode_toList, List.utf8Encode, List.data_toByteArray]
  rfl

theorem slice?_eq {s : Scanner} {xs ys zs : List Char} (h : s.text.toList = xs ++ ys ++ zs) :
    s.slice? (encode xs).length (encode (xs ++ ys)).length = some (String.ofList ys) := by
  have htext : s.text = String.ofList xs ++ String.ofList ys ++ String.ofList zs := by
    rw [← String.ofList_toList (s := s.text), h, String.ofList_append, String.ofList_append]
  have hi : String.Pos.Raw.IsValid s.text ⟨(encode xs).length⟩ := by
    refine String.Pos.Raw.isValid_iff_exists_append.mpr
      ⟨String.ofList xs, String.ofList ys ++ String.ofList zs, ?_, ?_⟩
    · rw [htext, String.append_assoc]
    · rw [length_encode]
      rfl
  have hj : String.Pos.Raw.IsValid s.text ⟨(encode (xs ++ ys)).length⟩ := by
    refine String.Pos.Raw.isValid_iff_exists_append.mpr
      ⟨String.ofList xs ++ String.ofList ys, String.ofList zs, htext, ?_⟩
    rw [length_encode, String.ofList_append]
    rfl
  have hbytes : s.text.toByteArray.extract (encode xs).length (encode (xs ++ ys)).length =
      (String.ofList ys).toByteArray := by
    rw [htext, String.toByteArray_append, String.toByteArray_append, ByteArray.append_assoc,
      encode_append, List.length_append, ← Nat.add_zero (encode xs).length, Nat.add_assoc,
      Nat.zero_add, ByteArray.extract_append_size_add' (length_encode xs),
      ByteArray.extract_append_eq_left (length_encode ys)]
  rw [slice?, if_pos ⟨by simp, hi, hj⟩, hbytes]
  exact dif_pos (String.ofList ys).isValidUTF8

/-- The scanner stands behind `done`, and `rest` is to come. -/
structure At (s : Scanner) (done rest : List Char) : Prop where
  text : s.text.toList = done ++ rest
  curr : s.curr = (encode done).length

namespace At

variable {s : Scanner} {done rest cs : List Char} {c d : Char}

theorem bytes (h : s.At done rest) : s.bytes = encode done ++ encode rest := by
  rw [bytes_eq, h.text, encode_append]

theorem drop (h : s.At done rest) : s.bytes.drop s.curr = encode rest := by
  rw [h.bytes, h.curr, List.drop_left]

theorem length (h : s.At done rest) : s.bytes.length = s.curr + (encode rest).length := by
  rw [h.bytes, h.curr, List.length_append]

theorem isAtEnd_nil (h : s.At done []) : s.isAtEnd = true :=
  decide_eq_true (by rw [h.length]; exact Nat.le_refl _)

theorem isAtEnd_cons (h : s.At done (c :: cs)) : s.isAtEnd = false := by
  have hpos := List.length_pos_iff.mpr (String.utf8EncodeChar_ne_nil (c := c))
  refine decide_eq_false ?_
  rw [h.length, encode_cons, List.length_append]
  omega

theorem byteAt (h : s.At done rest) (i : Nat) :
    s.byteAt (s.curr + i) = Char.ofUInt8 ((encode rest).getD i 0) := by
  rw [Scanner.byteAt, ← h.drop, List.getD_eq_getElem?_getD, List.getD_eq_getElem?_getD,
    List.getElem?_drop]

theorem peek_nil (h : s.At done []) : s.peek = Char.ofUInt8 0 := h.byteAt 0

theorem peek_ascii (h : s.At done (c :: cs)) (hc : c.toNat < 128) : s.peek = c := by
  have hbyte := h.byteAt 0
  rw [encode_cons, utf8EncodeChar_ascii hc] at hbyte
  exact hbyte.trans (ofUInt8_ascii hc)

theorem peek_wide (h : s.At done (c :: cs)) (hc : 128 ≤ c.toNat) : 128 ≤ s.peek.toNat := by
  obtain ⟨b, bs, hb⟩ := List.exists_cons_of_ne_nil (String.utf8EncodeChar_ne_nil (c := c))
  have hbyte := h.byteAt 0
  rw [encode_cons, hb] at hbyte
  rw [show s.peek = Char.ofUInt8 b from hbyte]
  exact utf8EncodeChar_wide hc b (by simp [hb])

/-- A class of ASCII characters holds of the byte at hand if of the character. -/
theorem peek_class {P : Char → Bool} (h : s.At done (c :: cs)) (hP : AsciiClass P) :
    P s.peek = P c := by
  by_cases hc : c.toNat < 128
  · rw [h.peek_ascii hc]
  · exact hP _ _ (h.peek_wide (Nat.not_lt.mp hc)) (Nat.not_lt.mp hc)

theorem eq_of_peek (h : s.At done (c :: cs)) (hd : d.toNat < 128) (hpeek : s.peek = d) : c = d := by
  by_cases hc : c.toNat < 128
  · exact (h.peek_ascii hc).symm.trans hpeek
  · have hwide := h.peek_wide (Nat.not_lt.mp hc)
    rw [hpeek] at hwide
    exact absurd hd (Nat.not_lt.mpr hwide)

theorem advance (h : s.At done (c :: cs)) (hc : c.toNat < 128) :
    s.advance.At (done ++ [c]) cs where
  text := by rw [List.append_assoc]; exact h.text
  curr := by
    rw [encode_append, encode_cons, utf8EncodeChar_ascii hc, List.length_append, ← h.curr]
    rfl

theorem run (h : s.At done rest) {P : Char → Bool} (hP : AsciiClass P) :
    s.run P = encode (rest.takeWhile P) := by
  rw [Scanner.run, h.drop, takeWhile_encode hP]

theorem past (h : s.At done rest) (n : Nat) (P : Char → Bool) :
    At { s with curr := s.curr + (encode (rest.takeWhile P)).length, line := n }
      (done ++ rest.takeWhile P) (rest.dropWhile P) where
  text := by rw [List.append_assoc, List.takeWhile_append_dropWhile]; exact h.text
  curr := by rw [encode_append, List.length_append, ← h.curr]

theorem skip (h : s.At done rest) {P : Char → Bool} (hP : AsciiClass P) :
    (s.skip P).At (done ++ rest.takeWhile P) (rest.dropWhile P) := by
  rw [Scanner.skip, h.run hP]
  exact h.past s.line P

theorem slice? (h : s.At (done ++ cs) rest) :
    s.slice? (encode done).length s.curr = some (String.ofList cs) := by
  rw [h.curr]
  exact slice?_eq h.text

end At

/-- What a piece amounts to before its text is cut out. -/
def outcome (line : Nat) : Piece → Except Diagnostic (Option Kind)
  | .blank _ => .ok none
  | .comment _ => .ok none
  | .word k _ => .ok (some k)
  | .stray c => .error ⟨line, .lexical (.unexpected c)⟩
  | .openString _ => .error ⟨line, .lexical .unterminatedString⟩

/-- Behind `done` the piece was taken that comes with what follows it. -/
def Takes (line : Nat) (done : List Char) (step : Piece × List Char)
    (result : Option (Except Diagnostic (Option Kind) × Scanner)) : Prop :=
  ∃ s, result = some (outcome s.line step.1, s) ∧ s.At (done ++ step.1.text) step.2 ∧
    s.start = (encode done).length ∧ s.line = line + newlines step.1.text

theorem newlines_eq_zero {cs : List Char} (h : ∀ c ∈ cs, c ≠ '\n') : newlines cs = 0 :=
  List.count_eq_zero_of_not_mem fun hmem => h _ hmem rfl

section Pass

variable {s : Scanner} {done cs : List Char} {c : Char}

theorem takes_mark (h : s.At (done ++ [c]) cs) (hstart : s.start = (encode done).length)
    (hc : c ≠ '\n') (k : Kind) :
    Takes s.line done (.word k [c], cs) (some (.ok (some k), s)) :=
  ⟨s, rfl, h, hstart, by rw [Piece.text, newlines_eq_zero (by simpa using hc), Nat.add_zero]⟩

theorem takes_operator (h : s.At (done ++ [c]) cs) (hstart : s.start = (encode done).length)
    (hc : c ≠ '\n') (short long : Kind) :
    Takes s.line done (Piece.ofOperator c short long cs)
      (some (.ok (some (s.withEqual long short).1), (s.withEqual long short).2)) := by
  unfold Piece.ofOperator
  split
  next rest =>
    have hequal : s.withEqual long short = (long, s.advance) := by
      rw [withEqual, h.isAtEnd_cons, h.peek_ascii (by decide)]
      rfl
    refine ⟨s.advance, by rw [hequal]; rfl, ?_, hstart, ?_⟩
    · have hadvance := h.advance (by decide)
      rw [List.append_assoc] at hadvance
      exact hadvance
    · rw [Piece.text, newlines_eq_zero (by simpa using hc)]
      rfl
  next hne =>
    have hequal : s.withEqual long short = (short, s) := by
      cases cs with
      | nil => rw [withEqual, h.isAtEnd_nil]; rfl
      | cons d cs =>
        have hpeek : s.peek ≠ '=' := fun heq =>
          hne cs (by rw [h.eq_of_peek (by decide) heq])
        rw [withEqual, decide_eq_false hpeek, Bool.and_false, if_neg Bool.false_ne_true]
    rw [hequal]
    exact takes_mark h hstart hc short

theorem At.skipString {rest : List Char} (h : s.At done rest) :
    s.skipString.At (done ++ rest.takeWhile (· ≠ '"')) (rest.dropWhile (· ≠ '"')) := by
  rw [Scanner.skipString, h.run (asciiClass_ne (by decide))]
  exact h.past _ _

theorem At.line_skipString {rest : List Char} (h : s.At done rest) :
    s.skipString.line = s.line + newlines (rest.takeWhile (· ≠ '"')) := by
  rw [← count_encode, ← h.run (asciiClass_ne (by decide))]
  rfl

theorem newlines_quoted (body : List Char) : newlines ('"' :: body ++ ['"']) = newlines body := by
  simp [newlines, List.count_append]

theorem takes_string (h : s.At (done ++ ['"']) cs) (hstart : s.start = (encode done).length) :
    Takes s.line done (Piece.ofString cs) s.parseString := by
  have hskip := h.skipString
  have hline := h.line_skipString
  unfold parseString Piece.ofString
  dsimp only
  split
  next hrest =>
    rw [hrest] at hskip
    rw [if_pos hskip.isAtEnd_nil]
    refine ⟨s.skipString, rfl, ?_, hstart, ?_⟩
    · rw [List.append_assoc] at hskip
      exact hskip
    · rw [hline]
      exact congrArg (s.line + ·) (List.count_cons_of_ne (by decide)).symm
  next quote rest hrest =>
    obtain rfl := eq_quote hrest
    rw [hrest] at hskip
    have hopened : (encode (done ++ ['"'])).length = s.skipString.advance.start + 1 := by
      show (encode (done ++ ['"'])).length = s.start + 1
      rw [encode_append, List.length_append, hstart]
      rfl
    have hslice := slice?_eq (s := s.skipString.advance) hskip.text
    rw [hopened, ← hskip.curr] at hslice
    have hclosed := hskip.advance (by decide)
    simp only [List.append_assoc] at hclosed
    rw [if_neg (by rw [hskip.isAtEnd_cons]; exact Bool.false_ne_true)]
    refine ⟨s.skipString.advance, ?_, hclosed, hstart, ?_⟩
    · rw [show s.skipString.advance.curr - 1 = s.skipString.curr from rfl, hslice]
      rfl
    · rw [Piece.text, newlines_quoted]
      exact hline

theorem At.skipNumber (h : s.At done cs) :
    s.skipNumber.At (done ++ numeralText (numeral cs).1 (numeral cs).2.1) (numeral cs).2.2 := by
  have hdigit : AsciiClass Char.isDigit := asciiClass_of_lt fun _ => lt_of_isDigit
  have hwhole := h.skip hdigit
  rw [Scanner.skipNumber]
  rcases numeral_cases cs with ⟨rest, hrest, hplaces, hcs⟩ | ⟨hnone, hcs⟩
  · rw [hrest] at hwhole
    have hpoint := hwhole.advance (by decide)
    have hnext : (s.skip Char.isDigit).peekNext.isDigit := by
      cases rest with
      | nil => exact absurd rfl hplaces
      | cons d rest =>
        refine (hpoint.peek_class hdigit).trans (Bool.not_eq_false _ ▸ fun hd => hplaces ?_)
        rw [List.takeWhile_cons, hd]
        rfl
    have hskip := hpoint.skip hdigit
    simp only [List.append_assoc] at hskip
    rw [hwhole.peek_ascii (by decide), hnext, hcs, numeralText, if_neg hplaces]
    exact hskip
  · have hstop : (decide ((s.skip Char.isDigit).peek = '.') &&
        (s.skip Char.isDigit).peekNext.isDigit) = false := by
      generalize cs.dropWhile Char.isDigit = rest at hwhole hnone
      cases rest with
      | nil =>
        rw [hwhole.peek_nil]
        rfl
      | cons d rest =>
        refine Bool.and_eq_false_imp.mpr fun hpeek => ?_
        obtain rfl := hwhole.eq_of_peek (by decide) (of_decide_eq_true hpeek)
        have hpoint := hwhole.advance (by decide)
        have hrest := hnone rest rfl
        cases rest with
        | nil => rw [show (s.skip Char.isDigit).peekNext = _ from hpoint.peek_nil]; rfl
        | cons e rest =>
          refine (hpoint.peek_class hdigit).trans (Bool.eq_false_iff.mpr fun he => ?_)
          rw [List.takeWhile_cons, if_pos he] at hrest
          cases hrest
    rw [hstop, hcs, numeralText, if_pos rfl, List.append_nil]
    exact hwhole

theorem numeral_numeralText (cs : List Char) :
    numeral (numeralText (numeral cs).1 (numeral cs).2.1) =
      ((numeral cs).1, (numeral cs).2.1, []) := by
  obtain ⟨hwhole, hplaces⟩ := numeral_spec cs
  have hwhole : ∀ d ∈ (numeral cs).1, d.isDigit := by
    rw [hwhole]
    exact fun _ => List.mem_takeWhile_imp
  unfold numeralText
  split
  next hnone =>
    have h := numeral_whole hwhole (endsWord_nil (.number 0))
    rw [hnone]
    exact h
  next hsome =>
    have h := numeral_places hwhole hplaces hsome (endsWord_nil (.number 0))
    rw [List.append_nil] at h
    exact h

theorem start_skipNumber (s : Scanner) : s.skipNumber.start = s.start := by
  unfold Scanner.skipNumber
  dsimp only
  split <;> rfl

theorem line_skipNumber (s : Scanner) : s.skipNumber.line = s.line := by
  unfold Scanner.skipNumber
  dsimp only
  split <;> rfl

theorem takes_number (h : s.At (done ++ [c]) cs) (hstart : s.start = (encode done).length)
    (hc : c.isDigit) : Takes s.line done (Piece.ofNumeral (c :: cs)) s.parseNumber := by
  have hskip := h.skipNumber
  have htext : c :: numeralText (numeral cs).1 (numeral cs).2.1 =
      numeralText (numeral (c :: cs)).1 (numeral (c :: cs)).2.1 := by
    rw [numeral_cons hc]
    rfl
  rw [List.append_assoc, List.singleton_append, htext] at hskip
  have hslice := hskip.slice?
  have hlines : newlines (numeralText (numeral (c :: cs)).1 (numeral (c :: cs)).2.1) = 0 := by
    obtain ⟨hwhole, hplaces⟩ := numeral_spec (c :: cs)
    refine newlines_eq_zero fun d hd => ?_
    rcases mem_numeralText (by rw [hwhole]; exact fun _ => List.mem_takeWhile_imp) hplaces hd with
      hd | rfl
    · rintro rfl
      cases hd
    · decide
  rw [ofNumeral_eq]
  refine ⟨s.skipNumber, ?_, ?_, ?_, ?_⟩
  · rw [parseNumber, start_skipNumber, hstart, hslice]
    simp only [Option.bind_eq_bind, Option.bind_some, String.toList_ofList, numeral_numeralText]
    rfl
  · rw [show (numeral (c :: cs)).2.2 = (numeral cs).2.2 by rw [numeral_cons hc]]
    exact hskip
  · rw [start_skipNumber, hstart]
  · rw [line_skipNumber, Piece.text, hlines, Nat.add_zero]

theorem takes_identifier (h : s.At (done ++ [c]) cs) (hstart : s.start = (encode done).length)
    (hc : isNameStart c) : Takes s.line done (Piece.ofName (c :: cs)) (some s.parseIdentifier) := by
  have hname := isNameChar_of_isNameStart hc
  have hskip := h.skip (asciiClass_of_lt fun _ => lt_of_isNameChar)
  rw [List.append_assoc, List.singleton_append, ← List.takeWhile_cons_of_pos hname,
    ← List.dropWhile_cons_of_pos hname] at hskip
  have hlexeme : ((s.bytes.drop s.start).take ((s.skip isNameChar).curr - s.start)).map
      Char.ofUInt8 = (c :: cs).takeWhile isNameChar := by
    have hlen := hskip.curr
    rw [encode_append, List.length_append, ← hstart] at hlen
    rw [show s.bytes = _ from hskip.bytes, hlen, Nat.add_sub_cancel_left, hstart, encode_append,
      List.append_assoc, List.drop_left, List.take_left]
    exact map_ofUInt8_encode fun d hd => lt_of_isNameChar (List.mem_takeWhile_imp hd)
  have hlines : newlines ((c :: cs).takeWhile isNameChar) = 0 := by
    refine newlines_eq_zero fun d hd => ?_
    rintro rfl
    cases List.mem_takeWhile_imp hd
  refine ⟨s.skip isNameChar, ?_, hskip, hstart, ?_⟩
  · rw [parseIdentifier, show (s.skip isNameChar).bytes = s.bytes from rfl,
      show (s.skip isNameChar).start = s.start from rfl, hlexeme]
    rfl
  · rw [Piece.ofName, Piece.text, hlines]
    rfl

theorem takes_stray (htext : s.text.toList = done ++ c :: cs)
    (hstart : s.start = (encode done).length) (hc : c ≠ '\n') (first : Char) :
    Takes s.line done (.stray c, cs) (s.unexpected first) := by
  have hslice := slice?_eq (htext.trans (List.append_nil (done ++ c :: cs)).symm)
  rw [← htext, ← bytes_eq, ← hstart] at hslice
  refine ⟨{ s with curr := s.start + c.utf8Size }, ?_, ⟨?_, ?_⟩, hstart, ?_⟩
  · rw [unexpected, hslice]
    simp [outcome]
  · rw [List.append_assoc]
    exact htext
  · simp [Piece.text, hstart]
  · rw [Piece.text, newlines_eq_zero (by simpa using hc)]
    rfl

theorem takes_blank {line : Nat} (h : s.At (done ++ [c]) cs)
    (hstart : s.start = (encode done).length) (hline : s.line = line + newlines [c]) :
    Takes line done (.blank c, cs) (some (.ok none, s)) :=
  ⟨s, rfl, h, hstart, hline⟩

theorem takes_slash (h : s.At (done ++ ['/']) cs) (hstart : s.start = (encode done).length) :
    Takes s.line done (Piece.next '/' cs)
      (if !s.isAtEnd && s.peek = '/' then some (.ok none, s.advance.skip (· ≠ '\n'))
        else some (.ok (some .slash), s)) := by
  simp only [Piece.next]
  split
  next rest =>
    have hskip := (h.advance (by decide)).skip (asciiClass_ne (e := '\n') (by decide))
    simp only [List.append_assoc] at hskip
    have hlines : newlines ('/' :: '/' :: rest.takeWhile (· ≠ '\n')) = 0 := by
      refine newlines_eq_zero ?_
      simp only [List.forall_mem_cons]
      exact ⟨by decide, by decide, fun d hd => by simpa using List.mem_takeWhile_imp hd⟩
    rw [h.isAtEnd_cons, h.peek_ascii (by decide)]
    refine ⟨s.advance.skip (· ≠ '\n'), rfl, hskip, hstart, ?_⟩
    rw [Piece.ofComment, Piece.text, hlines]
    rfl
  next hne =>
    have hstop : (!s.isAtEnd && decide (s.peek = '/')) = false := by
      cases cs with
      | nil => rw [h.isAtEnd_nil]; rfl
      | cons d cs =>
        have hpeek : s.peek ≠ '/' := fun heq => hne cs (by rw [h.eq_of_peek (by decide) heq])
        rw [decide_eq_false hpeek, Bool.and_false]
    rw [hstop]
    exact takes_mark h hstart (by decide) _

/-- A pass takes the piece that starts with the character at hand. -/
theorem takes_next (h : s.At done (c :: cs)) (hstart : s.start = s.curr) :
    Takes s.line done (Piece.next c cs) s.scanToken := by
  have hstart' : s.advance.start = (encode done).length := hstart.trans h.curr
  have heq : ∀ {d : Char}, d.toNat < 128 → s.peek = d → c = d := fun hd => h.eq_of_peek hd
  unfold scanToken
  dsimp only
  split
  all_goals try next hpeek =>
    obtain rfl := heq (by decide) hpeek
    exact takes_mark (h.advance (by decide)) hstart' (by decide) _
  all_goals try next hpeek =>
    obtain rfl := heq (by decide) hpeek
    exact takes_operator (h.advance (by decide)) hstart' (by decide) _ _
  all_goals try next hpeek =>
    obtain rfl := heq (by decide) hpeek
    exact takes_blank (h.advance (by decide)) hstart' rfl
  · next hpeek =>
    obtain rfl := heq (by decide) hpeek
    exact takes_slash (h.advance (by decide)) hstart'
  · next hpeek =>
    obtain rfl := heq (by decide) hpeek
    have hadvance := h.advance (by decide)
    exact takes_blank ⟨hadvance.text, hadvance.curr⟩ hstart' rfl
  · next hpeek =>
    obtain rfl := heq (by decide) hpeek
    exact takes_string (h.advance (by decide)) hstart'
  -- No mark, so the class of the character decides, and the byte at hand is of the same class.
  have hdigit : s.peek.isDigit = c.isDigit :=
    h.peek_class (asciiClass_of_lt fun _ => lt_of_isDigit)
  have hstartName : isNameStart s.peek = isNameStart c :=
    h.peek_class (asciiClass_of_lt fun _ hc => lt_of_isNameChar (isNameChar_of_isNameStart hc))
  have hadvance : isNameChar c → s.advance.At (done ++ [c]) cs := fun hc =>
    h.advance (lt_of_isNameChar hc)
  unfold Piece.next
  split
  all_goals try exact absurd (h.peek_ascii (by decide)) (by assumption)
  split
  next hblank =>
    simp only [isBlank, Bool.or_eq_true, decide_eq_true_eq] at hblank
    rcases hblank with ((rfl | rfl) | rfl) | rfl <;>
      exact absurd (h.peek_ascii (by decide)) (by assumption)
  next hblank =>
    rw [hdigit, hstartName]
    split
    next hc => exact takes_number (hadvance (isNameChar_of_isDigit hc)) hstart' hc
    next =>
      split
      next hc => exact takes_identifier (hadvance (isNameChar_of_isNameStart hc)) hstart' hc
      next =>
        refine takes_stray h.text hstart' ?_ _
        rintro rfl
        exact hblank rfl

end Pass

/-- The items that the scanner has yet to yield. -/
inductive Left (s : Scanner) : List Item → Prop where
  | before {done rest} : s.At done rest → Left s (itemsFrom s.line (pieces rest))
  | behind : s.curr = s.bytes.length + 1 → Left s []

theorem left_new (source : String) : (new source).Left (scan source) :=
  .before (⟨rfl, rfl⟩ : (new source).At [] source.toList)

/-- What a call comes to between `done` and `rest`: the item of the piece that it takes behind some
layout, or the end of input. -/
inductive Comes (s : Scanner) (done rest : List Char) : Item → Scanner → Prop where
  | piece {gap c cs item s'} : rest = gap ++ c :: cs →
      (Piece.next c cs).1.item? s'.line = some item →
      s'.At (done ++ gap ++ (Piece.next c cs).1.text) (Piece.next c cs).2 →
      s'.line = s.line + newlines (gap ++ (Piece.next c cs).1.text) → Comes s done rest item s'
  | finish {s'} : s'.text = s.text → s'.curr = s'.bytes.length + 1 →
      s'.line = s.line + newlines rest → Comes s done rest (.ok ⟨.eof, "", s'.line⟩) s'

theorem Comes.behind {s s' s'' : Scanner} {done gap rest : List Char} {item : Item}
    (h : s'.Comes (done ++ gap) rest item s'') (htext : s'.text = s.text)
    (hline : s'.line = s.line + newlines gap) : s.Comes done (gap ++ rest) item s'' := by
  cases h with
  | @piece gap' c cs _ _ hrest hitem hat hline' =>
    subst hrest
    have hrest : gap ++ (gap' ++ c :: cs) = gap ++ gap' ++ c :: cs :=
      (List.append_assoc ..).symm
    refine .piece hrest hitem ?_ ?_
    · rwa [← List.append_assoc done gap gap']
    · rw [hline', hline, List.append_assoc, newlines_append gap, Nat.add_assoc]
  | finish htext' hcurr hline' =>
    exact .finish (htext'.trans htext) hcurr
      (by rw [hline', hline, newlines_append, Nat.add_assoc])

theorem finish_at {s : Scanner} {done : List Char} (h : s.At done []) :
    ∃ s', s.finish = (some (.ok ⟨.eof, "", s.line⟩), s') ∧
      s.Comes done [] (.ok ⟨.eof, "", s.line⟩) s' ∧ s'.Left [] := by
  have hlen : s.curr = s.bytes.length := h.length.symm
  have hcurr : s.advance.curr = s.advance.bytes.length + 1 := congrArg (· + 1) hlen
  have hcomes : s.Comes done [] (.ok ⟨.eof, "", s.advance.line⟩) s.advance := .finish rfl hcurr rfl
  exact ⟨s.advance, by rw [finish, if_pos hlen], hcomes, .behind hcurr⟩

theorem item?_eq (line : Nat) (p : Piece) :
    p.item? line = match outcome line p with
      | .error d => some (.error d)
      | .ok none => none
      | .ok (some k) => some (.ok ⟨k, String.ofList p.text, line⟩) := by
  cases p <;> rfl

/-- A call comes to the first of the items, and the others are left. -/
theorem nextWithin_at {n : Nat} {s : Scanner} {done rest : List Char} (h : s.At done rest)
    (hn : rest.length ≤ n) :
    ∃ item items s', itemsFrom s.line (pieces rest) = item :: items ∧
      nextWithin n s = some (some item, s') ∧ s.Comes done rest item s' ∧ s'.Left items := by
  induction n generalizing s done rest with
  | zero =>
    obtain rfl := List.eq_nil_of_length_eq_zero (Nat.le_zero.mp hn)
    obtain ⟨s', hfinish, hcomes, hleft⟩ := finish_at h
    exact ⟨_, [], s', rfl, by rw [nextWithin, hfinish], hcomes, hleft⟩
  | succ n ih =>
    cases rest with
    | nil =>
      obtain ⟨s', hfinish, hcomes, hleft⟩ := finish_at h
      refine ⟨_, [], s', rfl, ?_, hcomes, hleft⟩
      rw [nextWithin, h.isAtEnd_nil, if_pos rfl, hfinish]
    | cons c cs =>
      obtain ⟨s', hpass, hat, hstart, hline⟩ :=
        takes_next (s := { s with start := s.curr }) ⟨h.text, h.curr⟩ rfl
      have hslice := hat.slice?
      have hlen := length_next c cs
      have htaken := text_append_next c cs
      have hrest : c :: cs = [] ++ c :: cs := rfl
      have hpiece : ∀ item, (Piece.next c cs).1.item? s'.line = some item →
          s.Comes done (c :: cs) item s' := fun item hitem =>
        .piece hrest hitem (by rwa [List.append_nil]) hline
      rw [List.length_cons] at hn
      rw [nextWithin, h.isAtEnd_cons, if_neg Bool.false_ne_true, hpass, pieces_cons, itemsFrom,
        ← show s'.line = s.line + _ from hline]
      rw [item?_eq] at hpiece ⊢
      cases hout : outcome s'.line (Piece.next c cs).1 with
      | error d => exact ⟨_, _, s', rfl, rfl, hpiece _ (by rw [hout]), .before hat⟩
      | ok kind? =>
        cases kind? with
        | none =>
          obtain ⟨item, items, s'', hitems, hnext, hcomes, hleft⟩ := ih hat (by omega)
          refine ⟨item, items, s'', hitems, hnext, ?_, hleft⟩
          have htext : s'.text = s.text := by
            rw [← String.toList_inj, hat.text, h.text, List.append_assoc, htaken]
          rw [← htaken]
          exact hcomes.behind htext hline
        | some k =>
          refine ⟨_, _, s', rfl, ?_, hpiece _ (by rw [hout]), .before hat⟩
          simp only [Option.bind_eq_bind, Option.bind_some, hstart, hslice]
          rfl

theorem length_le_encode (cs : List Char) : cs.length ≤ (encode cs).length := by
  induction cs with
  | nil => exact Nat.le_refl _
  | cons c cs ih =>
    have hpos := List.length_pos_iff.mpr (String.utf8EncodeChar_ne_nil (c := c))
    rw [encode_cons, List.length_append, List.length_cons]
    omega

theorem At.next {s : Scanner} {done rest : List Char} (h : s.At done rest) :
    ∃ item items s', itemsFrom s.line (pieces rest) = item :: items ∧
      s.next = some (some item, s') ∧ s.Comes done rest item s' ∧ s'.Left items := by
  refine nextWithin_at h ?_
  rw [h.length, Nat.add_sub_cancel_left]
  exact length_le_encode _

/-- A call yields the first of the items that are left, or nothing if none is, and leaves the
others. -/
theorem Left.next {s : Scanner} {items : List Item} (h : s.Left items) :
    ∃ s', s.next = some (items.head?, s') ∧ s'.Left items.tail := by
  cases h with
  | before h =>
    obtain ⟨item, items, s', hitems, hnext, -, hleft⟩ := h.next
    rw [hitems]
    exact ⟨s', hnext, hleft⟩
  | behind h =>
    refine ⟨s, ?_, .behind h⟩
    rw [Scanner.next, h, Nat.sub_eq_zero_of_le (Nat.le_succ _), nextWithin, finish,
      if_neg (by rw [h]; exact Nat.succ_ne_self _)]
    rfl

theorem Left.yielded {s : Scanner} {items : List Item} (h : s.Left items) (n : Nat) :
    s.yielded n = some items[n]? := by
  induction n generalizing s items with
  | zero =>
    obtain ⟨s', hnext, -⟩ := h.next
    rw [Scanner.yielded, hnext, List.head?_eq_getElem?]
    rfl
  | succ n ih =>
    obtain ⟨s', hnext, hleft⟩ := h.next
    rw [Scanner.yielded, hnext, ← List.getElem?_tail]
    exact ih hleft

/-- The calls yield the items of the text in order and nothing behind them, and no slice of the
text ever cuts a character. -/
theorem yielded_new (source : String) (n : Nat) :
    (new source).yielded n = some (scan source)[n]? :=
  (left_new source).yielded n

end Scanner

theorem length_itemsFrom (line : Nat) (ps : List Piece) :
    (itemsFrom line ps).length ≤ ps.length + 1 := by
  induction ps generalizing line with
  | nil => exact Nat.le_refl _
  | cons p ps ih =>
    have hrest := ih (line + newlines p.text)
    cases p with
    | blank c | comment text => exact Nat.le_succ_of_le hrest
    | word k text | stray c | openString text => exact Nat.succ_le_succ hrest

theorem length_piecesUpTo (n : Nat) (cs : List Char) : (piecesUpTo n cs).length ≤ n := by
  induction n generalizing cs with
  | zero => exact Nat.le_refl _
  | succ n ih =>
    cases cs with
    | nil => exact Nat.zero_le _
    | cons c cs => exact Nat.succ_le_succ (ih _)

/-- Every item but the last stands for a byte at least. -/
theorem length_scan (source : String) :
    (scan source).length ≤ (Scanner.new source).bytes.length + 1 := by
  have hitems := length_itemsFrom 1 (pieces source.toList)
  have hpieces := length_piecesUpTo source.toList.length source.toList
  have hchars := Scanner.length_le_encode source.toList
  rw [Scanner.bytes_eq]
  show (itemsFrom 1 (pieces source.toList)).length ≤ (encode source.toList).length + 1
  unfold pieces at hitems ⊢
  omega

end Lox
