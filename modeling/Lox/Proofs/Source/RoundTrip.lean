import Lox.Proofs.Grammar.Complete.Whole
import Lox.Proofs.Source.Command

namespace Lox

namespace Grammar

variable {loop : Bool} {ts : List Token}

/-- The source of a tree derives a tree that differs in identities and lines only. -/
def Symbol.Renders (loop : Bool) : (s : Symbol) → s.Tree → Prop
  | .expression r, e => RendersExpression loop r e
  | .items, es => List.length es ≠ 0 ∧ RendersItems loop es
  | .arguments, es => RendersArguments loop es
  | .optional, o => RendersOptional loop o
  | .function, f => RendersFunction loop f
  | .method, m => RendersMethod loop m
  | .methods, ms => RendersMethods loop ms
  | .variable, s => RendersVariable loop s
  | .start, o => RendersStart loop o
  | .statement d, s => RendersStatement loop d s
  | .declaration _, s => RendersDeclaration loop s
  | .declarations, ss => RendersDeclarations loop ss

theorem Derives.renders {s : Symbol} {t : s.Tree} (h : Derives true loop s ts t) :
    (∀ t ∈ ts, Legible t) → s.Renders loop t := by
  induction h with
  | operand hr _ ih => exact fun ht => .operand hr (ih ht)
  | assign hname _ _ ih =>
    intro ht
    exact .assign hname (ih fun t h => ht t (by simp [h])) (ht _ (by simp)).written
  | @set _ _ _ _ _ _ name _ _ _ hname _ _ ih₁ ih₂ =>
    intro ht
    exact .set (ih₁ fun t h => ht t (by simp [h])) hname (ih₂ fun t h => ht t (by simp [h]))
      (ht name (by simp)).written
  | @operation _ _ _ _ _ _ _ operator _ hop hr _ ih₁ ih₂ =>
    intro ht
    exact .operation (ih₁ fun t h => ht t (by simp [h])) hop hr
      (ih₂ fun t h => ht t (by simp [h])) (ht operator (by simp)).written
  | sign hop _ ih =>
    intro ht
    exact .sign hop (ih fun t h => ht t (by simp [h])) (ht _ (by simp)).written
  | @call _ _ _ _ _ _ paren _ _ _ hparen ih₁ ih₂ =>
    intro ht
    exact .call (ih₁ fun t h => ht t (by simp [h])) (ih₂ fun t h => ht t (by simp [h])) hparen
      (ht paren (by simp)).written
  | @get _ _ _ _ name _ _ hname ih =>
    intro ht
    exact .get (ih fun t h => ht t (by simp [h])) hname (ht name (by simp)).written
  | literal h => exact fun ht => .literal h (ht _ (by simp))
  | name h => exact fun ht => .name h (ht _ (by simp)).written
  | this h => exact fun ht => .this h (ht _ (by simp)).written
  | super h _ hmethod =>
    exact fun ht => .super h hmethod (ht _ (by simp)).written (ht _ (by simp)).written
  | grouping _ _ _ ih => exact fun ht => .grouping (ih fun t h => ht t (by simp [h]))
  | anonymous _ _ ih => exact fun ht => rendersAnonymous (ih fun t h => ht t (by simp [h]))
  | item _ ih => exact fun ht => ⟨by simp, .one (ih ht)⟩
  | items _ _ _ ih₁ ih₂ =>
    intro ht
    obtain ⟨hlen, h₂⟩ := ih₂ fun t h => ht t (by simp [h])
    refine ⟨by simp, .more (ih₁ fun t h => ht t (by simp [h])) ?_ h₂⟩
    rintro rfl
    exact hlen rfl
  | noArguments => exact fun _ => .done ⟨[], .noArguments, rfl⟩
  | arguments _ hmax ih => exact fun ht => .of_items (ih ht).2 hmax
  | leftOut => exact fun _ => nofun
  | present _ ih =>
    rintro ht _ ⟨⟩
    exact ih ht
  | function _ hparams _ _ _ _ ih =>
    intro ht
    exact rendersFunction hparams (fun t h => (ht t (by simp [h])).written)
      (ih fun t h => ht t (by simp [h]))
  | method hname _ ih =>
    intro ht
    exact rendersMethod hname (ht _ (by simp)).written (ih fun t h => ht t (by simp [h]))
  | noMethods => exact fun _ => rendersMethods_nil
  | methods _ _ ih₁ ih₂ =>
    intro ht
    exact rendersMethods_cons (ih₁ fun t h => ht t (by simp [h]))
      (ih₂ fun t h => ht t (by simp [h]))
  | bare _ hname => exact fun ht => rendersVariable hname (ht _ (by simp)).written nofun
  | @initialized _ _ _ _ name _ _ _ hname _ _ _ ih =>
    intro ht
    refine rendersVariable hname (ht name (by simp)).written ?_
    rintro _ ⟨⟩
    exact ih fun t h => ht t (by simp [h])
  | noStart => exact fun _ => nofun
  | startVariable _ ih =>
    rintro ht _ ⟨⟩
    exact (ih ht).declaration
  | startExpression _ _ ih =>
    rintro ht _ ⟨⟩
    exact (printed_expression (ih fun t h => ht t (by simp [h]))).renders.declaration
  | expression _ _ ih =>
    exact fun ht => (printed_expression (ih fun t h => ht t (by simp [h]))).renders
  | print _ _ _ ih => exact fun ht => (printed_print (ih fun t h => ht t (by simp [h]))).renders
  | «return» hk _ _ ih =>
    intro ht
    exact (printed_return hk (ht _ (by simp)).written
      (ih fun t h => ht t (by simp [h]))).renders
  | «break» hk => exact fun ht => (printed_break hk (ht _ (by simp)).written).renders
  | block _ _ _ ih => exact fun ht => (printed_block (ih fun t h => ht t (by simp [h]))).renders
  | «while» _ _ _ _ _ ih₁ ih₂ =>
    intro ht
    exact rendersStatement_while (ih₁ fun t h => ht t (by simp [h]))
      (ih₂ fun t h => ht t (by simp [h]))
  | «for» _ _ _ _ _ _ _ _ ih₁ ih₂ ih₃ ih₄ =>
    intro ht
    exact rendersStatement_for (ih₁ fun t h => ht t (by simp [h]))
      (ih₂ fun t h => ht t (by simp [h])) (ih₃ fun t h => ht t (by simp [h]))
      (ih₄ fun t h => ht t (by simp [h]))
  | «if» _ _ _ _ _ ih₁ ih₂ =>
    intro ht
    obtain ⟨d', -, h₂⟩ := ih₂ fun t h => ht t (by simp [h])
    exact (printed_if (ih₁ fun t h => ht t (by simp [h])) h₂).renders
  | ifElse _ _ _ _ _ hnearest _ _ ih₁ ih₂ ih₃ =>
    intro ht
    obtain ⟨d₁, hd₁, h₂⟩ := ih₂ fun t h => ht t (by simp [h])
    obtain ⟨d₂, hd₂, h₃⟩ := ih₃ fun t h => ht t (by simp [h])
    have hfalse : d₁ = false := by simpa [hnearest rfl] using hd₁
    subst hfalse
    exact ⟨d₂, hd₂, printed_ifElse (ih₁ fun t h => ht t (by simp [h])) h₂ h₃⟩
  | statement _ ih => exact fun ht => (ih ht).declaration
  | declareVariable _ ih => exact fun ht => (ih ht).declaration
  | declareFunction _ _ ih =>
    exact fun ht => rendersDeclaration_function (ih fun t h => ht t (by simp [h]))
  | declareClass _ hname _ _ _ ih =>
    intro ht
    exact rendersDeclaration_class hname (ht _ (by simp)).written
      (ih fun t h => ht t (by simp [h]))
  | @declareSubclass _ _ _ _ _ _ _ superclass _ _ _ hname _ hsuperclass _ _ _ ih =>
    intro ht
    exact rendersDeclaration_subclass hname (ht _ (by simp)).written hsuperclass
      (ht superclass (by simp)).written (ih fun t h => ht t (by simp [h]))
  | noDeclarations => exact fun _ => rendersDeclarations_nil
  | declarations _ _ ih₁ ih₂ =>
    intro ht
    exact rendersDeclarations_cons (ih₁ fun t h => ht t (by simp [h]))
      (ih₂ fun t h => ht t (by simp [h]))

/-- The text of an expression is cut into tokens without a fault, and they derive it again. -/
theorem scan_of_renders {e : Expr} (h : RendersExpression loop .assignment e) :
    ∃ e', Derives true loop (.expression .assignment) (untilEnd (tokens (scan e.source))) e' ∧
      e'.forget Token.bare = e.forget Token.bare ∧ faults (scan e.source) = [] := by
  obtain ⟨ts, line, ⟨e', hd, he⟩, hitems⟩ := h 1 [] rfl
  rw [List.append_nil, items_nil] at hitems
  have hscan : scan e.source = ts.map Except.ok ++ [.ok ⟨.eof, "", line⟩] := hitems
  have htokens : tokens (scan e.source) = ts ++ [⟨.eof, "", line⟩] := by
    rw [hscan, tokens, List.filterMap_append, List.filterMap_map]
    simp [Function.comp_def, Item.token?]
  have hfaults : faults (scan e.source) = [] := by
    rw [hscan, faults, List.filterMap_append, List.filterMap_map]
    simp [Function.comp_def, Item.fault?]
  have huntil : untilEnd (tokens (scan e.source)) = ts := by
    rw [htokens, untilEnd_append hd.not_eof rfl]
  exact ⟨e', huntil ▸ hd, he, hfaults⟩

end Grammar

open Grammar

theorem readExpression_eq_ok {source : String} {firstId : Nat} {e : Expr}
    (h : (readExpression source firstId).result = .ok e) :
    faults (scan source) = [] ∧
      (read wholeExpression (tokens (scan source)) firstId).result = .ok e := by
  simp only [readExpression, readSource] at h
  split at h
  next hfaults => exact ⟨hfaults, h⟩
  next => simp at h
  next => simp at h

/-- A source that is read is derived from its tokens. -/
theorem derives_of_readExpression {source : String} {firstId : Nat} {e : Expr}
    (h : (readExpression source firstId).result = .ok e) :
    Derives true false (.expression .assignment) (untilEnd (tokens (scan source))) e :=
  ((read_wholeExpression_spec _ firstId).tree e (readExpression_eq_ok h).2).1

theorem readExpression_of_derives {source : String} {e : Expr} (firstId : Nat)
    (hfaults : faults (scan source) = [])
    (h : Derives true false (.expression .assignment) (untilEnd (tokens (scan source))) e) :
    ∃ e', (readExpression source firstId).result = .ok e' ∧ e'.forget id = e.forget id := by
  obtain ⟨e', hread, he⟩ := read_wholeExpression_of_derives firstId h
  refine ⟨e', ?_, he⟩
  rw [readExpression, readSource, hfaults]
  exact hread

/-- The digits of a number, and the number that is read from them. -/
def ReadsBack (x : Float) : Prop :=
  ∃ whole places, (∀ d ∈ whole ++ places, d.isDigit) ∧ whole ≠ [] ∧ numeralValue whole places = x ∧
    (Numeral.plain x).toList = if places = [] then whole else whole ++ '.' :: places

theorem takeWhile_isDigit {whole rest : List Char} (h : ∀ d ∈ whole, d.isDigit) :
    (whole ++ '.' :: rest).takeWhile Char.isDigit = whole ∧
      (whole ++ '.' :: rest).dropWhile Char.isDigit = '.' :: rest := by
  rw [List.takeWhile_append_of_pos h, List.dropWhile_append_of_pos h]
  simp

/-- The digits can only be split at the point. -/
theorem readsBack_iff (x : Float) :
    ReadsBack x ↔
      let text := (Numeral.plain x).toList
      let whole := text.takeWhile Char.isDigit
      let places := (text.dropWhile Char.isDigit).tail
      (whole ++ places).all Char.isDigit ∧ whole ≠ [] ∧ numeralValue whole places = x ∧
        text = if places = [] then whole else whole ++ '.' :: places := by
  refine ⟨?_, fun ⟨hdigits, hne, hvalue, htext⟩ =>
    ⟨_, _, List.all_eq_true.mp hdigits, hne, hvalue, htext⟩⟩
  rintro ⟨whole, places, hdigits, hne, hvalue, htext⟩
  have hwhole : ∀ d ∈ whole, d.isDigit := fun d hd => hdigits d (by simp [hd])
  have hsplit : (Numeral.plain x).toList.takeWhile Char.isDigit = whole ∧
      ((Numeral.plain x).toList.dropWhile Char.isDigit).tail = places := by
    rw [htext]
    split
    next hplaces =>
      rw [List.takeWhile_eq_self_iff.mpr hwhole, List.dropWhile_eq_nil_iff.mpr hwhole, hplaces]
      exact ⟨rfl, rfl⟩
    next =>
      obtain ⟨htake, hdrop⟩ := @takeWhile_isDigit whole places hwhole
      rw [htake, hdrop]
      exact ⟨rfl, rfl⟩
  simp only [hsplit.1, hsplit.2]
  exact ⟨List.all_eq_true.mpr hdigits, hne, hvalue, htext⟩

instance (x : Float) : Decidable (ReadsBack x) := decidable_of_iff _ (readsBack_iff x).symm

/-- Is the token no number, or one that is read back? -/
def Token.readsBack (t : Token) : Bool :=
  match t.kind with
  | .number x => x.isFinite && decide (ReadsBack x)
  | _ => true

theorem ReadsBack.isWord {x : Float} (h : ReadsBack x) :
    IsWord (.number x) (Numeral.plain x).toList := by
  obtain ⟨whole, places, hdigits, hne, rfl, htext⟩ := h
  have hwhole : ∀ d ∈ whole, d.isDigit := fun d hd => hdigits d (by simp [hd])
  rw [htext]
  split
  next hplaces =>
    subst hplaces
    exact isWord_whole hwhole hne
  next hplaces => exact isWord_places hwhole hne (fun d hd => hdigits d (by simp [hd])) hplaces

theorem legible_of_mem {source : String} {t : Token}
    (hnumbers : ∀ t ∈ tokens (scan source), ∀ x, t.kind = .number x → ReadsBack x)
    (ht : t ∈ untilEnd (tokens (scan source))) : Legible t := by
  have hmem := (List.takeWhile_prefix _).mem ht
  have hend : t.kind ≠ .eof := by simpa using List.mem_takeWhile_imp ht
  have hwritten := (written_of_mem_tokens hmem).resolve_left hend
  exact ⟨hwritten, fun x hx => (hnumbers t hmem x hx).isWord⟩

/-- Reading the source of a tree that was read from source yields the tree again, apart from
identities and lines. The numbers of the source are finite, and the digits that such a number is
printed with are read back as that number; `readsBack_of_mem_tokens` says that they always are. -/
theorem readExpression_source {source : String} {firstId : Nat} {e : Expr}
    (h : (readExpression source firstId).result = .ok e)
    (hfinite : ∀ t ∈ tokens (scan source), ∀ x, t.kind = .number x → x.isFinite)
    (hdigits : ∀ t ∈ tokens (scan source), ∀ x, t.kind = .number x → x.isFinite → ReadsBack x)
    (nextId : Nat) : ∃ e', (readExpression e.source nextId).result = .ok e' ∧
      e'.forget Token.bare = e.forget Token.bare := by
  have hnumbers : ∀ t ∈ tokens (scan source), ∀ x, t.kind = .number x → ReadsBack x :=
    fun t ht x hx => hdigits t ht x hx (hfinite t ht x hx)
  have hd := derives_of_readExpression h
  have hrenders := hd.renders fun t ht => legible_of_mem hnumbers ht
  obtain ⟨e₁, hd₁, he₁, hfaults⟩ := scan_of_renders hrenders
  obtain ⟨e', hread, he'⟩ := readExpression_of_derives nextId hfaults hd₁
  exact ⟨e', hread, (Expr.forget_eq_of_forget_id Token.bare he').trans he₁⟩

/-- An assignment to a property of a call, with a loop, a class and a `return` in a function. -/
theorem readExpression_source_nested :
    let source := "f(-1.50).y = fun (a) { for (; a < 0.1;) if (a) break; else return !!this.z;
      class C < B { m() { super.m(2); } } }"
    ∃ e, (readExpression source 0).result = .ok e ∧
      (∀ t ∈ tokens (scan source), ∀ x, t.kind = .number x → x.isFinite ∧ ReadsBack x) ∧
      ∃ e', (readExpression e.source 40).result = .ok e' ∧
        e'.forget Token.bare = e.forget Token.bare := by
  intro source
  obtain ⟨hok, hall⟩ : (readExpression source 0).result.isOk ∧
      ∀ t ∈ tokens (scan source), t.readsBack := by decide +kernel
  have hnumbers : ∀ t ∈ tokens (scan source), ∀ x, t.kind = .number x →
      x.isFinite ∧ ReadsBack x := by
    intro t ht x hx
    have h := hall t ht
    simpa only [Token.readsBack, hx, Bool.and_eq_true, decide_eq_true_eq] using h
  cases h : (readExpression source 0).result with
  | error ds => simp [h, Except.isOk, Except.toBool] at hok
  | ok e =>
    exact ⟨e, rfl, hnumbers, readExpression_source h (fun t ht x hx => (hnumbers t ht x hx).1)
      (fun t ht x hx _ => (hnumbers t ht x hx).2) 40⟩

end Lox
