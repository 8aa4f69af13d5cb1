import CodeOutline.Grammar.Css
import CodeOutline.Proofs.Syntax.Insertion
import CodeOutline.Proofs.Text.Occurrence

/-!
The tokens of style sheets around a comment. Most tokens end at the first blank that is not escaped;
a string, a comment and the search for the block of a selector may go on, and then the comment must
have nothing that they look for.
-/

set_option autoImplicit false

namespace CodeOutline.Grammar.Css

open Syntax Syntax.Scan

/-! ## Tokens that end at a blank -/

theorem solid_isNameChar : Solid isNameChar := solid_of_all (by decide)

theorem stays_nameScan : nameScan.Stays := by
  have start : Solid isNameStart := solid_of_all (by decide)
  refine .seq (.first ?_) (.run solid_isNameChar)
  rw [List.forall_mem_cons, List.forall_mem_singleton]
  exact ⟨.text (by decide), .seq (.opt (.text (by decide))) (.one start)⟩

theorem stays_slashPair : slashPair.Stays :=
  .seq (.text (by decide)) (.one (solid_of_all (by decide)))

theorem stays_plainScan : plainScan.Stays := by
  refine .all ?_
  rw [List.forall_mem_cons, List.forall_mem_cons, List.forall_mem_singleton]
  exact ⟨.many (.alt (.one (solid_of_all (by decide))) stays_slashPair),
    .one (solid_of_all (by decide)),
    .many (.alt (.one (solid_of_all (by decide))) stays_slashPair)⟩

theorem stays_digits : (run1 digit).Stays := .run1 (solid_of_all (by decide))

theorem stays_signScan : signScan.Stays := .opt (.one (solid_of_all (by decide)))

theorem stays_unit : unit.Stays := .opt (.run1 (solid_of_all (by decide)))

theorem stays_floatScan : floatScan.Stays := by
  have exponent : (Scan.all [Scan.one (fun c => c == 'e' || c == 'E'), Scan.opt (Scan.text "-"),
      Scan.run1 digit]).Stays := by
    refine .all ?_
    rw [List.forall_mem_cons, List.forall_mem_cons, List.forall_mem_singleton]
    exact ⟨.one (solid_of_all (by decide)), .opt (.text (by decide)), stays_digits⟩
  have fraction : (Scan.all [Scan.text ".", Scan.run1 digit, Scan.opt (Scan.all
      [Scan.one (fun c => c == 'e' || c == 'E'), Scan.opt (Scan.text "-"),
        Scan.run1 digit])]).Stays := by
    refine .all ?_
    rw [List.forall_mem_cons, List.forall_mem_cons, List.forall_mem_singleton]
    exact ⟨.text (by decide), stays_digits, .opt exponent⟩
  refine .all ?_
  rw [List.forall_mem_cons, List.forall_mem_cons, List.forall_mem_singleton]
  exact ⟨stays_signScan, .run (solid_of_all (by decide)), .alt fraction exponent⟩

theorem stays_float : (Scan.seq floatScan unit).Stays := .seq stays_floatScan stays_unit

theorem stays_integer : (Scan.all [signScan, Scan.run1 digit, unit]).Stays := by
  refine .all ?_
  rw [List.forall_mem_cons, List.forall_mem_cons, List.forall_mem_singleton]
  exact ⟨stays_signScan, stays_digits, stays_unit⟩

theorem stays_colorScan : colorScan.Stays := by
  refine .seq (.text (by decide)) fun cs ends => ?_
  obtain ⟨n, less, same⟩ := Stays.takeWhile (p := hexDigit) (solid_of_all (by decide)) ends
  by_cases few : n < 3
  · exact .inl fun more => by rw [same, if_pos few]
  · exact .inr ⟨min n 8, by omega, fun more => by rw [same, if_neg few]⟩

theorem stays_guarded : (Scan.seq (Scan.text "\\") (Scan.one (· != '\n'))).Stays := by
  intro cs ends
  obtain ⟨front, d, rfl, isBlank, free⟩ := ends
  have slash : blank '\\' = false := by decide
  have missing (c : Char) (cs : List Char) (other : c ≠ '\\') :
      Scan.seq (Scan.text "\\") (Scan.one (· != '\n')) (c :: cs) = none := by
    simp [Scan.seq, Scan.text, Text.dropStart?, Ne.symm other]
  cases front with
  | nil =>
    refine .inl fun more => missing d more ?_
    rintro rfl
    rw [slash] at isBlank
    cases isBlank
  | cons c front =>
    by_cases guards : c = '\\'
    · subst guards
      cases front with
      | nil => exact absurd rfl free
      | cons e front =>
        have mark (more : List Char) : Scan.text "\\" ('\\' :: e :: more) = some 1 := rfl
        by_cases feed : e = '\n'
        · subst feed
          exact .inl fun more => by simp [Scan.seq, mark, Scan.one]
        · exact .inr ⟨2, by simp, fun more => by simp [Scan.seq, mark, Scan.one, feed]⟩
    · exact .inl fun more => missing c _ guards

theorem stays_className : (Scan.seq
    (Scan.alt (Scan.seq (Scan.text "\\") (Scan.one (· != '\n'))) nameScan)
    (Scan.many (Scan.alt (Scan.seq (Scan.text "\\") (Scan.one (· != '\n')))
      (Scan.run1 isNameChar)))).Stays :=
  .seq (.alt stays_guarded stays_nameScan) (.many (.alt stays_guarded (.run1 solid_isNameChar)))

/-! ## Tokens that may go on behind a blank -/

/-- A block comment between two blanks. No comment before it is open; a string or a line comment
that may be open does not end in it, and where a selector may look for its block, the comment has no
brace and no semicolon. -/
structure CommentFits (i : Insertion) : Prop where
  front : EndsBlank i.front
  back : ∃ b cs, i.back = b :: cs ∧ blank b = true
  comment : ∃ body, i.comment = '/' :: '*' :: (body ++ ['*', '/']) ∧ ¬['*', '/'] <:+: body ++ ['*']
  comments : ∀ xs ys, i.front = xs ++ '/' :: '*' :: ys → ['*', '/'] <:+: ys
  strings : ∀ q ∈ ['"', '\''], (q ∉ i.comment ∧ '\\' ∉ i.comment ∧ '\n' ∉ i.comment) ∨
    ∀ xs ys, i.front = xs ++ q :: ys → ∃ zs ws, ys = zs ++ '\n' :: ws ∧ zs.getLast? ≠ some '\\'
  lineComments : '\n' ∉ i.comment ∨ ∀ xs ys, i.front = xs ++ '/' :: '/' :: ys → '\n' ∈ ys
  colons : (∀ c ∈ i.comment, c ∉ "\x7b\x7d;".toList) ∨
    ∀ xs ys, i.front = xs ++ ':' :: ys → ∃ c ∈ ys, c ∈ "\x7b\x7d;".toList

/-- Behind a text without slashes every comment fits that has none of the marks that a string or
the search for a block ends with. -/
theorem CommentFits.of_plain {i : Insertion} (front : EndsBlank i.front)
    (back : ∃ b cs, i.back = b :: cs ∧ blank b = true) (noSlash : '/' ∉ i.front)
    (body : List Char) (comment : i.comment = '/' :: '*' :: (body ++ ['*', '/']))
    (closed : ¬['*', '/'] <:+: body ++ ['*'])
    (plain : i.comment.all (fun c => !("\"'\\\n\x7b\x7d;".toList.contains c)) = true) :
    CommentFits i := by
  have absent {c : Char} (mark : c ∈ "\"'\\\n\x7b\x7d;".toList) : c ∉ i.comment := by
    intro member
    have other := List.all_eq_true.1 plain c member
    rw [List.contains_iff_mem.2 mark] at other
    cases other
  have slash := absent (c := '\\') (by decide)
  have feed := absent (c := '\n') (by decide)
  refine ⟨front, back, ⟨body, comment, closed⟩, fun xs ys parts => absurd (by simp [parts]) noSlash,
    fun q isQuote => .inl ⟨absent ?quotes, slash, feed⟩, .inl feed,
    .inl fun c member mark => absent ?braces member⟩
  case quotes =>
    rw [List.mem_cons, List.mem_singleton] at isQuote
    rcases isQuote with rfl | rfl <;> decide
  case braces => exact List.mem_of_mem_drop (i := 4) mark

/-- The number of characters up to the end of a string, from behind its first mark on. -/
def closing (quote : Char) : List Char → Option Nat
  | [] => none
  | '\\' :: cs =>
    match cs with
    | [] => none
    | _ :: cs => (closing quote cs).map (· + 2)
  | c :: cs =>
    if c = quote then some 1 else if c = '\n' then none else (closing quote cs).map (· + 1)

def stringChar (quote : Char) : Scan :=
  Scan.alt (Scan.seq (Scan.text "\\") (Scan.one (fun _ => true)))
    (Scan.one (fun c => c != quote && c != '\n' && c != '\\'))

theorem stringScan_eq (quote : Char) : stringScan quote =
    Scan.all [Scan.one (· == quote), Scan.many (stringChar quote), Scan.one (· == quote)] := rfl

section

variable {quote : Char} {c : Char}

theorem stringChar_guard (d : Char) (cs : List Char) :
    stringChar quote ('\\' :: d :: cs) = some 2 := rfl

theorem stringChar_slash : stringChar quote ['\\'] = none := by
  have guard : Scan.seq (Scan.text "\\") (Scan.one (fun _ => true)) ['\\'] = none := rfl
  rw [stringChar, Scan.alt, guard, Option.orElse_none, Scan.one]
  simp

theorem stringChar_other (other : c ≠ '\\') (cs : List Char) :
    stringChar quote (c :: cs) = if c = quote ∨ c = '\n' then none else some 1 := by
  have guard : Scan.seq (Scan.text "\\") (Scan.one (fun _ => true)) (c :: cs) = none := by
    simp [Scan.seq, Scan.text, Text.dropStart?, Ne.symm other]
  rw [stringChar, Scan.alt, guard, Option.orElse_none, Scan.one]
  by_cases ends : c = quote ∨ c = '\n'
  · rw [if_pos ends]
    rcases ends with rfl | rfl <;> simp
  · rw [if_neg ends]
    rw [not_or] at ends
    simp [ends, other]

theorem bind_manyTo_of_none {fuel cs : List Char} (none_ : stringChar quote cs = none) :
    ((Scan.manyTo (stringChar quote) fuel cs).bind fun n =>
      (Scan.one (· == quote) (cs.drop n)).map (n + ·)) = Scan.one (· == quote) cs := by
  have stops : Scan.manyTo (stringChar quote) fuel cs = some 0 := by
    cases fuel with
    | nil => rfl
    | cons _ fuel => simp [Scan.manyTo, none_]
  rw [stops, Option.bind_some, List.drop_zero]
  cases Scan.one (· == quote) cs <;> simp

theorem bind_manyTo_of_some {f : Char} {fuel cs : List Char} {n : Nat}
    (some_ : stringChar quote cs = some (n + 1)) :
    ((Scan.manyTo (stringChar quote) (f :: fuel) cs).bind fun n =>
      (Scan.one (· == quote) (cs.drop n)).map (n + ·)) =
    ((Scan.manyTo (stringChar quote) fuel (cs.drop (n + 1))).bind fun n' =>
      (Scan.one (· == quote) ((cs.drop (n + 1)).drop n')).map (n' + ·)).map (· + (n + 1)) := by
  have goes : Scan.manyTo (stringChar quote) (f :: fuel) cs =
      (Scan.manyTo (stringChar quote) fuel (cs.drop (n + 1))).map (n + 1 + ·) := by
    simp [Scan.manyTo, some_]
  rw [goes]
  cases Scan.manyTo (stringChar quote) fuel (cs.drop (n + 1)) with
  | none => rfl
  | some m =>
    rw [Option.map_some, Option.bind_some, Option.bind_some, List.drop_drop, Option.map_map]
    refine congrFun (congrArg Option.map (funext fun k => ?_)) _
    show n + 1 + m + k = m + k + (n + 1)
    omega

theorem stringScan_cons (proper : quote ≠ '\\') (feed : quote ≠ '\n') (cs : List Char) :
    stringScan quote (quote :: cs) = (closing quote cs).map (· + 1) := by
  have inner : ∀ fuel : List Char, cs.length ≤ fuel.length →
      ((Scan.manyTo (stringChar quote) fuel cs).bind fun n =>
        (Scan.one (· == quote) (cs.drop n)).map (n + ·)) = closing quote cs := by
    fun_induction closing quote cs with
    | case1 =>
      intro fuel enough
      rw [bind_manyTo_of_none rfl]
      rfl
    | case2 =>
      intro fuel enough
      rw [bind_manyTo_of_none stringChar_slash]
      simp [Scan.one, Ne.symm proper]
    | case3 d cs ih =>
      intro fuel enough
      obtain ⟨f, fuel, rfl⟩ := List.exists_cons_of_length_pos (Nat.lt_of_lt_of_le (by simp) enough)
      rw [bind_manyTo_of_some (stringChar_guard d cs)]
      exact congrArg _ (ih fuel (by simp at enough; omega))
    | case4 cs other =>
      intro fuel enough
      rw [bind_manyTo_of_none (by rw [stringChar_other proper, if_pos (.inl rfl)])]
      simp [Scan.one]
    | case5 =>
      intro fuel enough
      rw [bind_manyTo_of_none (by rw [stringChar_other (by decide), if_pos (.inr rfl)])]
      simp [Scan.one, Ne.symm feed]
    | case6 c cs plain other other' ih =>
      intro fuel enough
      obtain ⟨f, fuel, rfl⟩ := List.exists_cons_of_length_pos (Nat.lt_of_lt_of_le (by simp) enough)
      have fits : stringChar quote (c :: cs) = some 1 := by
        rw [stringChar_other plain, if_neg (not_or.2 ⟨other, other'⟩)]
      rw [bind_manyTo_of_some fits]
      exact congrArg _ (ih fuel (by simp at enough; omega))
  have mark : Scan.one (· == quote) (quote :: cs) = some 1 := by simp [Scan.one]
  have last (cs : List Char) : Scan.seq (Scan.one (· == quote)) (fun _ => some 0) cs =
      Scan.one (· == quote) cs := by
    cases found : Scan.one (· == quote) cs <;> simp [Scan.seq, found]
  have body : Scan.seq (Scan.many (stringChar quote))
      (Scan.seq (Scan.one (· == quote)) (fun _ => some 0)) cs = closing quote cs := by
    rw [← inner cs (Nat.le_refl _)]
    refine congrArg (Scan.manyTo (stringChar quote) cs cs).bind (funext fun n => ?_)
    rw [last]
    cases Scan.one (· == quote) (cs.drop n) <;> rfl
  have whole : stringScan quote = Scan.seq (Scan.one (· == quote))
      (Scan.seq (Scan.many (stringChar quote))
        (Scan.seq (Scan.one (· == quote)) (fun _ => some 0))) := rfl
  rw [whole, Scan.seq, mark, Option.bind_eq_bind, Option.bind_some, List.drop_succ_cons,
    List.drop_zero, body]
  cases closing quote cs with
  | none => rfl
  | some n => simp [Nat.add_comm]

theorem stringScan_other (other : c ≠ quote) (cs : List Char) :
    stringScan quote (c :: cs) = none := by
  have mark : Scan.one (· == quote) (c :: cs) = none := by simp [Scan.one, other]
  rw [stringScan_eq, Scan.all, Scan.seq, mark]
  rfl

theorem closing_guard (d : Char) (cs : List Char) :
    closing quote ('\\' :: d :: cs) = (closing quote cs).map (· + 2) := rfl

theorem closing_other (other : c ≠ '\\') (cs : List Char) : closing quote (c :: cs) =
    if c = quote then some 1 else if c = '\n' then none else (closing quote cs).map (· + 1) := by
  rw [closing]
  exact other

theorem closing_behind (cs : List Char) {whole : List Char → List Char} (k : Nat)
    (step : ∀ more, closing quote (whole more) = (closing quote (cs ++ more)).map (· + k))
    (inner : (∀ more, closing quote (cs ++ more) = none) ∨
      (∃ n, n < cs.length ∧ ∀ more, closing quote (cs ++ more) = some n) ∨
      ∀ more, closing quote (cs ++ more) = (closing quote more).map (· + cs.length)) :
    (∀ more, closing quote (whole more) = none) ∨
      (∃ n, n < cs.length + k ∧ ∀ more, closing quote (whole more) = some n) ∨
      ∀ more, closing quote (whole more) = (closing quote more).map (· + (cs.length + k)) := by
  rcases inner with fails | ⟨n, less, ends⟩ | goes
  · exact .inl fun more => by rw [step, fails]; rfl
  · exact .inr (.inl ⟨n + k, by omega, fun more => by rw [step, ends]; rfl⟩)
  · refine .inr (.inr fun more => ?_)
    rw [step, goes, Option.map_map]
    exact congrFun (congrArg Option.map (funext fun n => Nat.add_assoc n _ _)) _

def EmptyOrBlank (cs : List Char) : Prop := ∀ c ∈ cs.getLast?, blank c = true

theorem EmptyOrBlank.tail {cs : List Char} (ends : EmptyOrBlank (c :: cs)) : EmptyOrBlank cs := by
  intro d last
  refine ends d ?_
  rw [List.getLast?_cons, last]
  rfl

theorem closing_append {cs : List Char} (ends : EmptyOrBlank cs) (proper : blank quote = false) :
    (∀ more, closing quote (cs ++ more) = none) ∨
      (∃ n, n < cs.length ∧ ∀ more, closing quote (cs ++ more) = some n) ∨
      ∀ more, closing quote (cs ++ more) = (closing quote more).map (· + cs.length) := by
  fun_induction closing quote cs with
  | case1 => exact .inr (.inr fun more => by simp)
  | case2 =>
    have isBlank := ends '\\' rfl
    have slash : blank '\\' = false := by decide
    rw [slash] at isBlank
    cases isBlank
  | case3 d cs ih =>
    have step (more : List Char) : closing quote ('\\' :: d :: cs ++ more) =
        (closing quote (cs ++ more)).map (· + 2) := closing_guard d (cs ++ more)
    exact closing_behind cs 2 step (ih ends.tail.tail)
  | case4 cs other =>
    refine .inr (.inl ⟨1, ?_, fun more => ?_⟩)
    · cases cs with
      | nil =>
        have isBlank := ends quote rfl
        rw [proper] at isBlank
        cases isBlank
      | cons c cs => simp
    · rw [List.cons_append, closing_other other, if_pos rfl]
  | case5 cs plain other =>
    refine .inl fun more => ?_
    rw [List.cons_append, closing_other (by decide), if_neg other, if_pos rfl]
  | case6 c cs plain other feed ih =>
    refine closing_behind cs 1 (fun more => ?_) (ih ends.tail)
    rw [List.cons_append, closing_other plain, if_neg other, if_neg feed]

theorem closing_line {zs : List Char} (free : zs.getLast? ≠ some '\\') (feed : quote ≠ '\n') :
    (∀ more, closing quote (zs ++ '\n' :: more) = none) ∨
      ∃ n, n ≤ zs.length ∧ ∀ more, closing quote (zs ++ '\n' :: more) = some n := by
  fun_induction closing quote zs with
  | case1 =>
    refine .inl fun more => ?_
    rw [List.nil_append, closing_other (by decide), if_neg (Ne.symm feed), if_pos rfl]
  | case2 => exact absurd rfl free
  | case3 d cs ih =>
    have later : cs.getLast? ≠ some '\\' := by
      intro last
      refine free ?_
      rw [List.getLast?_cons, List.getLast?_cons, last]
      rfl
    rcases ih later with fails | ⟨n, less, ends⟩
    · exact .inl fun more => by rw [List.cons_append, List.cons_append, closing_guard, fails]; rfl
    · refine .inr ⟨n + 2, by simpa using less, fun more => ?_⟩
      rw [List.cons_append, List.cons_append, closing_guard, ends]
      rfl
  | case4 cs other =>
    refine .inr ⟨1, by simp, fun more => ?_⟩
    rw [List.cons_append, closing_other other, if_pos rfl]
  | case5 cs plain other =>
    refine .inl fun more => ?_
    rw [List.cons_append, closing_other (by decide), if_neg other, if_pos rfl]
  | case6 c cs plain other noFeed ih =>
    have later : cs.getLast? ≠ some '\\' := by
      intro last
      refine free ?_
      rw [List.getLast?_cons, last]
      rfl
    rcases ih later with fails | ⟨n, less, ends⟩
    · refine .inl fun more => ?_
      rw [List.cons_append, closing_other plain, if_neg other, if_neg noFeed, fails]
      rfl
    · refine .inr ⟨n + 1, by simpa using less, fun more => ?_⟩
      rw [List.cons_append, closing_other plain, if_neg other, if_neg noFeed, ends]
      rfl

theorem closing_plain {cs : List Char} (noQuote : quote ∉ cs) (noSlash : '\\' ∉ cs)
    (noFeed : '\n' ∉ cs) (more : List Char) :
    closing quote (cs ++ more) = (closing quote more).map (· + cs.length) := by
  induction cs with
  | nil => simp
  | cons c cs ih =>
    rw [List.mem_cons, not_or] at noQuote noSlash noFeed
    rw [List.cons_append, closing_other (Ne.symm noSlash.1), if_neg (Ne.symm noQuote.1),
      if_neg (Ne.symm noFeed.1), ih noQuote.2 noSlash.2 noFeed.2, Option.map_map]
    rfl

end

namespace CommentFits

variable {i : Insertion} (fits : CommentFits i)

include fits

theorem endsBlank {passed rest : List Char} (parts : i.front = passed ++ rest)
    (some_ : rest ≠ []) : EndsBlank rest := by
  have front := fits.front
  rw [parts] at front
  exact front.of_append some_

theorem keeps_stringScan {quote : Char} (isQuote : quote ∈ ['"', '\'']) :
    i.Keeps (stringScan quote) := by
  have proper : quote ≠ '\\' ∧ quote ≠ '\n' ∧ blank quote = false := by
    rw [List.mem_cons, List.mem_singleton] at isQuote
    rcases isQuote with rfl | rfl <;> decide
  obtain ⟨slash, feed, solid⟩ := proper
  intro passed rest parts some_
  obtain ⟨c, cs, rfl⟩ := List.exists_cons_of_ne_nil some_
  by_cases mark : c = quote
  · subst mark
    rw [List.cons_append, List.cons_append, stringScan_cons slash feed, stringScan_cons slash feed]
    rcases fits.strings c isQuote with ⟨noQuote, noSlash, noFeed⟩ | lines
    · have ends : EmptyOrBlank cs := by
        obtain ⟨front, b, whole, isBlank, -⟩ := fits.endsBlank parts some_
        intro d last
        have same : (c :: cs).getLast? = some d := by
          rw [List.getLast?_cons, last]
          rfl
        rw [whole, List.getLast?_concat] at same
        obtain rfl := Option.some.inj same
        exact isBlank
      rcases closing_append ends solid with fails | ⟨n, less, ended⟩ | goes
      · exact .inl ⟨by rw [fails]; rfl, by rw [fails]; rfl⟩
      · refine .inr ⟨n + 1, n + 1, by rw [ended]; rfl, by rw [ended]; rfl, .inl ⟨?_, rfl⟩⟩
        rw [List.length_cons]
        omega
      · rw [goes, goes, closing_plain noQuote noSlash noFeed]
        cases closing c i.back with
        | none => exact .inl ⟨rfl, rfl⟩
        | some m =>
          refine .inr ⟨m + cs.length + 1, m + i.comment.length + cs.length + 1, rfl, rfl,
            .inr ⟨?_, by omega⟩⟩
          rw [List.length_cons]
          omega
    · obtain ⟨zs, ws, rfl, free⟩ := lines passed cs parts
      rw [List.append_assoc, List.append_assoc, List.cons_append, List.cons_append]
      rcases closing_line free feed with fails | ⟨n, less, ended⟩
      · exact .inl ⟨by rw [fails]; rfl, by rw [fails]; rfl⟩
      · refine .inr ⟨n + 1, n + 1, by rw [ended]; rfl, by rw [ended]; rfl, .inl ⟨?_, rfl⟩⟩
        rw [List.length_cons, List.length_append, List.length_cons]
        omega
  · rw [List.cons_append, List.cons_append, stringScan_other mark, stringScan_other mark]
    exact .inl ⟨rfl, rfl⟩

theorem keeps_slashComment : i.Keeps Scan.slashComment := by
  intro passed rest parts some_
  have letters : "//".toList.all (fun c => !blank c) = true := by decide
  rcases Stays.dropStart? letters (fits.endsBlank parts some_) with
    fails | ⟨cs, filled, rfl, begins⟩
  · have missing (more : List Char) : Scan.slashComment (rest ++ more) = none := by
      rw [Scan.slashComment, Scan.seq, Scan.text, fails]
      rfl
    exact .inl ⟨missing _, missing _⟩
  · have taken (more : List Char) : Scan.slashComment ('/' :: '/' :: cs ++ more) =
        some (2 + ((cs ++ more).takeWhile Scan.notNewline).length) := rfl
    refine .inr ⟨_, _, taken i.back, taken (i.comment ++ i.back), ?_⟩
    show i.Lengths (cs.length + 2) _ _
    by_cases feed : '\n' ∈ cs
    · obtain ⟨xs, ys, rfl, free⟩ := List.eq_append_cons_of_mem feed
      have inLine : ∀ c ∈ xs, Scan.notNewline c = true := by
        intro c member
        rw [Scan.notNewline, bne_iff_ne]
        rintro rfl
        exact free member
      have line (more : List Char) :
          ((xs ++ '\n' :: ys ++ more).takeWhile Scan.notNewline).length = xs.length := by
        rw [List.append_assoc, List.cons_append,
          Scan.takeWhile_append_of_stopsAt inLine (Scan.stopsAt_cons rfl _)]
      rw [line, line]
      refine .inl ⟨?_, rfl⟩
      rw [List.length_append, List.length_cons]
      omega
    · have noFeed : '\n' ∉ i.comment :=
        fits.lineComments.resolve_right fun lines => feed (lines passed cs parts)
      have inLine {xs : List Char} (free : '\n' ∉ xs) (more : List Char) :
          ((xs ++ more).takeWhile Scan.notNewline).length =
            xs.length + (more.takeWhile Scan.notNewline).length := by
        rw [List.takeWhile_append_of_pos, List.length_append]
        intro c member
        rw [Scan.notNewline, bne_iff_ne]
        rintro rfl
        exact free member
      rw [inLine feed, inLine feed, inLine noFeed]
      exact .inr ⟨by omega, by omega⟩

theorem keeps_lineComment (inValue : Bool) : i.Keeps (lineComment inValue) := by
  intro passed rest parts some_
  have plain : (plainScan (rest ++ i.back)).isSome =
      (plainScan (rest ++ (i.comment ++ i.back))).isSome := by
    rcases stays_plainScan rest (fits.endsBlank parts some_) with fails | ⟨n, -, taken⟩
    · rw [fails, fails]
    · rw [taken, taken]
  rw [lineComment, lineComment, plain]
  split
  · exact .inl ⟨rfl, rfl⟩
  · exact fits.keeps_slashComment passed rest parts some_

theorem keeps_blockComment : i.Keeps Scan.blockComment := by
  intro passed rest parts some_
  have letters : "/*".toList.all (fun c => !blank c) = true := by decide
  have ends := fits.endsBlank parts some_
  rcases Stays.dropStart? letters ends with fails | ⟨cs, filled, rfl, begins⟩
  · have missing (more : List Char) : Scan.blockComment (rest ++ more) = none := by
      rw [Scan.blockComment, Scan.seq, Scan.text, fails]
      rfl
    exact .inl ⟨missing _, missing _⟩
  · obtain ⟨before, after, cut⟩ := Text.exists_cutFirst? (fits.comments passed cs parts)
    have whole := Text.append_of_cutFirst? cut
    have taken (more : List Char) : Scan.blockComment ('/' :: '*' :: cs ++ more) =
        some (2 + (before.length + 2)) := by
      have found : Scan.through "*/" (cs ++ more) = some (before.length + 2) :=
        congrArg (Option.map _) (Text.cutFirst?_append_of_some cut more)
      show (Scan.through "*/" (cs ++ more)).bind (fun m => some (2 + m)) = _
      rw [found]
      rfl
    refine .inr ⟨_, _, taken _, taken _, .inl ⟨?_, rfl⟩⟩
    -- The comment ends with no blank, so something follows it.
    have more : after ≠ [] := by
      rintro rfl
      obtain ⟨front, b, same, isBlank, -⟩ := ends
      have last : ("/*".toList ++ cs).getLast? = some '/' := by
        have shape : "/*".toList ++ cs = ("/*".toList ++ before ++ ['*']) ++ ['/'] := by
          rw [← whole]
          simp
        rw [shape, List.getLast?_concat]
      rw [same, List.getLast?_concat] at last
      obtain rfl := Option.some.inj last
      exact absurd isBlank (by decide)
    have present := List.length_pos_iff.2 more
    have lengths := congrArg List.length whole
    simp only [List.length_append, List.length_cons, List.length_nil] at lengths
    show 2 + (before.length + 2) < cs.length + 2
    omega

theorem blockComment_comment : Scan.blockComment (i.comment ++ i.back) = some i.comment.length := by
  obtain ⟨body, comment, absent⟩ := fits.comment
  have cut : Text.cutFirst? ['*', '/'] (body ++ (['*', '/'] ++ i.back)) = some (body, i.back) :=
    Text.cutFirst?_of_first absent i.back
  have found : Scan.through "*/" (body ++ (['*', '/'] ++ i.back)) = some (body.length + 2) :=
    congrArg (Option.map _) cut
  rw [comment, List.cons_append, List.cons_append, List.append_assoc]
  show (Scan.through "*/" (body ++ (['*', '/'] ++ i.back))).bind (fun m => some (2 + m)) = _
  rw [found]
  refine congrArg some ?_
  simp only [List.length_cons, List.length_append, List.length_nil]
  omega

theorem spaced : i.Spaced grammar (fun depth =>
    [("comment", Scan.blockComment), ("line_comment", lineComment (0 < depth))]) where
  between _ := rfl
  back := fits.back
  filled := by
    obtain ⟨body, comment, -⟩ := fits.comment
    simp [comment]
  comment depth := by
    have found := fits.blockComment_comment
    obtain ⟨body, comment, -⟩ := fits.comment
    rw [comment] at found ⊢
    rw [List.cons_append] at found ⊢
    rw [Scan.between, if_neg (by decide), List.findSome?_cons]
    dsimp only
    rw [found]
    rfl
  scans depth := by
    rw [List.forall_mem_cons, List.forall_mem_singleton]
    exact ⟨fits.keeps_blockComment, fits.keeps_lineComment _⟩

end CommentFits

end CodeOutline.Grammar.Css
