import Scriptlet.Proofs.Ahead
import Scriptlet.Token.Stream

/-!
# The text of a token

`Kind.WrittenAs text`: how a token of a kind is written. What a lexical rule reads is the text of the
kind that it gives (`rule?_writtenAs`), and `scan_spec` says so of a whole scan: it cuts the text into
a gap on one line, the text of the token, and the rest.
-/

namespace Scriptlet.Token

open Text Number

/-- A token of the kind is written as the given text. A string stands between two quotes of the same
sort, a number is written as any numeral of its value. -/
def Kind.WrittenAs (text : List Char) : Kind → Prop
  | .number x => numeral? text = some (x, text.length)
  | .string body => ∃ quote, (quote = '"' ∨ quote = '\'') ∧ text = quote :: body.toList ++ [quote]
  | .regExp pattern flags => text = '/' :: pattern.toList ++ '/' :: flags.toList
  | .identifier name => text = name.toList
  | .lineBreak => (∀ c ∈ text, isBlank c = true) ∧ ∃ c ∈ text, isLineEnd c = true
  | .eof => text = []
  | k => k.spelling? = some (String.ofList text)

/-! ### Numerals

A numeral ends where its last part ends, so what is cut off behind it is not missed. -/

section Numerals

theorem take_takeWhile_length (p : Char → Bool) (cs : List Char) :
    cs.take (cs.takeWhile p).length = cs.takeWhile p :=
  (List.prefix_iff_eq_take.1 (List.takeWhile_prefix p)).symm

theorem takeWhile_take {p : Char → Bool} {cs : List Char} {n : Nat}
    (h : (cs.takeWhile p).length ≤ n) : (cs.take n).takeWhile p = cs.takeWhile p := by
  induction cs generalizing n with
  | nil => simp
  | cons c cs ih =>
    by_cases hc : p c = true
    · simp only [List.takeWhile_cons_of_pos hc, List.length_cons] at h ⊢
      obtain ⟨m, rfl⟩ : ∃ m, n = m + 1 := ⟨n - 1, by omega⟩
      rw [List.take_succ_cons, List.takeWhile_cons_of_pos hc, ih (by omega)]
    · cases n <;> simp [hc]

theorem digitRun_take {cs : List Char} {n : Nat} (h : (digitRun cs).length ≤ n) :
    digitRun (cs.take n) = digitRun cs := takeWhile_take h

theorem wholeLength_take {cs : List Char} {n : Nat} (h : wholeLength cs ≤ n) :
    wholeLength (cs.take n) = wholeLength cs := by
  match cs, n with
  | [], _ => simp
  | c :: cs, 0 => exact (Nat.le_zero.1 h).symm
  | c :: cs, n + 1 =>
    by_cases hc : c = '0'
    · subst hc; rfl
    · have hw : ∀ ds, wholeLength (c :: ds) = (digitRun (c :: ds)).length := fun ds => by
        rw [wholeLength]; intro _ h; cases h; exact hc rfl
      rw [hw] at h ⊢
      rw [← digitRun_take h, List.take_succ_cons, hw]

theorem fractionLength_take {cs : List Char} {n : Nat} (h : fractionLength cs ≤ n) :
    fractionLength (cs.take n) = fractionLength cs := by
  match cs, n with
  | [], _ => simp
  | c :: cs, 0 => exact (Nat.le_zero.1 h).symm
  | c :: cs, n + 1 =>
    by_cases hc : c = '.'
    · subst hc
      simp only [List.take_succ_cons, fractionLength] at h ⊢
      rw [digitRun_take (by omega)]
    · have hf : ∀ ds, fractionLength (c :: ds) = 0 := fun ds => by
        rw [fractionLength]; intro _ h; cases h; exact hc rfl
      rw [List.take_succ_cons, hf, hf]

theorem signLength_take {cs : List Char} {n : Nat} (h : signLength cs ≤ n) :
    signLength (cs.take n) = signLength cs := by
  match cs, n with
  | [], _ => simp
  | c :: cs, 0 => exact (Nat.le_zero.1 h).symm
  | c :: cs, n + 1 =>
    rw [List.take_succ_cons]
    unfold signLength
    split <;> split <;> simp_all

theorem exponentLength_take {cs : List Char} {n : Nat} (h : exponentLength cs ≤ n) :
    exponentLength (cs.take n) = exponentLength cs := by
  match cs, n with
  | [], _ => simp
  | c :: cs, 0 => exact (Nat.le_zero.1 h).symm
  | c :: cs, n + 1 =>
    by_cases he : (c == 'e' || c == 'E') = true
    · cases hr : (digitRun (cs.drop (signLength cs))).length with
      | zero =>
        -- no digit follows the sign, wherever the text is cut off
        have hnone : (digitRun ((cs.take n).drop (signLength (cs.take n)))).length = 0 := by
          by_cases hsign : signLength cs ≤ n
          · rw [signLength_take hsign, List.drop_take, digitRun_take (by omega), hr]
          · have hone : signLength cs ≤ 1 := by unfold signLength; split <;> simp
            obtain rfl : n = 0 := by omega
            rfl
        simp [exponentLength, he, hr, hnone]
      | succ m =>
        have hlen : exponentLength (c :: cs) = signLength cs + (m + 1) + 1 := by
          simp only [exponentLength, he, hr, if_true]
          omega
        have hsign : signLength (cs.take n) = signLength cs := signLength_take (by omega)
        have hrun : digitRun ((cs.take n).drop (signLength cs)) = digitRun (cs.drop (signLength cs)) := by
          rw [List.drop_take]
          exact digitRun_take (by omega)
        rw [List.take_succ_cons]
        simp only [exponentLength, he, if_true, hsign, hrun, hr]
    · simp [exponentLength, he]

theorem decimalLength_take {cs : List Char} {n : Nat} (h : decimalLength cs ≤ n) :
    decimalLength (cs.take n) = decimalLength cs := by
  have hsum : wholeLength cs + fractionLength (cs.drop (wholeLength cs)) +
      exponentLength (cs.drop (wholeLength cs + fractionLength (cs.drop (wholeLength cs)))) ≤ n := h
  have hw : wholeLength (cs.take n) = wholeLength cs := wholeLength_take (by omega)
  have hf : fractionLength ((cs.take n).drop (wholeLength cs)) =
      fractionLength (cs.drop (wholeLength cs)) := by
    rw [List.drop_take]
    exact fractionLength_take (by omega)
  have he : ∀ m, m = wholeLength cs + fractionLength (cs.drop (wholeLength cs)) →
      exponentLength ((cs.take n).drop m) = exponentLength (cs.drop m) := by
    rintro m rfl
    rw [List.drop_take]
    exact exponentLength_take (by omega)
  simp only [decimalLength, hw, hf, he _ rfl]

/-- A text that is cut off behind a numeral starts with the same numeral. -/
theorem numeral?_take {cs : List Char} {x : Float} {m n : Nat} (h : numeral? cs = some (x, m))
    (hn : m ≤ n) : numeral? (cs.take n) = some (x, m) := by
  have hex : ∀ {ds : List Char} {k : Nat}, (ds.takeWhile isHexDigit).length ≤ k →
      (ds.take k).takeWhile isHexDigit = ds.takeWhile isHexDigit := takeWhile_take
  unfold numeral? at h
  simp only at h
  split at h
  next ds =>
    split at h
    · cases h
    next he =>
      cases h
      obtain ⟨k, rfl⟩ : ∃ k, n = k + 2 := ⟨n - 2, by omega⟩
      simp only [numeral?, List.take_succ_cons, hex (Nat.le_of_add_le_add_right hn), he]
      rfl
  next ds =>
    split at h
    · cases h
    next he =>
      cases h
      obtain ⟨k, rfl⟩ : ∃ k, n = k + 2 := ⟨n - 2, by omega⟩
      simp only [numeral?, List.take_succ_cons, hex (Nat.le_of_add_le_add_right hn), he]
      rfl
  next hx hX =>
    obtain ⟨l, hl, he⟩ := Option.map_eq_some_iff.1 h
    cases he
    have hsub := List.take_append_drop n cs
    unfold numeral?
    simp only
    split
    next ds hds => rw [hds] at hsub; exact absurd hsub.symm (hx _)
    next ds hds => rw [hds] at hsub; exact absurd hsub.symm (hX _)
    · rw [decimalLength_take hn, List.take_take, Nat.min_eq_left hn, hl]
      rfl

end Numerals

/-! ### Rules -/

/-- What a name stands for is spelled like the name. -/
theorem Kind.spelling?_of_ofWord? {name : String} {k : Kind} (h : Kind.ofWord? name = some k) :
    k.spelling? = some name := by
  unfold Kind.ofWord? at h
  split at h <;> cases h <;> rfl

/-- A word that stands for a keyword or a literal is written as its spelling. -/
theorem Kind.ofWord?_writtenAs {run : List Char} {k : Kind} (h : Kind.ofWord? (String.ofList run) = some k) :
    k.WrittenAs run := by
  have hspelling := Kind.spelling?_of_ofWord? h
  cases k with
  | boolean | null | word | punct => exact hspelling
  | _ => cases hspelling

theorem string?_writtenAs {quote : Char} {cs : List Char} {k : Kind} {n : Nat}
    (hq : quote = '"' ∨ quote = '\'') (h : string? quote cs = some (k, n)) :
    k.WrittenAs ((quote :: cs).take n) := by
  simp only [string?] at h
  split at h
  next hlt =>
    cases h
    refine ⟨quote, hq, ?_⟩
    have happ := List.takeWhile_append_dropWhile (p := (· != quote)) (l := cs)
    have hclose := List.head?_dropWhile_not (· != quote) cs
    generalize cs.takeWhile (· != quote) = body at hlt happ ⊢
    cases hd : cs.dropWhile (· != quote) with
    | nil => rw [hd, List.append_nil] at happ; rw [happ] at hlt; omega
    | cons c rest =>
      -- the body ends at a character that is the quote
      obtain rfl : c = quote := by simpa [hd] using hclose
      rw [← happ, hd]
      simp [List.take_append]
  · cases h

/-- A slash stands behind a pattern. -/
theorem patternLength?_drop {inClass : Bool} {cs : List Char} {n : Nat}
    (h : patternLength? inClass cs = some n) : cs.drop n = '/' :: cs.drop (n + 1) := by
  fun_induction patternLength? inClass cs generalizing n with
  | case1 | case2 | case3 | case5 => cases h
  | case4 inClass c cs hc ih =>
    obtain ⟨m, hm, rfl⟩ := Option.map_eq_some_iff.1 h
    exact ih hm
  | case6 inClass c cs h1 h2 hl hs =>
    cases h
    obtain rfl : c = '/' := by simp_all
    rfl
  | case7 inClass c cs h1 h2 hl hs ih =>
    obtain ⟨m, hm, rfl⟩ := Option.map_eq_some_iff.1 h
    exact ih hm

theorem regExp?_writtenAs {cs : List Char} {k : Kind} {n : Nat} (h : regExp? cs = some (k, n)) :
    k.WrittenAs (('/' :: cs).take n) := by
  obtain ⟨m, hm, he⟩ := Option.map_eq_some_iff.1 h
  cases he
  have hslash := patternLength?_drop hm
  simp only [Kind.WrittenAs, String.toList_ofList]
  rw [show m + 2 + ((cs.drop (m + 1)).takeWhile isNamePart).length =
      m + (((cs.drop (m + 1)).takeWhile isNamePart).length + 1) + 1 by omega, List.take_succ_cons,
    List.take_add, hslash, List.take_succ_cons, take_takeWhile_length]
  rfl

theorem rule?_writtenAs {mode : Mode} {cs : List Char} {k : Kind} {n : Nat}
    (h : rule? mode cs = some (k, n)) : k.WrittenAs (cs.take n) := by
  unfold rule? at h
  split at h
  · cases h
  next c rest =>
  split at h
  next hq => exact string?_writtenAs (by simpa using hq) h
  split at h
  next hr =>
    obtain rfl : c = '/' := by simp_all
    exact regExp?_writtenAs h
  split at h
  next hn =>
    unfold number? at h
    split at h
    next x m hm =>
      split at h
      · cases h
      · cases h
        have hle := (numeral?_append (t := []) (by simp [Detached]) (List.cons_ne_nil c rest) hm).2
        have hlen : ((c :: rest).take n).length = n := List.length_take_of_le hle
        show numeral? _ = some (x, _)
        rw [hlen]
        exact numeral?_take hm (Nat.le_refl _)
    · cases h
  split at h
  next hw =>
    have htake := take_takeWhile_length isNamePart (c :: rest)
    generalize c :: rest = cs at h htake
    cases h
    rw [htake]
    cases hk : Kind.ofWord? (String.ofList (cs.takeWhile isNamePart)) with
    | none => simp [Kind.WrittenAs]
    | some k => exact Kind.ofWord?_writtenAs hk
  · obtain ⟨p, rfl, rfl, hp⟩ := punctuator?_eq_some_iff.1 h
    have hprefix := hp.isPrefix
    rw [List.prefix_iff_eq_take, String.length_toList] at hprefix
    show some p.spelling = some (String.ofList _)
    rw [← hprefix, String.ofList_toList]

theorem rule?_punct {mode : Mode} {cs : List Char} {p : Punct} {n : Nat}
    (h : rule? mode cs = some (.punct p, n)) : cs.take n = p.spelling.toList := by
  have htext : p.spelling = String.ofList (cs.take n) := Option.some.inj (rule?_writtenAs h)
  rw [htext, String.toList_ofList]

/-! ### Scans -/

/-- Blanks on one line: what may stand between two tokens. -/
def IsGap (gap : List Char) : Prop := ∀ c ∈ gap, isBlank c = true ∧ isLineEnd c = false

/-- What a scan finds: it cuts the text into a gap, the text of a token, and the rest. Only the end of
the text is found without a character, and line ends are taken with all blanks around them. -/
structure Cuts (cs gap : List Char) (l : Lexeme) : Prop where
  append : gap ++ l.text ++ l.rest = cs
  gap : IsGap gap
  written : l.kind.WrittenAs l.text
  text_ne_nil : l.kind ≠ .eof → l.text ≠ []
  rest_eq_nil : l.kind = .eof → l.rest = []
  rest_not_blank : l.kind = .lineBreak → ∀ c ∈ l.rest.head?, isBlank c = false

theorem isBlank_of_mem_takeWhile {cs : List Char} {c : Char} (h : c ∈ cs.takeWhile isBlank) :
    isBlank c = true :=
  List.all_eq_true.1 List.all_takeWhile c h

theorem isGap_takeWhile {cs : List Char} (h : ¬ (cs.takeWhile isBlank).any isLineEnd = true) :
    IsGap (cs.takeWhile isBlank) := by
  intro c hc
  refine ⟨isBlank_of_mem_takeWhile hc, ?_⟩
  rw [List.any_eq_true] at h
  exact Bool.eq_false_iff.2 fun hl => h ⟨c, hc, hl⟩

theorem isBlank_of_mem_head?_dropWhile {cs : List Char} {c : Char}
    (h : c ∈ (cs.dropWhile isBlank).head?) : isBlank c = false := by
  have hd := List.head?_dropWhile_not isBlank cs
  rwa [Option.mem_def.1 h] at hd

theorem scan_cuts {mode : Mode} {cs gap : List Char} {l : Lexeme}
    (h : scan mode cs = .lexeme gap l) : Cuts cs gap l := by
  have happ := scan_append h
  simp only [scan] at h
  split at h
  next hl =>
    cases h
    obtain ⟨c, hc, hend⟩ := List.any_eq_true.1 hl
    exact {
      append := happ
      gap := fun c hc => by cases hc
      written := ⟨fun c hc => isBlank_of_mem_takeWhile hc, c, hc, hend⟩
      text_ne_nil := fun _ => List.ne_nil_of_mem hc
      rest_eq_nil := fun hk => by cases hk
      rest_not_blank := fun _ c hc => isBlank_of_mem_head?_dropWhile hc }
  next hl =>
  split at h
  · cases h
    exact ⟨happ, isGap_takeWhile hl, rfl, fun hk => absurd rfl hk, fun _ => rfl, fun _ c hc => by cases hc⟩
  next hb =>
  split at h
  next k n hr =>
    cases h
    obtain ⟨hline, heof⟩ := rule?_kind hr
    refine ⟨happ, isGap_takeWhile hl, rule?_writtenAs hr, fun _ h0 => ?_, fun hk => absurd hk heof,
      fun hk => absurd hk hline⟩
    rcases List.take_eq_nil_iff.1 h0 with h0 | h0
    · exact absurd h0 (Nat.ne_of_gt (rule?_pos hr))
    · rw [h0] at hb; exact hb rfl
  · cases h

/-- Where no rule applies, a character stands behind the gap. -/
theorem scan_invalid {mode : Mode} {cs gap : List Char} (h : scan mode cs = .invalid gap) :
    IsGap gap ∧ ∃ rest, rest ≠ [] ∧ gap ++ rest = cs := by
  simp only [scan] at h
  split at h
  · cases h
  next hl =>
  split at h
  · cases h
  next hb =>
  split at h
  · cases h
  · cases h
    exact ⟨isGap_takeWhile hl, _, by simpa using hb, List.takeWhile_append_dropWhile⟩

end Scriptlet.Token
