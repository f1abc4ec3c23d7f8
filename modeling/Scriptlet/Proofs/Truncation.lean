import Scriptlet.Proofs.TokenText

/-!
# Texts cut off behind a token

A lexical rule reads no further than the token that it gives and one character, which decides that the token
ends: a text that is cut off anywhere behind its first token starts with the same token (`rule?_take`). A
detached text can then be put in place of what was cut off, so blanks can be written into a text anywhere
behind its first token without changing the token (`Sees.widen`).
-/

namespace Scriptlet

open Text Number

namespace Token

variable {cs : List Char} {k : Kind} {m n : Nat}

theorem string?_take {quote : Char} (h : string? quote cs = some (k, m)) (hn : m ≤ n + 1) :
    string? quote (cs.take n) = some (k, m) := by
  simp only [string?] at h ⊢
  split at h
  next hlt =>
    cases h
    rw [takeWhile_take (by omega), if_pos]
    rw [List.length_take]
    omega
  · cases h

theorem patternLength?_take {inClass : Bool} (h : patternLength? inClass cs = some m) (hn : m < n) :
    patternLength? inClass (cs.take n) = some m := by
  fun_induction patternLength? inClass cs generalizing m n with
  | case1 | case2 | case3 | case5 => cases h
  | case4 inClass c cs hc ih =>
    obtain ⟨i, hi, rfl⟩ := Option.map_eq_some_iff.1 h
    obtain ⟨n, rfl⟩ : ∃ j, n = j + 2 := ⟨n - 2, by omega⟩
    simp only [List.take_succ_cons, patternLength?, hc, ih hi (show i < n by omega)]
    rfl
  | case6 inClass c cs h1 h2 hl hs =>
    cases h
    obtain ⟨n, rfl⟩ : ∃ j, n = j + 1 := ⟨n - 1, by omega⟩
    obtain rfl : c = '/' := by simp_all
    rw [List.take_succ_cons, patternLength?_cons (by decide), if_neg hl, if_pos hs]
  | case7 inClass c cs h1 h2 hl hs ih =>
    obtain ⟨i, hi, rfl⟩ := Option.map_eq_some_iff.1 h
    obtain ⟨n, rfl⟩ : ∃ j, n = j + 1 := ⟨n - 1, by omega⟩
    rw [List.take_succ_cons, patternLength?_cons (ne_backslash h1 h2), if_neg hl, if_neg hs, ih hi (by omega)]
    rfl

theorem regExp?_take (h : regExp? cs = some (k, m)) (hn : m ≤ n + 1) :
    regExp? (cs.take n) = some (k, m) := by
  obtain ⟨i, hi, he⟩ := Option.map_eq_some_iff.1 h
  cases he
  have hflags : ((cs.take n).drop (i + 1)).takeWhile isNamePart = (cs.drop (i + 1)).takeWhile isNamePart := by
    rw [List.drop_take]
    exact takeWhile_take (by omega)
  simp only [regExp?, patternLength?_take hi (show i < n by omega), Option.map_some, hflags, List.take_take,
    Nat.min_eq_left (show i ≤ n by omega)]

theorem number?_take (h : number? cs = some (k, m)) (hn : m ≤ n) :
    number? (cs.take n) = some (k, m) := by
  unfold number? at h
  split at h
  next x i hi =>
    split at h
    · cases h
    next hpart =>
      cases h
      have hend : ¬ ((cs.take n).drop m).head?.any isNamePart = true := by
        rw [List.drop_take, List.head?_take]
        split
        · simp
        · exact hpart
      simp only [number?, numeral?_take hi hn]
      exact if_neg hend
  · cases h

theorem wordOrName_take (h : (cs.takeWhile isNamePart).length ≤ n) :
    wordOrName (cs.take n) = wordOrName cs := by
  simp only [wordOrName, takeWhile_take h]

/-- A number that starts with a point has a digit behind it. -/
theorem two_le_of_point {c : Char} {x : Float} (hc : c.isDigit = true)
    (h : numeral? ('.' :: c :: cs) = some (x, m)) : 2 ≤ m := by
  obtain ⟨l, -, he⟩ := Option.map_eq_some_iff.1 h
  cases he
  have hwhole : wholeLength ('.' :: c :: cs) = 0 := rfl
  have hfraction : fractionLength ('.' :: c :: cs) = 1 + (digitRun (c :: cs)).length := rfl
  have hrun : 0 < (digitRun (c :: cs)).length := by simp [digitRun, hc]
  simp only [decimalLength, hwhole, List.drop_zero, hfraction]
  omega

theorem startsNumber_take {c : Char} (hn : startsNumber (c :: cs) = true → c = '.' → 1 ≤ n) :
    startsNumber (c :: cs.take n) = startsNumber (c :: cs) := by
  by_cases hc : c = '.'
  · subst hc
    match cs, n with
    | [], _ => simp
    | d :: ds, 0 =>
      cases hd : startsNumber ('.' :: d :: ds) with
      | true => exact absurd (hn hd rfl) (by omega)
      | false => rfl
    | d :: ds, n + 1 => rfl
  · rw [startsNumber, startsNumber] <;> simp [hc]

theorem punctuator?_take (h : punctuator? cs = some (k, m)) (hn : m ≤ n) : punctuator? (cs.take n) = some (k, m) := by
  obtain ⟨p, rfl, rfl, hp⟩ := punctuator?_eq_some_iff.1 h
  refine punctuator?_eq_some_iff.2 ⟨p, rfl, rfl, ?_, fun q hq => hp.le q (hq.trans (List.take_prefix n cs))⟩
  rw [List.prefix_take_iff, String.length_toList]
  exact ⟨hp.isPrefix, hn⟩

/-- A text that is cut off behind its first token starts with the same token. -/
theorem rule?_take {mode : Mode} (h : rule? mode cs = some (k, m)) (hn : m ≤ n) :
    rule? mode (cs.take n) = some (k, m) := by
  have hpos := rule?_pos h
  obtain ⟨n, rfl⟩ : ∃ j, n = j + 1 := ⟨n - 1, by omega⟩
  cases cs with
  | nil => cases h
  | cons c cs =>
    rw [List.take_succ_cons]
    simp only [rule?] at h ⊢
    split at h
    next hq => rw [if_pos hq]; exact string?_take h hn
    next hq =>
    rw [if_neg hq]
    split at h
    next hr => rw [if_pos hr]; exact regExp?_take h hn
    next hr =>
    rw [if_neg hr]
    split at h
    next hs =>
      rw [startsNumber_take, if_pos hs, ← List.take_succ_cons]
      · exact number?_take h hn
      · rintro - rfl
        cases cs with
        | nil => cases hs
        | cons d ds =>
          unfold number? at h
          split at h
          next x i hi =>
            have := two_le_of_point hs hi
            split at h
            · cases h
            · cases h
              omega
          · cases h
    next hs =>
    rw [startsNumber_take (fun h => absurd h hs), if_neg hs]
    split at h
    next hw =>
      rw [if_pos hw, ← List.take_succ_cons, wordOrName_take, h]
      cases h
      exact hn
    next hw =>
      rw [if_neg hw, ← List.take_succ_cons]
      exact punctuator?_take h hn

end Token

open Token

namespace Sees

variable {mode : Mode} {cs rest x v w : List Char} {k : Kind} {lb : Bool}

theorem rest_suffix (h : Sees mode cs k lb rest) : rest <:+ cs := by
  rcases h.shape with ⟨-, rfl, -⟩ | ⟨gap, body, n, rfl, -, -, -, -, rfl⟩
  · exact List.nil_suffix
  · exact (List.drop_suffix n body).trans (List.suffix_append gap body)

/-- Blanks somewhere behind a token do not change it. -/
theorem widen (h : Sees mode (x ++ v) k lb rest) (hk : k ≠ .eof) (hv : v <:+ rest)
    (hw : ∀ c ∈ w, isBlank c = true) :
    ∃ y, rest = y ++ v ∧ Sees mode (x ++ w ++ v) k lb (y ++ w ++ v) := by
  rcases h.shape with ⟨rfl, -⟩ | ⟨gap, body, n, happ, hg, hb, hr, rfl, rfl⟩
  · exact absurd rfl hk
  obtain ⟨y, hy⟩ := hv
  refine ⟨y, hy.symm, ?_⟩
  have hn : n ≤ body.length := (rule?_append (t := []) (by simp [Detached]) hr).2
  -- the text without `v` still starts with the token
  have hbody : body = (body.take n ++ y) ++ v := by
    rw [List.append_assoc, hy, List.take_append_drop]
  have hlen : (body.take n).length = n := List.length_take_of_le hn
  have hcut : rule? mode (body.take n ++ y) = some (k, n) := by
    have htake : body.take (n + y.length) = body.take n ++ y := by
      conv_lhs => rw [hbody]
      rw [List.take_append_of_le_length (by simp [hlen]), List.take_of_length_le (by simp [hlen])]
    rw [← htake]
    exact rule?_take hr (by omega)
  have hdetached : w = [] ∨ Detached (w ++ v) := by
    cases w with
    | nil => exact .inl rfl
    | cons c w =>
      refine .inr (detached_cons _ ?_)
      simp [isBreak, hw c List.mem_cons_self]
  have hx : gap ++ (body.take n ++ y) = x := by
    rw [hbody, ← List.append_assoc] at happ
    exact (List.append_cancel_right happ).symm
  rcases hdetached with rfl | hdetached
  · simpa [hy] using h
  · have hrule := (rule?_append hdetached hcut).1
    have hsees := @Sees.token mode k gap _ n hg (fun c hc => hb c ?_) hrule
    · rw [← List.append_assoc, ← List.append_assoc, hx] at hsees
      have hdrop : (body.take n ++ y ++ (w ++ v)).drop n = y ++ w ++ v := by
        rw [List.append_assoc, List.drop_append_of_le_length (by omega), List.drop_of_length_le (by omega)]
        simp
      rwa [hdrop] at hsees
    · have hne : body.take n ++ y ≠ [] := fun h0 => by rw [h0] at hcut; cases hcut
      rw [List.head?_append_of_ne_nil _ hne] at hc
      rw [hbody, List.head?_append_of_ne_nil _ hne]
      exact hc

end Sees

end Scriptlet
