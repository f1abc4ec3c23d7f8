import Scriptlet.Proofs.Progress

/-!
# Scanning is local

A scan depends on the text from its place on, and on no more of it than the token needs. A text put in front
moves all places by its length (`next?_front`); a detached text put behind changes nothing, unless the scan
would reach it as the end of the text or as a part of a line break (`next?_behind`).
-/

namespace Scriptlet

open Text Token

namespace Token

variable {mode : Mode} {source cs rest gap : List Char} {l : Lexeme} {i j : Nat} {t : Token}

/-- The token, `d` bytes further on. -/
def moved (d : Nat) (t : Token) : Token := ⟨t.kind, d + t.start, d + t.stop⟩

/-- The answer of a scan, `d` bytes further on: a token and the place behind it, or a place where no lexical
rule applies. -/
def movedAnswer (d : Nat) : Except Nat (Token × Nat) → Except Nat (Token × Nat)
  | .ok (t, next) => .ok (t.moved d, d + next)
  | .error place => .error (d + place)

/-! ### A text in front -/

/-- The text from a place on is an end of the source, and it stands at that place, if anything does. -/
theorem exists_append_of_dropBytes? (h : dropBytes? i source = some cs) :
    ∃ before, before ++ cs = source ∧ (cs ≠ [] → byteLength before = i) := by
  fun_induction dropBytes? i source with
  | case1 cs' =>
    cases h
    exact ⟨[], rfl, fun _ => rfl⟩
  | case2 n =>
    cases h
    exact ⟨[], rfl, fun hne => absurd rfl hne⟩
  | case3 n c cs' hle ih =>
    obtain ⟨before, rfl, hlen⟩ := ih h
    refine ⟨c :: before, rfl, fun hne => ?_⟩
    rw [byteLength_cons, hlen hne]
    omega
  | case4 => cases h

theorem scanAt_add (d i : Nat) (mode : Mode) (cs : List Char) :
    scanAt (d + i) mode cs = match scanAt i mode cs with
      | .ok (t, rest) => .ok (t.moved d, rest)
      | .error place => .error (d + place) := by
  unfold scanAt
  cases scan mode cs <;> simp only [moved, Nat.add_assoc]

/-- A text in front moves the token, the place behind it and the place of an error by its length. -/
theorem next?_front (before source : List Char) (i : Nat) (mode : Mode) :
    next? (before ++ source) (byteLength before + i) mode =
      (next? source i mode).map (movedAnswer (byteLength before)) := by
  unfold next?
  rw [dropBytes?_add]
  cases hcs : dropBytes? i source with
  | none => rfl
  | some cs =>
    obtain ⟨skipped, rfl, -⟩ := exists_append_of_dropBytes? hcs
    have hplace : byteLength (before ++ (skipped ++ cs)) - byteLength cs =
        byteLength before + (byteLength (skipped ++ cs) - byteLength cs) := by
      simp only [byteLength_append]
      omega
    simp only [Option.map_some, hplace, scanAt_add]
    cases hs : scanAt (byteLength (skipped ++ cs) - byteLength cs) mode cs with
    | error place => rfl
    | ok found =>
      obtain ⟨t, rest⟩ := found
      obtain ⟨taken, rfl, -⟩ := scanAt_append hs
      have hnext : byteLength (before ++ (skipped ++ (taken ++ rest))) - byteLength rest =
          byteLength before + (byteLength (skipped ++ (taken ++ rest)) - byteLength rest) := by
        simp only [byteLength_append]
        omega
      show some (Except.ok (t.moved _, _ - _)) = some (Except.ok (t.moved _, _ + (_ - _)))
      rw [hnext]

/-! ### A text behind -/

/-- What a scan finds, if it is no line break and not the end of the text: behind a gap, the lexical rule that
applies there gives the token. -/
theorem scan_eq_lexeme_iff (hline : l.kind ≠ .lineBreak) (heof : l.kind ≠ .eof) :
    scan mode cs = .lexeme gap l ↔ ∃ body n, cs = gap ++ body ∧ IsGap gap ∧ (∀ c ∈ body.head?, isBlank c = false) ∧
      rule? mode body = some (l.kind, n) ∧ l.text = body.take n ∧ l.rest = body.drop n := by
  constructor
  · intro h
    have hgap := (scan_cuts h).gap
    simp only [scan] at h
    split at h
    · cases h
      exact absurd rfl hline
    split at h
    · cases h
      exact absurd rfl heof
    split at h
    next k n hr =>
      cases h
      exact ⟨_, n, List.takeWhile_append_dropWhile.symm, hgap, fun _ => isBlank_of_mem_head?_dropWhile, hr, rfl, rfl⟩
    · cases h
  · rintro ⟨body, n, rfl, hgap, hbody, hr, htext, hrest⟩
    have hblank : ∀ c ∈ gap, isBlank c = true := fun c hc => (hgap c hc).1
    have hnoLine : gap.any isLineEnd = false := List.any_eq_false.2 fun c hc => by simp [(hgap c hc).2]
    cases body with
    | nil => cases hr
    | cons c body =>
      have hc : isBlank c = false := hbody c rfl
      cases l
      simp_all [scan, List.takeWhile_append_of_pos hblank, List.dropWhile_append_of_pos hblank]

/-- A detached text behind a token is not looked at. -/
theorem scan_behind {t : List Char} (ht : Detached t) (h : scan mode cs = .lexeme gap l) (hline : l.kind ≠ .lineBreak)
    (heof : l.kind ≠ .eof) : scan mode (cs ++ t) = .lexeme gap ⟨l.kind, l.text, l.rest ++ t⟩ := by
  obtain ⟨body, n, rfl, hgap, hbody, hr, htext, hrest⟩ := (scan_eq_lexeme_iff hline heof).1 h
  obtain ⟨hr', hn⟩ := rule?_append ht hr
  have hbody' : ∀ c ∈ (body ++ t).head?, isBlank c = false := by
    cases body with
    | nil => cases hr
    | cons => exact hbody
  refine (scan_eq_lexeme_iff (l := ⟨l.kind, l.text, l.rest ++ t⟩) hline heof).2
    ⟨body ++ t, n, List.append_assoc .., hgap, hbody', hr', ?_, ?_⟩
  · rw [htext, List.take_append_of_le_length hn]
  · rw [hrest, List.drop_append_of_le_length hn]

/-- Where a token was scanned that is no line break and not the end, a text stands. -/
theorem exists_scanAt_of_next? {next : Nat} (h : next? source i mode = some (.ok (t, next)))
    (hline : t.kind ≠ .lineBreak) (heof : t.kind ≠ .eof) :
    ∃ cs rest, StandsAt source i cs ∧ scanAt i mode cs = .ok (t, rest) ∧ next = t.stop := by
  obtain ⟨cs, hcs, hscanned⟩ := Option.map_eq_some_iff.1 h
  obtain ⟨before, rfl, hi⟩ := exists_append_of_dropBytes? hcs
  have hplace : byteLength (before ++ cs) - byteLength cs = byteLength before := by simp
  rw [hplace] at hscanned
  cases hs : scanAt (byteLength before) mode cs with
  | error place => rw [hs] at hscanned; cases hscanned
  | ok found =>
    obtain ⟨t, rest⟩ := found
    rw [hs] at hscanned
    cases hscanned
    obtain ⟨gap, text, hscan, -⟩ := scanAt_ok_iff.1 hs
    obtain ⟨body, n, rfl, -, -, hr, -⟩ := (scan_eq_lexeme_iff hline heof).1 hscan
    have hne : gap ++ body ≠ [] := List.append_ne_nil_of_right_ne_nil gap fun hnil => by rw [hnil] at hr; cases hr
    obtain rfl := hi hne
    have hstands : StandsAt (before ++ (gap ++ body)) (byteLength before) (gap ++ body) := ⟨before, rfl, rfl⟩
    have hfound := Except.ok.inj (Option.some.inj (h.symm.trans (next?_of_scanAt hstands hs)))
    exact ⟨_, rest, hstands, hs, congrArg Prod.snd hfound⟩

/-- A detached text behind changes neither the token nor its place. -/
theorem next?_behind {text : List Char} {next : Nat} (ht : Detached text)
    (h : next? source i mode = some (.ok (t, next))) (hline : t.kind ≠ .lineBreak) (heof : t.kind ≠ .eof) :
    next? (source ++ text) i mode = some (.ok (t, next)) := by
  obtain ⟨cs, rest, hi, hs, rfl⟩ := exists_scanAt_of_next? h hline heof
  obtain ⟨gap, found, hscan, hstart, hstop⟩ := scanAt_ok_iff.1 hs
  have hs' : scanAt i mode (cs ++ text) = .ok (t, rest ++ text) :=
    scanAt_ok_iff.2 ⟨gap, found, scan_behind ht hscan hline heof, hstart, hstop⟩
  have hi' : StandsAt (source ++ text) i (cs ++ text) := by
    obtain ⟨before, rfl, rfl⟩ := hi
    exact ⟨before, by rw [List.append_assoc], rfl⟩
  exact next?_of_scanAt hi' hs'

end Token

/-- A scan gives the same token behind any text that is put in front, moved by the length of that text, and fails
at the same place, moved in the same way. A token that is no line break and not the end of the text is the same,
in the same place, before any text that starts with a blank, a semicolon, a comma or a bracket. -/
theorem scanning_local (before source : List Char) (i : Nat) (mode : Mode) :
    next? (before ++ source) (byteLength before + i) mode =
      (next? source i mode).map (movedAnswer (byteLength before)) ∧
    ∀ t next, next? source i mode = some (.ok (t, next)) → t.kind ≠ .lineBreak → t.kind ≠ .eof →
      ∀ text, Detached text → next? (source ++ text) i mode = some (.ok (t, next)) :=
  ⟨next?_front before source i mode, fun _ _ h hline heof _ ht => next?_behind ht h hline heof⟩

/-- A regular expression, behind a name in front of it and before a bracket. -/
theorem scanning_local_class :
    next? "é = /[/]/g".toList 5 .operand = some (.ok (⟨.regExp "[/]" "g", 5, 11⟩, 11)) ∧
    next? "/[/]/g)".toList 0 .operand = some (.ok (⟨.regExp "[/]" "g", 0, 6⟩, 6)) := by
  have h : next? "/[/]/g".toList 0 .operand = some (.ok (⟨.regExp "[/]" "g", 0, 6⟩, 6)) := by cbv
  have hlocal := scanning_local "é = ".toList "/[/]/g".toList 0 .operand
  refine ⟨?_, hlocal.2 _ _ h Kind.noConfusion Kind.noConfusion [')'] (detached_cons [] (by decide))⟩
  exact hlocal.1.trans (by rw [h]; decide)

end Scriptlet
