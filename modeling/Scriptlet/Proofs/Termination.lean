import Scriptlet.Proofs.Completeness
import Scriptlet.Proofs.Dependence

/-!
# Parsing terminates

The parsers are bounded in their depth and in the rounds of their loops. Since nothing is entered again before
the cursor has moved on, all bounds that are large enough for the text behind a cursor make the same of it, by
induction on the length of that text (`Parser.settled`); and by soundness none of them gives out.
-/

namespace Scriptlet

open Text Token

namespace Parser

variable {α : Type} {c c' : Cursor} {n n' : Nat}

/-- All bounds on the depth that are large enough for the text behind the cursor make the same of it. -/
structure Settled (c : Cursor) : Prop where
  expression : ∀ n n' min, 2 * c.rest.length + 1 ≤ n → 2 * c.rest.length + 1 ≤ n' →
    AgreeAt c (expression n min) (Parser.expression n' min)
  statement : ∀ n n' inLoop, 2 * c.rest.length + 2 ≤ n → 2 * c.rest.length + 2 ≤ n' →
    AgreeAt c (statement n inLoop) (Parser.statement n' inLoop)

theorem rules_alike {r : Rules} (hc : c.Coherent) (h : (rules n).AgreeBeyond c r) : Rules.Alike c (rules n) r :=
  ⟨h, hc, rules_walk n, statement_consumes n⟩

/-- A character less leaves two levels of the depth to spare. -/
theorem rules_alike_of_settled (hc : c.Coherent) (h : ∀ c', c.Advances c' → Settled c')
    (hn : 2 * c.rest.length ≤ n) (hn' : 2 * c.rest.length ≤ n') : Rules.Alike c (rules n) (rules n') := by
  refine rules_alike hc ⟨fun min c' h' => ?_, fun inLoop c' h' => ?_⟩
  all_goals have hlt := h'.length_lt hc
  · exact (h c' h').expression n n' min (by omega) (by omega)
  · exact (h c' h').statement n n' inLoop (by omega) (by omega)

theorem expression_settles (hc : c.Coherent) (h : ∀ c', c.Advances c' → Settled c') (min : Nat)
    (hn : 2 * c.rest.length + 1 ≤ n) (hn' : 2 * c.rest.length + 1 ≤ n') :
    AgreeAt c (expression n min) (expression n' min) := by
  obtain ⟨n, rfl⟩ : ∃ m, n = m + 1 := ⟨n - 1, by omega⟩
  obtain ⟨n', rfl⟩ : ∃ m, n' = m + 1 := ⟨n' - 1, by omega⟩
  have halike : Rules.Alike c (rules n) (rules n') := rules_alike_of_settled hc h (by omega) (by omega)
  exact expressionWith_agree halike min (.inr ⟨by omega, by omega⟩)

theorem settled (hc : c.Coherent) : Settled c := by
  induction hlen : c.rest.length using Nat.strong_induction_on generalizing c with
  | h len ih =>
    subst hlen
    have h : ∀ c', c.Advances c' → Settled c' :=
      fun c' h => ih _ (h.length_lt hc) (h.1.coherent hc) rfl
    refine ⟨fun n n' min => expression_settles hc h min, fun n n' inLoop hn hn' => ?_⟩
    obtain ⟨n, rfl⟩ : ∃ m, n = m + 1 := ⟨n - 1, by omega⟩
    obtain ⟨n', rfl⟩ : ∃ m, n' = m + 1 := ⟨n' - 1, by omega⟩
    have halike : Rules.Alike c (rules n) (rules n') := rules_alike_of_settled hc h (by omega) (by omega)
    refine statementWith_agree halike inLoop (.inr ⟨by omega, by omega⟩) fun c' hm hoff => ?_
    -- a statement leaves one level of the depth for an expression at the same place
    have hlen := (hm.onward hc).length_eq hoff
    exact expression_settles (hm.coherent hc) (fun c₁ h₁ => h c₁ (.of_moves hc hm h₁)) 0 (by omega) (by omega)

theorem statements_agree {depth depth' : Nat} (hc : c.Coherent) (hd : 2 * c.rest.length + 2 ≤ depth)
    (hd' : 2 * c.rest.length + 2 ≤ depth') (hn : c.rest.length < n) (hn' : c.rest.length < n') :
    AgreeAt c (statements depth n) (statements depth' n') := by
  induction n generalizing c n' with
  | zero => omega
  | succ n ih =>
    obtain ⟨n', rfl⟩ : ∃ m, n' = m + 1 := ⟨n' - 1, by omega⟩
    refine programRound_agree hc ((rules_walk depth).statement false) (statement_consumes depth false)
      (fun c' hm => ?_) fun c' h => ?_
    · have hle := (hm.onward hc).length_le
      exact (settled (hm.coherent hc)).statement depth depth' false (by omega) (by omega)
    · have hlt := h.length_lt hc
      exact ih (h.1.coherent hc) (by omega) (by omega) (by omega) (by omega)

theorem read_eq_of_agreeAt {p p' : Parser α} {source : List Char} (h : AgreeAt (Cursor.start source) p p') :
    p.read source = p'.read source := by
  unfold Parser.read
  rw [show p _ = p' _ from h]

theorem Yields.ne_tooDeep {p : Parser α} {Q : α → List Char → Prop} (hp : p.Yields c Q) (c' : Cursor) :
    p c ≠ .error (.internal .depth) c' := by
  intro h
  unfold Yields at hp
  rw [h] at hp
  cases hp

/-- If the parser succeeds from the cursor, it has moved on, and not past the end of the source. -/
def MovesWithin (source : List Char) (p : Parser α) (c : Cursor) : Prop :=
  ∀ a c', p c = .ok a c' → c.offset < c'.offset ∧ c'.offset ≤ byteLength source

/-- Each round of a list with commas ends the list or enters the next round beyond the cursor. -/
def ListsBeyond (part : Parser α) (c : Cursor) : Prop :=
  ∀ n again, AgreeBeyond c (commaList part n) again → AgreeAt c (commaList part (n + 1)) (commaRound part again)

/-- Parsing from the cursor terminates. -/
structure TerminatesAt (source : List Char) (c : Cursor) : Prop where
  statement_moves : ∀ depth inLoop, MovesWithin source (statement depth inLoop) c
  block_moves : ∀ depth inLoop n, MovesWithin source (block (rules depth) inLoop n) c
  expression_moves : ∀ depth min, MovesWithin source (expression depth min) c
  function_moves : ∀ depth declared n, MovesWithin source (functionParts (rules depth) declared n) c
  /-- A round of each loop leaves the loop or enters the next round, `again`, beyond the cursor. -/
  program_round : ∀ depth n again, AgreeBeyond c (statements depth n) again →
    AgreeAt c (statements depth (n + 1)) (programRound (statement depth false) again)
  block_round : ∀ depth inLoop n again, AgreeBeyond c (blockRest (rules depth) inLoop n) again →
    AgreeAt c (blockRest (rules depth) inLoop (n + 1)) (blockRound (rules depth) inLoop again)
  operator_round : ∀ depth min n again,
    (∀ left, AgreeBeyond c (suffixes (rules depth) min n left) (again left)) →
    ∀ left, AgreeAt c (suffixes (rules depth) min (n + 1) left) (suffixRound (rules depth) min n again left)
  argument_round : ∀ depth, ListsBeyond (expression depth Kind.commaPower) c
  parameter_round : ListsBeyond expectName c
  declarator_round : ∀ depth, ListsBeyond (declarator (rules depth)) c
  /-- Where a line end is skipped, no other one follows. -/
  lineBreak_round : ∀ mode t rest, scanAt c.offset mode c.rest = .ok (t, rest) → t.kind = .lineBreak →
    c.offset < t.stop ∧ ∀ u rest', scanAt t.stop mode rest = .ok (u, rest') → u.kind ≠ .lineBreak
  /-- An expression enters expressions and statements beyond the cursor only. -/
  expression_enters : ∀ depth min r, (rules depth).AgreeBeyond c r →
    AgreeAt c (expression (depth + 1) min) (expressionWith r depth min)
  /-- A statement enters them beyond the cursor only, apart from an expression without a word before it. -/
  statement_enters : ∀ depth inLoop r, (rules depth).AgreeBeyond c r →
    (∀ c', c.Moves c' → c'.offset = c.offset → AgreeAt c' (expression depth 0) (r.expression 0)) →
    AgreeAt c (statement (depth + 1) inLoop) (statementWith r depth inLoop)
  /-- A depth of two levels for each byte that is left is never met, and more make no difference. -/
  expression_bounded : ∀ depth min, 2 * byteLength c.rest + 1 ≤ depth →
    (∀ c', expression depth min c ≠ .error (.internal .depth) c') ∧
      AgreeAt c (expression depth min) (expression (2 * byteLength c.rest + 1) min)
  statement_bounded : ∀ depth inLoop, 2 * byteLength c.rest + 2 ≤ depth →
    (∀ c', statement depth inLoop c ≠ .error (.internal .depth) c') ∧
      AgreeAt c (statement depth inLoop) (statement (2 * byteLength c.rest + 2) inLoop)

theorem Consumes.movesWithin {source : List Char} {p : Parser α} (hp : p.Consumes) (hw : p.Walks)
    (hc : (Cursor.start source).Moves c) : MovesWithin source p c := by
  intro a c' h
  have hcoherent := Cursor.coherent_of_none (c := Cursor.start source) rfl
  refine ⟨hp c (hc.coherent hcoherent) a c' h, ?_⟩
  have hplaced := Cursor.Moves.placed (hc.trans (hw.moves h)) (Cursor.start_placed source)
  have := hplaced.rest.add_byteLength
  omega

theorem commaList_rounds {part : Parser α} (hc : c.Coherent) (hw : part.Walks) : ListsBeyond part c :=
  fun _ _ h => commaRound_agree hc hw rfl h

theorem terminatesAt {source : List Char} (hm : (Cursor.start source).Moves c) : TerminatesAt source c := by
  have hc : c.Coherent := hm.coherent (Cursor.coherent_of_none rfl)
  have hlen := length_le_byteLength c.rest
  constructor
  case statement_moves =>
    intro depth inLoop
    exact (statement_consumes depth inLoop).movesWithin ((rules_walk depth).statement inLoop) hm
  case block_moves =>
    intro depth inLoop n
    exact (block_consumes (rules_walk depth) inLoop n).movesWithin (block_walks (rules_walk depth) inLoop n) hm
  case expression_moves =>
    intro depth min
    exact (expression_consumes depth min).movesWithin ((rules_walk depth).expression min) hm
  case function_moves =>
    intro depth declared n
    exact (functionParts_consumes (rules_walk depth) declared n).movesWithin
      (functionParts_walks (rules_walk depth) declared n) hm
  case program_round =>
    intro depth n again h
    exact programRound_agree hc ((rules_walk depth).statement false) (statement_consumes depth false)
      (fun _ _ => rfl) h
  case block_round =>
    intro depth inLoop n again h
    exact blockRound_agree hc ((rules_walk depth).statement inLoop) (statement_consumes depth inLoop)
      (fun _ _ => rfl) h
  case operator_round =>
    intro depth min n again h left
    exact suffixRound_agree (rules_alike hc ⟨fun _ => .refl _, fun _ => .refl _⟩) left (.inl rfl) h
  case argument_round => exact fun depth => commaList_rounds hc ((rules_walk depth).expression _)
  case parameter_round => exact commaList_rounds hc expectName_walks
  case declarator_round => exact fun depth => commaList_rounds hc (declarator_walks (rules_walk depth))
  case lineBreak_round =>
    exact fun mode t rest h hk => ⟨scanAt_lt h (by simp [hk]), fun u rest' => scanAt_behind_lineBreak h hk⟩
  case expression_enters =>
    exact fun depth min r h => expressionWith_agree (rules_alike hc h) min (.inl rfl)
  case statement_enters =>
    exact fun depth inLoop r h he => statementWith_agree (rules_alike hc h) inLoop (.inl rfl) he
  case expression_bounded =>
    intro depth min hd
    have hyields := (rules_sound depth).expression c min hc (by omega)
    exact ⟨hyields.ne_tooDeep, (settled hc).expression _ _ min (by omega) (by omega)⟩
  case statement_bounded =>
    intro depth inLoop hd
    have hyields := (rules_sound depth).statement c inLoop hc (by omega)
    exact ⟨hyields.ne_tooDeep, (settled hc).statement _ _ inLoop (by omega) (by omega)⟩

end Parser

open Scriptlet.Parser

/-- Parsing terminates, from all cursors that a source leads to; and what is made of the source as a whole does
not come from a bound. -/
theorem parser_terminates (source : String) :
    (∀ c, (Cursor.start source.toList).Moves c → TerminatesAt source.toList c) ∧
      (∀ n, depthOf source.toList ≤ n → (statements n n).read source.toList = parse source ∧
        (wholeExpression n).read source.toList = parseExpression source) ∧
      parse source ≠ .error (.internal .depth) ∧ parseExpression source ≠ .error (.internal .depth) := by
  have hc : (Cursor.start source.toList).Coherent := Cursor.coherent_of_none rfl
  have hdepth : depthOf source.toList = 2 * (Cursor.start source.toList).rest.length + 2 := rfl
  refine ⟨fun c hm => terminatesAt hm, fun n hn => ⟨?_, ?_⟩, fun h => ?_, fun h => ?_⟩
  · exact read_eq_of_agreeAt (statements_agree hc (by omega) (by omega) (by omega) (by omega))
  · have hexpression := (settled hc).expression n (depthOf source.toList) 0 (by omega) (by omega)
    exact read_eq_of_agreeAt (hexpression.bind fun _ _ _ => rfl)
  · exact absurd (parse_error_isSyntaxError h) (by decide)
  · exact absurd (parseExpression_error_isSyntaxError h) (by decide)

end Scriptlet
