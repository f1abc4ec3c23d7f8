import Scriptlet.Proofs.Sequencing

/-!
# A source that is one expression

Such a source can be read as an expression or as a program. A program picks the rule for a statement by its
first token and ends the statement without a semicolon at the end of the text. Only a function can start an
expression and a statement of another sort, so a source that starts with none is the same expression in both
readings (`Reads.program_of_expression`), and runs alike.
-/

namespace Scriptlet

open Token

/-- What starts an operand opens a statement only if it opens a function. -/
theorem Token.Kind.opensStatement_of_startsOperand {k : Kind} (h : k.startsOperand = true)
    (hk : k ≠ .word .function) : k.opensStatement = false := by
  cases k with
  | word w =>
    revert h hk
    cases w <;> decide
  | punct p =>
    revert h
    cases p <;> decide
  | _ => rfl

/-- An expression that takes up a source is a program of one statement. -/
theorem Reads.program_of_expression {e : Node} {cs cs' rest : List Char} {lb : Bool}
    (he : Reads (.expression 0 e) cs cs') (hend : Sees .operator cs' .eof lb rest)
    (hfirst : ∀ k lb rest, Sees .operand cs k lb rest → k ≠ .word .function) :
    Reads (.program [e]) cs cs' := by
  obtain ⟨k, lb', rest', hs, hk⟩ := he.expression_starts
  have hopens := Kind.opensStatement_of_startsOperand hk (hfirst k lb' rest' hs)
  have hending : Reads .ending cs' cs' := .inserted hend Kind.noConfusion (by simp [Parser.endsStatement])
  have hempty : Reads (.program []) cs' cs' :=
    .programEnd (hend.operand_of_operator Kind.noConfusion Kind.noConfusion)
  exact .programMore (.expressionStatement hs hopens he hending) hempty

/-- A program of one statement runs as the statement does. -/
theorem Eval.program_singleton (limit : Nat) (e : Node) (env : FrameId) :
    program limit [e] env = node limit e env := by
  funext st
  rw [program_eq, statements_cons]
  show _ = EStateM.bind (exec limit e env) result st
  unfold EStateM.bind
  cases exec limit e env st with
  | error halt st' => rfl
  | ok c st' => cases c <;> rfl

theorem Session.evalExpression_eq {limit : Nat} {s : Session} {source : String} {e : Node}
    (h : parseExpression source = .ok e) : s.evalExpression limit source = s.perform (Eval.node limit e) := by
  simp only [evalExpression, perform, Run.expressionSource, h, Run.ofParsed]

/-- A source that is one expression and does not start with a function is read as a program of this one
statement, and evaluating it either way gives the same outcome and the same session. -/
theorem parse_of_parseExpression (source : String) (e : Node) (he : parseExpression source = .ok e)
    (hfirst : ∀ l, (Cursor.start source.toList).lookAhead .operand = .ok l → l.token.kind ≠ .word .function) :
    parse source = .ok [e] ∧
      ∀ (limit : Nat) (s : Session), s.eval limit source = s.evalExpression limit source := by
  obtain ⟨lb, cs, rest, hr, hend⟩ := parseExpression_eq_ok_iff.1 he
  have hparse : parse source = .ok [e] := by
    refine parse_eq_ok_iff.2 ⟨cs, hr.program_of_expression hend fun k lb' rest' hs => ?_⟩
    obtain ⟨l, hl, hk : l.token.kind = k, -⟩ := Cursor.lookAhead_ok (c := Cursor.start source.toList) hs
    exact hk ▸ hfirst l hl
  refine ⟨hparse, fun limit s => ?_⟩
  rw [Session.eval_eq hparse, Session.evalExpression_eq he]
  exact Session.perform_congr (by rw [Eval.program_singleton])

/-- A function may be called where it is written, if it stands in parentheses; here it assigns to a name of
the session. -/
theorem parse_of_parseExpression_call :
    parse "\n(function()\x7bx=y\x7d)()" =
        .ok [.call (.function none [] [.assign .plain (.identifier "x") (.identifier "y")]) []] ∧
      Session.new.eval 9 "\n(function()\x7bx=y\x7d)()" =
        Session.new.evalExpression 9 "\n(function()\x7bx=y\x7d)()" := by
  obtain ⟨hparse, heval⟩ := parse_of_parseExpression "\n(function()\x7bx=y\x7d)()"
    (.call (.function none [] [.assign .plain (.identifier "x") (.identifier "y")]) []) (by cbv)
    fun l hl => by
      have hparen : (Cursor.start "\n(function()\x7bx=y\x7d)()".toList).lookAhead .operand = .ok
        ⟨⟨.punct .leftParen, 1, 2⟩, "function()\x7bx=y\x7d)()".toList, .operand, true⟩ := by cbv
      cases hparen.symm.trans hl
      exact Kind.noConfusion
  exact ⟨hparse, heval 9 Session.new⟩

end Scriptlet
