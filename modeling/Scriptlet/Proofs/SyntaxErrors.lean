import Scriptlet.Proofs.Access
import Scriptlet.Proofs.Completeness

/-!
# Syntax errors arise from reading only

A source that cannot be read fails with the error of the parser and leaves the session as it was. A
source that can be read fails with no syntax error, since nothing that runs raises one: each construct
is `Late` if what runs the nodes inside of it is, and a call runs the body of its closure in the same
way, wherever the closure came from.
-/

namespace Scriptlet

namespace Run

variable {α β : Type}

/-- However the run ends, it does not end in a syntax error. -/
def Late (r : Run α) : Prop := ∀ st e st', r st = .error (.failed e) st' → e.isSyntaxError = false

namespace Late

theorem pure {a : α} : (pure a : Run α).Late := fun _ _ _ h => by cases h

theorem exhausted : (throw .exhausted : Run α).Late := fun _ _ _ h => by cases h

theorem fail {e : Error} (he : e.isSyntaxError = false) : (Run.fail e : Run α).Late := by
  intro st e' st' h
  cases h
  exact he

theorem bind {r : Run α} {f : α → Run β} (hr : r.Late) (hf : ∀ a, (f a).Late) : (r >>= f).Late := by
  intro st e st' h
  change EStateM.bind r f st = _ at h
  unfold EStateM.bind at h
  split at h
  next a st₁ hrun => exact hf a st₁ e st' h
  next halt st₁ hrun =>
    cases h
    exact hr st e st' hrun

end Late

variable {env : FrameId} {name : String} {v : Value}

theorem read_late : (read env name).Late := fun _ _ _ h => by cases h

theorem write_late : (write env name v).Late := fun _ _ _ h => by cases h

theorem declare_late : (declare env name v).Late := fun _ _ _ h => by cases h

theorem delete_late : (delete env name).Late := fun _ _ _ h => by cases h

theorem newChild_late : (newChild env).Late := fun _ _ _ h => by cases h

theorem newClosure_late {name : Option String} {params : List String} {body : List Node} {own : Bool} :
    (newClosure env name params body own).Late := fun _ _ _ h => by cases h

end Run

namespace Eval

open Run

/-- What runs nodes ends in no syntax error. -/
def Exec.Late (exec : Exec) : Prop := ∀ node env, (exec node env).Late

section Constructs

variable {exec : Exec} {env : FrameId} {node : Node} (hx : exec.Late)
include hx

theorem value_late : (value exec node env).Late := by
  refine (hx node env).bind fun c => ?_
  cases c with
  | normal v => exact .pure
  | returned | broken | continued => exact .fail rfl

theorem optionalValue_late {node : Option Node} : (optionalValue exec node env).Late := by
  cases node with
  | none => exact .pure
  | some e => exact value_late hx

theorem values_late {nodes : List Node} : (values exec env nodes).Late := by
  induction nodes with
  | nil => exact .pure
  | cons e es ih => exact (value_late hx).bind fun _ => ih.bind fun _ => .pure

theorem statements_late {nodes : List Node} {last : Value} : (statements exec env last nodes).Late := by
  induction nodes generalizing last with
  | nil => exact .pure
  | cons s ss ih =>
    refine (hx s env).bind fun c => ?_
    cases c with
    | normal v => exact ih
    | returned | broken | continued => exact .pure

omit hx in
theorem bindParams_late {names : List String} {args : List Value} : (bindParams env names args).Late := by
  induction names generalizing args with
  | nil => exact .pure
  | cons name names ih => exact declare_late.bind fun _ => ih

omit hx in
theorem bindOwnName_late {f : Closure} : (bindOwnName env f).Late := by
  unfold bindOwnName
  split
  · split
    · exact declare_late
    · exact .pure
  · exact .pure

theorem call_late {f : Closure} {args : List Value} : (call exec f args).Late := by
  rw [call_eq]
  refine newChild_late.bind fun env => bindOwnName_late.bind fun _ => bindParams_late.bind fun _ => ?_
  refine (statements_late hx).bind fun c => ?_
  cases c with
  | normal | returned => exact .pure
  | broken | continued => exact .fail rfl

theorem callNode_late {args : List Node} : (callNode exec node args env).Late := by
  refine (value_late hx).bind fun f => (values_late hx).bind fun args => ?_
  split
  · exact call_late hx
  · split <;> exact .fail rfl

theorem resolve_late : (resolve exec env node).Late := by
  unfold resolve
  split
  · exact .pure
  · exact (value_late hx).bind fun _ => (value_late hx).bind fun _ => .pure
  · exact .fail rfl

omit hx in
theorem get_late (reference : Reference) : (reference.get env).Late := by
  cases reference with
  | «variable» name => exact read_late
  | property => exact .pure

omit hx in
theorem put_late {v : Value} (reference : Reference) : (reference.put env v).Late := by
  cases reference with
  | «variable» name => exact write_late
  | property => exact .pure

theorem assign_late {op : AssignOp} {source : Node} : (assign exec op node source env).Late := by
  refine (resolve_late hx).bind fun reference => ?_
  split
  · exact (value_late hx).bind fun _ => (put_late reference).bind fun _ => .pure
  · refine (get_late reference).bind fun _ => (value_late hx).bind fun _ => ?_
    exact (put_late reference).bind fun _ => .pure

theorem update_late {op : UpdateOp} : (update exec op node env).Late :=
  (resolve_late hx).bind fun reference => (get_late reference).bind fun _ =>
    (put_late reference).bind fun _ => .pure

theorem unary_late {op : UnaryOp} : (unary exec op node env).Late := by
  unfold unary
  split
  · exact delete_late.bind fun _ => .pure
  · exact (value_late hx).bind fun _ => .pure

theorem binary_late {op : BinaryOp} {right : Node} : (binary exec op node right env).Late := by
  refine (value_late hx).bind fun a => ?_
  have hright : (value exec right env).Late := value_late hx
  split
  · split
    · exact hright
    · exact .pure
  · split
    · exact .pure
    · exact hright
  · exact hright
  · exact hright.bind fun _ => .pure

theorem declareAll_late {ds : List (String × Option Node)} : (declareAll exec env ds).Late := by
  induction ds with
  | nil => exact .pure
  | cons d ds ih => exact (optionalValue_late hx).bind fun _ => declare_late.bind fun _ => ih

theorem holds_late {test : Option Node} : (holds exec test env).Late := by
  cases test with
  | none => exact .pure
  | some e => exact (value_late hx).bind fun _ => .pure

theorem forRounds_late {test update : Option Node} {body : Node} {last : Value} (n : Nat) :
    (forRounds exec test update body env n last).Late := by
  induction n generalizing last with
  | zero => exact .exhausted
  | succ n ih =>
    refine (holds_late hx).bind fun b => ?_
    split
    · refine (hx body env).bind fun c => ?_
      cases c with
      | normal | continued => exact (optionalValue_late hx).bind fun _ => ih
      | broken | returned => exact .pure
    · exact .pure

theorem whileRounds_late {test body : Node} {last : Value} (n : Nat) :
    (whileRounds exec test body env n last).Late := by
  rw [← forRounds_eq_whileRounds]
  exact forRounds_late hx n

theorem doWhileRounds_late {test body : Node} {last : Value} (n : Nat) :
    (doWhileRounds exec test body env n last).Late := by
  induction n generalizing last with
  | zero => exact .exhausted
  | succ n ih =>
    refine (hx body env).bind fun c => ?_
    cases c with
    | normal | continued =>
      refine (value_late hx).bind fun b => ?_
      split
      · exact ih
      · exact .pure
    | broken | returned => exact .pure

theorem init_late {first : Option Node} : (init exec first env).Late := by
  cases first with
  | none => exact .pure
  | some e => exact (hx e env).bind fun _ => .pure

/-- One step of the evaluator: a construct is late if the nodes inside of it are. -/
theorem execWith_late (n : Nat) : Exec.Late (execWith exec n) := by
  intro node env
  cases node with
  | number | boolean | string | regExp | null | breakLoop | continueLoop | empty => exact .pure
  | identifier => exact read_late.bind fun _ => .pure
  | unary => exact (unary_late hx).bind fun _ => .pure
  | update => exact (update_late hx).bind fun _ => .pure
  | binary => exact (binary_late hx).bind fun _ => .pure
  | property => exact (value_late hx).bind fun _ => (value_late hx).bind fun _ => .pure
  | assign => exact (assign_late hx).bind fun _ => .pure
  | conditional => exact (value_late hx).bind fun _ => (value_late hx).bind fun _ => .pure
  | call => exact (callNode_late hx).bind fun _ => .pure
  | function => exact newClosure_late.bind fun _ => .pure
  | declaration =>
    refine newClosure_late.bind fun f => ?_
    split
    · exact declare_late.bind fun _ => .pure
    · exact .pure
  | block => exact newChild_late.bind fun _ => statements_late hx
  | varList => exact (declareAll_late hx).bind fun _ => .pure
  | returning => exact (optionalValue_late hx).bind fun _ => .pure
  | branch test consequent alternate =>
    refine (value_late hx).bind fun v => ?_
    split
    · exact hx consequent env
    · split
      · exact hx _ env
      · exact .pure
  | whileLoop => exact whileRounds_late hx n
  | doWhileLoop => exact doWhileRounds_late hx n
  | forLoop => exact (init_late hx).bind fun _ => forRounds_late hx n

end Constructs

/-- No node, run in any frame of any store, ends in a syntax error. -/
theorem exec_late (n : Nat) : (exec n).Late := by
  induction n with
  | zero => exact fun _ _ => .exhausted
  | succ n ih => exact execWith_late ih n

theorem result_late {c : Completion} : (result c).Late := by
  cases c with
  | normal | returned => exact .pure
  | broken | continued => exact .fail rfl

theorem node_late (limit : Nat) (root : Node) (env : FrameId) : (node limit root env).Late :=
  (exec_late limit root env).bind fun _ => result_late

theorem program_late (limit : Nat) (p : Program) (env : FrameId) : (program limit p env).Late :=
  (statements_late (exec_late limit)).bind fun _ => result_late

end Eval

/-! ### Sessions -/

theorem parse_error_isSyntaxError {source : String} {e : Error} (h : parse source = .error e) :
    e.isSyntaxError = true := by
  rcases parse_sound source with ⟨p, rest, hp, -⟩ | ⟨e', he, hs⟩
  · rw [h] at hp; cases hp
  · rw [h] at he; cases he; exact hs

theorem parseExpression_error_isSyntaxError {source : String} {e : Error}
    (h : parseExpression source = .error e) : e.isSyntaxError = true := by
  rcases parseExpression_sound source with ⟨e', lb, cs, rest, he, -⟩ | ⟨e', he, hs⟩
  · rw [h] at he; cases he
  · rw [h] at he; cases he; exact hs

namespace Session

variable {α : Type} {s : Session} {parsed : Except Error α} {run : α → FrameId → Run Value} {e : Error}

/-- What cannot be read fails with the error of the parser and changes nothing. -/
theorem perform_of_unread (h : parsed = .error e) :
    s.perform (fun env => Run.ofParsed parsed (run · env)) = (.error e, s) := by
  subst h
  rfl

/-- A syntax error is an error of the parser, if nothing that runs raises one. -/
theorem perform_syntaxError_iff (hp : ∀ e, parsed = .error e → e.isSyntaxError = true)
    (hrun : ∀ a env, (run a env).Late) :
    (s.perform fun env => Run.ofParsed parsed (run · env)).1 = .error e ∧ e.isSyntaxError = true ↔
      parsed = .error e := by
  constructor
  · rintro ⟨he, hs⟩
    cases parsed with
    | error e' =>
      rw [perform_of_unread rfl] at he
      cases he
      rfl
    | ok tree =>
      unfold perform at he
      split at he
      · cases he
      next e' st hfail =>
        cases he
        rw [hrun tree s.global s.store e st hfail] at hs
        cases hs
      · cases he
  · intro h
    rw [perform_of_unread h]
    exact ⟨rfl, hp e h⟩

end Session

/-- A source fails with a syntax error exactly if it cannot be read; the error is that of the parser then,
and the session is as it was before. No node and no call ends in a syntax error, in whatever store. -/
theorem eval_syntaxError_iff (limit : Nat) (s : Session) (text : String) (e : Error) :
    ((s.eval limit text).1 = .error e ∧ e.isSyntaxError = true ↔ parse text = .error e) ∧
    ((s.evalExpression limit text).1 = .error e ∧ e.isSyntaxError = true ↔ parseExpression text = .error e) ∧
    (parse text = .error e → s.eval limit text = (.error e, s)) ∧
    (parseExpression text = .error e → s.evalExpression limit text = (.error e, s)) ∧
    (∀ node env, (Eval.exec limit node env).Late) ∧ ∀ f args, (Eval.call (Eval.exec limit) f args).Late :=
  ⟨Session.perform_syntaxError_iff (fun _ => parse_error_isSyntaxError) (Eval.program_late limit),
    Session.perform_syntaxError_iff (fun _ => parseExpression_error_isSyntaxError) (Eval.node_late limit),
    Session.perform_of_unread, Session.perform_of_unread, Eval.exec_late limit,
    fun _ _ => Eval.call_late (Eval.exec_late limit)⟩

/-- Two operands without an operator between them cannot be read. -/
theorem eval_syntaxError_iff_operands :
    Session.new.eval 9 "a b" = (.error (.unexpected (.identifier "b") 2 (.kind (.punct .semicolon))), Session.new) :=
  (eval_syntaxError_iff 9 Session.new "a b" _).2.2.1 (by cbv)

end Scriptlet
