import Scriptlet.Proofs.Endings

/-!
# Assignments and updates

An assignment to a name evaluates its right side and writes what it makes of the value (`Node.WritesBack`). A
compound assignment reads the name before that, as the binary operation on the right of a plain assignment does,
so the two end alike, whatever the right side does to the name. What is assigned to a property is lost: all that is
left of such an assignment is that its operands are evaluated, each once and in order (`Node.InOrder`).
-/

namespace Scriptlet

open Run Eval

/-! ### One more and one less -/

namespace Number

open Float.Model

theorem unpack_one : (1.0 : Float).toModel.unpack = .finite .positive (2 ^ 52) (-52) (by decide) := rfl

theorem unpack_neg_one : (-1.0 : Float).toModel.unpack = .finite .negative (2 ^ 52) (-52) (by decide) := rfl

theorem add_neg_one (a : Float) : a + -1.0 = a - 1.0 := by
  change Float.ofModel (pack (UnpackedFloat.add Format.binary64 a.toModel.unpack (-1.0 : Float).toModel.unpack)) =
    Float.ofModel (pack (UnpackedFloat.sub Format.binary64 a.toModel.unpack (1.0 : Float).toModel.unpack))
  rw [unpack_one, unpack_neg_one]
  cases a.toModel.unpack with
  | notANumber | infinity | zero => rfl
  | finite => simp [UnpackedFloat.add, UnpackedFloat.sub, UnpackedFloat.Sign.apply, sub_eq_add_neg]

end Number

namespace Node

variable {e left right target source : Node} {es : List Node} {env : FrameId} {st st' : Store} {x : String}

/-! ### Operands -/

/-- A construct that completes normally with what `run` gives has that value as an operand. -/
theorem yields_iff_of_normal {run : Nat → Run Value} {o : Except Error Value}
    (h : ∀ limit, execWith (exec limit) limit e env = run limit >>= fun v => pure (.normal v)) :
    e.Yields env st o st' ↔ Run.Ends run st o st' := by
  have hvalue : ∀ limit, value (exec (limit + 1)) e env = run limit := by
    intro limit
    rw [value, exec, h]
    simp
  rw [Yields, ← ends_succ (growing_value e env)]
  simp only [hvalue]

theorem yields_identifier {o : Except Error Value} :
    (identifier x).Yields env st o st' ↔ o = .ok (st.read env x) ∧ st' = st :=
  (yields_iff_of_normal fun _ => rfl).trans ends_read

/-- Evaluated one after the other, the nodes have the values or the first one that fails does so with `o`, and they
leave the store `st'`. -/
inductive InOrder (env : FrameId) : List Node → Store → Except Error (List Value) → Store → Prop where
  | nil {st : Store} : InOrder env [] st (.ok []) st
  | fail {e : Node} {es : List Node} {st st' : Store} {err : Error} :
      e.Yields env st (.error err) st' → InOrder env (e :: es) st (.error err) st'
  | cons {e : Node} {es : List Node} {st st₁ st' : Store} {v : Value} {o : Except Error (List Value)} :
      e.Yields env st (.ok v) st₁ → InOrder env es st₁ o st' → InOrder env (e :: es) st (o.map (v :: ·)) st'

theorem growing_values (es : List Node) (env : FrameId) : Growing fun limit => values (exec limit) env es :=
  fun _ _ h => values_prolonged (exec_prolonged h)

theorem ends_values {o : Except Error (List Value)} :
    Run.Ends (fun limit => values (exec limit) env es) st o st' ↔ InOrder env es st o st' := by
  induction es generalizing st o with
  | nil =>
    refine ends_pure.trans ⟨?_, ?_⟩
    · rintro ⟨rfl, rfl⟩
      exact .nil
    · rintro ⟨⟩
      exact ⟨rfl, rfl⟩
  | cons e es ih =>
    have hrest : ∀ v : Value, Growing fun limit => values (exec limit) env es >>= fun vs => pure (v :: vs) :=
      fun v => (growing_values es env).bind fun _ => .const _
    refine (ends_bind (growing_value e env) hrest).trans ⟨?_, ?_⟩
    · rintro (⟨err, rfl, h⟩ | ⟨v, st₁, h, hs⟩)
      · exact .fail h
      · obtain ⟨o', h', rfl⟩ := (ends_map (v :: ·) (growing_values es env)).1 hs
        exact .cons h (ih.1 h')
    · rintro (_ | h | ⟨h, h'⟩)
      · exact .inl ⟨_, rfl, h⟩
      · exact .inr ⟨_, _, h, (ends_map (_ :: ·) (growing_values es env)).2 ⟨_, ih.2 h', rfl⟩⟩

/-! ### Assignments to names -/

theorem assign_ends_iff {op : AssignOp} {o : Except Error Completion} :
    (assign op target source).Ends env st o st' ↔
      ∃ o', Run.Ends (fun limit => Eval.assign (exec limit) op target source env) st o' st' ∧ o = o'.map .normal :=
  have hr : Growing fun limit => Eval.assign (exec limit) op target source env :=
    fun _ _ h => assign_prolonged (exec_prolonged h)
  ends_iff.trans (ends_map Completion.normal hr)

/-- The right side is evaluated, and what `f` makes of its value is written to the name and is the result. -/
def WritesBack (e : Node) (env : FrameId) (x : String) (f : Value → Value) (st : Store) (o : Except Error Value)
    (st' : Store) : Prop :=
  (∃ err, o = .error err ∧ e.Yields env st (.error err) st') ∨
    ∃ v st₁, e.Yields env st (.ok v) st₁ ∧ o = .ok (f v) ∧ st' = st₁.write env x (f v)

theorem ends_write_back {f : Value → Value} {o : Except Error Value} :
    Run.Ends (fun limit => value (exec limit) e env >>= fun v => write env x (f v) >>= fun _ => pure (f v)) st o st' ↔
      e.WritesBack env x f st o st' := by
  have hwrite : ∀ (v : Value) {st₁ : Store},
      Run.Ends (fun _ => write env x (f v) >>= fun _ => pure (f v)) st₁ o st' ↔
        o = .ok (f v) ∧ st' = st₁.write env x (f v) :=
    fun v => ends_of_eq (show (write env x (f v) >>= fun _ => pure (f v)) _ = ending (.ok (f v)) _ from rfl)
  refine (ends_bind (growing_value e env) fun _ => .const _).trans ?_
  simp only [hwrite]
  rfl

theorem ends_assign_name {o : Except Error Value} :
    Run.Ends (fun limit => Eval.assign (exec limit) .plain (identifier x) e env) st o st' ↔
      e.WritesBack env x id st o st' :=
  ends_write_back

variable {op : AssignOp} {b : BinaryOp}

/-- The old value is read before the right side is evaluated, and written over behind it. -/
theorem ends_compound_name (h : op.binary? = some b) {o : Except Error Value} :
    Run.Ends (fun limit => Eval.assign (exec limit) op (identifier x) e env) st o st' ↔
      e.WritesBack env x (b.apply (st.read env x)) st o st' := by
  have hassign : ∀ limit, Eval.assign (exec limit) op (identifier x) e env = read env x >>= fun old =>
      value (exec limit) e env >>= fun v => write env x (b.apply old v) >>= fun _ => pure (b.apply old v) := by
    intro limit
    simp only [Eval.assign, resolve, h, pure_bind, Reference.get, Reference.put]
  have hnext : ∀ old : Value, Growing fun limit =>
      value (exec limit) e env >>= fun v => write env x (b.apply old v) >>= fun _ => pure (b.apply old v) :=
    fun old => (growing_value e env).bind fun _ => .const _
  simp only [hassign]
  refine (ends_bind (.const (read env x)) hnext).trans ⟨?_, ?_⟩
  · rintro (⟨err, rfl, h⟩ | ⟨old, st₁, h, h'⟩)
    · cases (ends_read.1 h).1
    · obtain ⟨hold, rfl⟩ := ends_read.1 h
      cases hold
      exact ends_write_back.1 h'
  · intro h
    exact .inr ⟨_, st, ends_read.2 ⟨rfl, rfl⟩, ends_write_back.2 h⟩

theorem binary_of_compound (h : op.binary? = some b) (exec : Exec) :
    Eval.binary exec b left right env =
      value exec left env >>= fun a => value exec right env >>= fun v => pure (b.apply a v) := by
  cases op <;> cases h <;> rfl

/-- The operation of a compound assignment reads the name and then evaluates the other operand. -/
theorem yields_operation (h : op.binary? = some b) {o : Except Error Value} :
    (binary b (identifier x) e).Yields env st o st' ↔
      ∃ o', e.Yields env st o' st' ∧ o = o'.map (b.apply (st.read env x)) := by
  have hnext : ∀ a : Value, Growing fun limit => value (exec limit) e env >>= fun v => pure (b.apply a v) :=
    fun _ => (growing_value e env).bind fun _ => .const _
  refine (yields_iff_of_normal fun _ => rfl).trans ?_
  simp only [binary_of_compound h]
  refine (ends_bind (growing_value (identifier x) env) hnext).trans ⟨?_, ?_⟩
  · rintro (⟨err, rfl, h⟩ | ⟨a, st₁, h, h'⟩)
    · cases (yields_identifier.1 h).1
    · obtain ⟨ha, rfl⟩ := yields_identifier.1 h
      cases ha
      exact (ends_map _ (growing_value e env)).1 h'
  · intro h
    exact .inr ⟨_, st, yields_identifier.2 ⟨rfl, rfl⟩, (ends_map _ (growing_value e env)).2 h⟩

theorem compound_ends_iff (h : op.binary? = some b) {o : Except Error Completion} :
    (assign op (identifier x) e).Ends env st o st' ↔
      (assign .plain (identifier x) (binary b (identifier x) e)).Ends env st o st' := by
  have hwrites : ∀ o : Except Error Value, e.WritesBack env x (b.apply (st.read env x)) st o st' ↔
      (binary b (identifier x) e).WritesBack env x id st o st' := by
    intro o
    unfold WritesBack
    simp only [yields_operation h]
    constructor
    · rintro (⟨err, ho, h⟩ | ⟨v, st₁, h, ho, hst⟩)
      · exact .inl ⟨err, ho, .error err, h, rfl⟩
      · exact .inr ⟨_, st₁, ⟨.ok v, h, rfl⟩, ho, hst⟩
    · rintro (⟨err, ho, o' | v, h, he⟩ | ⟨w, st₁, ⟨o' | v, h, he⟩, ho, hst⟩) <;> cases he
      · exact .inl ⟨err, ho, h⟩
      · exact .inr ⟨v, st₁, h, ho, hst⟩
  simp only [assign_ends_iff, ends_compound_name h, ends_assign_name, hwrites]

/-! ### Updates -/

/-- What a name counts as, one more or one less, is written to it. -/
theorem update_name_ends (op : UpdateOp) (x : String) (env : FrameId) (st : Store) :
    (update op (identifier x)).Ends env st
      (.ok (.normal (.number (if op.yieldsOld then (st.read env x).toNumber
        else (st.read env x).toNumber + op.delta))))
      (st.write env x (.number ((st.read env x).toNumber + op.delta))) :=
  ⟨1, rfl⟩

/-! ### Properties -/

/-- What an assignment gives that has no old value and nowhere to write to. -/
def assigned (op : AssignOp) (v : Value) : Value :=
  match op.binary? with
  | none => v
  | some b => b.apply .undefined v

theorem assign_property_ends_iff {object key : Node} {o : Except Error Completion} :
    (assign op (property object key) e).Ends env st o st' ↔
      ∃ vs, InOrder env [object, key, e] st vs st' ∧
        o = vs.map fun vs => .normal (assigned op (vs.getLastD .undefined)) := by
  have hassign : ∀ limit, Eval.assign (exec limit) op (property object key) e env =
      values (exec limit) env [object, key, e] >>= fun vs => pure (assigned op (vs.getLastD .undefined)) := by
    intro limit
    unfold assigned
    cases hop : op.binary? <;>
      simp [Eval.assign, resolve, values, hop, Reference.get, Reference.put]
  simp only [assign_ends_iff, hassign, ends_map _ (growing_values [object, key, e] env), ends_values]
  constructor
  · rintro ⟨_, ⟨vs, h, rfl⟩, rfl⟩
    exact ⟨vs, h, by cases vs <;> rfl⟩
  · rintro ⟨vs, h, rfl⟩
    exact ⟨_, ⟨vs, h, rfl⟩, by cases vs <;> rfl⟩

theorem update_property_ends_iff {object key : Node} {op : UpdateOp} {o : Except Error Completion} :
    (update op (property object key)).Ends env st o st' ↔
      ∃ vs, InOrder env [object, key] st vs st' ∧ o = vs.map fun _ => .normal (.number Number.nan) := by
  have hnan : ∀ op : UpdateOp, Number.nan + op.delta = Number.nan := by
    intro op
    cases op <;> rfl
  have hupdate : ∀ limit, execWith (exec limit) limit (update op (property object key)) env =
      values (exec limit) env [object, key] >>= fun _ => pure (.normal (.number Number.nan)) := by
    intro limit
    simp [execWith, Eval.update, resolve, values, Reference.get, Reference.put, Value.toNumber, hnan]
  simp only [ends_iff, hupdate, ends_map _ (growing_values [object, key] env), ends_values]

end Node

/-- A compound assignment to a name ends as the plain assignment of its operation does. An update writes what the
name counts as, one more or one less, and gives the new number before its operand and the old one behind it. An
assignment or an update of a property evaluates its operands, each once and in order up to the first that fails, and
does nothing else to the store. -/
theorem assignments_desugar (env : FrameId) (st : Store) :
    (∀ (op : AssignOp) (b : BinaryOp) (x : String) (e : Node), op.binary? = some b →
      (∀ o st', (Node.assign op (.identifier x) e).Ends env st o st' ↔
        (Node.assign .plain (.identifier x) (.binary b (.identifier x) e)).Ends env st o st') ∧
      ((Node.assign op (.identifier x) e).Diverges env st ↔
        (Node.assign .plain (.identifier x) (.binary b (.identifier x) e)).Diverges env st)) ∧
    (∀ (x : String) (old : Float), (st.read env x).toNumber = old →
      (Node.update .preIncrement (.identifier x)).Ends env st (.ok (.normal (.number (old + 1.0))))
        (st.write env x (.number (old + 1.0))) ∧
      (Node.update .postIncrement (.identifier x)).Ends env st (.ok (.normal (.number old)))
        (st.write env x (.number (old + 1.0))) ∧
      (Node.update .preDecrement (.identifier x)).Ends env st (.ok (.normal (.number (old - 1.0))))
        (st.write env x (.number (old - 1.0))) ∧
      (Node.update .postDecrement (.identifier x)).Ends env st (.ok (.normal (.number old)))
        (st.write env x (.number (old - 1.0)))) ∧
    (∀ (op : AssignOp) (object key e : Node) o st', (Node.assign op (.property object key) e).Ends env st o st' ↔
      ∃ vs, Node.InOrder env [object, key, e] st vs st' ∧
        o = vs.map fun vs => .normal (match op.binary? with
          | none => vs.getLastD .undefined
          | some b => b.apply .undefined (vs.getLastD .undefined))) ∧
    (∀ (op : UpdateOp) (object key : Node) o st', (Node.update op (.property object key)).Ends env st o st' ↔
      ∃ vs, Node.InOrder env [object, key] st vs st' ∧ o = vs.map fun _ => .normal (.number Number.nan)) := by
  refine ⟨fun op b x e h => ⟨fun o st' => Node.compound_ends_iff h, ?_⟩, ?_,
    fun _ _ _ _ _ _ => Node.assign_property_ends_iff, fun _ _ _ _ _ => Node.update_property_ends_iff⟩
  · simp only [Node.diverges_iff, Node.compound_ends_iff h]
  · rintro x old rfl
    have hpre := Node.update_name_ends .preDecrement x env st
    have hpost := Node.update_name_ends .postDecrement x env st
    simp only [UpdateOp.delta, Number.add_neg_one] at hpre hpost
    exact ⟨Node.update_name_ends .preIncrement x env st, Node.update_name_ends .postIncrement x env st, hpre, hpost⟩

/-- The right side assigns to the name itself: the old value was read before. -/
theorem assignments_desugar_reassigned :
    AssignOp.add.binary? = some .add ∧
    (Node.assign .add (.identifier "x") (.assign .plain (.identifier "x") (.string "b"))).Ends 0
      ⟨#[⟨[("x", .string "a")], none⟩], 0⟩ (.ok (.normal (.string "ab"))) ⟨#[⟨[("x", .string "ab")], none⟩], 0⟩ ∧
    (Node.assign .plain (.identifier "x") (.binary .add (.identifier "x")
        (.assign .plain (.identifier "x") (.string "b")))).Ends 0
      ⟨#[⟨[("x", .string "a")], none⟩], 0⟩ (.ok (.normal (.string "ab"))) ⟨#[⟨[("x", .string "ab")], none⟩], 0⟩ ∧
    (Node.update .postDecrement (.identifier "y")).Ends 0 Store.empty (.ok (.normal (.number Number.nan)))
      (Store.empty.write 0 "y" (.number (Number.nan - 1.0))) := by
  have hends : (Node.assign .add (.identifier "x") (.assign .plain (.identifier "x") (.string "b"))).Ends 0
      ⟨#[⟨[("x", .string "a")], none⟩], 0⟩ (.ok (.normal (.string "ab")))
      ⟨#[⟨[("x", .string "ab")], none⟩], 0⟩ := ⟨3, by cbv⟩
  have hunbound : Store.empty.read 0 "y" = .undefined := by cbv
  refine ⟨rfl, hends, ?_, ?_⟩
  · exact (((assignments_desugar 0 _).1 .add .add "x" _ rfl).1 _ _).1 hends
  · exact ((assignments_desugar 0 Store.empty).2.1 "y" _ (congrArg Value.toNumber hunbound)).2.2.2

end Scriptlet
