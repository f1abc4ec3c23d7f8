import Scriptlet.Proofs.Soundness

/-!
# The parsers are complete

`p.Accepts cs Q cs'` says that the parser succeeds at every coherent cursor before the text `cs`,
stops before `cs'`, and gives a result that satisfies `Q`. Every phrase that the relation `Reads`
allows is accepted by the parser of its rule (`Reads.accepted`), for all bounds on the depth that are
large enough for the text. With soundness this makes `parse` and `parseExpression` decide the
language: `parse_eq_ok_iff`, `parseExpression_eq_ok_iff`.
-/

namespace Scriptlet

open Token

namespace Parser

variable {α β : Type} {cs cs₁ cs₂ rest : List Char} {mode : Mode} {kind k : Kind} {lb : Bool}

/-- The parser reads from `cs` to `cs'` and gives a result that satisfies `Q`. -/
def Accepts (p : Parser α) (cs : List Char) (Q : α → Prop) (cs' : List Char) : Prop :=
  ∀ c : Cursor, c.Coherent → c.rest = cs → ∃ a c', p c = .ok a c' ∧ Q a ∧ c'.Coherent ∧ c'.rest = cs'

namespace Accepts

variable {p : Parser α} {f : α → Parser β} {Q : α → Prop} {R : β → Prop}

theorem bind (hp : p.Accepts cs Q cs₁) (hf : ∀ a, Q a → (f a).Accepts cs₁ R cs₂) :
    (p >>= f).Accepts cs R cs₂ := by
  intro c hc hcs
  obtain ⟨a, c₁, h₁, hq, hc₁, hr₁⟩ := hp c hc hcs
  obtain ⟨b, c₂, h₂, hrb, hc₂, hr₂⟩ := hf a hq c₁ hc₁ hr₁
  exact ⟨b, c₂, (bind_of_ok h₁ f).trans h₂, hrb, hc₂, hr₂⟩

theorem bindEq {a : α} (hp : p.Accepts cs (· = a) cs₁) (hf : (f a).Accepts cs₁ R cs₂) :
    (p >>= f).Accepts cs R cs₂ :=
  hp.bind fun _ ha => ha ▸ hf

theorem pure {a : α} (h : Q a) : (pure a : Parser α).Accepts cs Q cs :=
  fun c hc hcs => ⟨a, c, rfl, h, hc, hcs⟩

theorem mono {Q' : α → Prop} (hp : p.Accepts cs Q cs₁) (h : ∀ a, Q a → Q' a) : p.Accepts cs Q' cs₁ := by
  intro c hc hcs
  obtain ⟨a, c₁, h₁, hq, hc₁⟩ := hp c hc hcs
  exact ⟨a, c₁, h₁, h a hq, hc₁⟩

theorem map {g : α → β} (hp : p.Accepts cs Q cs₁) (hg : ∀ a, Q a → R (g a)) :
    (g <$> p).Accepts cs R cs₁ := by
  intro c hc hcs
  obtain ⟨a, c₁, h₁, hq, hc₁, hr₁⟩ := hp c hc hcs
  refine ⟨g a, c₁, ?_, hg a hq, hc₁, hr₁⟩
  show EStateM.map g p c = _
  rw [EStateM.map, h₁]

end Accepts

theorem peek_accepts (h : Sees mode cs k lb rest) :
    (peek mode).Accepts cs (fun l => l.token.kind = k ∧ l.lineBreak = lb ∧ l.rest = rest) cs := by
  intro c hc hcs
  obtain ⟨l, hl, hk, hb, hr, -⟩ := Cursor.lookAhead_ok (c := c) (hcs ▸ h)
  exact ⟨l, _, peek_of_lookAhead hc hl, ⟨hk, hb, hr⟩, Cursor.coherent_of_lookAhead hl, hcs⟩

theorem peekKind_accepts (h : Sees mode cs k lb rest) : (peekKind mode).Accepts cs (· = k) cs :=
  (peek_accepts h).bind fun _ hl => .pure hl.1

theorem advance_accepts (h : Sees mode cs k lb rest) :
    (advance mode).Accepts cs (fun token => token.kind = k) rest := by
  rw [advance_eq]
  exact (peek_accepts h).bind fun l hl _ _ _ => ⟨l.token, _, rfl, hl.1, Cursor.coherent_of_none rfl, hl.2.2⟩

theorem check_accepts (h : Sees mode cs k lb rest) :
    (check kind mode).Accepts cs (· = k.alike kind) cs :=
  (peekKind_accepts h).bind fun _ hk => .pure (by rw [hk])

theorem eat_accepts (h : Sees mode cs kind lb rest) : (eat kind mode).Accepts cs (· = true) rest := by
  refine (check_accepts h).bind fun b hb => ?_
  rw [hb, Kind.alike_self]
  exact (advance_accepts h).bind fun _ _ => .pure rfl

theorem eat_refuses [kind.Fixed] (h : Sees mode cs k lb rest) (hk : k ≠ kind) :
    (eat kind mode).Accepts cs (· = false) cs := by
  refine (check_accepts h).bind fun b hb => ?_
  rw [hb, Kind.alike_eq_false hk]
  exact .pure rfl

theorem expect_accepts (h : Sees mode cs kind lb rest) :
    (expect kind mode).Accepts cs (fun _ => True) rest := by
  refine (check_accepts h).bind fun b hb => ?_
  rw [hb, Kind.alike_self]
  exact (advance_accepts h).mono fun _ _ => trivial

theorem expectName_accepts {name : String} (h : Sees .operand cs (.identifier name) lb rest) :
    expectName.Accepts cs (· = name) rest :=
  (advance_accepts h).bind fun _ hk => by rw [hk]; exact .pure rfl

theorem target_accepts {node : Node} {token : Token} (h : node.isTarget = true) :
    (target token node).Accepts cs (· = node) cs := by
  rw [target, if_pos h]
  exact .pure rfl

theorem endStatement_accepts (h : Reads .ending cs cs₁) :
    endStatement.Accepts cs (fun _ => True) cs₁ := by
  cases h with
  | semicolon hs =>
    refine (peek_accepts hs).bind fun l hl => ?_
    rw [if_pos hl.1]
    exact (advance_accepts hs).bind fun _ _ => .pure trivial
  | inserted hs hk he =>
    refine (peek_accepts hs).bind fun l hl => ?_
    rw [hl.1, hl.2.1, if_neg hk, if_pos he]
    exact .pure trivial

/-! ### Lists -/

/-- The parser of an item reads it. -/
def ItemAccepted (i : Item) (cs cs' : List Char) : Prop :=
  match i with
  | .argument e => ∀ n, 2 * cs.length + 1 ≤ n →
      (expression n Kind.commaPower).Accepts cs (· = e) cs'
  | .param name => expectName.Accepts cs (· = name) cs'
  | .declarator d => ∀ n, 2 * cs.length + 1 ≤ n →
      (declarator ⟨expression n, statement n⟩).Accepts cs (· = d) cs'

/-- A list of items is read by the parser `list` for such lists, whatever parser reads its items. -/
def ListAccepted (list : (α : Type) → Parser α → Nat → Parser (List α)) (is : List Item)
    (cs cs' : List Char) : Prop :=
  ∀ (α : Type) (part : Parser α) (f : α → Item) (as : List α), as.map f = is →
    (∀ a ds ds', ds.length ≤ cs.length → ItemAccepted (f a) ds ds' → part.Accepts ds (· = a) ds') →
    ∀ n, cs.length < n → (list α part n).Accepts cs (· = as) cs'

theorem commaList_single {i : Item} (hi : ItemAccepted i cs cs₁) (hs : Sees .operator cs₁ k lb rest)
    (hk : k ≠ .punct .comma) : ListAccepted @commaList [i] cs cs₁ := by
  intro α part f as has hpart n hn
  obtain ⟨a, rfl, rfl⟩ := List.map_eq_singleton_iff.1 has
  obtain ⟨n, rfl⟩ := Nat.exists_eq_add_of_lt hn
  refine (hpart a cs cs₁ (Nat.le_refl _) hi).bind fun a' ha => (eat_refuses hs hk).bind fun b hb => ?_
  rw [hb, ha]
  exact .pure rfl

theorem commaList_more {i : Item} {is : List Item} (hi : ItemAccepted i cs cs₁)
    (hs : Sees .operator cs₁ (.punct .comma) lb cs₂) (hl : cs₁.length < cs.length)
    (his : ListAccepted @commaList is cs₂ rest) : ListAccepted @commaList (i :: is) cs rest := by
  intro α part f as has hpart n hn
  obtain ⟨a, as, rfl, rfl, htail⟩ := List.map_eq_cons_iff.1 has
  have hl₂ := hs.rest_length_le
  obtain ⟨n, rfl⟩ := Nat.exists_eq_add_of_lt hn
  refine (hpart a cs cs₁ (Nat.le_refl _) hi).bind fun a' ha => (eat_accepts hs).bind fun b hb => ?_
  rw [hb, ha]
  refine (his α part f as htail (fun a ds ds' hd => hpart a ds ds' (by omega)) _ (by omega)).bind
    fun as' has' => ?_
  rw [has']
  exact .pure rfl

theorem parenthesised_nil (hs : Sees .operand cs (.punct .rightParen) lb cs₁) :
    ListAccepted @parenthesised [] cs cs₁ := by
  intro α part f as has _ n _
  rw [List.map_eq_nil_iff.1 has]
  refine (eat_accepts hs).bind fun b hb => ?_
  rw [hb]
  exact .pure rfl

theorem parenthesised_some {is : List Item} {lb' : Bool} (hs : Sees .operand cs k lb rest)
    (hk : k ≠ .punct .rightParen) (his : ListAccepted @commaList is cs cs₁)
    (hs' : Sees .operator cs₁ (.punct .rightParen) lb' cs₂) :
    ListAccepted @parenthesised is cs cs₂ := by
  intro α part f as has hpart n hn
  refine (eat_refuses hs hk).bind fun b hb => ?_
  rw [hb]
  refine (his α part f as has hpart n hn).bind fun as' has' => (expect_accepts hs').bind fun _ _ => ?_
  rw [has']
  exact .pure rfl

/-! ### Phrases -/

/-- The parsers of a rule's parts at a bound on the depth. -/
abbrev rules (n : Nat) : Rules := ⟨expression n, statement n⟩

/-- The parser of a phrase reads it. -/
def PhraseAccepted (p : Phrase) (cs cs' : List Char) : Prop :=
  match p with
  | .expression m e => ∀ n, 2 * cs.length + 1 ≤ n → (expression n m).Accepts cs (· = e) cs'
  | .operand k e => ∀ n m (token : Token), token.kind = k → 2 * cs.length + 2 ≤ n → cs.length < m →
      (operand (rules n) m token).Accepts cs (· = e) cs'
  | .suffixes min left e => ∀ n m, 2 * cs.length + 2 ≤ n → cs.length < m →
      (suffixes (rules n) min m left).Accepts cs (· = e) cs'
  | .suffix k left e => ∀ n m (token : Token), token.kind = k → 2 * cs.length + 2 ≤ n →
      cs.length < m → (suffixed (rules n) m token left).Accepts cs (· = e) cs'
  | .item i => ItemAccepted i cs cs'
  | .items is => ListAccepted @commaList is cs cs'
  | .parenthesised is => ListAccepted @parenthesised is cs cs'
  | .function declared name params body => ∀ n m, 2 * cs.length + 2 ≤ n → cs.length < m →
      (functionParts (rules n) declared m).Accepts cs (· = (name, params, body)) cs'
  | .block inLoop ss => ∀ n m, 2 * cs.length ≤ n → cs.length ≤ m →
      (block (rules n) inLoop m).Accepts cs (· = ss) cs'
  | .blockRest inLoop ss => ∀ n m, 2 * cs.length + 2 ≤ n → cs.length < m →
      (blockRest (rules n) inLoop m).Accepts cs (· = ss) cs'
  | .condition e => ∀ n, 2 * cs.length + 2 ≤ n → (condition (rules n)).Accepts cs (· = e) cs'
  | .optional k e => ∀ [k.Fixed] n, 2 * cs.length + 2 ≤ n → (optional (rules n) k).Accepts cs (· = e) cs'
  | .forInit e => ∀ n m, 2 * cs.length + 2 ≤ n → cs.length < m →
      (forInit (rules n) m).Accepts cs (· = e) cs'
  | .returnValue e => ∀ n, 2 * cs.length + 2 ≤ n → (returnValue (rules n)).Accepts cs (· = e) cs'
  | .ending => endStatement.Accepts cs (fun _ => True) cs'
  | .loopEnding => (eat (.punct .semicolon) .operator).Accepts cs (fun _ => True) cs'
  | .statement inLoop s => ∀ n, 2 * cs.length + 2 ≤ n → (statement n inLoop).Accepts cs (· = s) cs'
  | .opened inLoop k s => ∀ n cs₀ lb, Sees .operand cs₀ k lb cs → 2 * cs.length + 2 ≤ n →
      (statementWith (rules n) n inLoop).Accepts cs₀ (· = s) cs'
  | .program ss => ∀ depth n, 2 * cs.length + 2 ≤ depth → cs.length < n →
      (statements depth n).Accepts cs (· = ss) cs'

section Tokens

variable {r : Rules} {m : Nat} {token : Token} {left : Node}

theorem operand_leaf {e : Node} (h : token.kind.leaf? = some e) : operand r m token = pure e := by
  unfold operand
  generalize token.kind = k at h ⊢
  unfold Kind.leaf? at h
  split at h <;> cases h <;> rfl

theorem operand_unary {op : UnaryOp} (h : token.kind.unaryOp? = some op) :
    operand r m token = do return .unary op (← r.expression Kind.unaryPower) := by
  unfold operand
  generalize token.kind = k at h ⊢
  unfold Kind.unaryOp? at h
  split at h <;> cases h <;> rfl

theorem suffixed_assign {op : AssignOp} (h : token.kind.assignOp? = some op) :
    suffixed r m token left = do
      let left ← target token left
      return .assign op left (← r.expression Kind.commaPower) := by
  unfold suffixed
  generalize token.kind = k at h ⊢
  unfold Kind.assignOp? at h
  split at h
  next p => cases p <;> cases h <;> rfl
  · cases h

theorem suffixed_update {op : UpdateOp} (h : token.kind.updateAfter? = some op) :
    suffixed r m token left = do return .update op (← target token left) := by
  unfold suffixed
  generalize token.kind = k at h ⊢
  unfold Kind.updateAfter? at h
  split at h <;> cases h <;> rfl

end Tokens

theorem isNamed_accepts {declared : Bool} (hs : Sees .operand cs k lb rest)
    (hk : k ≠ .punct .leftParen) : (isNamed declared).Accepts cs (· = true) cs := by
  cases declared with
  | true => exact .pure rfl
  | false => exact (check_accepts hs).map fun _ hb => by rw [hb, Kind.alike_eq_false hk]; rfl

theorem isNamed_refuses (hs : Sees .operand cs (.punct .leftParen) lb rest) :
    (isNamed false).Accepts cs (· = false) cs :=
  (check_accepts hs).map fun _ hb => by rw [hb]; rfl

theorem expressionStatement_accepts {r : Rules} {n : Nat} {inLoop : Bool} {Q : Node → Prop}
    (hs : Sees .operand cs k lb rest) (hk : k.opensStatement = false)
    (he : (expressionStatement r).Accepts cs Q cs₁) :
    (statementWith r n inLoop).Accepts cs Q cs₁ := by
  refine (peekKind_accepts hs).bindEq ?_
  split
  · cases hk
  · cases hk
  next w =>
    rw [← wordStatement?_isSome r inLoop n w, Option.isSome_eq_false_iff, Option.isNone_iff_eq_none] at hk
    rw [hk]
    exact he
  · exact he

theorem wordStatement_accepts {n : Nat} {inLoop : Bool} {w : Word} {p : Token → Parser Node}
    {Q : Node → Prop} (hw : wordStatement? (rules n) inLoop n w = some p)
    (hs : Sees .operand cs (.word w) lb cs₁) (hp : ∀ token, (p token).Accepts cs₁ Q cs₂) :
    (statementWith (rules n) n inLoop).Accepts cs Q cs₂ := by
  refine (peekKind_accepts hs).bind fun k hk => ?_
  rw [hk]
  simp only [hw]
  exact (advance_accepts hs).bind fun token _ => hp token

/-! Rules with several parts: each part is accepted at the text that the parts before it leave, which
is shorter, so that the bound is large enough for it. -/

theorem suffixes_step {min : Nat} {left mid e : Node} {cs₃ : List Char} (hs : Sees .operator cs k lb cs₁)
    (hgo : k.goesOn min lb = true) (hsuf : Reads (.suffix k left mid) cs₁ cs₂)
    (ihsuf : PhraseAccepted (.suffix k left mid) cs₁ cs₂)
    (ihrest : PhraseAccepted (.suffixes min mid e) cs₂ cs₃) :
    PhraseAccepted (.suffixes min left e) cs cs₃ := by
  intro n m hn hm
  obtain ⟨m, rfl⟩ : ∃ k, m = k + 1 := ⟨m - 1, by omega⟩
  have hl₁ := hs.rest_length_lt fun h => by rw [h] at hgo; simp [Kind.goesOn, Kind.power] at hgo
  have hl₂ := hsuf.length_le
  refine (peek_accepts hs).bind fun l hl => ?_
  rw [if_pos (by rw [continues, hl.1, hl.2.1]; exact hgo)]
  refine (advance_accepts hs).bind fun token htok => ?_
  exact (ihsuf n m token htok (by omega) (by omega)).bindEq (ihrest n m (by omega) (by omega))

theorem functionRest_accepts {params : List String} {body : List Node} {cs₃ : List Char} {n m : Nat}
    (name : Option String) (hs : Sees .operand cs (.punct .leftParen) lb cs₁)
    (hparams : Reads (.parenthesised (params.map .param)) cs₁ cs₂)
    (ihparams : PhraseAccepted (.parenthesised (params.map .param)) cs₁ cs₂)
    (ihbody : PhraseAccepted (.block false body) cs₂ cs₃) (hn : 2 * cs.length + 2 ≤ n)
    (hm : cs.length < m) : (functionRest (rules n) m name).Accepts cs (· = (name, params, body)) cs₃ := by
  have hl₁ := hs.rest_length_le
  have hl₂ := hparams.length_le
  refine (expect_accepts hs).bind fun _ _ => ?_
  refine (ihparams String expectName .param _ rfl (fun _ _ _ _ ha => ha) m (by omega)).bindEq ?_
  exact (ihbody n m (by omega) (by omega)).bindEq (.pure rfl)

theorem forStatement_accepts {e₁ e₂ e₃ : Option Node} {s : Node} {lb₂ lb₄ lb₆ : Bool} {n : Nat}
    {cs₃ cs₄ cs₅ cs₆ cs₇ cs₈ : List Char} (s₁ : Sees .operand cs (.punct .leftParen) lb cs₁)
    (h₂ : Reads (.forInit e₁) cs₁ cs₂) (s₃ : Sees .operator cs₂ (.punct .semicolon) lb₂ cs₃)
    (h₄ : Reads (.optional (.punct .semicolon) e₂) cs₃ cs₄)
    (s₅ : Sees .operator cs₄ (.punct .semicolon) lb₄ cs₅)
    (h₆ : Reads (.optional (.punct .rightParen) e₃) cs₅ cs₆)
    (s₇ : Sees .operator cs₆ (.punct .rightParen) lb₆ cs₇)
    (ih₂ : PhraseAccepted (.forInit e₁) cs₁ cs₂)
    (ih₄ : PhraseAccepted (.optional (.punct .semicolon) e₂) cs₃ cs₄)
    (ih₆ : PhraseAccepted (.optional (.punct .rightParen) e₃) cs₅ cs₆)
    (ih₈ : PhraseAccepted (.statement true s) cs₇ cs₈) (hn : 2 * cs.length + 2 ≤ n) :
    (forStatement (rules n) n).Accepts cs (· = .forLoop e₁ e₂ e₃ s) cs₈ := by
  have l₁ := s₁.rest_length_le
  have l₂ := h₂.length_le
  have l₃ := s₃.rest_length_le
  have l₄ := h₄.length_le
  have l₅ := s₅.rest_length_le
  have l₆ := h₆.length_le
  have l₇ := s₇.rest_length_le
  refine (expect_accepts s₁).bind fun _ _ => (ih₂ n n (by omega) (by omega)).bindEq ?_
  refine (expect_accepts s₃).bind fun _ _ => (ih₄ n (by omega)).bindEq ?_
  refine (expect_accepts s₅).bind fun _ _ => (ih₆ n (by omega)).bindEq ?_
  refine (expect_accepts s₇).bind fun _ _ => (ih₈ n (by omega)).bindEq ?_
  exact .pure rfl

end Parser

open Scriptlet.Parser

/-- Every phrase of the language is accepted by the parser of its rule. -/
theorem Reads.accepted {p : Phrase} {cs cs' : List Char} (h : Reads p cs cs') :
    PhraseAccepted p cs cs' := by
  -- The bounds are carried in `PhraseAccepted`; each case pays for its steps with the tokens it takes.
  induction h with
  | expression hs ho hsuf iho ihs =>
    intro n hn
    have hl₁ := hs.rest_length_lt fun h => by cases h ▸ ho.operand_starts
    have hl₂ := ho.length_le
    obtain ⟨n, rfl⟩ : ∃ m, n = m + 1 := ⟨n - 1, by omega⟩
    refine (advance_accepts hs).bind fun token hk => ?_
    exact (iho n n token hk (by omega) (by omega)).bindEq (ihs n n (by omega) (by omega))
  | leaf hk =>
    intro n m token htok hn hm
    rw [operand_leaf (htok ▸ hk)]
    exact .pure rfl
  | group he hs ih =>
    intro n m token htok hn hm
    simp only [operand, htok, Kind.updateBefore?]
    exact (ih n (by omega)).bindEq ((expect_accepts hs).bind fun _ _ => .pure rfl)
  | unary hop he ih =>
    intro n m token htok hn hm
    rw [operand_unary (htok ▸ hop)]
    exact (ih n (by omega)).bindEq (.pure rfl)
  | updateBefore hop he ht ih =>
    intro n m token htok hn hm
    simp only [operand, htok, hop]
    exact (ih n (by omega)).bindEq ((target_accepts ht).bindEq (.pure rfl))
  | function hf ih =>
    intro n m token htok hn hm
    simp only [operand, htok, Kind.updateBefore?]
    exact (ih n m hn hm).bindEq (.pure rfl)
  | stop hs hgo =>
    intro n m hn hm
    obtain ⟨m, rfl⟩ : ∃ k, m = k + 1 := ⟨m - 1, by omega⟩
    refine (peek_accepts hs).bind fun l hl => ?_
    rw [if_neg (by rw [continues, hl.1, hl.2.1]; exact Bool.eq_false_iff.1 hgo)]
    exact .pure rfl
  | step hs hgo hsuf _ ihsuf ihrest => exact suffixes_step hs hgo hsuf ihsuf ihrest
  | binary hop he ih =>
    intro n m token htok hn hm
    simp only [suffixed, htok, hop]
    exact (ih n (by omega)).bindEq (.pure rfl)
  | assign hop ht he ih =>
    intro n m token htok hn hm
    rw [suffixed_assign (htok ▸ hop)]
    exact (target_accepts ht).bindEq ((ih n (by omega)).bindEq (.pure rfl))
  | updateAfter hop ht =>
    intro n m token htok hn hm
    rw [suffixed_update (htok ▸ hop)]
    exact (target_accepts ht).bindEq (.pure rfl)
  | conditional he₁ hs he₂ ih₁ ih₂ =>
    intro n m token htok hn hm
    have hl₁ := he₁.length_le
    have hl₂ := hs.rest_length_le
    simp only [suffixed, htok, Kind.binaryOp?, Kind.assignOp?, Kind.updateAfter?]
    refine (ih₁ n (by omega)).bindEq ((expect_accepts hs).bind fun _ _ => ?_)
    exact (ih₂ n (by omega)).bindEq (.pure rfl)
  | dot hs =>
    intro n m token htok hn hm
    simp only [suffixed, htok, Kind.binaryOp?, Kind.assignOp?, Kind.updateAfter?]
    exact (expectName_accepts hs).bindEq (.pure rfl)
  | index he hs ih =>
    intro n m token htok hn hm
    simp only [suffixed, htok, Kind.binaryOp?, Kind.assignOp?, Kind.updateAfter?]
    exact (ih n (by omega)).bindEq ((expect_accepts hs).bind fun _ _ => .pure rfl)
  | call hargs ih =>
    intro n m token htok hn hm
    simp only [suffixed, htok, Kind.binaryOp?, Kind.assignOp?, Kind.updateAfter?]
    exact (ih Node (Parser.expression n Kind.commaPower) .argument _ rfl
      (fun _ _ _ hd ha => ha n (by omega)) m hm).bindEq (.pure rfl)
  | argument he ih => exact ih
  | param hs => exact expectName_accepts hs
  | declared hs hs' hk =>
    intro n hn
    refine (expectName_accepts hs).bindEq ((eat_refuses hs' hk).bindEq ?_)
    exact .pure rfl
  | initialised hs hs' he ih =>
    intro n hn
    have hl₁ := hs.rest_length_le
    have hl₂ := hs'.rest_length_le
    refine (expectName_accepts hs).bindEq ((eat_accepts hs').bindEq ?_)
    exact (ih n (by omega)).bindEq (.pure rfl)
  | single hi hs hk ih => exact commaList_single ih hs hk
  | more hi hs his ih ihs =>
    exact commaList_more ih hs (Nat.lt_of_succ_le hi.length_le) ihs
  | noItems hs => exact parenthesised_nil hs
  | someItems hs hk his hs' ih => exact parenthesised_some hs hk ih hs'
  | named hs hs' hparams _ ihparams ihbody =>
    intro n m hn hm
    have hl := hs.rest_length_le
    refine (isNamed_accepts hs Kind.noConfusion).bindEq ((expectName_accepts hs).bindEq ?_)
    exact functionRest_accepts _ hs' hparams ihparams ihbody (by omega) (by omega)
  | anonymous hs hparams _ ihparams ihbody =>
    intro n m hn hm
    exact (isNamed_refuses hs).bindEq (functionRest_accepts _ hs hparams ihparams ihbody hn hm)
  | block hs hss ih =>
    intro n m hn hm
    have hl := hs.rest_length_lt Kind.noConfusion
    exact (expect_accepts hs).bind fun _ _ => ih n m (by omega) (by omega)
  | blockEnd hs =>
    intro n m hn hm
    obtain ⟨m, rfl⟩ : ∃ k, m = k + 1 := ⟨m - 1, by omega⟩
    refine (peekKind_accepts hs).bindEq ?_
    exact (advance_accepts hs).bind fun _ _ => .pure rfl
  | blockMore hs hss ihs ihss =>
    intro n m hn hm
    obtain ⟨m, rfl⟩ : ∃ k, m = k + 1 := ⟨m - 1, by omega⟩
    obtain ⟨k, lb, rest, hsees, hk⟩ := hs.statement_starts
    have hl := hs.length_le
    simp only [Phrase.weight] at hl
    refine (peekKind_accepts hsees).bindEq ?_
    split
    · cases hk
    · cases hk
    · exact (ihs n hn).bindEq ((ihss n m (by omega) (by omega)).bindEq (.pure rfl))
  | condition hs he hs' ih =>
    intro n hn
    have hl := hs.rest_length_le
    refine (expect_accepts hs).bind fun _ _ => (ih n (by omega)).bindEq ?_
    exact (expect_accepts hs').bind fun _ _ => .pure rfl
  | absent hs =>
    intro _ n hn
    refine (check_accepts hs).bindEq ?_
    rw [Kind.alike_self]
    exact .pure rfl
  | present hs hk he ih =>
    intro _ n hn
    refine (check_accepts hs).bindEq ?_
    rw [Kind.alike_eq_false hk]
    exact (ih n (by omega)).bindEq (.pure rfl)
  | forVar hs hds ih =>
    intro n m hn hm
    have hl := hs.rest_length_le
    refine (eat_accepts hs).bindEq ?_
    exact (ih _ (declarator (rules n)) .declarator _ rfl
      (fun _ _ _ hd ha => ha n (by omega)) m (by omega)).bindEq (.pure rfl)
  | forOther hs hk he ih =>
    intro n m hn hm
    exact (eat_refuses hs hk).bindEq (ih n hn)
  | returnNothing hs hk =>
    intro n hn
    refine (peek_accepts hs).bind fun l hl => ?_
    rw [if_pos (by rw [hl.1, hl.2.1]; exact hk)]
    exact .pure rfl
  | returnSome hs hk he ih =>
    intro n hn
    refine (peek_accepts hs).bind fun l hl => ?_
    rw [if_neg (by rw [hl.1, hl.2.1]; exact Bool.eq_false_iff.1 hk)]
    exact (ih n (by omega)).bindEq (.pure rfl)
  | semicolon hs => exact endStatement_accepts (.semicolon hs)
  | inserted hs hk he => exact endStatement_accepts (.inserted hs hk he)
  | loopSemicolon hs => exact (eat_accepts hs).mono fun _ _ => trivial
  | loopBare hs hk => exact (eat_refuses hs hk).mono fun _ _ => trivial
  | expressionStatement hs hk he hend ih ihend =>
    intro n hn
    obtain ⟨n, rfl⟩ : ∃ m, n = m + 1 := ⟨n - 1, by omega⟩
    refine expressionStatement_accepts hs hk ?_
    exact (ih n (by omega)).bindEq (ihend.bind fun _ _ => .pure rfl)
  | opened hs ho ih =>
    intro n hn
    have hl := hs.rest_length_lt fun h => by cases h ▸ ho.opened_opens
    obtain ⟨n, rfl⟩ : ∃ m, n = m + 1 := ⟨n - 1, by omega⟩
    exact ih n _ _ hs (by omega)
  | empty =>
    intro n cs₀ lb hs hn
    refine (peekKind_accepts hs).bindEq ?_
    exact (advance_accepts hs).bind fun _ _ => .pure rfl
  | blockStatement hss ih =>
    intro n cs₀ lb hs hn
    refine (peekKind_accepts hs).bindEq ?_
    refine Accepts.bindEq ((expect_accepts hs).bind fun _ _ => ih n n hn (by omega)) ?_
    exact .pure rfl
  | returning he hend ihe ihend =>
    intro n cs₀ lb hs hn
    refine wordStatement_accepts rfl hs fun _ => ?_
    exact (ihe n hn).bindEq (ihend.bind fun _ _ => .pure rfl)
  | breakLoop hend ih =>
    intro n cs₀ lb hs hn
    exact wordStatement_accepts rfl hs fun _ => ih.bind fun _ _ => .pure rfl
  | continueLoop hend ih =>
    intro n cs₀ lb hs hn
    exact wordStatement_accepts rfl hs fun _ => ih.bind fun _ _ => .pure rfl
  | branch hc hst hs' hk ihc ihs =>
    intro n cs₀ lb hs hn
    have hl := hc.length_le
    refine wordStatement_accepts rfl hs fun _ => (ihc n hn).bindEq ((ihs n (by omega)).bindEq ?_)
    exact (eat_refuses hs' hk).bindEq (.pure rfl)
  | branchElse hc hst hs' hst' ihc ihs ihs' =>
    intro n cs₀ lb hs hn
    have hl₁ := hc.length_le
    have hl₂ := hst.length_le
    have hl₃ := hs'.rest_length_le
    refine wordStatement_accepts rfl hs fun _ => (ihc n hn).bindEq ((ihs n (by omega)).bindEq ?_)
    exact (eat_accepts hs').bindEq ((ihs' n (by omega)).bindEq (.pure rfl))
  | whileLoop hc hst ihc ihs =>
    intro n cs₀ lb hs hn
    have hl := hc.length_le
    refine wordStatement_accepts rfl hs fun _ => (ihc n hn).bindEq ?_
    exact (ihs n (by omega)).bindEq (.pure rfl)
  | doWhileLoop hst hs' hc hend ihs ihc ihend =>
    intro n cs₀ lb hs hn
    have hl₁ := hst.length_le
    have hl₂ := hs'.rest_length_le
    refine wordStatement_accepts rfl hs fun _ => (ihs n hn).bindEq ?_
    refine (expect_accepts hs').bind fun _ _ => (ihc n (by omega)).bindEq ?_
    exact ihend.bind fun _ _ => .pure rfl
  | forLoop s₁ h₂ s₃ h₄ s₅ h₆ s₇ _ ih₂ ih₄ ih₆ ih₈ =>
    intro n cs₀ lb hs hn
    refine wordStatement_accepts rfl hs fun _ => ?_
    exact forStatement_accepts s₁ h₂ s₃ h₄ s₅ h₆ s₇ ih₂ ih₄ ih₆ ih₈ hn
  | varList hds hend ihds ihend =>
    intro n cs₀ lb hs hn
    refine wordStatement_accepts rfl hs fun _ => ?_
    refine (ihds _ (declarator (rules n)) .declarator _ rfl
      (fun _ _ _ hd ha => ha n (by omega)) n (by omega)).bindEq ?_
    exact ihend.bind fun _ _ => .pure rfl
  | declaration hf ih =>
    intro n cs₀ lb hs hn
    refine wordStatement_accepts rfl hs fun _ => (ih n n hn (by omega)).bindEq ?_
    exact .pure rfl
  | programEnd hs =>
    intro depth n hd hn
    obtain ⟨n, rfl⟩ : ∃ m, n = m + 1 := ⟨n - 1, by omega⟩
    exact (check_accepts hs).bindEq (.pure rfl)
  | programMore hs hss ihs ihss =>
    intro depth n hd hn
    obtain ⟨n, rfl⟩ : ∃ m, n = m + 1 := ⟨n - 1, by omega⟩
    obtain ⟨k, lb, rest, hsees, hk⟩ := hs.statement_starts
    have hl := hs.length_le
    simp only [Phrase.weight] at hl
    refine (check_accepts hsees).bindEq ?_
    rw [Kind.alike_eq_false (by rintro rfl; cases hk)]
    exact (ihs depth hd).bindEq ((ihss depth n (by omega) (by omega)).bindEq (.pure rfl))

/-- A program is read exactly if it is one of the language, and gives its tree. -/
theorem parse_eq_ok_iff {source : String} {p : Program} :
    parse source = .ok p ↔ ∃ rest, Reads (.program p) source.toList rest := by
  constructor
  · intro h
    rcases parse_sound source with ⟨p', rest, hp', hr⟩ | ⟨e, he, -⟩
    · rw [h] at hp'; cases hp'
      exact ⟨rest, hr⟩
    · rw [h] at he; cases he
  · rintro ⟨rest, hr⟩
    have hn : source.toList.length < depthOf source.toList := by rw [depthOf]; omega
    obtain ⟨p', c', hp', rfl, -⟩ := hr.accepted (depthOf source.toList) (depthOf source.toList)
      (Nat.le_refl _) hn (Cursor.start source.toList) (Cursor.coherent_of_none rfl) rfl
    simp only [parse, Parser.read, hp']

theorem parseExpression_eq_ok_iff {source : String} {e : Node} :
    parseExpression source = .ok e ↔
      ∃ lb cs rest, Reads (.expression 0 e) source.toList cs ∧ Sees .operator cs .eof lb rest := by
  constructor
  · intro h
    rcases parseExpression_sound source with ⟨e', lb, cs, rest, he', hr⟩ | ⟨e', he', -⟩
    · rw [h] at he'; cases he'
      exact ⟨lb, cs, rest, hr⟩
    · rw [h] at he'; cases he'
  · rintro ⟨lb, cs, rest, hr, hs⟩
    have hn : 2 * source.toList.length + 1 ≤ depthOf source.toList := by rw [depthOf]; omega
    have hacc : (wholeExpression (depthOf source.toList)).Accepts source.toList (· = e) rest :=
      (hr.accepted _ hn).bindEq ((expect_accepts hs).bind fun _ _ => .pure rfl)
    obtain ⟨e', c', he', rfl, -⟩ := hacc (Cursor.start source.toList) (Cursor.coherent_of_none rfl) rfl
    simp only [parseExpression, Parser.read, he']

end Scriptlet
