import Scriptlet.Proofs.Phrases

/-!
# The parsers are sound

`p.Yields c Q` says how a parser ends at the cursor `c`: with a result and a text behind it that
satisfy `Q`, or with a syntax error. In particular the bound on the depth of nesting is never met, so
the statements here hold at bounds that are large enough for the text behind the cursor: an expression
needs `2 * length + 1`, a statement `2 * length + 2`, since a statement that is an expression takes no
character before it calls the rule for expressions.

A cursor remembers a token. It is `Coherent` if that token is the one it would see again; every
parser keeps its cursor so, and this is why remembered tokens never show in what is read.
-/

namespace Scriptlet

open Token

/-- The token remembered is the one ahead. -/
def Cursor.Coherent (c : Cursor) : Prop := ∀ l, c.ahead = some l → c.lookAhead l.mode = .ok l

theorem Cursor.coherent_of_none {c : Cursor} (h : c.ahead = none) : c.Coherent := by
  intro l hl
  rw [h] at hl
  cases hl

/-- What looking ahead finds is the next token of the text. -/
theorem Cursor.lookAhead_sees {c : Cursor} {mode : Mode} {l : Lookahead} (h : c.lookAhead mode = .ok l) :
    l.mode = mode ∧ Sees mode c.rest l.token.kind l.lineBreak l.rest := by
  cases ha : ahead? mode c.rest with
  | none =>
    obtain ⟨place, he⟩ := Cursor.lookAhead_error ha
    rw [he] at h; cases h
  | some a =>
    obtain ⟨l', he, hk, hb, hr, hm⟩ := Cursor.lookAhead_ok ha
    rw [he] at h; cases h
    exact ⟨hm, by rw [Sees, ha, hk, hb, hr]⟩

theorem Cursor.coherent_of_lookAhead {c : Cursor} {mode : Mode} {l : Lookahead}
    (h : c.lookAhead mode = .ok l) : { c with ahead := some l }.Coherent := by
  intro l' hl
  cases hl
  rw [(lookAhead_sees h).1]
  exact h

namespace Parser

variable {α β : Type} {c c' : Cursor} {mode : Mode} {kind : Kind}

theorem bind_of_ok {p : Parser α} {a : α} (h : p c = .ok a c') (f : α → Parser β) :
    (p >>= f) c = f a c' := by
  show EStateM.bind p f c = _
  rw [EStateM.bind, h]

theorem bind_error {p : Parser α} {e : Error} (h : p c = .error e c') (f : α → Parser β) :
    (p >>= f) c = .error e c' := by
  show EStateM.bind p f c = _
  rw [EStateM.bind, h]

/-- What is remembered makes no difference: a token that can be seen is seen. -/
theorem peek_of_lookAhead {l : Lookahead} (hc : c.Coherent) (h : c.lookAhead mode = .ok l) :
    peek mode c = .ok l { c with ahead := some l } := by
  cases hr : c.remembers mode with
  | false => rw [peek_of_not_remembers hr, h]
  | true =>
    obtain ⟨l', hl, hm⟩ := Cursor.remembers_iff.1 hr
    have hok := hc l' hl
    rw [hm, h] at hok
    cases hok
    rw [peek_of_ahead hl hm, ← hl]

theorem peek_error {e : Error} (hc : c.Coherent) (h : c.lookAhead mode = .error e) :
    peek mode c = .error e c := by
  have hno : c.remembers mode = false := by
    refine Bool.eq_false_iff.2 fun hr => ?_
    obtain ⟨l, hl, hm⟩ := Cursor.remembers_iff.1 hr
    have hok := hc l hl
    rw [hm, h] at hok
    cases hok
  rw [peek_of_not_remembers hno, h]

/-- The parser ends at `c` with a result and a text behind it that satisfy `Q`, or with a syntax
error. -/
def Yields (p : Parser α) (c : Cursor) (Q : α → List Char → Prop) : Prop :=
  match p c with
  | .ok a c' => c'.Coherent ∧ Q a c'.rest
  | .error e _ => e.isSyntaxError = true

namespace Yields

variable {p : Parser α} {f : α → Parser β} {Q : α → List Char → Prop} {R : β → List Char → Prop}

theorem bind (hp : p.Yields c Q) (hf : ∀ a c', c'.Coherent → Q a c'.rest → (f a).Yields c' R) :
    (p >>= f).Yields c R := by
  unfold Yields at hp ⊢
  show match EStateM.bind p f c with
    | .ok a c' => _
    | .error e _ => _
  unfold EStateM.bind
  cases h : p c with
  | ok a c' =>
    rw [h] at hp
    exact hf a c' hp.1 hp.2
  | error e c' =>
    rw [h] at hp
    exact hp

theorem pure {a : α} (hc : c.Coherent) (h : Q a c.rest) : (pure a : Parser α).Yields c Q := ⟨hc, h⟩

theorem throw {e : Error} (h : e.isSyntaxError = true) : (throw e : Parser α).Yields c Q := h

theorem mono {Q' : α → List Char → Prop} (h : p.Yields c Q) (hQ : ∀ a rest, Q a rest → Q' a rest) :
    p.Yields c Q' := by
  unfold Yields at h ⊢
  split at h
  · exact ⟨h.1, hQ _ _ h.2⟩
  · exact h

theorem map {g : α → β} (hp : p.Yields c Q) (hf : ∀ a rest, Q a rest → R (g a) rest) :
    (g <$> p).Yields c R := by
  unfold Yields at hp ⊢
  show match EStateM.map g p c with
    | .ok a c' => _
    | .error e _ => _
  unfold EStateM.map
  cases h : p c with
  | ok a c' =>
    rw [h] at hp
    exact ⟨hp.1, hf a c'.rest hp.2⟩
  | error e c' =>
    rw [h] at hp
    exact hp

end Yields

theorem peek_yields (hc : c.Coherent) : (peek mode).Yields c fun l rest =>
    rest = c.rest ∧ Sees mode c.rest l.token.kind l.lineBreak l.rest := by
  cases hl : c.lookAhead mode with
  | ok l =>
    rw [Yields, peek_of_lookAhead hc hl]
    exact ⟨Cursor.coherent_of_lookAhead hl, rfl, (Cursor.lookAhead_sees hl).2⟩
  | error e =>
    rw [Yields, peek_error hc hl]
    cases ha : ahead? mode c.rest with
    | none =>
      obtain ⟨place, he⟩ := Cursor.lookAhead_error ha
      rw [he] at hl; cases hl; rfl
    | some a =>
      obtain ⟨l', he, -⟩ := Cursor.lookAhead_ok ha
      rw [he] at hl; cases hl

theorem peekKind_yields (hc : c.Coherent) : (peekKind mode).Yields c fun k rest =>
    rest = c.rest ∧ ∃ lb r, Sees mode c.rest k lb r :=
  (peek_yields hc).bind fun _ _ hc' ⟨hrest, hs⟩ => .pure hc' ⟨hrest, _, _, hs⟩

theorem advance_yields (hc : c.Coherent) : (advance mode).Yields c fun token rest =>
    ∃ lb, Sees mode c.rest token.kind lb rest := by
  rw [advance_eq]
  exact (peek_yields hc).bind fun _ _ _ ⟨_, hs⟩ => ⟨Cursor.coherent_of_none rfl, _, hs⟩

theorem check_yields [kind.Fixed] (hc : c.Coherent) : (check kind mode).Yields c fun b rest =>
    rest = c.rest ∧ ∃ k lb r, Sees mode c.rest k lb r ∧ (b = true ↔ k = kind) :=
  (peekKind_yields hc).bind fun k _ hc' ⟨hrest, lb, r, hs⟩ =>
    .pure hc' ⟨hrest, k, lb, r, hs, Kind.Fixed.alike_iff k⟩

theorem eat_yields [kind.Fixed] (hc : c.Coherent) : (eat kind mode).Yields c fun b rest =>
    (b = true ∧ ∃ lb, Sees mode c.rest kind lb rest) ∨
      (b = false ∧ rest = c.rest ∧ ∃ k lb r, Sees mode c.rest k lb r ∧ k ≠ kind) := by
  refine (check_yields hc).bind fun b c₁ hc₁ ⟨hrest, k, lb, r, hs, hb⟩ => ?_
  cases b with
  | true =>
    refine (advance_yields hc₁).bind fun token c₂ hc₂ ⟨lb', hs'⟩ => .pure hc₂ (.inl ⟨rfl, lb', ?_⟩)
    rw [hrest] at hs'
    rwa [(hs'.unique hs).1, hb.1 rfl] at hs'
  | false => exact .pure hc₁ (.inr ⟨rfl, hrest, k, lb, r, hs, fun h => by simpa using hb.2 h⟩)

theorem unexpected_yields {Q : α → List Char → Prop} {expected : Expected} (hc : c.Coherent) :
    (unexpected mode expected : Parser α).Yields c Q :=
  (peek_yields hc).bind fun _ _ _ _ => .throw rfl

theorem expect_yields [kind.Fixed] (hc : c.Coherent) : (expect kind mode).Yields c fun _ rest =>
    ∃ lb, Sees mode c.rest kind lb rest := by
  refine (check_yields hc).bind fun b c₁ hc₁ ⟨hrest, k, lb, r, hs, hb⟩ => ?_
  cases b with
  | true =>
    refine (advance_yields hc₁).mono fun token rest ⟨lb', hs'⟩ => ⟨lb', ?_⟩
    rw [hrest] at hs'
    rwa [(hs'.unique hs).1, hb.1 rfl] at hs'
  | false => exact unexpected_yields hc₁

theorem expectName_yields (hc : c.Coherent) : expectName.Yields c fun name rest =>
    ∃ lb, Sees .operand c.rest (.identifier name) lb rest := by
  refine (advance_yields hc).bind fun token c₁ hc₁ ⟨lb, hs⟩ => ?_
  split
  next name hk => exact .pure hc₁ ⟨lb, hk ▸ hs⟩
  · exact .throw rfl

theorem endStatement_yields (hc : c.Coherent) :
    endStatement.Yields c fun _ rest => Reads .ending c.rest rest := by
  refine (peek_yields hc).bind fun l c₁ hc₁ ⟨hrest, hs⟩ => ?_
  split
  next hk =>
    refine (advance_yields hc₁).bind fun token c₂ hc₂ ⟨lb, hs'⟩ => ?_
    rw [hrest] at hs'
    rw [(hs'.unique hs).1, hk] at hs'
    exact .pure hc₂ (.semicolon hs')
  next hk =>
    split
    next he => exact .pure hc₁ (by rw [hrest]; exact .inserted hs hk he)
    · exact unexpected_yields hc₁

theorem target_yields {node : Node} {token : Token} (hc : c.Coherent) :
    (target token node).Yields c fun node' rest => node' = node ∧ rest = c.rest ∧ node.isTarget = true := by
  unfold target
  split
  next h => exact .pure hc ⟨rfl, rfl, h⟩
  · exact .throw rfl

/-! ### Lists -/

theorem commaList_yields {part : Parser α} {f : α → Item} {bound : Nat}
    (hpart : ∀ c, c.Coherent → c.rest.length ≤ bound →
      part.Yields c fun a rest => Reads (.item (f a)) c.rest rest)
    (n : Nat) (hc : c.Coherent) (hb : c.rest.length ≤ bound) (hn : c.rest.length < n) :
    (commaList part n).Yields c fun as rest => Reads (.items (as.map f)) c.rest rest := by
  induction n generalizing c with
  | zero => omega
  | succ n ih =>
    refine (hpart c hc hb).bind fun a c₁ hc₁ h₁ => (eat_yields hc₁).bind fun b c₂ hc₂ h₂ => ?_
    have hl := h₁.length_le
    rcases h₂ with ⟨rfl, lb, hs⟩ | ⟨rfl, hrest, k, lb, r, hs, hk⟩
    · have hl' := hs.rest_length_le
      simp only [Phrase.weight] at hl
      refine (ih hc₂ (by omega) (by omega)).bind fun as c₃ hc₃ h₃ => .pure hc₃ ?_
      exact .more h₁ hs h₃
    · exact .pure hc₂ (hrest ▸ .single h₁ hs hk)

theorem parenthesised_yields {part : Parser α} {f : α → Item} {bound : Nat}
    (hpart : ∀ c, c.Coherent → c.rest.length ≤ bound →
      part.Yields c fun a rest => Reads (.item (f a)) c.rest rest)
    (n : Nat) (hc : c.Coherent) (hb : c.rest.length ≤ bound) (hn : c.rest.length < n) :
    (parenthesised part n).Yields c fun as rest => Reads (.parenthesised (as.map f)) c.rest rest := by
  refine (eat_yields hc).bind fun b c₁ hc₁ h₁ => ?_
  rcases h₁ with ⟨rfl, lb, hs⟩ | ⟨rfl, hrest, k, lb, r, hs, hk⟩
  · exact .pure hc₁ (.noItems hs)
  · rw [← hrest] at hb hn hs ⊢
    refine (commaList_yields hpart n hc₁ hb hn).bind fun as c₂ hc₂ h₂ => ?_
    exact (expect_yields hc₂).bind fun _ c₃ hc₃ ⟨_, hs'⟩ => .pure hc₃ (.someItems hs hk h₂ hs')

/-! ### Rules

What a rule needs of the parsers for its parts: they are sound at texts that are short enough for the
bound `n`. -/

structure Rules.Sound (r : Rules) (n : Nat) : Prop where
  expression : ∀ (c : Cursor) (m : Nat), c.Coherent → 2 * c.rest.length + 1 ≤ n →
    (r.expression m).Yields c fun e rest => Reads (.expression m e) c.rest rest
  statement : ∀ (c : Cursor) (l : Bool), c.Coherent → 2 * c.rest.length + 2 ≤ n →
    (r.statement l).Yields c fun s rest => Reads (.statement l s) c.rest rest

variable {r : Rules} {n : Nat}

theorem blockRest_yields (hr : r.Sound n) (inLoop : Bool) (m : Nat) (hc : c.Coherent)
    (hn : 2 * c.rest.length + 2 ≤ n) (hm : c.rest.length < m) :
    (blockRest r inLoop m).Yields c fun ss rest => Reads (.blockRest inLoop ss) c.rest rest := by
  induction m generalizing c with
  | zero => omega
  | succ m ih =>
    refine (peekKind_yields hc).bind fun k c₁ hc₁ ⟨hrest, lb, rest, hs⟩ => ?_
    rw [← hrest] at hs hn hm ⊢
    split
    · refine (advance_yields hc₁).bind fun token c₂ hc₂ ⟨lb', hs'⟩ => ?_
      rw [(hs'.unique hs).1] at hs'
      exact .pure hc₂ (.blockEnd hs')
    · exact unexpected_yields hc₁
    · refine (hr.statement c₁ inLoop hc₁ hn).bind fun s c₂ hc₂ h₂ => ?_
      have hl := h₂.length_le
      simp only [Phrase.weight] at hl
      exact (ih hc₂ (by omega) (by omega)).bind fun ss c₃ hc₃ h₃ => .pure hc₃ (.blockMore h₂ h₃)

theorem block_yields (hr : r.Sound n) (inLoop : Bool) (m : Nat) (hc : c.Coherent)
    (hn : 2 * c.rest.length ≤ n) (hm : c.rest.length ≤ m) :
    (block r inLoop m).Yields c fun ss rest => Reads (.block inLoop ss) c.rest rest := by
  refine (expect_yields hc).bind fun token c₁ hc₁ ⟨lb, hs⟩ => ?_
  have hl := hs.rest_length_lt Kind.noConfusion
  exact (blockRest_yields hr inLoop m hc₁ (by omega) (by omega)).mono fun ss rest h => .block hs h

theorem functionRest_yields (hr : r.Sound n) (m : Nat) (name : Option String) (hc : c.Coherent)
    (hn : 2 * c.rest.length + 2 ≤ n) (hm : c.rest.length < m) :
    (functionRest r m name).Yields c fun (name', params, body) rest =>
      name' = name ∧ ∃ lb cs₁ cs₂, Sees .operand c.rest (.punct .leftParen) lb cs₁ ∧
        Reads (.parenthesised (params.map .param)) cs₁ cs₂ ∧ Reads (.block false body) cs₂ rest := by
  refine (expect_yields hc).bind fun _ c₁ hc₁ ⟨lb, hs⟩ => ?_
  have hl₁ := hs.rest_length_le
  have hparam : ∀ c' : Cursor, c'.Coherent → c'.rest.length ≤ c.rest.length →
      expectName.Yields c' fun name rest => Reads (.item (.param name)) c'.rest rest :=
    fun c' hc' _ => (expectName_yields hc').mono fun _ _ ⟨_, hs⟩ => .param hs
  refine (parenthesised_yields hparam m hc₁ (by omega) (by omega)).bind fun params c₂ hc₂ h₂ => ?_
  have hl₂ := h₂.length_le
  exact (block_yields hr false m hc₂ (by omega) (by omega)).bind fun body c₃ hc₃ h₃ =>
    .pure hc₃ ⟨rfl, lb, c₁.rest, c₂.rest, hs, h₂, h₃⟩

theorem isNamed_yields {declared : Bool} (hc : c.Coherent) : (isNamed declared).Yields c fun named rest =>
    rest = c.rest ∧ (named = false → declared = false) := by
  cases declared with
  | true => exact .pure hc ⟨rfl, fun h => h⟩
  | false => exact (check_yields hc).map fun _ _ ⟨hrest, _⟩ => ⟨hrest, fun _ => rfl⟩

theorem functionParts_yields (hr : r.Sound n) (declared : Bool) (m : Nat) (hc : c.Coherent)
    (hn : 2 * c.rest.length + 2 ≤ n) (hm : c.rest.length < m) :
    (functionParts r declared m).Yields c fun (name, params, body) rest =>
      Reads (.function declared name params body) c.rest rest := by
  refine (isNamed_yields hc).bind fun named c₁ hc₁ ⟨hrest, hd⟩ => ?_
  rw [← hrest] at hn hm ⊢
  cases named with
  | true =>
    refine (expectName_yields hc₁).bind fun name c₂ hc₂ ⟨lb, hs⟩ => ?_
    have hl := hs.rest_length_le
    refine (functionRest_yields hr m (some name) hc₂ (by omega) (by omega)).mono
      fun (name', params, body) rest ⟨hname, lb', cs₁, cs₂, hp, h₁, h₂⟩ => ?_
    exact hname ▸ .named hs hp h₁ h₂
  | false =>
    refine (functionRest_yields hr m none hc₁ hn hm).mono
      fun (name', params, body) rest ⟨hname, lb', cs₁, cs₂, hp, h₁, h₂⟩ => ?_
    exact hname ▸ hd rfl ▸ .anonymous hp h₁ h₂

theorem operand_yields (hr : r.Sound n) (m : Nat) {token : Token} (hc : c.Coherent)
    (hn : 2 * c.rest.length + 2 ≤ n) (hm : c.rest.length < m) :
    (operand r m token).Yields c fun e rest => Reads (.operand token.kind e) c.rest rest := by
  have he : ∀ (c : Cursor) (m : Nat), c.Coherent → 2 * c.rest.length + 2 ≤ n → _ :=
    fun c m hc hn => hr.expression c m hc (by omega)
  unfold operand
  split
  next op hop =>
    refine (he c _ hc hn).bind fun e c₁ hc₁ h₁ => (target_yields hc₁).bind fun e' c₂ hc₂ h₂ => ?_
    obtain ⟨rfl, hrest, ht⟩ := h₂
    exact .pure hc₂ (hrest ▸ .updateBefore hop h₁ ht)
  next hop =>
    split
    next x hk => exact .pure hc (.leaf (by rw [hk]; rfl))
    next x hk => exact .pure hc (.leaf (by rw [hk]; rfl))
    next x hk => exact .pure hc (.leaf (by rw [hk]; rfl))
    next hk => exact .pure hc (.leaf (by rw [hk]; rfl))
    next p f hk => exact .pure hc (.leaf (by rw [hk]; rfl))
    next x hk => exact .pure hc (.leaf (by rw [hk]; rfl))
    next hk =>
      refine (he c _ hc hn).bind fun e c₁ hc₁ h₁ => (expect_yields hc₁).bind fun _ c₂ hc₂ ⟨_, hs⟩ => ?_
      exact .pure hc₂ (by rw [hk]; exact .group h₁ hs)
    next hk =>
      refine (functionParts_yields hr false m hc hn hm).bind fun (name, params, body) c₁ hc₁ h₁ => ?_
      exact .pure hc₁ (by rw [hk]; exact .function h₁)
    next =>
      split
      next op hop => exact (he c _ hc hn).bind fun e c₁ hc₁ h₁ => .pure hc₁ (.unary hop h₁)
      · exact .throw rfl

theorem argument_yields (hr : r.Sound n) {bound : Nat} (hb : 2 * bound + 2 ≤ n) (c : Cursor)
    (hc : c.Coherent) (hn : c.rest.length ≤ bound) :
    (r.expression Kind.commaPower).Yields c fun e rest => Reads (.item (.argument e)) c.rest rest :=
  (hr.expression c _ hc (by omega)).mono fun _ _ h => .argument h

theorem suffixed_yields (hr : r.Sound n) (m : Nat) {token : Token} {left : Node} (hc : c.Coherent)
    (hn : 2 * c.rest.length + 2 ≤ n) (hm : c.rest.length < m) :
    (suffixed r m token left).Yields c fun e rest => Reads (.suffix token.kind left e) c.rest rest := by
  have he : ∀ (c : Cursor) (m : Nat), c.Coherent → 2 * c.rest.length + 2 ≤ n → _ :=
    fun c m hc hn => hr.expression c m hc (by omega)
  unfold suffixed
  split
  next op hop => exact (he c _ hc hn).bind fun e c₁ hc₁ h₁ => .pure hc₁ (.binary hop h₁)
  split
  next op hop =>
    refine (target_yields hc).bind fun left' c₁ hc₁ ⟨hleft, hrest, ht⟩ => ?_
    rw [← hrest] at hn ⊢
    subst hleft
    exact (he c₁ _ hc₁ hn).bind fun e c₂ hc₂ h₂ => .pure hc₂ (.assign hop ht h₂)
  split
  next op hop =>
    refine (target_yields hc).bind fun left' c₁ hc₁ ⟨hleft, hrest, ht⟩ => .pure hc₁ ?_
    rw [hrest, hleft]
    exact .updateAfter hop ht
  split
  next hk =>
    refine (he c _ hc hn).bind fun e₁ c₁ hc₁ h₁ => (expect_yields hc₁).bind fun _ c₂ hc₂ ⟨_, hs⟩ => ?_
    have hl₁ := h₁.length_le
    have hl₂ := hs.rest_length_le
    refine (he c₂ _ hc₂ (by omega)).bind fun e₂ c₃ hc₃ h₃ => .pure hc₃ ?_
    exact hk ▸ .conditional h₁ hs h₃
  next hk =>
    refine (expectName_yields hc).bind fun name c₁ hc₁ ⟨_, hs⟩ => .pure hc₁ ?_
    exact hk ▸ .dot hs
  next hk =>
    refine (he c _ hc hn).bind fun e c₁ hc₁ h₁ => (expect_yields hc₁).bind fun _ c₂ hc₂ ⟨_, hs⟩ => ?_
    exact .pure hc₂ (hk ▸ .index h₁ hs)
  next hk =>
    refine (parenthesised_yields (argument_yields hr hn) m hc (Nat.le_refl _) hm).bind
      fun es c₁ hc₁ h₁ => .pure hc₁ ?_
    exact hk ▸ .call h₁
  · exact .throw rfl

theorem suffixes_yields (hr : r.Sound n) (min m : Nat) {left : Node} (hc : c.Coherent)
    (hn : 2 * c.rest.length + 2 ≤ n) (hm : c.rest.length < m) :
    (suffixes r min m left).Yields c fun e rest => Reads (.suffixes min left e) c.rest rest := by
  induction m generalizing c left with
  | zero => omega
  | succ m ih =>
    refine (peek_yields hc).bind fun l c₁ hc₁ ⟨hrest, hs⟩ => ?_
    rw [← hrest] at hs hn hm ⊢
    split
    next hgo =>
      refine (advance_yields hc₁).bind fun token c₂ hc₂ ⟨lb, hs'⟩ => ?_
      obtain ⟨hk, rfl, hr'⟩ := hs'.unique hs
      have hgo' : token.kind.goesOn min l.lineBreak = true := hk ▸ hgo
      have hpos : token.kind ≠ .eof := fun h => by rw [h] at hgo'; simp [Kind.goesOn, Kind.power] at hgo'
      have hl := hs'.rest_length_lt hpos
      -- the suffix took a token, so both bounds still hold behind it
      refine (suffixed_yields hr m hc₂ (by omega) (by omega)).bind fun mid c₃ hc₃ h₃ => ?_
      have hl' := h₃.length_le
      exact (ih hc₃ (by omega) (by omega)).mono fun e rest h₄ => .step hs' hgo' h₃ h₄
    next hgo => exact .pure hc₁ (.stop hs (Bool.eq_false_iff.2 hgo))

theorem expressionWith_yields (hr : r.Sound n) (min : Nat) (hc : c.Coherent)
    (hn : 2 * c.rest.length + 1 ≤ n + 1) :
    (expressionWith r n min).Yields c fun e rest => Reads (.expression min e) c.rest rest := by
  refine (advance_yields hc).bind fun token c₁ hc₁ ⟨lb, hs⟩ => ?_
  by_cases hk : token.kind = .eof
  · refine Yields.bind (Q := fun _ _ => False) ?_ fun _ _ _ h => h.elim
    simp only [operand, hk, Kind.updateBefore?, Kind.unaryOp?]
    exact .throw rfl
  have hl₁ := hs.rest_length_lt hk
  refine (operand_yields hr n hc₁ (by omega) (by omega)).bind fun left c₂ hc₂ h₂ => ?_
  have hl₂ := h₂.length_le
  exact (suffixes_yields hr min n hc₂ (by omega) (by omega)).mono fun e rest h₃ => .expression hs h₂ h₃

/-! ### Statements -/

theorem condition_yields (hr : r.Sound n) (hc : c.Coherent) (hn : 2 * c.rest.length + 2 ≤ n) :
    (condition r).Yields c fun e rest => Reads (.condition e) c.rest rest := by
  refine (expect_yields hc).bind fun _ c₁ hc₁ ⟨_, hs⟩ => ?_
  have hl := hs.rest_length_le
  refine (hr.expression c₁ 0 hc₁ (by omega)).bind fun e c₂ hc₂ h₂ => ?_
  exact (expect_yields hc₂).bind fun _ c₃ hc₃ ⟨_, hs'⟩ => .pure hc₃ (.condition hs h₂ hs')

theorem declarator_yields (hr : r.Sound n) {bound : Nat} (hb : 2 * bound + 2 ≤ n) (c : Cursor)
    (hc : c.Coherent) (hn : c.rest.length ≤ bound) :
    (declarator r).Yields c fun d rest => Reads (.item (.declarator d)) c.rest rest := by
  refine (expectName_yields hc).bind fun name c₁ hc₁ ⟨_, hs⟩ => ?_
  have hl := hs.rest_length_le
  refine (eat_yields hc₁).bind fun b c₂ hc₂ h₂ => ?_
  rcases h₂ with ⟨rfl, lb, hs₂⟩ | ⟨rfl, hrest, k, lb, rest, hs₂, hk⟩
  · have hl₂ := hs₂.rest_length_le
    refine (hr.expression c₂ Kind.commaPower hc₂ (by omega)).bind fun e c₃ hc₃ h₃ => .pure hc₃ ?_
    exact .initialised hs hs₂ h₃
  · exact .pure hc₂ (hrest ▸ .declared hs hs₂ hk)

theorem declarators_yields (hr : r.Sound n) (hc : c.Coherent) (hn : 2 * c.rest.length + 2 ≤ n)
    {m : Nat} (hm : c.rest.length < m) :
    (commaList (declarator r) m).Yields c fun ds rest =>
      Reads (.items (ds.map .declarator)) c.rest rest :=
  commaList_yields (declarator_yields hr hn) m hc (Nat.le_refl _) hm

theorem optional_yields [kind.Fixed] (hr : r.Sound n) (hc : c.Coherent) (hn : 2 * c.rest.length + 2 ≤ n) :
    (optional r kind).Yields c fun e rest => Reads (.optional kind e) c.rest rest := by
  refine (check_yields hc).bind fun b c₁ hc₁ ⟨hrest, k, lb, rest, hs, hb⟩ => ?_
  rw [← hrest] at hs hn ⊢
  cases b with
  | true => exact .pure hc₁ (hb.1 rfl ▸ .absent hs)
  | false =>
    have hk : k ≠ kind := fun h => by simpa using hb.2 h
    exact (hr.expression c₁ 0 hc₁ (by omega)).bind fun e c₂ hc₂ h₂ => .pure hc₂ (.present hs hk h₂)

theorem returnValue_yields (hr : r.Sound n) (hc : c.Coherent) (hn : 2 * c.rest.length + 2 ≤ n) :
    (returnValue r).Yields c fun e rest => Reads (.returnValue e) c.rest rest := by
  refine (peek_yields hc).bind fun l c₁ hc₁ ⟨hrest, hs⟩ => ?_
  rw [← hrest] at hs hn ⊢
  split
  next hbare => exact .pure hc₁ (.returnNothing hs hbare)
  next hbare =>
    refine (hr.expression c₁ 0 hc₁ (by omega)).bind fun e c₂ hc₂ h₂ => .pure hc₂ ?_
    exact .returnSome hs (Bool.eq_false_iff.2 hbare) h₂

theorem returnStatement_yields (hr : r.Sound n) (inLoop : Bool) (hc : c.Coherent)
    (hn : 2 * c.rest.length + 2 ≤ n) : (returnStatement r).Yields c fun s rest =>
      Reads (.opened inLoop (.word .«return») s) c.rest rest :=
  (returnValue_yields hr hc hn).bind fun _ _ hc₁ h₁ =>
    (endStatement_yields hc₁).bind fun _ _ hc₂ h₂ => .pure hc₂ (.returning h₁ h₂)

theorem jump_yields {token : Token} {inLoop : Bool} {node : Node} (hc : c.Coherent) :
    (jump token inLoop node).Yields c fun s rest =>
      s = node ∧ inLoop = true ∧ Reads .ending c.rest rest := by
  cases inLoop with
  | true => exact (endStatement_yields hc).bind fun _ c₁ hc₁ h₁ => .pure hc₁ ⟨rfl, rfl, h₁⟩
  | false => exact .throw rfl

theorem ifStatement_yields (hr : r.Sound n) (inLoop : Bool) (hc : c.Coherent)
    (hn : 2 * c.rest.length + 2 ≤ n) : (ifStatement r inLoop).Yields c fun s rest =>
      Reads (.opened inLoop (.word .«if») s) c.rest rest := by
  refine (condition_yields hr hc hn).bind fun e c₁ hc₁ h₁ => ?_
  have hl₁ := h₁.length_le
  refine (hr.statement c₁ inLoop hc₁ (by omega)).bind fun s c₂ hc₂ h₂ => ?_
  have hl₂ := h₂.length_le
  refine (eat_yields hc₂).bind fun b c₃ hc₃ h₃ => ?_
  rcases h₃ with ⟨rfl, lb, hs⟩ | ⟨rfl, hrest, k, lb, rest, hs, hk⟩
  · have hl₃ := hs.rest_length_le
    refine (hr.statement c₃ inLoop hc₃ (by omega)).bind fun s' c₄ hc₄ h₄ => .pure hc₄ ?_
    exact .branchElse h₁ h₂ hs h₄
  · exact .pure hc₃ (hrest ▸ .branch h₁ h₂ hs hk)

theorem whileStatement_yields (hr : r.Sound n) (inLoop : Bool) (hc : c.Coherent)
    (hn : 2 * c.rest.length + 2 ≤ n) : (whileStatement r).Yields c fun s rest =>
      Reads (.opened inLoop (.word .while) s) c.rest rest := by
  refine (condition_yields hr hc hn).bind fun e c₁ hc₁ h₁ => ?_
  have hl₁ := h₁.length_le
  exact (hr.statement c₁ true hc₁ (by omega)).bind fun s c₂ hc₂ h₂ => .pure hc₂ (.whileLoop h₁ h₂)

theorem doWhileStatement_yields (hr : r.Sound n) (inLoop : Bool) (hc : c.Coherent)
    (hn : 2 * c.rest.length + 2 ≤ n) : (doWhileStatement r).Yields c fun s rest =>
      Reads (.opened inLoop (.word .«do») s) c.rest rest := by
  refine (hr.statement c true hc hn).bind fun s c₁ hc₁ h₁ => ?_
  have hl₁ := h₁.length_le
  refine (expect_yields hc₁).bind fun _ c₂ hc₂ ⟨_, hs⟩ => ?_
  have hl₂ := hs.rest_length_le
  refine (condition_yields hr hc₂ (by omega)).bind fun e c₃ hc₃ h₃ => ?_
  refine (eat_yields hc₃).bind fun b c₄ hc₄ h₄ => .pure hc₄ (.doWhileLoop h₁ hs h₃ ?_)
  rcases h₄ with ⟨-, lb, hs'⟩ | ⟨-, hrest, k, lb, rest, hs', hk⟩
  · exact .loopSemicolon hs'
  · rw [hrest]; exact .loopBare hs' hk

theorem forInit_yields (hr : r.Sound n) (hc : c.Coherent) (hn : 2 * c.rest.length + 2 ≤ n)
    {m : Nat} (hm : c.rest.length < m) :
    (forInit r m).Yields c fun e rest => Reads (.forInit e) c.rest rest := by
  refine (eat_yields hc).bind fun b c₁ hc₁ h₁ => ?_
  rcases h₁ with ⟨rfl, lb, hs⟩ | ⟨rfl, hrest, k, lb, rest, hs, hk⟩
  · have hl := hs.rest_length_le
    refine (declarators_yields hr hc₁ (by omega) (m := m) (by omega)).bind fun ds c₂ hc₂ h₂ => ?_
    exact .pure hc₂ (.forVar hs h₂)
  · rw [← hrest] at hs hn ⊢
    exact (optional_yields hr hc₁ hn).mono fun e rest h => .forOther hs hk h

theorem forStatement_yields (hr : r.Sound n) (inLoop : Bool) (hc : c.Coherent)
    (hn : 2 * c.rest.length + 2 ≤ n) {m : Nat} (hm : c.rest.length < m) :
    (forStatement r m).Yields c fun s rest => Reads (.opened inLoop (.word .«for») s) c.rest rest := by
  refine (expect_yields hc).bind fun _ c₁ hc₁ ⟨_, s₁⟩ => ?_
  have l₁ := s₁.rest_length_le
  refine (forInit_yields hr hc₁ (by omega) (m := m) (by omega)).bind fun init c₂ hc₂ h₂ => ?_
  have l₂ := h₂.length_le
  refine (expect_yields hc₂).bind fun _ c₃ hc₃ ⟨_, s₃⟩ => ?_
  have l₃ := s₃.rest_length_le
  refine (optional_yields hr hc₃ (by omega)).bind fun test c₄ hc₄ h₄ => ?_
  have l₄ := h₄.length_le
  refine (expect_yields hc₄).bind fun _ c₅ hc₅ ⟨_, s₅⟩ => ?_
  have l₅ := s₅.rest_length_le
  refine (optional_yields hr hc₅ (by omega)).bind fun update c₆ hc₆ h₆ => ?_
  have l₆ := h₆.length_le
  refine (expect_yields hc₆).bind fun _ c₇ hc₇ ⟨_, s₇⟩ => ?_
  have l₇ := s₇.rest_length_le
  refine (hr.statement c₇ true hc₇ (by omega)).bind fun body c₈ hc₈ h₈ => .pure hc₈ ?_
  exact .forLoop s₁ h₂ s₃ h₄ s₅ h₆ s₇ h₈

theorem wordStatement_yields (hr : r.Sound n) {inLoop : Bool} {w : Word} {rest : Token → Parser Node}
    (hw : wordStatement? r inLoop n w = some rest) {token : Token} (hk : token.kind = .word w)
    (hc : c.Coherent) (hn : 2 * c.rest.length + 2 ≤ n) :
    (rest token).Yields c fun s rest => Reads (.opened inLoop (.word w) s) c.rest rest := by
  cases w <;> simp only [wordStatement?, Option.some.injEq, reduceCtorEq] at hw <;> subst hw
  case «return» => exact returnStatement_yields hr inLoop hc hn
  case «break» =>
    exact (jump_yields hc).mono fun s rest ⟨hs, hl, h⟩ => by rw [hs, hl]; exact .breakLoop h
  case «continue» =>
    exact (jump_yields hc).mono fun s rest ⟨hs, hl, h⟩ => by rw [hs, hl]; exact .continueLoop h
  case «if» => exact ifStatement_yields hr inLoop hc hn
  case «while» => exact whileStatement_yields hr inLoop hc hn
  case «do» => exact doWhileStatement_yields hr inLoop hc hn
  case «for» => exact forStatement_yields hr inLoop hc hn (by omega)
  case var =>
    refine (declarators_yields hr hc hn (by omega)).bind fun ds c₁ hc₁ h₁ => ?_
    exact (endStatement_yields hc₁).bind fun _ c₂ hc₂ h₂ => .pure hc₂ (.varList h₁ h₂)
  case function =>
    exact (functionParts_yields hr true n hc hn (by omega)).bind fun (name, params, body) c₁ hc₁ h₁ =>
      .pure hc₁ (.declaration h₁)

theorem expressionStatement_yields (hr : r.Sound n) {inLoop : Bool} {k : Kind} {lb : Bool}
    {rest : List Char} (hs : Sees .operand c.rest k lb rest) (hk : k.opensStatement = false)
    (hc : c.Coherent) (hn : 2 * c.rest.length + 2 ≤ n + 1) :
    (expressionStatement r).Yields c fun s rest => Reads (.statement inLoop s) c.rest rest := by
  refine (hr.expression c 0 hc (by omega)).bind fun e c₁ hc₁ h₁ => ?_
  exact (endStatement_yields hc₁).bind fun _ c₂ hc₂ h₂ => .pure hc₂ (.expressionStatement hs hk h₁ h₂)

theorem wordStatement?_isSome (r : Rules) (inLoop : Bool) (n : Nat) (w : Word) :
    (wordStatement? r inLoop n w).isSome = (Kind.word w).opensStatement := by
  cases w <;> rfl

theorem statementWith_yields (hr : r.Sound n) (inLoop : Bool) (hc : c.Coherent)
    (hn : 2 * c.rest.length + 2 ≤ n + 1) :
    (statementWith r n inLoop).Yields c fun s rest => Reads (.statement inLoop s) c.rest rest := by
  refine (peekKind_yields hc).bind fun k c₁ hc₁ hk => ?_
  obtain ⟨hrest, lb, rest, hs⟩ := hk
  rw [← hrest] at hs hn ⊢
  -- consuming the token ahead gives back the one that was seen
  have hadvance : (advance .operand).Yields c₁ fun token rest =>
      token.kind = k ∧ ∃ lb, Sees .operand c₁.rest k lb rest :=
    (advance_yields hc₁).mono fun token rest ⟨lb', hs'⟩ => by
      obtain ⟨hk, -, -⟩ := hs'.unique hs
      exact ⟨hk, lb', hk ▸ hs'⟩
  split
  · exact hadvance.bind fun token c₂ hc₂ ⟨_, _, hs₂⟩ => .pure hc₂ (.opened hs₂ .empty)
  · refine (block_yields hr inLoop n hc₁ (by omega) (by omega)).bind fun ss c₂ hc₂ h₂ => .pure hc₂ ?_
    cases h₂ with
    | block hs₁ h => exact .opened hs₁ (.blockStatement h)
  next w =>
    split
    next rest hw =>
      refine hadvance.bind fun token c₂ hc₂ ⟨hk, _, hs₂⟩ => ?_
      have hl := hs₂.rest_length_lt Kind.noConfusion
      exact (wordStatement_yields hr hw hk hc₂ (by omega)).mono fun s rest h => .opened hs₂ h
    next hw =>
      refine expressionStatement_yields hr hs ?_ hc₁ hn
      rw [← wordStatement?_isSome r inLoop n w, hw]
      rfl
  next k hk₁ hk₂ hk₃ =>
    refine expressionStatement_yields hr hs ?_ hc₁ hn
    unfold Kind.opensStatement
    split
    · exact absurd rfl hk₁
    · exact absurd rfl hk₂
    next w => exact absurd rfl (hk₃ w)
    · rfl

/-! ### Tying the knot -/

theorem rules_sound (n : Nat) : Rules.Sound ⟨expression n, statement n⟩ n := by
  induction n with
  | zero => exact ⟨fun _ _ _ h => by omega, fun _ _ _ h => by omega⟩
  | succ n ih =>
    exact ⟨fun c m hc hn => expressionWith_yields ih m hc hn,
      fun c l hc hn => statementWith_yields ih l hc hn⟩

theorem statements_yields (depth n : Nat) (hc : c.Coherent) (hd : 2 * c.rest.length + 2 ≤ depth)
    (hn : c.rest.length < n) :
    (statements depth n).Yields c fun ss rest => Reads (.program ss) c.rest rest := by
  induction n generalizing c with
  | zero => omega
  | succ n ih =>
    refine (check_yields hc).bind fun b c₁ hc₁ ⟨hrest, k, lb, rest, hs, hb⟩ => ?_
    rw [← hrest] at hs hd hn ⊢
    cases b with
    | true => exact .pure hc₁ (.programEnd (hb.1 rfl ▸ hs))
    | false =>
      refine ((rules_sound depth).statement c₁ false hc₁ hd).bind fun s c₂ hc₂ h₂ => ?_
      have hl := h₂.length_le
      simp only [Phrase.weight] at hl
      exact (ih hc₂ (by omega) (by omega)).bind fun ss c₃ hc₃ h₃ => .pure hc₃ (.programMore h₂ h₃)

theorem wholeExpression_yields (depth : Nat) (hc : c.Coherent) (hd : 2 * c.rest.length + 1 ≤ depth) :
    (wholeExpression depth).Yields c fun e _ =>
      ∃ lb cs rest, Reads (.expression 0 e) c.rest cs ∧ Sees .operator cs .eof lb rest := by
  refine ((rules_sound depth).expression c 0 hc hd).bind fun e c₁ hc₁ h₁ => ?_
  exact (expect_yields hc₁).bind fun _ c₂ hc₂ ⟨lb, hs⟩ => .pure hc₂ ⟨lb, _, _, h₁, hs⟩

theorem read_of_yields {p : Parser α} {source : List Char} {Q : α → List Char → Prop}
    (h : p.Yields (Cursor.start source) Q) :
    (∃ a rest, p.read source = .ok a ∧ Q a rest) ∨
      ∃ e, p.read source = .error e ∧ e.isSyntaxError = true := by
  unfold Yields at h
  unfold Parser.read
  cases hp : p (Cursor.start source) with
  | ok a c' =>
    rw [hp] at h
    exact .inl ⟨a, c'.rest, rfl, h.2⟩
  | error e c' =>
    rw [hp] at h
    exact .inr ⟨e, rfl, h⟩

end Parser

open Scriptlet.Parser

/-- Reading a program gives a tree of the language or a syntax error. -/
theorem parse_sound (source : String) :
    (∃ p rest, parse source = .ok p ∧ Reads (.program p) source.toList rest) ∨
      ∃ e, parse source = .error e ∧ e.isSyntaxError = true :=
  read_of_yields (statements_yields _ _ (Cursor.coherent_of_none rfl) (Nat.le_refl _)
    (by simp only [Cursor.start, depthOf]; omega))

/-- Reading an expression gives a tree of the language or a syntax error. -/
theorem parseExpression_sound (source : String) :
    (∃ e lb cs rest, parseExpression source = .ok e ∧ Reads (.expression 0 e) source.toList cs ∧
      Sees .operator cs .eof lb rest) ∨
      ∃ e, parseExpression source = .error e ∧ e.isSyntaxError = true := by
  rcases read_of_yields (wholeExpression_yields (depthOf source.toList) (c := Cursor.start source.toList)
    (Cursor.coherent_of_none rfl) (by simp only [Cursor.start, depthOf]; omega)) with h | h
  · obtain ⟨e, -, he, lb, cs, rest, hr, hs⟩ := h
    exact .inl ⟨e, lb, cs, rest, he, hr, hs⟩
  · exact .inr h

end Scriptlet
