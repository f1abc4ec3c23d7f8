import Scriptlet.Proofs.Completeness
import Scriptlet.Proofs.Trace

/-!
# Reading a source with blanks in it

The parsers of a source and of the same source with blanks in it are compared step by step:
`i.MirrorsAt A B p p' c` says that if `p` succeeds from a cursor in the source, then `p'` succeeds with the same
result from the same place in the text with blanks in it.

Where a parser looks at a token and does not take it, the comparison depends on how the token is taken later on.
So outlooks run backwards: `B` is what the parsers behind `p` say of the tokens still to be taken when `p` has
ended, and `A` is what can be said of them when it starts.
-/

namespace Scriptlet

open Text Token

namespace Parser

variable {α β : Type} {c c' : Cursor} {mode : Mode} {kind : Kind} {l : Lookahead}

theorem bind_ok {p : Parser α} {f : α → Parser β} {b : β} (h : (p >>= f) c = .ok b c') :
    ∃ a c₁, p c = .ok a c₁ ∧ f a c₁ = .ok b c' := by
  change EStateM.bind p f c = _ at h
  unfold EStateM.bind at h
  split at h
  next a c₁ hp => exact ⟨a, c₁, hp, h⟩
  · cases h

theorem peek_ok (hc : c.Coherent) (h : peek mode c = .ok l c') :
    c.lookAhead mode = .ok l ∧ c' = { c with ahead := some l } := by
  cases hl : c.lookAhead mode with
  | ok l' =>
    rw [peek_of_lookAhead hc hl] at h
    cases h
    exact ⟨rfl, rfl⟩
  | error e =>
    rw [peek_error hc hl] at h
    cases h

theorem advance_ok {token : Token} (hc : c.Coherent) (h : advance mode c = .ok token c') :
    ∃ l, c.lookAhead mode = .ok l ∧ token = l.token ∧
      c' = ⟨l.token.stop, l.rest, none, l :: c.consumed⟩ := by
  rw [advance_eq] at h
  obtain ⟨l, c₁, hp, hm⟩ := bind_ok h
  obtain ⟨hl, rfl⟩ := peek_ok hc hp
  cases hm
  exact ⟨l, hl, rfl, rfl⟩

theorem check_ok {b : Bool} (hc : c.Coherent) (h : check kind mode c = .ok b c') :
    ∃ l, c.lookAhead mode = .ok l ∧ b = l.token.kind.alike kind ∧ c' = { c with ahead := some l } := by
  obtain ⟨k, c₁, hp, hb⟩ := bind_ok h
  obtain ⟨l, c₂, hp, hk⟩ := bind_ok hp
  obtain ⟨hl, rfl⟩ := peek_ok hc hp
  cases hk
  cases hb
  exact ⟨l, hl, rfl, rfl⟩

theorem unexpected_ne_ok {expected : Expected} {a : α} : unexpected mode expected c ≠ .ok a c' := by
  intro h
  unfold unexpected at h
  obtain ⟨l, c₁, -, h⟩ := bind_ok h
  cases h

theorem expect_ok [kind.Fixed] {token : Token} (hc : c.Coherent) (h : expect kind mode c = .ok token c') :
    ∃ l, c.lookAhead mode = .ok l ∧ l.token.kind = kind ∧
      c' = ⟨l.token.stop, l.rest, none, l :: c.consumed⟩ := by
  obtain ⟨b, c₁, hb, h⟩ := bind_ok h
  obtain ⟨l, hl, rfl, rfl⟩ := check_ok hc hb
  split at h
  next hk =>
    obtain ⟨l', hl', -, rfl⟩ := advance_ok (Cursor.coherent_of_lookAhead hl) h
    cases Except.ok.inj (hl.symm.trans hl')
    exact ⟨l, hl, (Kind.Fixed.alike_iff _).1 hk, rfl⟩
  · exact absurd h unexpected_ne_ok

theorem eat_ok [kind.Fixed] {b : Bool} (hc : c.Coherent) (h : eat kind mode c = .ok b c') :
    ∃ l, c.lookAhead mode = .ok l ∧
      (b = true ∧ l.token.kind = kind ∧ c' = ⟨l.token.stop, l.rest, none, l :: c.consumed⟩ ∨
        b = false ∧ l.token.kind ≠ kind ∧ c' = { c with ahead := some l }) := by
  obtain ⟨b', c₁, hb, h⟩ := bind_ok h
  obtain ⟨l, hl, rfl, rfl⟩ := check_ok hc hb
  refine ⟨l, hl, ?_⟩
  split at h
  next hk =>
    obtain ⟨token, c₁, ha, h⟩ := bind_ok h
    obtain ⟨l', hl', -, rfl⟩ := advance_ok (Cursor.coherent_of_lookAhead hl) ha
    cases Except.ok.inj (hl.symm.trans hl')
    cases h
    exact .inl ⟨rfl, (Kind.Fixed.alike_iff _).1 hk, rfl⟩
  next hk =>
    cases h
    exact .inr ⟨rfl, mt (Kind.Fixed.alike_iff _).2 hk, rfl⟩

end Parser

open Scriptlet.Parser

namespace Insertion

variable {α β : Type} {i : Insertion} {c c' : Cursor} {A A' : Outlook} {B : α → Outlook} {C : β → Outlook}

/-- If the parser `p` succeeds from `c` in the source, then `p'` succeeds with the same result from the same
place in the text with blanks in it, and `A` holds of the tokens taken from `c` on; all this given that `B`
holds where `p` ends. -/
def MirrorsAt (i : Insertion) (A : Outlook) (B : α → Outlook) (p p' : Parser α) (c : Cursor) : Prop :=
  ∀ a c', c.Tracked i.source → p c = .ok a c' → c.Moves c' ∧
    (c'.consumed <:+ i.log → B a c'.consumed →
      A c.consumed ∧ p'.Accepts (i.widen c.consumed) (· = a) (i.widen c'.consumed))

/-- The two parsers mirror each other from every cursor. -/
def Mirrors (i : Insertion) (A : Outlook) (B : α → Outlook) (p p' : Parser α) : Prop :=
  ∀ c, i.MirrorsAt A B p p' c

namespace MirrorsAt

variable {p p' p'' : Parser α} {f f' : α → Parser β}

theorem bind (hp : i.MirrorsAt A B p p' c) (hf : ∀ a, i.Mirrors (B a) C (f a) (f' a)) :
    i.MirrorsAt A C (p >>= f) (p' >>= f') c := by
  intro b c' hc h
  obtain ⟨a, c₁, hpa, hfa⟩ := bind_ok h
  obtain ⟨hm₁, hp⟩ := hp a c₁ hc hpa
  obtain ⟨hm₂, hf⟩ := hf a c₁ b c' (hm₁.tracked hc) hfa
  refine ⟨hm₁.trans hm₂, fun hlog hC => ?_⟩
  obtain ⟨hB, hf⟩ := hf hlog hC
  obtain ⟨hA, hp⟩ := hp (hm₂.consumed_suffix.trans hlog) hB
  exact ⟨hA, hp.bindEq hf⟩

theorem pure {a : α} (h : B a ≤ A) : i.MirrorsAt A B (pure a) (pure a) c := by
  intro a' c' _ hp
  cases hp
  exact ⟨.refl, fun _ hB => ⟨h _ hB, .pure rfl⟩⟩

theorem never (h : ∀ a c', p c ≠ .ok a c') : i.MirrorsAt A B p p' c :=
  fun a c' _ hp => absurd hp (h a c')

theorem mono (hA : A ≤ A') (h : i.MirrorsAt A B p p' c) : i.MirrorsAt A' B p p' c := by
  intro a c' hc hp
  obtain ⟨hm, h⟩ := h a c' hc hp
  exact ⟨hm, fun hlog hB => ⟨hA _ (h hlog hB).1, (h hlog hB).2⟩⟩

/-- What `p'` is may depend on the tokens still to be taken. -/
theorem of_outlook (h : i.MirrorsAt A B p p'' c) (hp : A c.consumed → p' = p'') : i.MirrorsAt A B p p' c := by
  intro a c' hc hpa
  obtain ⟨hm, h⟩ := h a c' hc hpa
  refine ⟨hm, fun hlog hB => ?_⟩
  obtain ⟨hA, h⟩ := h hlog hB
  exact ⟨hA, hp hA ▸ h⟩

end MirrorsAt

/-! ### Tokens -/

section Tokens

variable {mode : Mode} {kind : Kind} {l : Lookahead}

/-- A token that is taken from the source is taken from the text with blanks in it. -/
theorem sees_taken (hc : c.Tracked i.source) (hl : c.lookAhead mode = .ok l)
    (hlog : (l :: c.consumed) <:+ i.log) (hk : l.token.kind ≠ .eof) :
    ∃ lb, Sees mode (i.widen c.consumed) l.token.kind lb (i.widen (l :: c.consumed)) := by
  obtain ⟨hm, hs⟩ := Cursor.lookAhead_sees hl
  rw [hc.rest] at hs
  have hclear : mode = .operand → i.Clear c.consumed := by
    rintro rfl
    exact takes_le_clear _ ⟨l, hlog, hm⟩
  obtain ⟨lb, rest, hs', -, hrest⟩ := widen_sees ((List.suffix_cons ..).trans hlog) hs hclear
  rw [hrest hk l hlog rfl] at hs'
  exact ⟨lb, hs'⟩

theorem peek_bind {f f' : Lookahead → Parser β} (hA : mode = .operand → A ≤ i.Clear)
    (hf : ∀ l l' c₁, c₁.consumed = c.consumed →
      Sees mode (restBehind i.source c.consumed) l.token.kind l.lineBreak l.rest →
      l'.token.kind = l.token.kind → i.Alike c.consumed l.token.kind l.lineBreak l'.lineBreak →
      i.MirrorsAt A C (f l) (f' l') c₁) :
    i.MirrorsAt A C (peek mode >>= f) (peek mode >>= f') c := by
  intro b c' hc h
  obtain ⟨l, c₁, hp, hfl⟩ := bind_ok h
  have hmoves := (peek_walks mode).moves hp
  have hc₁ := hmoves.tracked hc
  obtain ⟨hlook, he⟩ := peek_ok hc.coherent hp
  have hsame : c₁.consumed = c.consumed := by rw [he]
  have hs := (Cursor.lookAhead_sees hlook).2
  rw [hc.rest] at hs
  -- the outlook at the start comes from the source alone, so it is known before the other text is looked at
  obtain ⟨hm, hself⟩ := hf l l c₁ hsame hs rfl (.inl rfl) b c' hc₁ hfl
  refine ⟨hmoves.trans hm, fun hlog hC => ?_⟩
  obtain ⟨hAc, -⟩ := hself hlog hC
  have hsuffix := hm.consumed_suffix.trans hlog
  rw [hsame] at hAc hsuffix
  obtain ⟨lb', rest', hs', halike, -⟩ := widen_sees hsuffix hs fun hmode => hA hmode _ hAc
  refine ⟨hAc, (peek_accepts hs').bind fun l' ⟨hk, hlb, _⟩ => ?_⟩
  have haccepts := ((hf l l' c₁ hsame hs hk (hlb ▸ halike) b c' hc₁ hfl).2 hlog hC).2
  rwa [hsame] at haccepts

theorem advance_bind {f f' : Token → Parser β}
    (hf : ∀ (l : Lookahead) (token' : Token) (c₁ : Cursor),
      Sees mode (restBehind i.source c.consumed) l.token.kind l.lineBreak l.rest →
      token'.kind = l.token.kind → c₁.consumed = l :: c.consumed → i.MirrorsAt ⊤ C (f l.token) (f' token') c₁)
    (heof : ∀ (l : Lookahead) (c₁ : Cursor),
      Sees mode (restBehind i.source c.consumed) l.token.kind l.lineBreak l.rest →
      l.token.kind = .eof → ∀ b c', f l.token c₁ ≠ .ok b c') :
    i.MirrorsAt (i.Takes mode) C (advance mode >>= f) (advance mode >>= f') c := by
  intro b c' hc h
  obtain ⟨token, c₁, hp, hfl⟩ := bind_ok h
  have hmoves := (advance_walks mode).moves hp
  have hc₁ := hmoves.tracked hc
  obtain ⟨l, hlook, rfl, rfl⟩ := advance_ok hc.coherent hp
  obtain ⟨hmode, hs⟩ := Cursor.lookAhead_sees hlook
  rw [hc.rest] at hs
  have hk : l.token.kind ≠ .eof := fun hk => heof l _ hs hk b c' hfl
  obtain ⟨hm, -⟩ := hf l l.token _ hs rfl rfl b c' hc₁ hfl
  refine ⟨hmoves.trans hm, fun hlog hC => ?_⟩
  have hlog' := hm.consumed_suffix.trans hlog
  obtain ⟨lb, hs'⟩ := sees_taken hc hlook hlog' hk
  refine ⟨⟨l, hlog', hmode⟩, (advance_accepts hs').bind fun token' hk' => ?_⟩
  exact ((hf l token' _ hs hk' rfl b c' hc₁ hfl).2 hlog hC).2

/-- A token that was seen before is taken. -/
theorem advance_bind_of_sees {f f' : Token → Parser β} {k : Kind} {lb : Bool} {rest : List Char}
    (hs : Sees mode (restBehind i.source c.consumed) k lb rest) (hk : k ≠ .eof)
    (hf : ∀ (l : Lookahead) (token' : Token) (c₁ : Cursor), l.token.kind = k →
      token'.kind = l.token.kind → c₁.consumed = l :: c.consumed → i.MirrorsAt ⊤ C (f l.token) (f' token') c₁) :
    i.MirrorsAt (i.Takes mode) C (advance mode >>= f) (advance mode >>= f') c :=
  advance_bind (fun l token' c₁ hs' => hf l token' c₁ (hs'.unique hs).1)
    fun _ _ hs' he => absurd ((hs'.unique hs).1.symm.trans he) hk

theorem expect_bind [kind.Fixed] {q q' : Parser β} (hk : kind ≠ .eof) (hq : i.Mirrors ⊤ C q q') :
    i.MirrorsAt (i.Takes mode) C (expect kind mode >>= fun _ => q) (expect kind mode >>= fun _ => q') c := by
  intro b c' hc h
  obtain ⟨token, c₁, hp, hqb⟩ := bind_ok h
  have hmoves := (expect_walks kind mode).moves hp
  obtain ⟨l, hlook, rfl, rfl⟩ := expect_ok hc.coherent hp
  obtain ⟨hm, hq⟩ := hq _ b c' (hmoves.tracked hc) hqb
  refine ⟨hmoves.trans hm, fun hlog hC => ?_⟩
  have hlog' := hm.consumed_suffix.trans hlog
  obtain ⟨lb, hs⟩ := sees_taken hc hlook hlog' hk
  refine ⟨⟨l, hlog', (Cursor.lookAhead_sees hlook).1⟩, ?_⟩
  exact (expect_accepts hs).bind fun _ _ => (hq hlog hC).2

theorem eat_mirrors [kind.Fixed] {B : Bool → Outlook} (hk : kind ≠ .eof) (htakes : i.Takes mode ≤ A) (hB : B false ≤ A)
    (hA : mode = .operand → A ≤ i.Clear) : i.Mirrors A B (eat kind mode) (eat kind mode) := by
  intro c b c' hc h
  have hmoves := (eat_walks kind mode).moves h
  refine ⟨hmoves, fun hlog hBc => ?_⟩
  obtain ⟨l, hlook, h⟩ := eat_ok hc.coherent h
  have hs := (Cursor.lookAhead_sees hlook)
  rcases h with ⟨rfl, rfl, rfl⟩ | ⟨rfl, hne, rfl⟩
  · obtain ⟨lb, hs'⟩ := sees_taken hc hlook hlog hk
    exact ⟨htakes _ ⟨l, hlog, hs.1⟩, eat_accepts hs'⟩
  · have hAc := hB _ hBc
    rw [hc.rest] at hs
    obtain ⟨lb', rest', hs', -, -⟩ := widen_sees hlog hs.2 fun hmode => hA hmode _ hAc
    exact ⟨hAc, eat_refuses hs' hne⟩

theorem eatOperator_mirrors [kind.Fixed] (hk : kind ≠ .eof) :
    i.Mirrors ⊤ (fun _ => ⊤) (eat kind .operator) (eat kind .operator) :=
  eat_mirrors hk le_top le_top fun h => by cases h

theorem eatOperand_mirrors [kind.Fixed] (hk : kind ≠ .eof) :
    i.Mirrors i.Clear (fun b => bif b then ⊤ else i.Clear) (eat kind .operand) (eat kind .operand) :=
  eat_mirrors hk takes_le_clear le_rfl fun _ => le_rfl

/-- A look for a token that is no regular expression, where an operand is expected. -/
theorem check_mirrors [kind.Fixed] (hk : ∀ pattern flags, kind ≠ .regExp pattern flags) :
    i.Mirrors i.Clear (fun b => bif b then ⊤ else i.Clear) (check kind .operand) (check kind .operand) := by
  intro c b c' hc h
  have hmoves := (check_walks kind .operand).moves h
  refine ⟨hmoves, fun hlog hB => ?_⟩
  obtain ⟨l, hlook, rfl, rfl⟩ := check_ok hc.coherent h
  have hs := (Cursor.lookAhead_sees hlook).2
  rw [hc.rest] at hs
  have hclear : i.Clear c.consumed := by
    by_cases he : l.token.kind = kind
    · exact clear_of_sees hs (he ▸ hk)
    · rw [Kind.alike_eq_false he] at hB
      exact hB
  obtain ⟨lb', rest', hs', -, -⟩ := widen_sees hlog hs fun _ => hclear
  exact ⟨hclear, check_accepts hs'⟩

theorem peekKind_bind {f f' : Kind → Parser β}
    (hf : ∀ k lb rest c₁, Sees .operand (restBehind i.source c₁.consumed) k lb rest →
      i.MirrorsAt i.Clear C (f k) (f' k) c₁) :
    i.MirrorsAt i.Clear C (peekKind .operand >>= f) (peekKind .operand >>= f') c := by
  unfold peekKind
  simp only [bind_assoc, pure_bind]
  refine peek_bind (fun _ => le_rfl) fun l l' c₁ hsame hs hk _ => ?_
  rw [hk]
  exact hf l.token.kind l.lineBreak l.rest c₁ (hsame ▸ hs)

theorem expectName_mirrors (B : String → Outlook) :
    i.Mirrors (i.Takes .operand) B expectName expectName := by
  refine fun c => advance_bind (fun l token' c₁ _ hk _ => ?_) fun l c₁ _ hk b c' h => ?_
  · rw [hk]
    cases l.token.kind with
    | identifier name => exact .pure le_top
    | _ => exact .never fun _ _ h => by cases h
  · rw [hk] at h
    cases h

theorem endStatement_mirrors : i.Mirrors i.Clear (fun _ => i.Clear) endStatement endStatement := by
  intro c b c' hc h
  have hmoves := endStatement_walks.moves h
  refine ⟨hmoves, fun hlog hclear => ?_⟩
  obtain ⟨l, c₁, hp, h⟩ := bind_ok h
  have hc₁ := ((peek_walks _).moves hp).tracked hc
  obtain ⟨hlook, rfl⟩ := peek_ok hc.coherent hp
  obtain ⟨hm, hs⟩ := Cursor.lookAhead_sees hlook
  split at h
  next hk =>
    obtain ⟨token, c₁, ha, h⟩ := bind_ok h
    obtain ⟨l', hl', -, rfl⟩ := advance_ok hc₁.coherent ha
    cases Except.ok.inj (hlook.symm.trans hl')
    cases h
    obtain ⟨lb, hs'⟩ := sees_taken hc hlook hlog (by rw [hk]; exact Kind.noConfusion)
    rw [hk] at hs'
    refine ⟨fun l' hl' => ?_, (endStatement_accepts (.semicolon hs')).mono fun _ _ => rfl⟩
    obtain rfl := next_unique hlog hl'
    rw [hk]
    rfl
  next hk =>
    split at h
    next hend =>
      cases h
      rw [hc.rest] at hs
      obtain ⟨lb', rest', hs', halike, -⟩ := widen_sees hlog hs fun h => by cases h
      have hend' : (lb' || endsStatement l.token.kind) = true := by
        rcases halike with rfl | ⟨rfl, -⟩
        · exact hend
        · rfl
      exact ⟨hclear, (endStatement_accepts (.inserted hs' hk hend')).mono fun _ _ => rfl⟩
    · exact absurd h unexpected_ne_ok

end Tokens

end Insertion

end Scriptlet
