import Scriptlet.Proofs.Mirrors
import Scriptlet.Proofs.Places

/-!
# Parsers move on

A coherent cursor moves only forward: what lies between the place where it was and the place where it got to is
text that it skipped (`Cursor.Onward`), so its offset grows if and only if the text behind it gets shorter. The
end of the text is a token too and may be taken without moving on. The rules for statements, blocks, expressions
and functions take another token whenever they succeed, so they move on (`Parser.Consumes`).
-/

namespace Scriptlet

open Text Token

theorem Token.scanAt_append {mode : Mode} {cs rest : List Char} {i : Nat} {t : Token}
    (h : scanAt i mode cs = .ok (t, rest)) : ∃ gap, gap ++ rest = cs ∧ t.stop = i + byteLength gap := by
  obtain ⟨gap, text, hs, hstart, hstop⟩ := scanAt_ok_iff.1 h
  refine ⟨gap ++ text, scan_append hs, ?_⟩
  rw [hstop, hstart, byteLength_append, Nat.add_assoc]

/-- Every token but the end of the text ends behind the place where it was scanned. -/
theorem Token.scanAt_lt {mode : Mode} {cs rest : List Char} {i : Nat} {t : Token}
    (h : scanAt i mode cs = .ok (t, rest)) (hk : t.kind ≠ .eof) : i < t.stop := by
  obtain ⟨gap, hgap, hstop⟩ := scanAt_append h
  obtain ⟨blanks, text, hs, -, -⟩ := scanAt_ok_iff.1 h
  have hlt : rest.length < cs.length := scan_length_lt hs hk
  have hpos : 0 < byteLength gap := by
    refine byteLength_pos fun hnil => ?_
    rw [← hgap, hnil] at hlt
    exact Nat.lt_irrefl _ hlt
  omega

namespace Cursor

variable {c c₁ c' : Cursor} {mode : Mode} {l : Lookahead}

/-- The cursor `c'` stands behind `c`, or where `c` stands, in the same text. -/
def Onward (c c' : Cursor) : Prop :=
  ∃ gap, gap ++ c'.rest = c.rest ∧ c'.offset = c.offset + byteLength gap

namespace Onward

theorem refl (c : Cursor) : c.Onward c := ⟨[], rfl, rfl⟩

theorem trans (h : c.Onward c₁) (h' : c₁.Onward c') : c.Onward c' := by
  obtain ⟨gap, hgap, hoff⟩ := h
  obtain ⟨gap', hgap', hoff'⟩ := h'
  refine ⟨gap ++ gap', ?_, ?_⟩
  · rw [List.append_assoc, hgap', hgap]
  · rw [hoff', hoff, byteLength_append, Nat.add_assoc]

theorem offset_le (h : c.Onward c') : c.offset ≤ c'.offset := by
  obtain ⟨gap, -, hoff⟩ := h
  omega

/-- What was skipped is told by the offset and by the length of the text left. -/
theorem lt_iff (h : c.Onward c') : c.offset < c'.offset ↔ c'.rest.length < c.rest.length := by
  obtain ⟨gap, hgap, hoff⟩ := h
  rw [hoff, ← hgap, List.length_append]
  cases gap with
  | nil => simp
  | cons a gap =>
    have := byteLength_pos (List.cons_ne_nil a gap)
    simp only [List.length_cons]
    omega

theorem length_le (h : c.Onward c') : c'.rest.length ≤ c.rest.length := by
  obtain ⟨gap, hgap, -⟩ := h
  rw [← hgap, List.length_append]
  omega

theorem length_eq (h : c.Onward c') (hoff : c'.offset = c.offset) : c'.rest.length = c.rest.length := by
  obtain ⟨gap, hgap, hgap'⟩ := h
  obtain rfl : gap = [] := by
    by_contra hne
    have := byteLength_pos hne
    omega
  rw [← hgap, List.nil_append]

end Onward

theorem onward_of_lookAhead (ahead : Option Lookahead) (taken : List Lookahead)
    (h : c.lookAhead mode = .ok l) : c.Onward ⟨l.token.stop, l.rest, ahead, taken⟩ := by
  unfold Cursor.lookAhead at h
  split at h
  · cases h
  next token rest hs =>
    obtain ⟨gap, hgap, hstop⟩ := scanAt_append hs
    split at h
    · split at h
      · cases h
      next hs' =>
        cases h
        obtain ⟨gap', hgap', hstop'⟩ := scanAt_append hs'
        refine ⟨gap ++ gap', ?_, ?_⟩
        · rw [List.append_assoc, hgap', hgap]
        · rw [hstop', hstop, byteLength_append, Nat.add_assoc]
    · cases h
      exact ⟨gap, hgap, hstop⟩

/-- Every token but the end of the text ends behind the cursor that sees it. -/
theorem offset_lt_of_lookAhead (h : c.lookAhead mode = .ok l) (hk : l.token.kind ≠ .eof) :
    c.offset < l.token.stop :=
  (onward_of_lookAhead none [] h).lt_iff.2 ((lookAhead_sees h).2.rest_length_lt hk)

theorem Step.onward (hs : Step c c') (hc : c.Coherent) : c'.Coherent ∧ c.Onward c' := by
  cases hs with
  | look hl => exact ⟨coherent_of_lookAhead hl, [], rfl, rfl⟩
  | take hl => exact ⟨coherent_of_none rfl, onward_of_lookAhead _ _ (hc _ hl)⟩

theorem Moves.coherent_onward (hm : c.Moves c') (hc : c.Coherent) : c'.Coherent ∧ c.Onward c' := by
  induction hm with
  | refl => exact ⟨hc, .refl c⟩
  | tail _ hs ih =>
    obtain ⟨hc₁, hon⟩ := hs.onward ih.1
    exact ⟨hc₁, ih.2.trans hon⟩

theorem Moves.coherent (hm : c.Moves c') (hc : c.Coherent) : c'.Coherent := (hm.coherent_onward hc).1

theorem Moves.onward (hm : c.Moves c') (hc : c.Coherent) : c.Onward c' := (hm.coherent_onward hc).2

end Cursor

namespace Parser

variable {α β : Type} {c c' : Cursor} {mode : Mode} {kind : Kind}

/-- If the parser succeeds from the cursor, it has moved on. -/
def MovesOn (p : Parser α) (c : Cursor) : Prop := ∀ a c', p c = .ok a c' → c.offset < c'.offset

/-- The parser moves on whenever it succeeds. -/
def Consumes (p : Parser α) : Prop := ∀ c, c.Coherent → p.MovesOn c

theorem Runs.moves {p : Parser α} {Q : α → Cursor → Prop} {a : α} (hp : p.Runs c Q) (h : p c = .ok a c') :
    c.Moves c' ∧ Q a c' := by
  unfold Runs at hp
  rwa [h] at hp

theorem Walks.bind_consumes {p : Parser α} {f : α → Parser β} (hp : p.Walks) (hf : ∀ a, (f a).Consumes) :
    (p >>= f).Consumes := by
  intro c hc b c' h
  obtain ⟨a, c₁, hpa, hfa⟩ := bind_ok h
  have hm := hp.moves hpa
  exact (hm.onward hc).offset_le.trans_lt (hf a c₁ (hm.coherent hc) b c' hfa)

theorem Consumes.bind {p : Parser α} {f : α → Parser β} (hp : p.Consumes) (hw : p.Walks)
    (hf : ∀ a, (f a).Walks) : (p >>= f).Consumes := by
  intro c hc b c' h
  obtain ⟨a, c₁, hpa, hfa⟩ := bind_ok h
  have hc₁ := (hw.moves hpa).coherent hc
  exact (hp c hc a c₁ hpa).trans_le (((hf a).moves hfa).onward hc₁).offset_le

theorem peekKind_bind_movesOn {f : Kind → Parser β} (hc : c.Coherent)
    (hf : ∀ l, c.lookAhead mode = .ok l → (f l.token.kind).MovesOn { c with ahead := some l }) :
    (peekKind mode >>= f).MovesOn c := by
  intro b c' h
  obtain ⟨k, c₁, hp, hfb⟩ := bind_ok h
  obtain ⟨l, c₂, hp, hk⟩ := bind_ok hp
  obtain ⟨hl, rfl⟩ := peek_ok hc hp
  cases hk
  exact hf l hl b c' hfb

theorem expect_consumes [kind.Fixed] (mode : Mode) (hk : kind ≠ .eof) : (expect kind mode).Consumes := by
  intro c hc token c' h
  obtain ⟨l, hl, hkind, rfl⟩ := expect_ok hc h
  exact Cursor.offset_lt_of_lookAhead hl (hkind ▸ hk)

theorem expectName_consumes : expectName.Consumes := by
  intro c hc name c' h
  obtain ⟨token, c₁, ha, h⟩ := bind_ok h
  obtain ⟨l, hl, rfl, rfl⟩ := advance_ok hc ha
  cases hk : l.token.kind with
  | identifier found =>
    rw [hk] at h
    cases h
    exact Cursor.offset_lt_of_lookAhead hl (by simp [hk])
  | _ => rw [hk] at h; cases h

theorem eat_true_lt [kind.Fixed] (hk : kind ≠ .eof) (hc : c.Coherent) (h : eat kind mode c = .ok true c') :
    c.offset < c'.offset := by
  obtain ⟨l, hl, ⟨-, hkind, rfl⟩ | ⟨hb, -⟩⟩ := eat_ok hc h
  · exact Cursor.offset_lt_of_lookAhead hl (hkind ▸ hk)
  · cases hb

/-- The token that was seen is the one that is taken. -/
theorem advance_seen {l : Lookahead} {token : Token} (hl : c.lookAhead mode = .ok l)
    (h : advance mode { c with ahead := some l } = .ok token c') :
    token = l.token ∧ c' = ⟨l.token.stop, l.rest, none, l :: c.consumed⟩ := by
  obtain ⟨l', hl', rfl, rfl⟩ := advance_ok (Cursor.coherent_of_lookAhead hl) h
  cases Except.ok.inj (hl.symm.trans hl')
  exact ⟨rfl, rfl⟩

theorem advance_seen_lt {l : Lookahead} {token : Token} (hl : c.lookAhead mode = .ok l)
    (hk : l.token.kind ≠ .eof) (h : advance mode { c with ahead := some l } = .ok token c') :
    c.offset < c'.offset := by
  obtain ⟨-, rfl⟩ := advance_seen hl h
  exact Cursor.offset_lt_of_lookAhead hl hk

theorem operand_of_eof {r : Rules} {n : Nat} {token : Token} (hk : token.kind = .eof) :
    operand r n token = throw (.unexpected .eof token.start .expression) := by
  unfold operand
  rw [hk]
  rfl

theorem ne_eof_of_continues {min : Nat} {l : Lookahead} (hgo : continues min l = true) :
    l.token.kind ≠ .eof := by
  intro hk
  simp [continues, hk, Kind.power] at hgo

section Rules

variable {r : Rules} (hr : r.Walk)
include hr

theorem block_consumes (inLoop : Bool) (n : Nat) : (block r inLoop n).Consumes :=
  (expect_consumes _ (by decide)).bind (expect_walks _ _) fun _ => blockRest_walks hr inLoop n

theorem functionRest_consumes (n : Nat) (name : Option String) : (functionRest r n name).Consumes :=
  (expect_consumes _ (by decide)).bind (expect_walks _ _) fun _ =>
    (parenthesised_walks expectName_walks n).bind fun _ => (block_walks hr false n).bind fun _ => .pure

theorem functionParts_consumes (declared : Bool) (n : Nat) : (functionParts r declared n).Consumes := by
  refine (isNamed_walks declared).bind_consumes fun named => ?_
  split
  · exact expectName_consumes.bind expectName_walks fun name => functionRest_walks hr n (some name)
  · exact functionRest_consumes hr n none

/-- The first token of an expression is not the end of the text. -/
theorem expressionWith_consumes (n min : Nat) : (expressionWith r n min).Consumes := by
  intro c hc e c' h
  obtain ⟨token, c₁, ha, h⟩ := bind_ok h
  obtain ⟨hm, ht⟩ := (advance_runs .operand c).moves ha
  have hc₁ := hm.coherent hc
  obtain ⟨l, hl, rfl, rfl⟩ := advance_ok hc ha
  have hk : l.token.kind ≠ .eof := by
    intro hk
    rw [operand_of_eof hk] at h
    cases h
  have hrun := (operand_runs hr n ht).bind fun left c₂ _ _ => suffixes_walks hr min n left c₂
  exact (Cursor.offset_lt_of_lookAhead hl hk).trans_le ((hrun.moves h).1.onward hc₁).offset_le

/-- A statement takes its first token, unless it is an expression. -/
theorem statementWith_consumes (he : (r.expression 0).Consumes) (n : Nat) (inLoop : Bool) :
    (statementWith r n inLoop).Consumes := by
  have hexpression : (expressionStatement r).Consumes :=
    he.bind (hr.expression 0) fun _ => endStatement_walks.bind fun _ => .pure
  refine fun c hc => peekKind_bind_movesOn hc fun l hl => ?_
  have hc₁ := Cursor.coherent_of_lookAhead hl
  split
  next hk =>
    intro s c' h
    obtain ⟨token, c₂, ha, h⟩ := bind_ok h
    cases h
    exact advance_seen_lt hl (by simp [hk]) ha
  · exact (block_consumes hr inLoop n).bind (block_walks hr inLoop n) (fun _ => .pure) _ hc₁
  next w hk =>
    split
    next rest hw =>
      intro s c' h
      obtain ⟨token, c₂, ha, h⟩ := bind_ok h
      obtain ⟨hm, ht⟩ := (advance_runs .operand _).moves ha
      have hrest := ((wordStatement_runs hr hw ht).moves h).1.onward (hm.coherent hc₁)
      exact (advance_seen_lt hl (by simp [hk]) ha).trans_le hrest.offset_le
    · exact hexpression _ hc₁
  · exact hexpression _ hc₁

end Rules

theorem expression_consumes (n min : Nat) : (expression n min).Consumes := by
  cases n with
  | zero => exact fun c _ e c' h => nomatch h
  | succ n => exact expressionWith_consumes (rules_walk n) n min

theorem statement_consumes (n : Nat) (inLoop : Bool) : (statement n inLoop).Consumes := by
  cases n with
  | zero => exact fun c _ s c' h => nomatch h
  | succ n => exact statementWith_consumes (rules_walk n) (expression_consumes n 0) n inLoop

end Parser

end Scriptlet
