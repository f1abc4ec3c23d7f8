import Scriptlet.Proofs.Rendering

/-!
# What a rendering shows

Each piece of a rendering is seen as the token that it stands for, whatever comes behind it
(`Piece.Shows`): pieces are detached from each other, and a token does not depend on a detached text.
From this follow the phrases that a rendering starts with, one lemma for each way to put an expression
together. The lemmas speak of pieces and nodes only: trees and their parentheses come in later.
-/

namespace Scriptlet

open Text Token

variable {ps qs post : List Piece} {k : Kind} {lb : Bool} {mode : Mode}

theorem textOf_cons (x : Piece) (ps : List Piece) : textOf (x :: ps) = x.chars ++ textOf ps := by
  simp [textOf]

theorem head_textOf (ps : List Piece) : ∀ c ∈ (textOf ps).head?, isBlank c = true := by
  induction ps with
  | nil => exact fun c hc => by cases hc
  | cons x ps ih =>
    have hblank (cs : List Char) : ∀ c ∈ (' ' :: cs).head?, isBlank c = true :=
      fun c hc => by cases hc; decide
    rw [textOf_cons]
    cases x with
    | punct p => exact hblank _
    | word w => exact hblank _
    | text s => exact hblank _
    | ending e =>
      cases e with
      | semicolon => exact hblank _
      | nothing => exact ih
      | lineBreak gap blank newline =>
        cases gap with
        | nil => cases newline
        | cons c gap => exact fun d hd => by cases hd; exact blank c List.mem_cons_self

theorem detached_textOf (ps : List Piece) : Detached (textOf ps) :=
  fun c hc => by simp [isBreak, head_textOf ps c hc]

/-- The piece is seen as a token of kind `k`. -/
def Piece.Shows (x : Piece) (mode : Mode) (k : Kind) : Prop :=
  ∀ ps, Sees mode (textOf (x :: ps)) k false (textOf ps)

theorem shows_of_rule {x : Piece} {cs : List Char} {n : Nat} (hx : x.chars = ' ' :: cs)
    (hb : cs.head?.any isBlank = false) (hn : cs.length ≤ n) (h : rule? mode cs = some (k, n)) :
    x.Shows mode k := by
  intro ps
  obtain ⟨hr, hle⟩ := rule?_append (detached_textOf ps) h
  have hne : cs ≠ [] := by rintro rfl; cases h
  have hs : Sees mode ([' '] ++ (cs ++ textOf ps)) k false ((cs ++ textOf ps).drop n) := by
    refine Sees.token (by simp; decide) (fun c hc => ?_) hr
    rw [List.head?_append_of_ne_nil _ hne] at hc
    rw [Option.mem_def.1 hc] at hb
    exact hb
  rw [List.drop_append_of_le_length hle, List.drop_eq_nil_of_le hn, List.nil_append] at hs
  rw [textOf_cons, hx]
  exact hs

theorem Spells.rule? {s : String} (h : Spells s k) (hl : k ≠ .lineBreak) (he : k ≠ .eof) :
    s.toList.head?.any isBlank = false ∧
      ∃ n, s.toList.length ≤ n ∧ rule? .operand s.toList = some (k, n) := by
  simp only [Spells, scan] at h
  split at h
  · injection h with _ hlex
    injection hlex with hkind
    exact absurd hkind.symm hl
  split at h
  · injection h with _ hlex
    injection hlex with hkind
    exact absurd hkind.symm he
  split at h
  next kind n hr =>
    injection h with hgap hlex
    have happ : s.toList.takeWhile isBlank ++ s.toList.dropWhile isBlank = s.toList :=
      List.takeWhile_append_dropWhile
    rw [hgap, List.nil_append] at happ
    rw [happ] at hr hlex
    injection hlex with hkind _ hdrop
    refine ⟨?_, n, List.drop_eq_nil_iff.1 hdrop, by rw [hr, hkind]⟩
    have hd := List.head?_dropWhile_not isBlank s.toList
    rw [happ] at hd
    cases hs : s.toList.head? with
    | none => rfl
    | some c => rw [hs] at hd; simpa using hd
  · cases h

theorem shows_text {s : String} (h : Spells s k) (hl : k ≠ .lineBreak) (he : k ≠ .eof) :
    (Piece.text s).Shows .operand k := by
  obtain ⟨hb, n, hn, hr⟩ := h.rule? hl he
  exact shows_of_rule rfl hb hn hr

theorem shows_name (name : Name) : (Piece.text name.text).Shows .operand (.identifier name.text) :=
  shows_text name.spells Kind.noConfusion Kind.noConfusion

theorem shows_operator (p : Punct) : (Piece.punct p).Shows .operator (.punct p) := by
  refine shows_of_rule rfl ?_ (Nat.le_refl _) ?_
  · cases p <;> rfl
  · cases p <;> rfl

/-- Where an operand is expected, a slash opens a regular expression. -/
theorem shows_punct {p : Punct} (h₁ : p ≠ .slash) (h₂ : p ≠ .slashEqual) :
    (Piece.punct p).Shows .operand (.punct p) := by
  refine shows_of_rule rfl ?_ (Nat.le_refl _) ?_
  · cases p <;> rfl
  · cases p <;> first | rfl | exact absurd rfl h₁ | exact absurd rfl h₂

theorem shows_word (w : Word) (mode : Mode) : (Piece.word w).Shows mode (.word w) := by
  refine shows_of_rule rfl ?_ (Nat.le_refl _) ?_
  · cases w <;> rfl
  · cases w <;> cases mode <;> rfl

theorem admissible_of_append (xs : List Piece) (h : admissible (xs ++ post) = true) :
    admissible post = true := by
  induction xs with
  | nil => exact h
  | cons x xs ih =>
    cases x with
    | ending e => exact ih (Bool.and_eq_true_iff.1 h).2
    | _ => exact ih h

/-! ### Expressions -/

/-- What comes next does not go on with an expression whose operators bind tighter than `bound`. -/
def Stops (bound : Nat) (ps : List Piece) : Prop :=
  ∃ k lb rest, Sees .operator (textOf ps) k lb rest ∧ k.goesOn bound lb = false

theorem goesOn_mono {m n : Nat} (hmn : m ≤ n) (h : k.goesOn m lb = false) : k.goesOn n lb = false := by
  simp only [Kind.goesOn, Bool.and_eq_false_iff, decide_eq_false_iff_not, Nat.not_lt] at h ⊢
  rcases h with h | h
  · exact .inl (Nat.le_trans h hmn)
  · exact .inr h

theorem Stops.mono {m n : Nat} (hmn : m ≤ n) (h : Stops m ps) : Stops n ps := by
  obtain ⟨k, lb, rest, hs, hk⟩ := h
  exact ⟨k, lb, rest, hs, goesOn_mono hmn hk⟩

theorem stops_punct {bound : Nat} {p : Punct} (h : (Kind.punct p).power ≤ bound) :
    Stops bound (.punct p :: ps) :=
  ⟨_, _, _, shows_operator p ps, by simp [Kind.goesOn, Nat.not_lt.2 h]⟩

/-- The pieces are an operand: an expression can start with them if its operators may be as loose as
`left`, as long as nothing tighter than `right` follows them. -/
def Operand (xs : List Piece) (e : Node) (left right : Nat) : Prop :=
  ∀ m post cs e', m < left → admissible (xs ++ post) = true → Stops right post →
    Reads (.suffixes m e e') (textOf post) cs → Reads (.expression m e') (textOf (xs ++ post)) cs

namespace Operand

variable {xs ys zs : List Piece} {e l r c : Node} {left right : Nat}

theorem mono {left' right' : Nat} (h : Operand xs e left right) (hl : left' ≤ left) (hr : right' ≤ right) :
    Operand xs e left' right' :=
  fun m post cs e' hm ha hs => h m post cs e' (Nat.lt_of_lt_of_le hm hl) ha (hs.mono hr)

/-- An operand is an expression if nothing goes on with it. -/
theorem reads {m : Nat} (h : Operand xs e (m + 1) m) (ha : admissible (xs ++ post) = true)
    (hs : Stops m post) : Reads (.expression m e) (textOf (xs ++ post)) (textOf post) := by
  obtain ⟨k, lb, rest, hsees, hk⟩ := hs
  exact h m post _ e (Nat.lt_succ_self m) ha ⟨k, lb, rest, hsees, hk⟩ (.stop hsees hk)

/-- Operands that start with a token of their own. -/
theorem start {x : Piece} (hx : x.Shows .operand k)
    (h : ∀ post, admissible (ys ++ post) = true → Stops right post →
      Reads (.operand k e) (textOf (ys ++ post)) (textOf post))
    (hx' : ∀ ps, admissible (x :: ps) = admissible ps) : Operand (x :: ys) e left right := by
  intro m post cs e' _ ha hs hsuf
  rw [List.cons_append] at ha ⊢
  rw [hx'] at ha
  exact .expression (hx _) (h post ha hs) hsuf

/-- Operands that go on with one on the left of an operator. -/
theorem step {p : Punct} (hl : Operand xs l (Kind.punct p).power (Kind.punct p).power)
    (h : ∀ post, admissible (ys ++ post) = true → Stops right post →
      Reads (.suffix (.punct p) l e) (textOf (ys ++ post)) (textOf post)) :
    Operand (xs ++ .punct p :: ys) e (Kind.punct p).power right := by
  intro m post cs e' hm ha hs hsuf
  rw [List.append_assoc, List.cons_append] at ha ⊢
  have hgo : (Kind.punct p).goesOn m false = true := by simp [Kind.goesOn, hm]
  have hys := admissible_of_append xs ha
  refine hl m _ cs e' hm ha (stops_punct (Nat.le_refl _)) ?_
  exact .step (shows_operator p _) hgo (h post hys hs) hsuf

theorem leaf {s : String} (hs : Spells s k) (hk : k.leaf? = some e) :
    Operand [.text s] e left right := by
  have hl : k ≠ .lineBreak := by rintro rfl; cases hk
  have he : k ≠ .eof := by rintro rfl; cases hk
  exact start (shows_text hs hl he) (fun post _ _ => .leaf hk) fun _ => rfl

/-- Parentheses make an operand of every expression. -/
theorem group (h : Operand xs e 1 0) : Operand (inParens xs) e left right := by
  refine start (shows_punct (by decide) (by decide)) (fun post ha _ => ?_) fun _ => rfl
  rw [List.append_assoc] at ha ⊢
  exact .group (h.reads ha (stops_punct (by decide))) (shows_operator _ _)

theorem unary {op : UnaryOp} (h : Operand xs e (Kind.unaryPower + 1) Kind.unaryPower) :
    Operand (op.piece :: xs) (.unary op e) left Kind.unaryPower := by
  have hop : ∃ k, op.piece.Shows .operand k ∧ k.unaryOp? = some op ∧
      ∀ ps, admissible (op.piece :: ps) = admissible ps := by
    cases op with
    | plus | minus | not | bitNot =>
      exact ⟨_, shows_punct (by decide) (by decide), rfl, fun _ => rfl⟩
    | typeOf | void | delete => exact ⟨_, shows_word _ _, rfl, fun _ => rfl⟩
  obtain ⟨k, hk, hop, hadm⟩ := hop
  exact start hk (fun post ha hs => .unary hop (h.reads ha hs)) hadm

theorem updateBefore {op : UpdateOp} (hop : op.yieldsOld = false) (ht : e.isTarget = true)
    (h : Operand xs e (Kind.unaryPower + 1) Kind.unaryPower) :
    Operand (.punct op.punct :: xs) (.update op e) left Kind.unaryPower := by
  have hk : (Kind.punct op.punct).updateBefore? = some op := by cases op <;> first | rfl | cases hop
  refine start (shows_punct ?_ ?_) (fun post ha hs => .updateBefore hk (h.reads ha hs) ht) fun _ => rfl
  · cases op <;> decide
  · cases op <;> decide

theorem updateAfter {op : UpdateOp} (hop : op.yieldsOld = true) (ht : l.isTarget = true)
    (h : Operand xs l (Kind.punct op.punct).power (Kind.punct op.punct).power) :
    Operand (xs ++ [.punct op.punct]) (.update op l) (Kind.punct op.punct).power right := by
  have hk : (Kind.punct op.punct).updateAfter? = some op := by cases op <;> first | rfl | cases hop
  exact h.step fun post _ _ => .updateAfter hk ht

theorem binary {op : BinaryOp} (hl : Operand xs l (Kind.punct op.punct).power (Kind.punct op.punct).power)
    (hr : Operand ys r ((Kind.punct op.punct).power + 1) (Kind.punct op.punct).power) :
    Operand (xs ++ .punct op.punct :: ys) (.binary op l r) (Kind.punct op.punct).power
      (Kind.punct op.punct).power := by
  have hk : (Kind.punct op.punct).binaryOp? = some op := by cases op <;> rfl
  exact hl.step fun post ha hs => .binary hk (hr.reads ha hs)

theorem assign {op : AssignOp} (ht : l.isTarget = true)
    (hl : Operand xs l (Kind.punct op.punct).power (Kind.punct op.punct).power)
    (hr : Operand ys r (Kind.commaPower + 1) Kind.commaPower) :
    Operand (xs ++ .punct op.punct :: ys) (.assign op l r) (Kind.punct op.punct).power
      Kind.commaPower := by
  have hk : (Kind.punct op.punct).assignOp? = some op := by cases op <;> rfl
  exact hl.step fun post ha hs => .assign hk ht (hr.reads ha hs)

theorem conditional (hl : Operand xs l 30 30) (hc : Operand ys c (Kind.commaPower + 1) Kind.commaPower)
    (hr : Operand zs r (Kind.commaPower + 1) Kind.commaPower) :
    Operand (xs ++ .punct .question :: (ys ++ .punct .colon :: zs)) (.conditional l c r) 30
      Kind.commaPower := by
  refine step (p := .question) hl fun post ha hs => ?_
  rw [List.append_assoc, List.cons_append] at ha ⊢
  have hzs := admissible_of_append ys ha
  have hc := hc.reads ha (stops_punct (by decide))
  exact .conditional hc (shows_operator _ _) (hr.reads hzs hs)

theorem index (hl : Operand xs l 160 160) (hk : Operand ys e 1 0) :
    Operand (xs ++ .punct .leftBracket :: (ys ++ [.punct .rightBracket])) (.property l e) 160 right := by
  refine step (p := .leftBracket) hl fun post ha _ => ?_
  rw [List.append_assoc] at ha ⊢
  exact .index (hk.reads ha (stops_punct (by decide))) (shows_operator _ _)

end Operand

end Scriptlet
