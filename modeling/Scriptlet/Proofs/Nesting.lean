import Scriptlet.Console.Balance
import Scriptlet.Proofs.Sequencing
import Scriptlet.Proofs.TokenText

/-!
# Programs close what they open

A text is `Nested` if reading its brackets and quotes one character after the other leaves the stack of
open brackets as it was. Tokens without a bracket are nested, strings included: a string ends at the first
quote of its sort, for the scanner and for the balance alike. What a phrase takes of a text is nested
(`Reads.takes`), together with the bracket in front of it if the phrase starts behind one. Only regular
expressions can hold a bracket or a quote that opens nothing, so the texts here have no slash in them.
-/

namespace Scriptlet

open Text Token Number Console

/-! ### Nested texts -/

/-- Reading the text leaves the open brackets as they were. -/
def Nested (x : List Char) : Prop := ∀ stack t, closes stack none (x ++ t) = closes stack none t

/-- A character that is no bracket and no quote. -/
def isPlain (c : Char) : Bool := !isQuote c && (closer? c).isNone && !isCloser c

theorem nested_nil : Nested [] := fun _ _ => rfl

theorem Nested.append {x y : List Char} (hx : Nested x) (hy : Nested y) : Nested (x ++ y) := by
  intro stack t
  rw [List.append_assoc, hx, hy]

theorem closes_plain {c : Char} (h : isPlain c = true) (stack t : List Char) :
    closes stack none (c :: t) = closes stack none t := by
  simp only [isPlain, Bool.and_eq_true, Bool.not_eq_true', Option.isNone_iff_eq_none] at h
  obtain ⟨⟨hq, ho⟩, hc⟩ := h
  simp [closes, hq, ho, hc]

theorem nested_plain {x : List Char} (h : ∀ c ∈ x, isPlain c = true) : Nested x := by
  induction x with
  | nil => exact nested_nil
  | cons c x ih =>
    obtain ⟨hc, hx⟩ := List.forall_mem_cons.1 h
    intro stack t
    rw [List.cons_append, closes_plain hc, ih hx]

/-- In a string all characters up to the quote are skipped. -/
theorem closes_string {q : Char} {body : List Char} (h : q ∉ body) (stack t : List Char) :
    closes stack (some q) (body ++ q :: t) = closes stack none t := by
  induction body with
  | nil => simp [closes]
  | cons c body ih =>
    simp only [List.mem_cons, not_or] at h
    simp only [List.cons_append, closes, if_neg (Ne.symm h.1), ih h.2]

theorem nested_string {q : Char} {body : List Char} (hq : isQuote q = true) (h : q ∉ body) :
    Nested (q :: body ++ [q]) := by
  intro stack t
  rw [List.cons_append, List.cons_append, List.append_assoc, List.singleton_append]
  simp only [closes, hq, if_true]
  exact closes_string h stack t

theorem closes_opener {o c : Char} (ho : closer? o = some c) (stack t : List Char) :
    closes stack none (o :: t) = closes (c :: stack) none t := by
  have hq : isQuote o = false := by
    unfold closer? at ho
    split at ho <;> cases ho <;> rfl
  simp [closes, hq, ho]

theorem closes_closer {o c : Char} (ho : closer? o = some c) (stack t : List Char) :
    closes (c :: stack) none (c :: t) = closes stack none t := by
  have hc : isQuote c = false ∧ closer? c = none ∧ isCloser c = true := by
    unfold closer? at ho
    split at ho <;> cases ho <;> decide
  simp [closes, hc]

theorem nested_brackets {o c : Char} {x : List Char} (ho : closer? o = some c) (hx : Nested x) :
    Nested (o :: x ++ [c]) := by
  intro stack t
  rw [List.cons_append, List.cons_append, List.append_assoc, List.singleton_append, closes_opener ho, hx,
    closes_closer ho]

/-- A nested text may stand right behind an opening bracket. -/
theorem Nested.behind {o c : Char} {x y : List Char} (ho : closer? o = some c) (hx : Nested x)
    (hy : Nested (o :: y)) : Nested (o :: (x ++ y)) := by
  intro stack t
  have hopen : closes (c :: stack) none (y ++ t) = closes stack none t := by
    rw [← closes_opener ho]
    exact hy stack t
  rw [List.cons_append, closes_opener ho, List.append_assoc, hx, hopen]

/-! ### Tokens -/

theorem isPlain_of_isBlank {c : Char} (h : isBlank c = true) : isPlain c = true := by
  have hn := isBlank_toNat h
  have hne : ∀ d : Char, 0x20 < d.toNat → d.toNat < 0x85 → c ≠ d := by
    rintro d h₁ h₂ rfl
    omega
  simp [isPlain, isQuote, closer?, isCloser, hne]

theorem isPlain_of_isNamePart {c : Char} (h : isNamePart c = true) : isPlain c = true := by
  cases hp : isPlain c with
  | true => rfl
  | false =>
    have hc : c ∈ ['\'', '"', '(', ')', '[', ']', '\x7b', '\x7d'] := by
      by_contra hne
      simp only [List.mem_cons, List.not_mem_nil, or_false, not_or] at hne
      simp [isPlain, isQuote, closer?, isCloser, hne] at hp
    simp only [List.mem_cons, List.not_mem_nil, or_false] at hc
    rcases hc with rfl | rfl | rfl | rfl | rfl | rfl | rfl | rfl <;> cases h

theorem plain_digitRun (cs : List Char) : ∀ c ∈ digitRun cs, isPlain c = true := fun _ hc =>
  isPlain_of_isNamePart (isNamePart_of_isDigit (List.all_eq_true.1 List.all_takeWhile _ hc))

theorem plain_take_wholeLength (cs : List Char) : ∀ c ∈ cs.take (wholeLength cs), isPlain c = true := by
  unfold wholeLength
  split
  · simp [isPlain, isQuote, closer?, isCloser]
  · rw [digitRun, take_takeWhile_length]
    exact plain_digitRun _

theorem plain_take_fractionLength (cs : List Char) :
    ∀ c ∈ cs.take (fractionLength cs), isPlain c = true := by
  unfold fractionLength
  split
  next cs =>
    rw [Nat.add_comm, List.take_succ_cons, digitRun, take_takeWhile_length]
    exact List.forall_mem_cons.2 ⟨by decide, plain_digitRun cs⟩
  · simp

theorem plain_take_signLength (cs : List Char) : ∀ c ∈ cs.take (signLength cs), isPlain c = true := by
  unfold signLength
  split <;> simp [isPlain, isQuote, closer?, isCloser]

theorem plain_take_exponentLength (cs : List Char) :
    ∀ c ∈ cs.take (exponentLength cs), isPlain c = true := by
  cases cs with
  | nil => simp
  | cons c cs =>
    simp only [exponentLength]
    split
    next hc =>
      split
      · simp
      next n hn =>
        have hc' : isPlain c = true := by
          simp only [Bool.or_eq_true, beq_iff_eq] at hc
          rcases hc with rfl | rfl <;> decide
        rw [Nat.add_assoc, Nat.add_comm, List.take_succ_cons, List.take_add, ← Nat.succ_eq_add_one n, ← hn,
          digitRun, take_takeWhile_length]
        refine List.forall_mem_cons.2 ⟨hc', List.forall_mem_append.2 ⟨?_, plain_digitRun _⟩⟩
        exact plain_take_signLength cs
    · simp

theorem numeral?_plain {cs : List Char} {x : Float} {n : Nat} (h : numeral? cs = some (x, n)) :
    ∀ c ∈ cs.take n, isPlain c = true := by
  have hex : ∀ ds : List Char, ∀ c ∈ ds.take (ds.takeWhile isHexDigit).length, isPlain c = true := by
    intro ds c hc
    rw [take_takeWhile_length] at hc
    exact isPlain_of_isNamePart (isNamePart_of_isHexDigit (List.all_eq_true.1 List.all_takeWhile c hc))
  unfold numeral? at h
  simp only at h
  split at h
  next ds =>
    split at h
    · cases h
    · cases h
      exact List.forall_mem_cons.2 ⟨by decide, List.forall_mem_cons.2 ⟨by decide, hex ds⟩⟩
  next ds =>
    split at h
    · cases h
    · cases h
      exact List.forall_mem_cons.2 ⟨by decide, List.forall_mem_cons.2 ⟨by decide, hex ds⟩⟩
  · obtain ⟨l, -, he⟩ := Option.map_eq_some_iff.1 h
    cases he
    rw [decimalLength, List.take_add, List.take_add]
    refine List.forall_mem_append.2 ⟨List.forall_mem_append.2 ⟨?_, ?_⟩, ?_⟩
    · exact plain_take_wholeLength cs
    · exact plain_take_fractionLength _
    · exact plain_take_exponentLength _

theorem string?_nested {q : Char} {cs : List Char} {k : Kind} {n : Nat} (hq : isQuote q = true)
    (h : string? q cs = some (k, n)) : Nested ((q :: cs).take n) := by
  simp only [string?] at h
  split at h
  next hlt =>
    cases h
    have happ := List.takeWhile_append_dropWhile (p := (· != q)) (l := cs)
    have hclose := List.head?_dropWhile_not (· != q) cs
    have hbody : q ∉ cs.takeWhile (· != q) := fun hmem => by
      simpa using List.all_eq_true.1 List.all_takeWhile q hmem
    generalize cs.takeWhile (· != q) = body at hlt happ hbody ⊢
    cases hd : cs.dropWhile (· != q) with
    | nil => rw [hd, List.append_nil] at happ; rw [happ] at hlt; omega
    | cons c rest =>
      obtain rfl : c = q := by simpa [hd] using hclose
      have htake : (c :: cs).take (body.length + 2) = c :: body ++ [c] := by
        rw [← happ, hd]
        simp [List.take_append, List.take_of_length_le]
      rw [htake]
      exact nested_string hq hbody
  · cases h

/-- The bracket that a token opens, if it opens one. -/
def Token.Kind.opening : Kind → List Char
  | .punct .leftParen => ['(']
  | .punct .leftBracket => ['[']
  | .punct .leftBrace => ['\x7b']
  | _ => []

/-- Whether a token closes a bracket. -/
def Token.Kind.isClosing : Kind → Bool
  | .punct .rightParen | .punct .rightBracket | .punct .rightBrace => true
  | _ => false

theorem plain_spelling {p : Punct} (ho : (Kind.punct p).opening = []) (hc : (Kind.punct p).isClosing = false) :
    ∀ c ∈ p.spelling.toList, isPlain c = true := by
  rw [← List.all_eq_true]
  revert ho hc
  cases p <;> decide

/-- A token that is no bracket is nested. -/
theorem rule?_nested {mode : Mode} {cs : List Char} {k : Kind} {n : Nat} (h : rule? mode cs = some (k, n))
    (hs : '/' ∉ cs) (ho : k.opening = []) (hc : k.isClosing = false) : Nested (cs.take n) := by
  have hwritten := rule?_writtenAs h
  unfold rule? at h
  split at h
  · cases h
  next c rest =>
  split at h
  next hq => exact string?_nested (by simpa [isQuote, or_comm] using hq) h
  split at h
  next hr =>
    obtain rfl : c = '/' := by simp_all
    exact absurd List.mem_cons_self hs
  split at h
  next hn =>
    unfold number? at h
    split at h
    next x m hm =>
      split at h
      · cases h
      · cases h
        exact nested_plain (numeral?_plain hm)
    · cases h
  split at h
  next hw =>
    have htake := take_takeWhile_length isNamePart (c :: rest)
    generalize c :: rest = cs at h htake
    cases h
    rw [htake]
    exact nested_plain fun c hc => isPlain_of_isNamePart (List.all_eq_true.1 List.all_takeWhile c hc)
  · obtain ⟨p, rfl, rfl, -⟩ := punctuator?_eq_some_iff.1 h
    have htext : p.spelling = String.ofList ((c :: rest).take p.spelling.length) := Option.some.inj hwritten
    have hplain := plain_spelling ho hc
    rw [htext, String.toList_ofList] at hplain
    exact nested_plain hplain

/-! ### Phrases -/

section Phrases

variable {o cs cs₁ cs₂ : List Char} {mode : Mode} {k : Kind} {lb : Bool}

/-- Behind the open brackets `o`, what is taken of a text without slashes is nested. -/
def Takes (o cs cs' : List Char) : Prop := '/' ∉ cs → '/' ∉ cs' ∧ ∃ x, x ++ cs' = cs ∧ Nested (o ++ x)

theorem Takes.refl : Takes [] cs cs := fun h => ⟨h, [], rfl, nested_nil⟩

theorem Takes.trans (h₁ : Takes o cs cs₁) (h₂ : Takes [] cs₁ cs₂) : Takes o cs cs₂ := by
  intro hs
  obtain ⟨hs₁, x, rfl, hx⟩ := h₁ hs
  obtain ⟨hs₂, y, rfl, hy⟩ := h₂ hs₁
  refine ⟨hs₂, x ++ y, by simp, ?_⟩
  rw [← List.append_assoc]
  exact hx.append hy

/-- A nested text may be taken before what closes a bracket. -/
theorem Takes.before {a b : Char} (h₁ : Takes [] cs cs₁) (h₂ : Takes [a] cs₁ cs₂)
    (hb : closer? a = some b) : Takes [a] cs cs₂ := by
  intro hs
  obtain ⟨hs₁, x, rfl, hx⟩ := h₁ hs
  obtain ⟨hs₂, y, rfl, hy⟩ := h₂ hs₁
  exact ⟨hs₂, x ++ y, by simp, Nested.behind (x := x) hb hx hy⟩

theorem nested_gap {gap : List Char} (h : ∀ c ∈ gap, isBlank c = true) : Nested gap :=
  nested_plain fun c hc => isPlain_of_isBlank (h c hc)

theorem opening_eq_spelling {p : Punct} (h : (Kind.punct p).opening ≠ []) :
    (Kind.punct p).opening = p.spelling.toList := by
  revert h
  cases p <;> decide

/-- A token in front of what is taken: if it is a bracket, it is closed there. -/
theorem Sees.takes (hs : Sees mode cs k lb cs₁) (hk : k.isClosing = false) (h : Takes k.opening cs₁ cs₂) :
    Takes [] cs cs₂ := by
  intro hslash
  rcases hs.shape with ⟨rfl, rfl, -, hblank⟩ | ⟨gap, body, n, rfl, hg, -, hr, -, rfl⟩
  · obtain ⟨hs₂, x, hx, -⟩ := h (by simp)
    obtain ⟨rfl, rfl⟩ := List.append_eq_nil_iff.1 hx
    exact ⟨hs₂, cs, by simp, nested_gap hblank⟩
  · have hbody : '/' ∉ body := fun hm => hslash (List.mem_append_right gap hm)
    obtain ⟨hs₂, x, hx, hnest⟩ := h fun hm => hbody (List.mem_of_mem_drop hm)
    refine ⟨hs₂, gap ++ (body.take n ++ x), ?_, (nested_gap hg).append ?_⟩
    · rw [List.append_assoc, List.append_assoc, hx, List.take_append_drop]
    · by_cases ho : k.opening = []
      · rw [ho] at hnest
        exact (rule?_nested hr hbody ho hk).append hnest
      · cases k with
        | punct p => rwa [rule?_punct hr, ← opening_eq_spelling ho]
        | _ => exact absurd rfl ho

/-- A token that is no bracket is taken. -/
theorem Takes.token (hs : Sees mode cs k lb cs₁) (ho : k.opening = []) (hk : k.isClosing = false) :
    Takes [] cs cs₁ :=
  hs.takes hk (by rw [ho]; exact .refl)

/-- Behind what is taken, a bracket is closed. -/
theorem Takes.close {p : Punct} {a b : Char} (h : Takes [] cs cs₁) (hs : Sees mode cs₁ (.punct p) lb cs₂)
    (hp : p.spelling.toList = [b]) (hb : closer? a = some b) : Takes [a] cs cs₂ := by
  intro hslash
  obtain ⟨hs₁, x, rfl, hx⟩ := h hslash
  rcases hs.shape with ⟨hk, -⟩ | ⟨gap, body, n, rfl, hg, -, hr, -, rfl⟩
  · cases hk
  refine ⟨fun hm => hs₁ (List.mem_append_right gap (List.mem_of_mem_drop hm)), x ++ (gap ++ [b]), ?_, ?_⟩
  · have htake := rule?_punct hr
    rw [hp] at htake
    rw [← htake, List.append_assoc, List.append_assoc, List.take_append_drop]
  · have hnest := nested_brackets hb (hx.append (nested_gap hg))
    simpa using hnest

/-- The bracket that was opened in front of a phrase and that it closes. -/
def Phrase.opening : Phrase → List Char
  | .operand k _ | .suffix k _ _ | .opened _ k _ => k.opening
  | .parenthesised _ => ['(']
  | .blockRest .. => ['\x7b']
  | _ => []

/-- A property that no opening bracket has tells that a token opens none. -/
theorem opening_of_some {α : Type} {f : Kind → Option α} {a : α} (h : f k = some a)
    (hf : f (.punct .leftParen) = none ∧ f (.punct .leftBracket) = none ∧ f (.punct .leftBrace) = none) :
    k.opening = [] := by
  unfold Kind.opening
  split
  · rw [hf.1] at h; cases h
  · rw [hf.2.1] at h; cases h
  · rw [hf.2.2] at h; cases h
  · rfl

theorem isClosing_of_true {f : Kind → Bool} (h : f k = true)
    (hf : f (.punct .rightParen) = false ∧ f (.punct .rightBracket) = false ∧ f (.punct .rightBrace) = false) :
    k.isClosing = false := by
  unfold Kind.isClosing
  split
  · rw [hf.1] at h; cases h
  · rw [hf.2.1] at h; cases h
  · rw [hf.2.2] at h; cases h
  · rfl

/-- What a phrase takes of a text is nested, together with the bracket in front of it. -/
theorem Reads.takes {p : Phrase} {cs' : List Char} (h : Reads p cs cs') : Takes p.opening cs cs' := by
  induction h with
  | expression hs ho _ iho ihs =>
    exact (hs.takes (isClosing_of_true ho.operand_starts ⟨rfl, rfl, rfl⟩) iho).trans ihs
  | leaf hk =>
    rw [Phrase.opening, opening_of_some hk ⟨rfl, rfl, rfl⟩]
    exact .refl
  | group _ hs ih => exact ih.close hs rfl rfl
  | unary hop _ ih =>
    rw [Phrase.opening, opening_of_some hop ⟨rfl, rfl, rfl⟩]
    exact ih
  | updateBefore hop _ _ ih =>
    rw [Phrase.opening, opening_of_some hop ⟨rfl, rfl, rfl⟩]
    exact ih
  | function _ ih => exact ih
  | stop => exact .refl
  | step hs hgo _ _ ih ihs =>
    have hk := isClosing_of_true (f := fun k => k.goesOn _ _) hgo ⟨rfl, rfl, rfl⟩
    exact (hs.takes hk ih).trans ihs
  | binary hop _ ih =>
    rw [Phrase.opening, opening_of_some hop ⟨rfl, rfl, rfl⟩]
    exact ih
  | assign hop _ _ ih =>
    rw [Phrase.opening, opening_of_some hop ⟨rfl, rfl, rfl⟩]
    exact ih
  | updateAfter hop _ =>
    rw [Phrase.opening, opening_of_some hop ⟨rfl, rfl, rfl⟩]
    exact .refl
  | conditional _ hs _ ih₁ ih₂ => exact ih₁.trans ((Takes.token hs rfl rfl).trans ih₂)
  | dot hs => exact .token hs rfl rfl
  | index _ hs ih => exact ih.close hs rfl rfl
  | call _ ih => exact ih
  | argument _ ih => exact ih
  | param hs => exact .token hs rfl rfl
  | declared hs => exact .token hs rfl rfl
  | initialised hs hs' _ ih => exact (Takes.token hs rfl rfl).trans ((Takes.token hs' rfl rfl).trans ih)
  | single _ _ _ ih => exact ih
  | more _ hs _ ih ihs => exact ih.trans ((Takes.token hs rfl rfl).trans ihs)
  | noItems hs => exact Takes.refl.close hs rfl rfl
  | someItems _ _ _ hs ih => exact ih.close hs rfl rfl
  | named hs hs' _ _ ih ihb => exact (Takes.token hs rfl rfl).trans ((hs'.takes rfl ih).trans ihb)
  | anonymous hs _ _ ih ihb => exact (hs.takes rfl ih).trans ihb
  | block hs _ ih => exact hs.takes rfl ih
  | blockEnd hs => exact Takes.refl.close hs rfl rfl
  | blockMore _ _ ih ihs => exact ih.before ihs rfl
  | condition hs _ hs' ih => exact hs.takes rfl (ih.close hs' rfl rfl)
  | absent => exact .refl
  | present _ _ _ ih => exact ih
  | forVar hs _ ih => exact (Takes.token hs rfl rfl).trans ih
  | forOther _ _ _ ih => exact ih
  | semicolon hs | loopSemicolon hs => exact .token hs rfl rfl
  | inserted | loopBare => exact .refl
  | expressionStatement _ _ _ _ ih ihend => exact ih.trans ihend
  | opened hs ho ih => exact hs.takes (isClosing_of_true ho.opened_opens ⟨rfl, rfl, rfl⟩) ih
  | empty | returnNothing | programEnd => exact .refl
  | blockStatement _ ih => exact ih
  | returnSome _ _ _ ih => exact ih
  | returning _ _ ih ihend => exact ih.trans ihend
  | breakLoop _ ih | continueLoop _ ih => exact ih
  | branch _ _ _ _ ihc ihs => exact ihc.trans ihs
  | branchElse _ _ hs _ ihc ihs ihs' => exact ihc.trans (ihs.trans ((Takes.token hs rfl rfl).trans ihs'))
  | whileLoop _ _ ihc ihs => exact ihc.trans ihs
  | doWhileLoop _ hs _ _ ihs ihc ihend =>
    exact ihs.trans ((Takes.token hs rfl rfl).trans (ihc.trans ihend))
  | forLoop s₁ _ s₃ _ s₅ _ s₇ _ ih₂ ih₄ ih₆ ih₈ =>
    have hparts := ih₂.trans ((Takes.token s₃ rfl rfl).trans (ih₄.trans ((Takes.token s₅ rfl rfl).trans ih₆)))
    exact (s₁.takes rfl (hparts.close s₇ rfl rfl)).trans ih₈
  | varList _ _ ih ihend => exact ih.trans ihend
  | declaration _ ih => exact ih
  | programMore _ _ ih ihs => exact ih.trans ihs

/-- Behind a program only blanks are left. -/
theorem Reads.program_atEnd {p : Program} {cs' : List Char} (h : Reads (.program p) cs cs') : AtEnd cs' := by
  induction p generalizing cs with
  | nil => cases h with | programEnd hs => exact hs.atEnd
  | cons s ss ih => cases h with | programMore _ hss => exact ih hss

end Phrases

/-- An entry that can be read is balanced if it holds no slash. It opens nothing that it does not close,
so whatever follows it is as balanced as it is alone. -/
theorem isBalanced_of_parse {source : String} {p : Program} (h : parse source = .ok p)
    (hs : '/' ∉ source.toList) :
    isBalanced source.toList = true ∧ ∀ t, isBalanced (source.toList ++ t) = isBalanced t := by
  obtain ⟨rest, hr⟩ := parse_eq_ok_iff.1 h
  obtain ⟨-, x, hx, hnest⟩ := hr.takes hs
  have hsource : Nested source.toList := by
    rw [← hx]
    exact Nested.append (x := x) hnest (nested_gap hr.program_atEnd)
  refine ⟨?_, hsource []⟩
  have hend := hsource [] []
  rwa [List.append_nil] at hend

/-- Brackets and quotes of the other sort inside of strings count for nothing. -/
theorem isBalanced_of_parse_strings :
    isBalanced "f('(', \"'\")[0]".toList = true ∧ isBalanced "f('(', \"'\")[0]\x7b".toList = false := by
  have hp : parse "f('(', \"'\")[0]" = .ok [.property
      (.call (.identifier "f") [.string "(", .string "'"]) (.number 0)] := by cbv
  obtain ⟨hb, ht⟩ := isBalanced_of_parse hp (by decide)
  exact ⟨hb, ht ['\x7b']⟩

end Scriptlet
