import Scriptlet.Token.Fixed

/-!
# Reading punctuators

A punctuator is found by looking at one character after the other: it goes on with that character, or it ends before
it. All readers give the punctuator and the text behind it. A reader goes on whenever some punctuator does, so what
it finds is the longest punctuator that the text starts with (`scan?_eq_some_iff`).
-/

namespace Scriptlet.Token.Punct

/-- `compound` if `=` is next, otherwise `plain`. -/
def assignable (plain compound : Punct) : List Char → Punct × List Char
  | '=' :: cs => (compound, cs)
  | cs => (plain, cs)

/-- Behind a character `c` that may stand twice or before `=`. -/
def doubled (c : Char) (plain twice compound : Punct) : List Char → Punct × List Char
  | [] => (plain, [])
  | d :: cs => if d = c then (twice, cs) else if d = '=' then (compound, cs) else (plain, d :: cs)

/-- Behind a character that may stand before one or two `=`. -/
def equated (plain once twice : Punct) : List Char → Punct × List Char
  | '=' :: cs => assignable once twice cs
  | cs => (plain, cs)

/-- Behind `<`. -/
def less : List Char → Punct × List Char
  | '<' :: cs => assignable .leftShift .leftShiftEqual cs
  | '=' :: cs => (.lessThanEqual, cs)
  | cs => (.lessThan, cs)

/-- Behind `>>`. -/
def shifted : List Char → Punct × List Char
  | '>' :: cs => assignable .unsignedRightShift .unsignedRightShiftEqual cs
  | '=' :: cs => (.rightShiftEqual, cs)
  | cs => (.rightShift, cs)

/-- Behind `>`. -/
def greater : List Char → Punct × List Char
  | '>' :: cs => shifted cs
  | '=' :: cs => (.greaterThanEqual, cs)
  | cs => (.greaterThan, cs)

/-- What reads on behind the first character of a punctuator. -/
def reader? : Char → Option (List Char → Punct × List Char)
  | '\x7b' => some (.leftBrace, ·)
  | '\x7d' => some (.rightBrace, ·)
  | '(' => some (.leftParen, ·)
  | ')' => some (.rightParen, ·)
  | '[' => some (.leftBracket, ·)
  | ']' => some (.rightBracket, ·)
  | ';' => some (.semicolon, ·)
  | ',' => some (.comma, ·)
  | ':' => some (.colon, ·)
  | '?' => some (.question, ·)
  | '~' => some (.tilde, ·)
  | '.' => some (.dot, ·)
  | '+' => some (doubled '+' .plus .plusPlus .plusEqual)
  | '-' => some (doubled '-' .minus .minusMinus .minusEqual)
  | '*' => some (assignable .star .starEqual)
  | '%' => some (assignable .percent .percentEqual)
  | '^' => some (assignable .caret .caretEqual)
  | '/' => some (assignable .slash .slashEqual)
  | '<' => some less
  | '>' => some greater
  | '=' => some (equated .equal .equalEqual .strictEqual)
  | '!' => some (equated .bang .notEqual .strictNotEqual)
  | '&' => some (doubled '&' .ampersand .ampersandAmpersand .ampersandEqual)
  | '|' => some (doubled '|' .pipe .pipePipe .pipeEqual)
  | _ => none

/-- The punctuator that a text starts with, and the text behind it. -/
def scan? : List Char → Option (Punct × List Char)
  | [] => none
  | c :: cs => (reader? c).map fun read => read cs

/-! ### The longest punctuator -/

/-- All punctuators. -/
def all : List Punct := [
  .leftBrace, .rightBrace, .leftParen, .rightParen, .leftBracket, .rightBracket, .dot, .semicolon, .comma, .lessThan,
  .greaterThan, .lessThanEqual, .greaterThanEqual, .equalEqual, .notEqual, .strictEqual, .strictNotEqual, .plus,
  .minus, .star, .slash, .percent, .plusPlus, .minusMinus, .leftShift, .rightShift, .unsignedRightShift, .ampersand,
  .pipe, .caret, .bang, .tilde, .ampersandAmpersand, .pipePipe, .question, .colon, .equal, .plusEqual, .minusEqual,
  .starEqual, .slashEqual, .percentEqual, .leftShiftEqual, .rightShiftEqual, .unsignedRightShiftEqual,
  .ampersandEqual, .pipeEqual, .caretEqual]

/-- The punctuators that are longer by one character, each with this character. -/
def longer : Punct → List (Char × Punct)
  | .lessThan => [('<', .leftShift), ('=', .lessThanEqual)]
  | .greaterThan => [('>', .rightShift), ('=', .greaterThanEqual)]
  | .leftShift => [('=', .leftShiftEqual)]
  | .rightShift => [('>', .unsignedRightShift), ('=', .rightShiftEqual)]
  | .unsignedRightShift => [('=', .unsignedRightShiftEqual)]
  | .equal => [('=', .equalEqual)]
  | .equalEqual => [('=', .strictEqual)]
  | .bang => [('=', .notEqual)]
  | .notEqual => [('=', .strictNotEqual)]
  | .plus => [('+', .plusPlus), ('=', .plusEqual)]
  | .minus => [('-', .minusMinus), ('=', .minusEqual)]
  | .ampersand => [('&', .ampersandAmpersand), ('=', .ampersandEqual)]
  | .pipe => [('|', .pipePipe), ('=', .pipeEqual)]
  | .star => [('=', .starEqual)]
  | .slash => [('=', .slashEqual)]
  | .percent => [('=', .percentEqual)]
  | .caret => [('=', .caretEqual)]
  | _ => []

theorem mem_all (p : Punct) : p ∈ all := by cases p <;> decide

theorem spelling_longer (p : Punct) : ∀ e ∈ longer p, e.2.spelling.toList = p.spelling.toList ++ [e.1] := by
  cases p <;> decide

/-- A punctuator that starts with another one starts with one that is longer by one character. -/
theorem exists_longer {p q : Punct} (h : p.spelling.toList <+: q.spelling.toList) :
    p = q ∨ ∃ e ∈ longer p, e.2.spelling.toList <+: q.spelling.toList := by
  have hall : ∀ p ∈ all, ∀ q ∈ all, p.spelling.toList <+: q.spelling.toList →
      p = q ∨ ∃ e ∈ longer p, e.2.spelling.toList <+: q.spelling.toList := by
    decide +kernel
  exact hall p (mem_all p) q (mem_all q) h

theorem spelling_ne_nil (p : Punct) : p.spelling.toList ≠ [] := by cases p <;> decide

theorem spelling_inj {p q : Punct} (h : p.spelling.toList = q.spelling.toList) : p = q := by
  have hpre : p.spelling.toList <+: q.spelling.toList := ⟨[], by rw [List.append_nil, h]⟩
  rcases exists_longer hpre with heq | ⟨e, he, hpre⟩
  · exact heq
  · have hle := hpre.length_le
    rw [spelling_longer p e he, ← h, List.length_append, List.length_singleton] at hle
    omega

/-- The punctuator is the longest that the text starts with. -/
structure IsLongest (p : Punct) (cs : List Char) : Prop where
  isPrefix : p.spelling.toList <+: cs
  le : ∀ q : Punct, q.spelling.toList <+: cs → q.spelling.toList.length ≤ p.spelling.toList.length

theorem IsLongest.unique {p q : Punct} {cs : List Char} (hp : p.IsLongest cs) (hq : q.IsLongest cs) : p = q := by
  have hle := hq.le p hp.isPrefix
  refine spelling_inj ((List.prefix_of_prefix_length_le hp.isPrefix hq.isPrefix hle).eq_of_length ?_)
  exact Nat.le_antisymm hle (hp.le q hq.isPrefix)

/-- Behind the punctuator `p`, the reader finds the longest punctuator that starts with `p`. -/
structure Continues (p : Punct) (f : List Char → Punct × List Char) : Prop where
  append : ∀ cs, (f cs).1.spelling.toList ++ (f cs).2 = p.spelling.toList ++ cs
  le : ∀ cs (q : Punct), p.spelling.toList <+: q.spelling.toList → q.spelling.toList <+: p.spelling.toList ++ cs →
    q.spelling.toList.length ≤ (f cs).1.spelling.toList.length

section Continues

variable {cs rest : List Char} {f : List Char → Punct × List Char} {c : Char} {p plain once twice : Punct}

/-- A reader that goes on with each character with which a punctuator does, and else ends. -/
theorem continues_of_longer (hgo : ∀ e ∈ longer p, ∃ g, (∀ cs, f (e.1 :: cs) = g cs) ∧ Continues e.2 g)
    (hstop : ∀ cs, (∀ d ∈ cs.head?, ∀ e ∈ longer p, d ≠ e.1) → f cs = (p, cs)) : Continues p f := by
  have hcases : ∀ cs, (∃ e ∈ longer p, ∃ t g, cs = e.1 :: t ∧ f cs = g t ∧ Continues e.2 g) ∨
      f cs = (p, cs) ∧ ∀ e ∈ longer p, ¬ e.2.spelling.toList <+: p.spelling.toList ++ cs := by
    intro cs
    by_cases h : ∃ e ∈ longer p, cs.head? = some e.1
    · obtain ⟨e, he, hd⟩ := h
      obtain ⟨t, rfl⟩ := List.head?_eq_some_iff.1 hd
      obtain ⟨g, hg, hcont⟩ := hgo e he
      exact .inl ⟨e, he, t, g, rfl, hg t, hcont⟩
    · refine .inr ⟨hstop cs fun d hd e he heq => h ⟨e, he, heq ▸ hd⟩, fun e he hpre => h ⟨e, he, ?_⟩⟩
      rw [spelling_longer p e he, List.prefix_append_right_inj] at hpre
      obtain ⟨t, rfl⟩ := hpre
      rfl
  refine ⟨fun cs => ?_, fun cs q hq hcs => ?_⟩
  · rcases hcases cs with ⟨e, he, t, g, rfl, heq, hcont⟩ | ⟨heq, -⟩
    · rw [heq, hcont.append, spelling_longer p e he, List.append_assoc]
      rfl
    · rw [heq]
  · rcases hcases cs with ⟨e, he, t, g, rfl, heq, hcont⟩ | ⟨heq, hno⟩
    · have he' := spelling_longer p e he
      have happ : p.spelling.toList ++ e.1 :: t = e.2.spelling.toList ++ t := by rw [he', List.append_assoc]; rfl
      rw [happ] at hcs
      rw [heq]
      rcases exists_longer hq with rfl | ⟨d, hd, hpre⟩
      · have hle := hcont.le t e.2 List.prefix_rfl (List.prefix_append _ t)
        rw [he', List.length_append] at hle
        omega
      · -- only one character follows `p` in the text
        refine hcont.le t q ?_ hcs
        have hsame : d.2.spelling.toList = e.2.spelling.toList :=
          (List.prefix_of_prefix_length_le (hpre.trans hcs) (List.prefix_append _ t)
            (by rw [spelling_longer p d hd, he']; simp)).eq_of_length (by rw [spelling_longer p d hd, he']; simp)
        exact hsame ▸ hpre
    · rcases exists_longer hq with rfl | ⟨e, he, hpre⟩
      · simp only [heq, Nat.le_refl]
      · exact absurd (hpre.trans hcs) (hno e he)

theorem continues_end (hp : longer p = []) : Continues p fun cs => (p, cs) :=
  continues_of_longer (by simp [hp]) fun _ _ => rfl

theorem continues_assignable (hplain : longer plain = [('=', once)]) (honce : longer once = []) :
    Continues plain (assignable plain once) := by
  refine continues_of_longer ?_ fun cs hcs => ?_
  · simp only [hplain, List.forall_mem_singleton]
    exact ⟨_, fun _ => rfl, continues_end honce⟩
  · unfold assignable
    split
    · exact absurd rfl (hcs '=' rfl ('=', once) (by simp [hplain]))
    · rfl

/-- Two characters go on, and the second one ends the punctuator. -/
theorem continues_forked {d : Char} {q : Punct} {g : List Char → Punct × List Char}
    (hplain : longer plain = [(c, q), (d, once)]) (hq : Continues q g) (honce : longer once = [])
    (hfirst : ∀ cs, f (c :: cs) = g cs) (hsecond : ∀ cs, f (d :: cs) = (once, cs))
    (hstop : ∀ cs, (∀ e ∈ cs.head?, e ≠ c ∧ e ≠ d) → f cs = (plain, cs)) : Continues plain f := by
  refine continues_of_longer ?_ fun cs hcs => hstop cs fun e he => ?_
  · simp only [hplain, List.forall_mem_cons, List.not_mem_nil, false_implies, implies_true, and_true]
    exact ⟨⟨g, hfirst, hq⟩, ⟨_, hsecond, continues_end honce⟩⟩
  · have hne := hcs e he
    simp only [hplain, List.forall_mem_cons] at hne
    exact ⟨hne.1, hne.2.1⟩

theorem continues_doubled (hplain : longer plain = [(c, twice), ('=', once)]) (htwice : longer twice = [])
    (honce : longer once = []) (hc : '=' ≠ c) : Continues plain (doubled c plain twice once) := by
  refine continues_forked hplain (continues_end htwice) honce (fun _ => if_pos rfl)
    (fun _ => (if_neg hc).trans (if_pos rfl)) fun cs hcs => ?_
  cases cs with
  | nil => rfl
  | cons d cs => rw [doubled, if_neg (hcs d rfl).1, if_neg (hcs d rfl).2]

theorem continues_equated (hplain : longer plain = [('=', once)]) (honce : longer once = [('=', twice)])
    (htwice : longer twice = []) : Continues plain (equated plain once twice) := by
  refine continues_of_longer ?_ fun cs hcs => ?_
  · simp only [hplain, List.forall_mem_singleton]
    exact ⟨_, fun _ => rfl, continues_assignable honce htwice⟩
  · unfold equated
    split
    · exact absurd rfl (hcs '=' rfl ('=', once) (by simp [hplain]))
    · rfl

theorem continues_less : Continues .lessThan less := by
  refine continues_forked rfl (continues_assignable rfl rfl) rfl (fun _ => rfl) (fun _ => rfl) fun cs hcs => ?_
  unfold less
  split
  · exact absurd rfl (hcs '<' rfl).1
  · exact absurd rfl (hcs '=' rfl).2
  · rfl

theorem continues_shifted : Continues .rightShift shifted := by
  refine continues_forked rfl (continues_assignable rfl rfl) rfl (fun _ => rfl) (fun _ => rfl) fun cs hcs => ?_
  unfold shifted
  split
  · exact absurd rfl (hcs '>' rfl).1
  · exact absurd rfl (hcs '=' rfl).2
  · rfl

theorem continues_greater : Continues .greaterThan greater := by
  refine continues_forked rfl continues_shifted rfl (fun _ => rfl) (fun _ => rfl) fun cs hcs => ?_
  unfold greater
  split
  · exact absurd rfl (hcs '>' rfl).1
  · exact absurd rfl (hcs '=' rfl).2
  · rfl

theorem continues_reader? {c : Char} (h : reader? c = some f) : ∃ p, p.spelling.toList = [c] ∧ Continues p f := by
  unfold reader? at h
  split at h
  · cases h; exact ⟨.leftBrace, rfl, continues_end rfl⟩
  · cases h; exact ⟨.rightBrace, rfl, continues_end rfl⟩
  · cases h; exact ⟨.leftParen, rfl, continues_end rfl⟩
  · cases h; exact ⟨.rightParen, rfl, continues_end rfl⟩
  · cases h; exact ⟨.leftBracket, rfl, continues_end rfl⟩
  · cases h; exact ⟨.rightBracket, rfl, continues_end rfl⟩
  · cases h; exact ⟨.semicolon, rfl, continues_end rfl⟩
  · cases h; exact ⟨.comma, rfl, continues_end rfl⟩
  · cases h; exact ⟨.colon, rfl, continues_end rfl⟩
  · cases h; exact ⟨.question, rfl, continues_end rfl⟩
  · cases h; exact ⟨.tilde, rfl, continues_end rfl⟩
  · cases h; exact ⟨.dot, rfl, continues_end rfl⟩
  · cases h; exact ⟨.plus, rfl, continues_doubled rfl rfl rfl (by decide)⟩
  · cases h; exact ⟨.minus, rfl, continues_doubled rfl rfl rfl (by decide)⟩
  · cases h; exact ⟨.star, rfl, continues_assignable rfl rfl⟩
  · cases h; exact ⟨.percent, rfl, continues_assignable rfl rfl⟩
  · cases h; exact ⟨.caret, rfl, continues_assignable rfl rfl⟩
  · cases h; exact ⟨.slash, rfl, continues_assignable rfl rfl⟩
  · cases h; exact ⟨.lessThan, rfl, continues_less⟩
  · cases h; exact ⟨.greaterThan, rfl, continues_greater⟩
  · cases h; exact ⟨.equal, rfl, continues_equated rfl rfl rfl⟩
  · cases h; exact ⟨.bang, rfl, continues_equated rfl rfl rfl⟩
  · cases h; exact ⟨.ampersand, rfl, continues_doubled rfl rfl rfl (by decide)⟩
  · cases h; exact ⟨.pipe, rfl, continues_doubled rfl rfl rfl (by decide)⟩
  · cases h

theorem reader?_eq_none {c : Char} (h : reader? c = none) (p : Punct) : p.spelling.toList.head? ≠ some c := by
  intro hp
  cases p <;> cases hp <;> cases h

theorem isLongest_of_scan? (h : scan? cs = some (p, rest)) : p.IsLongest cs ∧ p.spelling.toList ++ rest = cs := by
  cases cs with
  | nil => cases h
  | cons c cs =>
    obtain ⟨f, hf, heq⟩ := Option.map_eq_some_iff.1 h
    obtain ⟨p₀, hp₀, hcont⟩ := continues_reader? hf
    have happ := hcont.append cs
    have hle := hcont.le cs
    rw [heq, hp₀] at happ hle
    refine ⟨⟨⟨rest, happ⟩, fun q hq => hle q ?_ hq⟩, happ⟩
    obtain ⟨d, ds, hds⟩ := List.exists_cons_of_ne_nil (spelling_ne_nil q)
    rw [hds, List.cons_prefix_cons] at hq
    rw [hds, hq.1]
    exact ⟨ds, rfl⟩

theorem exists_scan? (h : p.spelling.toList <+: cs) : ∃ q rest, scan? cs = some (q, rest) := by
  cases hscan : scan? cs with
  | some found => exact ⟨found.1, found.2, rfl⟩
  | none =>
    obtain ⟨c, ds, hds⟩ := List.exists_cons_of_ne_nil (spelling_ne_nil p)
    obtain ⟨rest, rfl⟩ := h
    rw [hds] at hscan
    exact absurd (by rw [hds]; rfl) (reader?_eq_none (Option.map_eq_none_iff.1 hscan) p)

/-- A text that starts with a punctuator starts with a longest one, and that is found. -/
theorem scan?_eq_some_iff : scan? cs = some (p, rest) ↔ p.IsLongest cs ∧ p.spelling.toList ++ rest = cs := by
  refine ⟨isLongest_of_scan?, fun ⟨hlongest, happ⟩ => ?_⟩
  obtain ⟨q, rest', hscan⟩ := exists_scan? hlongest.isPrefix
  obtain ⟨hlongest', happ'⟩ := isLongest_of_scan? hscan
  obtain rfl := hlongest.unique hlongest'
  rw [← happ] at happ'
  rw [hscan, List.append_cancel_left happ']

end Continues

end Scriptlet.Token.Punct
