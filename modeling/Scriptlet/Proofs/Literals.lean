import Scriptlet.Proofs.LongestMatch
import Scriptlet.Proofs.SingleExpression

/-!
# Literals denote their text

A string literal is read up to the first quote of its own sort, whatever stands before it. A regular expression
is read up to the slash that closes it: what may stand before this slash is a language of its own, `patterns`,
the one of an automaton with a state for each of the places in and outside of a class, and before and behind a
backslash. The scanner finds a pattern of the language exactly if one stands there (`patternLength?_eq_some_iff`);
where none does, no other rule takes the slash, and whatever rule of the grammar expects an operand there fails.
-/

namespace Scriptlet

open Text Token

/-! ### Patterns -/

namespace Token

/-- How far a pattern has been read. -/
inductive PatternState where
  | reading (inClass : Bool)
  /-- Behind a backslash. -/
  | escaping (inClass : Bool)
  | rejected
  deriving DecidableEq

/-- The automaton that reads a pattern, one character after the other. A line end is never allowed, and a slash
only in a class or behind a backslash. -/
def patternAutomaton : DFA Char PatternState where
  step state c :=
    if isLineEnd c then .rejected
    else
      match state, c with
      | .escaping inClass, _ => .reading inClass
      | .reading inClass, '\\' => .escaping inClass
      | .reading _, '[' => .reading true
      | .reading _, ']' => .reading false
      | .reading false, '/' => .rejected
      | .reading inClass, _ => .reading inClass
      | .rejected, _ => .rejected
  start := .reading false
  accept := {.reading false}

/-- The patterns of regular expressions. -/
def patterns : Language Char := patternAutomaton.accepts

/-- The text starts with a pattern and the slash behind it. -/
def StartsWithPattern (cs : List Char) : Prop := ∃ p ∈ patterns, p ++ ['/'] <+: cs

variable {inClass : Bool} {c : Char} {cs p f : List Char} {n : Nat}

theorem mem_patterns : p ∈ patterns ↔ patternAutomaton.evalFrom (.reading false) p = .reading false := Iff.rfl

@[simp] theorem evalFrom_rejected (cs : List Char) : patternAutomaton.evalFrom .rejected cs = .rejected := by
  induction cs with
  | nil => rfl
  | cons c cs ih =>
    rw [DFA.evalFrom_cons]
    have hstep : patternAutomaton.step .rejected c = .rejected := by
      simp [patternAutomaton]
    rw [hstep, ih]

theorem step_of_isLineEnd {state : PatternState} (hc : isLineEnd c = true) :
    patternAutomaton.step state c = .rejected := if_pos hc

theorem step_backslash : patternAutomaton.step (.reading inClass) '\\' = .escaping inClass := rfl

theorem step_escaping (hc : isLineEnd c = false) :
    patternAutomaton.step (.escaping inClass) c = .reading inClass := by
  simp [patternAutomaton, hc]

theorem step_reading (hl : isLineEnd c = false) (hb : c ≠ '\\') (hs : (c == '/' && !inClass) = false) :
    patternAutomaton.step (.reading inClass) c = .reading (c == '[' || (inClass && c != ']')) := by
  simp only [patternAutomaton, hl, Bool.false_eq_true, if_false]
  split
  all_goals simp_all
  all_goals grind

/-- A pattern is as long as the text that the automaton accepts before a slash. -/
theorem patternLength?_eq_some_iff : patternLength? inClass cs = some n ↔
    patternAutomaton.evalFrom (.reading inClass) (cs.take n) = .reading false ∧ cs[n]? = some '/' := by
  fun_induction patternLength? inClass cs generalizing n with
  | case1 => simp
  | case2 inClass => cases n <;> simp
  | case3 inClass c cs hl =>
    rcases n with _ | _ | n
    · simp
    · simp [step_backslash]
    · simp [step_of_isLineEnd hl]
  | case4 inClass c cs hl ih =>
    rcases n with _ | _ | n
    · simp
    · simp [step_backslash]
    · simp [step_backslash, step_escaping (eq_false_of_ne_true hl), ← ih]
  | case5 inClass c cs _ _ hl =>
    cases n with
    | zero =>
      have hne : c ≠ '/' := by rintro rfl; cases hl
      simp [hne]
    | succ n => simp [step_of_isLineEnd hl]
  | case6 inClass c cs _ _ hl hs =>
    obtain ⟨rfl, rfl⟩ : c = '/' ∧ inClass = false := by simpa using hs
    have hstep : patternAutomaton.step (.reading false) '/' = .rejected := rfl
    cases n with
    | zero => simp
    | succ n => simp [hstep]
  | case7 inClass c cs h1 h2 hl hs ih =>
    have hs := eq_false_of_ne_true hs
    cases n with
    | zero =>
      have hopen : ¬ (inClass = false ∧ c = '/') := by rintro ⟨rfl, rfl⟩; cases hs
      simpa using hopen
    | succ n => simp [step_reading (eq_false_of_ne_true hl) (ne_backslash h1 h2) hs, ← ih]

theorem patternLength?_append_slash (hp : p ∈ patterns) (f : List Char) :
    patternLength? false (p ++ '/' :: f) = some p.length := by
  rw [patternLength?_eq_some_iff, List.take_left, List.getElem?_append_right le_rfl]
  exact ⟨mem_patterns.1 hp, by simp⟩

theorem startsWithPattern_iff : StartsWithPattern cs ↔ ∃ n, patternLength? false cs = some n := by
  constructor
  · rintro ⟨p, hp, t, rfl⟩
    exact ⟨p.length, by rw [List.append_assoc]; exact patternLength?_append_slash hp t⟩
  · rintro ⟨n, hn⟩
    obtain ⟨hp, hs⟩ := patternLength?_eq_some_iff.1 hn
    obtain ⟨hlt, hs⟩ := List.getElem?_eq_some_iff.1 hs
    refine ⟨cs.take n, mem_patterns.2 hp, ?_⟩
    rw [← hs, List.take_append_getElem]
    exact List.take_prefix _ cs

/-! ### Lexical rules -/

theorem string?_append_quote {q : Char} {body : List Char} (hq : q ∉ body) (rest : List Char) :
    string? q (body ++ q :: rest) = some (.string (String.ofList body), body.length + 2) := by
  have hbody : (body ++ q :: rest).takeWhile (· != q) = body :=
    takeWhile_append_stop (fun c hc => by simpa using fun h : c = q => hq (h ▸ hc)) (by simp)
  rw [string?, hbody, if_pos (by simp)]

/-- The flags are the characters of a name behind the slash. -/
theorem regExp?_append_slash (hp : p ∈ patterns) (f : List Char) :
    regExp? (p ++ '/' :: f) = some (.regExp (String.ofList p) (String.ofList (f.takeWhile isNamePart)),
      p.length + 2 + (f.takeWhile isNamePart).length) := by
  have hdrop : (p ++ '/' :: f).drop (p.length + 1) = f := by simp
  rw [regExp?, patternLength?_append_slash hp, Option.map_some, hdrop, List.take_left]

theorem regExp?_eq_none (h : ¬ StartsWithPattern cs) : regExp? cs = none := by
  rw [startsWithPattern_iff, not_exists] at h
  rw [regExp?, Option.eq_none_iff_forall_ne_some.2 h, Option.map_none]

end Token

/-! ### Sources that are one literal -/

/-- A text that is one literal is read as this literal. -/
theorem parseExpression_of_leaf {source : String} {k : Kind} {e : Node}
    (hb : ∀ c ∈ source.toList.head?, isBlank c = false)
    (hr : rule? .operand source.toList = some (k, source.toList.length)) (he : k.leaf? = some e) :
    parseExpression source = .ok e := by
  have hs : Sees .operand ([] ++ source.toList) k false (source.toList.drop source.toList.length) :=
    Sees.token (by simp) hb hr
  rw [List.nil_append, List.drop_length] at hs
  have hend : Sees .operator [] .eof false [] := Sees.eof (by simp)
  exact parseExpression_eq_ok_iff.2 ⟨false, [], [], .expression hs (.leaf he) (.stop hend rfl), hend⟩

theorem parseExpression_string {q : Char} {body : String} (hq : q = '"' ∨ q = '\'') (hbody : q ∉ body.toList) :
    parseExpression (String.singleton q ++ body ++ String.singleton q) = .ok (.string body) := by
  have hsource : (String.singleton q ++ body ++ String.singleton q).toList = q :: (body.toList ++ [q]) := by simp
  have hquote : (q == '"' || q == '\'') = true := by simpa using hq
  have hblank : isBlank q = false := by rcases hq with rfl | rfl <;> decide
  refine parseExpression_of_leaf (k := .string body) ?_ ?_ rfl
  · simp [hblank]
  · rw [hsource, rule?, if_pos hquote, string?_append_quote hbody, String.ofList_toList]
    simp

theorem parseExpression_regExp {pattern flags : String} (hp : pattern.toList ∈ patterns)
    (hf : ∀ c ∈ flags.toList, isNamePart c = true) :
    parseExpression ("/" ++ pattern ++ "/" ++ flags) = .ok (.regExp pattern flags) := by
  have hsource : ("/" ++ pattern ++ "/" ++ flags).toList = '/' :: (pattern.toList ++ '/' :: flags.toList) := by simp
  have hflags : flags.toList.takeWhile isNamePart = flags.toList := List.takeWhile_eq_self_iff.2 hf
  have hrule : rule? .operand ('/' :: (pattern.toList ++ '/' :: flags.toList)) =
      regExp? (pattern.toList ++ '/' :: flags.toList) := rfl
  refine parseExpression_of_leaf (k := .regExp pattern flags) ?_ ?_ rfl
  · rw [hsource]
    rintro _ ⟨⟩
    decide
  · rw [hsource, hrule, regExp?_append_slash hp, hflags, String.ofList_toList, String.ofList_toList]
    simp only [List.length_cons, List.length_append, Option.some.injEq, Prod.mk.injEq, true_and]
    omega

/-! ### Slashes that open nothing -/

namespace Parser

variable {c : Cursor} {mode : Mode} {e : Error} {gap rest : List Char}

/-- Where no lexical rule applies, looking ahead fails behind the blanks. -/
theorem lookAhead_invalid {d : Char} (hrest : c.rest = gap ++ d :: rest) (hg : ∀ x ∈ gap, isBlank x = true)
    (hd : isBlank d = false) (hr : rule? mode (d :: rest) = none) :
    c.lookAhead mode = .error (.invalidToken (c.offset + byteLength gap)) := by
  have htake : c.rest.takeWhile isBlank = gap := hrest ▸ takeWhile_append_stop hg (by simp [hd])
  have hdrop : c.rest.dropWhile isBlank = d :: rest := by
    rw [hrest, List.dropWhile_append_of_pos hg, List.dropWhile_cons_of_neg (by simp [hd])]
  have hscan : ∀ i, scanAt i mode (d :: rest) = .error i := by
    intro i
    simp [scanAt, scan, hd, hr]
  rw [Cursor.lookAhead]
  by_cases hl : gap.any isLineEnd = true
  · -- the blanks are a line break, and the place is scanned again behind it
    have hbreak : scanAt c.offset mode c.rest = .ok (⟨.lineBreak, c.offset, c.offset + byteLength gap⟩, d :: rest) := by
      simp only [scanAt, scan, htake, hdrop, hl, if_true, byteLength_nil, Nat.add_zero]
    rw [hbreak]
    simp only [if_true, hscan]
  · have hinvalid : scanAt c.offset mode c.rest = .error (c.offset + byteLength gap) := by
      simp [scanAt, scan, htake, hdrop, hl, hr]
    rw [hinvalid]

/-- A slash behind some blanks opens no regular expression where an operand is expected. -/
theorem lookAhead_slash (hrest : c.rest = gap ++ '/' :: rest) (hg : ∀ x ∈ gap, isBlank x = true)
    (hp : ¬ StartsWithPattern rest) : c.lookAhead .operand = .error (.invalidToken (c.offset + byteLength gap)) :=
  lookAhead_invalid hrest hg (by decide) (regExp?_eq_none hp)

/-! ### Rules that expect an operand -/

section Rules

variable {r : Rules} (hc : c.Coherent) (he : c.lookAhead .operand = .error e)

include hc he

theorem expressionWith_error (n min : Nat) : expressionWith r n min c = .error e c :=
  bind_error (bind_error (peek_error hc he) _) _

theorem statementWith_error (n : Nat) (inLoop : Bool) : statementWith r n inLoop c = .error e c :=
  bind_error (bind_error (peek_error hc he) _) _

theorem statements_error (depth n : Nat) : statements depth (n + 1) c = .error e c :=
  bind_error (bind_error (bind_error (peek_error hc he) _) _) _

theorem wholeExpression_error (depth : Nat) : wholeExpression (depth + 1) c = .error e c :=
  bind_error (expressionWith_error hc he depth 0) _

end Rules

end Parser

/-! ### Literals in sessions -/

theorem parse_slash {gap rest : String} (hg : ∀ c ∈ gap.toList, isBlank c = true)
    (hp : ¬ StartsWithPattern rest.toList) :
    parse (gap ++ "/" ++ rest) = .error (.invalidToken (byteLength gap.toList)) ∧
      parseExpression (gap ++ "/" ++ rest) = .error (.invalidToken (byteLength gap.toList)) := by
  have hrest : (Cursor.start (gap ++ "/" ++ rest).toList).rest = gap.toList ++ '/' :: rest.toList := by
    simp [Cursor.start]
  have hc : (Cursor.start (gap ++ "/" ++ rest).toList).Coherent := Cursor.coherent_of_none rfl
  have he := Parser.lookAhead_slash hrest hg hp
  rw [show (Cursor.start (gap ++ "/" ++ rest).toList).offset = 0 from rfl, Nat.zero_add] at he
  constructor
  · rw [parse, Parser.read, Parser.depthOf, Parser.statements_error hc he]
  · rw [parseExpression, Parser.read, Parser.depthOf, Parser.wholeExpression_error hc he]

/-- A string literal denotes what stands between its quotes, and a regular expression the text that it is written
as. A slash that no pattern and no other slash follow is an invalid token wherever an expression or a statement
should start, behind whatever blanks. The session is as it was before, in all cases. -/
theorem literals_denote_text (limit : Nat) (s : Session) :
    (∀ (q : Char) (body : String), q = '"' ∨ q = '\'' → q ∉ body.toList →
      s.evalExpression (limit + 1) (String.singleton q ++ body ++ String.singleton q) =
        (.value (.string body), s)) ∧
    (∀ pattern flags : String, pattern.toList ∈ patterns → (∀ c ∈ flags.toList, isNamePart c = true) →
      s.evalExpression (limit + 1) ("/" ++ pattern ++ "/" ++ flags) =
        (.value (.string ("/" ++ pattern ++ "/" ++ flags)), s)) ∧
    (∀ gap rest : String, (∀ c ∈ gap.toList, isBlank c = true) → ¬ StartsWithPattern rest.toList →
      s.evalExpression limit (gap ++ "/" ++ rest) = (.error (.invalidToken (byteLength gap.toList)), s) ∧
      s.eval limit (gap ++ "/" ++ rest) = (.error (.invalidToken (byteLength gap.toList)), s)) ∧
    ∀ (c : Cursor) (gap rest : List Char), c.Coherent → c.rest = gap ++ '/' :: rest →
      (∀ d ∈ gap, isBlank d = true) → ¬ StartsWithPattern rest → ∀ depth,
        (∀ min, Parser.expression (depth + 1) min c = .error (.invalidToken (c.offset + byteLength gap)) c) ∧
        ∀ inLoop, Parser.statement (depth + 1) inLoop c = .error (.invalidToken (c.offset + byteLength gap)) c := by
  refine ⟨fun q body hq hbody => ?_, fun pattern flags hp hf => ?_, fun gap rest hg hp => ?_,
    fun c gap rest hc hrest hg hp depth => ?_⟩
  · rw [Session.evalExpression_eq (parseExpression_string hq hbody)]
    rfl
  · rw [Session.evalExpression_eq (parseExpression_regExp hp hf)]
    rfl
  · obtain ⟨h, h'⟩ := parse_slash hg hp
    exact ⟨Session.perform_of_unread h', Session.perform_of_unread h⟩
  · have he := Parser.lookAhead_slash hrest hg hp
    exact ⟨Parser.expressionWith_error hc he depth, Parser.statementWith_error hc he depth⟩

/-- A slash in a class does not close a pattern, a quote of the other sort does not close a string, and a class
that is left open closes nothing. -/
theorem literals_denote_text_class :
    Session.new.evalExpression 1 "'a\"\\\n'" = (.value (.string "a\"\\\n"), Session.new) ∧
      Session.new.evalExpression 1 "/[/]\\//gi" = (.value (.string "/[/]\\//gi"), Session.new) ∧
      Session.new.eval 0 "\n /[/" = (.error (.invalidToken 2), Session.new) ∧
      Parser.expression 1 0 (Cursor.start "/[/".toList) = .error (.invalidToken 0) (Cursor.start "/[/".toList) := by
  obtain ⟨hstring, hregExp, hslash, hcursor⟩ := literals_denote_text 0 Session.new
  have hclass : ¬ StartsWithPattern "[/".toList := fun h => by
    obtain ⟨n, hn⟩ := startsWithPattern_iff.1 h
    have hnone : patternLength? false "[/".toList = none := by decide
    rw [hnone] at hn
    cases hn
  have hclosed := hregExp "[/]\\/" "gi" (mem_patterns.2 (by decide)) (by simp; decide)
  have hquoted := hstring '\'' "a\"\\\n" (.inr rfl) (by decide)
  have hbehind := (hslash "\n " "[/" (by simp; decide) hclass).2
  rw [show String.singleton '\'' ++ "a\"\\\n" ++ String.singleton '\'' = "'a\"\\\n'" from rfl] at hquoted
  rw [show "/" ++ "[/]\\/" ++ "/" ++ "gi" = "/[/]\\//gi" from rfl] at hclosed
  rw [show "\n " ++ "/" ++ "[/" = "\n /[/" from rfl] at hbehind
  have hstart := (hcursor (Cursor.start "/[/".toList) [] "[/".toList (Cursor.coherent_of_none rfl) rfl (by simp)
    hclass 0).1 0
  exact ⟨hquoted, hclosed, hbehind, hstart⟩

end Scriptlet
