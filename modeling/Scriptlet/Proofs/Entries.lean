import Scriptlet.Proofs.Nesting
import Scriptlet.Proofs.NumberText

/-!
# Entries that are complete

The prompt takes an entry for complete by its last character and its brackets, without reading it. A program can
end in a character after which an entry goes on only as an update or as a regular expression does: every other
operator asks for an operand behind it (`Reads.settles`). So an entry that can be read is kept back exactly if it
ends in `++`, `--` or `/`, or is unbalanced (`isComplete_iff_of_parse`); and only a slash can unbalance it.
-/

namespace Scriptlet

open Text Token Number Console

/-! ### The ends of texts -/

/-- The last character of the text, if there is one, has the property. -/
def EndsIn (P : Char → Prop) (t : List Char) : Prop := ∀ c ∈ t.getLast?, P c

section

variable {P : Char → Prop} {p : Char → Bool} {s t : List Char}

theorem endsIn_of_forall (h : ∀ c ∈ t, P c) : EndsIn P t := fun c hc => h c (List.mem_of_getLast? hc)

theorem EndsIn.append (hs : EndsIn P s) (ht : EndsIn P t) : EndsIn P (s ++ t) := by
  intro c hc
  rw [List.getLast?_append, Option.mem_def] at hc
  rcases Option.or_eq_some_iff.1 hc with hc | ⟨-, hc⟩
  · exact ht c hc
  · exact hs c hc

theorem endsIn_append_of_ne_nil (hne : t ≠ []) : EndsIn P (s ++ t) ↔ EndsIn P t := by
  simp only [EndsIn, List.getLast?_append_of_ne_nil s hne]

theorem trimEnd_eq_self (h : EndsIn (p · = false) t) : trimEnd p t = t := by
  cases hr : t.reverse with
  | nil => rw [trimEnd, hr, List.reverse_eq_nil_iff.1 hr]; rfl
  | cons c cs =>
    have hc : p c = false := h c (by rw [← List.head?_reverse, hr]; rfl)
    rw [trimEnd, hr, List.dropWhile_cons_of_neg (by simp [hc]), ← hr, List.reverse_reverse]

/-- What is trimmed off stands behind what is left. -/
theorem exists_eq_trimEnd_append (p : Char → Bool) (t : List Char) :
    ∃ w, t = trimEnd p t ++ w ∧ ∀ c ∈ w, p c = true := by
  refine ⟨(t.reverse.takeWhile p).reverse, ?_, fun c hc => ?_⟩
  · rw [trimEnd, ← List.reverse_append, List.takeWhile_append_dropWhile, List.reverse_reverse]
  · exact List.all_eq_true.1 List.all_takeWhile c (List.mem_reverse.1 hc)

end

/-- The text ends as an update or a regular expression does. -/
def Lingers (t : List Char) : Prop := ['+', '+'] <:+ t ∨ ['-', '-'] <:+ t ∨ ['/'] <:+ t

theorem Lingers.append {t : List Char} (h : Lingers t) (u : List Char) : Lingers (u ++ t) := by
  have hsuffix : t <:+ u ++ t := List.suffix_append u t
  rcases h with h | h | h
  · exact .inl (h.trans hsuffix)
  · exact .inr (.inl (h.trans hsuffix))
  · exact .inr (.inr (h.trans hsuffix))

theorem Lingers.asksForMore {t : List Char} (h : Lingers t) : t.getLast?.any continuing.contains = true := by
  have hlast : ∀ front : List Char, ∀ c ∈ continuing, (front ++ [c]).getLast?.any continuing.contains = true := by
    intro front c hc
    simpa using hc
  rcases h with ⟨front, rfl⟩ | ⟨front, rfl⟩ | ⟨front, rfl⟩
  · exact List.append_assoc front ['+'] ['+'] ▸ hlast (front ++ ['+']) '+' (by decide)
  · exact List.append_assoc front ['-'] ['-'] ▸ hlast (front ++ ['-']) '-' (by decide)
  · exact hlast front '/' (by decide)

/-- If the last character that is no blank asks for more, an update or a regular expression ends there. -/
def Settled (u : List Char) : Prop :=
  EndsIn (fun c => c ∈ continuing → Lingers (trimEnd isBlank u)) (trimEnd isBlank u)

theorem settled_nil : Settled [] := fun c hc => by cases hc

theorem Settled.blank {u gap : List Char} (h : Settled u) (hg : ∀ c ∈ gap, isBlank c = true) :
    Settled (u ++ gap) := by
  rwa [Settled, trimEnd_append hg]

/-- The last token of a text decides whether it is settled. -/
theorem settled_append {t : List Char} (hne : t ≠ []) (hblank : EndsIn (isBlank · = false) t)
    (h : EndsIn (fun c => c ∈ continuing → Lingers t) t) (u : List Char) : Settled (u ++ t) := by
  have htrim : trimEnd isBlank (u ++ t) = u ++ t :=
    trimEnd_eq_self ((endsIn_append_of_ne_nil hne).2 hblank)
  rw [Settled, htrim, endsIn_append_of_ne_nil hne]
  exact fun c hc hmem => (h c hc hmem).append u

/-! ### Tokens -/

theorem not_mem_continuing_of_isNamePart {c : Char} (h : isNamePart c = true) : c ∉ continuing := by
  intro hc
  simp only [continuing, List.mem_cons, List.not_mem_nil, or_false] at hc
  rcases hc with rfl | rfl | rfl | rfl | rfl | rfl | rfl | rfl | rfl | rfl | rfl <;> cases h

/-- A character that a number can end in. -/
def EndsNumber (c : Char) : Prop := isNamePart c = true ∨ c = '.'

theorem isBlank_of_mem_continuing {c : Char} (h : c ∈ continuing) : isBlank c = false := by
  simp only [continuing, List.mem_cons, List.not_mem_nil, or_false] at h
  rcases h with rfl | rfl | rfl | rfl | rfl | rfl | rfl | rfl | rfl | rfl | rfl <;> decide

theorem endsIn_digitRun (cs : List Char) : EndsIn EndsNumber (digitRun cs) :=
  endsIn_of_forall fun _ hc => .inl (isNamePart_of_isDigit (List.all_eq_true.1 List.all_takeWhile _ hc))

theorem endsIn_take_wholeLength (cs : List Char) : EndsIn EndsNumber (cs.take (wholeLength cs)) := by
  unfold wholeLength
  split
  · exact endsIn_of_forall (by simp [EndsNumber, isNamePart])
  · rw [digitRun, take_takeWhile_length]
    exact endsIn_digitRun _

theorem endsIn_take_fractionLength (cs : List Char) : EndsIn EndsNumber (cs.take (fractionLength cs)) := by
  unfold fractionLength
  split
  next cs =>
    rw [Nat.add_comm, List.take_succ_cons, digitRun, take_takeWhile_length]
    exact EndsIn.append (s := ['.']) (endsIn_of_forall (by simp [EndsNumber])) (endsIn_digitRun cs)
  · exact endsIn_of_forall (by simp)

theorem endsIn_take_exponentLength (cs : List Char) : EndsIn EndsNumber (cs.take (exponentLength cs)) := by
  cases cs with
  | nil => exact endsIn_of_forall (by simp)
  | cons c cs =>
    simp only [exponentLength]
    split
    · split
      · exact endsIn_of_forall (by simp)
      next n hn =>
        -- an exponent has digits, and ends in the last of them
        have hne : digitRun (cs.drop (signLength cs)) ≠ [] := by
          intro h0
          rw [h0] at hn
          cases hn
        rw [Nat.add_assoc, Nat.add_comm, List.take_succ_cons, List.take_add, ← Nat.succ_eq_add_one n, ← hn,
          digitRun, take_takeWhile_length, ← List.cons_append]
        exact (endsIn_append_of_ne_nil hne).2 (endsIn_digitRun _)
    · exact endsIn_of_forall (by simp)

theorem numeral?_endsIn {cs : List Char} {x : Float} {n : Nat} (h : numeral? cs = some (x, n)) :
    EndsIn EndsNumber (cs.take n) := by
  have hhex : ∀ (a b : Char) (ds : List Char), (ds.takeWhile isHexDigit).isEmpty = false →
      EndsIn EndsNumber ((a :: b :: ds).take ((ds.takeWhile isHexDigit).length + 2)) := by
    intro a b ds hne
    rw [List.take_succ_cons, List.take_succ_cons, take_takeWhile_length]
    refine (endsIn_append_of_ne_nil (s := [a, b]) (by simpa using hne)).2 (endsIn_of_forall fun c hc => ?_)
    exact .inl (isNamePart_of_isHexDigit (List.all_eq_true.1 List.all_takeWhile c hc))
  unfold numeral? at h
  simp only at h
  split at h
  next ds =>
    split at h
    · cases h
    next hne => cases h; exact hhex _ _ ds (by simpa using hne)
  next ds =>
    split at h
    · cases h
    next hne => cases h; exact hhex _ _ ds (by simpa using hne)
  · obtain ⟨l, -, he⟩ := Option.map_eq_some_iff.1 h
    cases he
    rw [decimalLength, List.take_add, List.take_add]
    exact ((endsIn_take_wholeLength cs).append (endsIn_take_fractionLength _)).append
      (endsIn_take_exponentLength _)

/-- Whether a program can end in the token. -/
def Token.Kind.concludes : Kind → Bool
  | .punct .plusPlus | .punct .minusMinus => true
  | .punct p => p.spelling.toList.getLast?.all (!continuing.contains ·)
  | .eof => false
  | _ => true

/-- What the text of a token ends in, if a program can end in the token. -/
def Concludes (t : List Char) : Prop :=
  EndsIn (fun c => isBlank c = false ∧ (c ∈ continuing → Lingers t)) t

theorem concludes_of_endsNumber {t : List Char} (h : EndsIn EndsNumber t) : Concludes t := by
  intro c hc
  rcases h c hc with hc | rfl
  · exact ⟨isBlank_of_isNamePart hc, fun hmem => absurd hmem (not_mem_continuing_of_isNamePart hc)⟩
  · exact ⟨by decide, fun hmem => absurd hmem (by decide)⟩

theorem concludes_string {q : Char} {body : List Char} (hq : isQuote q = true) : Concludes (q :: body ++ [q]) := by
  intro c hc
  rw [List.getLast?_append_of_ne_nil _ (by simp)] at hc
  cases hc
  have hne : q = '"' ∨ q = '\'' := by simpa [isQuote, or_comm] using hq
  rcases hne with rfl | rfl <;> exact ⟨by decide, fun hmem => absurd hmem (by decide)⟩

theorem concludes_regExp {pattern flags : List Char} (hf : ∀ c ∈ flags, isNamePart c = true) :
    Concludes ('/' :: pattern ++ '/' :: flags) := by
  cases flags with
  | nil =>
    intro c hc
    rw [List.getLast?_append_of_ne_nil _ (by simp)] at hc
    cases hc
    exact ⟨by decide, fun _ => .inr (.inr (List.suffix_append _ _))⟩
  | cons f fs =>
    have hflags : EndsIn EndsNumber (f :: fs) := endsIn_of_forall fun c hc => .inl (hf c hc)
    have hends := (endsIn_append_of_ne_nil (s := '/' :: pattern ++ ['/']) (List.cons_ne_nil f fs)).2 hflags
    rw [List.append_assoc, List.singleton_append] at hends
    exact concludes_of_endsNumber hends

theorem concludes_spelling {p : Punct} (h : (Kind.punct p).concludes = true) : Concludes p.spelling.toList := by
  have hall : (p.spelling.toList.getLast?.all fun c => !isBlank c && (!continuing.contains c ||
      decide (['+', '+'] <:+ p.spelling.toList) || decide (['-', '-'] <:+ p.spelling.toList))) = true := by
    revert h
    cases p <;> decide
  intro c hc
  rw [Option.mem_def.1 hc] at hall
  simp only [Option.all_some, Bool.and_eq_true, Bool.not_eq_true', Bool.or_eq_true, decide_eq_true_eq] at hall
  refine ⟨hall.1, fun hmem => ?_⟩
  rcases hall.2 with (hc | h) | h
  · simp [hmem] at hc
  · exact .inl h
  · exact .inr (.inl h)

/-- The text of a token in which a program can end. -/
theorem rule?_concludes {mode : Mode} {cs : List Char} {k : Kind} {n : Nat} (h : rule? mode cs = some (k, n))
    (hk : k.concludes = true) : Concludes (cs.take n) := by
  have hwritten := rule?_writtenAs h
  unfold rule? at h
  split at h
  · cases h
  next c rest =>
  split at h
  next hq =>
    simp only [string?] at h
    split at h
    · cases h
      obtain ⟨q, hquote, htext⟩ := hwritten
      rw [htext]
      exact concludes_string (by simpa [isQuote, or_comm] using hquote)
    · cases h
  split at h
  next hr =>
    obtain ⟨m, -, he⟩ := Option.map_eq_some_iff.1 h
    cases he
    simp only [Kind.WrittenAs, String.toList_ofList] at hwritten
    rw [hwritten]
    exact concludes_regExp fun c hc => List.all_eq_true.1 List.all_takeWhile c hc
  split at h
  next hn =>
    unfold number? at h
    split at h
    next x m hm =>
      split at h
      · cases h
      · cases h
        exact concludes_of_endsNumber (numeral?_endsIn hm)
    · cases h
  split at h
  next hw =>
    have htake := take_takeWhile_length isNamePart (c :: rest)
    generalize c :: rest = cs at h htake
    cases h
    rw [htake]
    refine concludes_of_endsNumber (endsIn_of_forall fun c hc => .inl ?_)
    exact List.all_eq_true.1 List.all_takeWhile c hc
  · obtain ⟨p, rfl, rfl, -⟩ := punctuator?_eq_some_iff.1 h
    have htext : p.spelling = String.ofList ((c :: rest).take p.spelling.length) := Option.some.inj hwritten
    have hends := concludes_spelling hk
    rwa [htext, String.toList_ofList] at hends

/-! ### Phrases -/

section Phrases

variable {b : Bool} {cs cs₁ cs₂ : List Char} {mode : Mode} {k : Kind} {lb : Bool}

/-- What is taken of a text leaves the text before it settled. If `needed` is false, it does so also if that text
was not settled. -/
def Settles (needed : Bool) (cs cs' : List Char) : Prop :=
  ∃ x, x ++ cs' = cs ∧ ∀ u, (needed = true → Settled u) → Settled (u ++ x)

theorem Settles.refl : Settles true cs cs := ⟨[], rfl, fun u h => by simpa using h⟩

theorem Settles.mono (h : Settles false cs cs₁) : Settles b cs cs₁ := by
  obtain ⟨x, hx, hs⟩ := h
  exact ⟨x, hx, fun u _ => hs u (by simp)⟩

theorem Settles.trans {b' : Bool} (h₁ : Settles b cs cs₁) (h₂ : Settles b' cs₁ cs₂) : Settles b cs cs₂ := by
  obtain ⟨x, rfl, hx⟩ := h₁
  obtain ⟨y, rfl, hy⟩ := h₂
  refine ⟨x ++ y, by simp, fun u hu => ?_⟩
  rw [← List.append_assoc]
  exact hy _ fun _ => hx u hu

/-- A token in front of what is taken. -/
theorem Sees.settles (hs : Sees mode cs k lb cs₁) (h : Settles k.concludes cs₁ cs₂) : Settles false cs cs₂ := by
  obtain ⟨x, rfl, hx⟩ := h
  rcases hs.shape with ⟨rfl, hrest, -, -⟩ | ⟨gap, body, n, rfl, hg, -, hr, -, hrest⟩
  · obtain ⟨rfl, rfl⟩ := List.append_eq_nil_iff.1 hrest
    exact ⟨cs, by simp, fun u _ => by simpa using hx (u ++ cs) (by simp [Kind.concludes])⟩
  · refine ⟨gap ++ (body.take n ++ x), ?_, fun u _ => ?_⟩
    · rw [List.append_assoc, List.append_assoc, hrest, List.take_append_drop]
    · rw [← List.append_assoc, ← List.append_assoc]
      refine hx _ fun hk => ?_
      have hends := rule?_concludes hr hk
      have hne : body.take n ≠ [] := by
        intro h0
        rcases List.take_eq_nil_iff.1 h0 with h0 | h0
        · exact absurd h0 (Nat.ne_of_gt (rule?_pos hr))
        · rw [h0] at hr
          cases hr
      exact settled_append hne (fun c hc => (hends c hc).1) (fun c hc => (hends c hc).2) _

/-- The token in front of a phrase has to conclude it if the phrase takes nothing; others start afresh. -/
def Phrase.leans : Phrase → Bool
  | .operand k _ | .suffix k _ _ | .opened _ k _ => k.concludes
  | .suffixes .. | .optional .. | .forInit _ | .returnValue _ | .ending | .loopEnding | .program _ => true
  | _ => false

theorem concludes_of_leaf? {e : Node} (h : k.leaf? = some e) : k.concludes = true := by
  cases k <;> first | rfl | cases h

theorem concludes_of_updateAfter? {op : UpdateOp} (h : k.updateAfter? = some op) : k.concludes = true := by
  unfold Kind.updateAfter? at h
  split at h <;> first | rfl | cases h

/-- What a phrase takes of a text ends in a token that can end a program. -/
theorem Reads.settles {p : Phrase} {cs' : List Char} (h : Reads p cs cs') : Settles p.leans cs cs' := by
  induction h with
  | expression hs _ _ iho ihs => exact (hs.settles iho).trans ihs
  | leaf hk =>
    rw [Phrase.leans, concludes_of_leaf? hk]
    exact .refl
  | group _ hs ih => exact (ih.trans (hs.settles .refl)).mono
  | unary _ _ ih | updateBefore _ _ _ ih | function _ ih => exact ih.mono
  | stop => exact .refl
  | step hs _ _ _ ih ihs => exact ((hs.settles ih).trans ihs).mono
  | binary _ _ ih | assign _ _ _ ih => exact ih.mono
  | updateAfter hop =>
    rw [Phrase.leans, concludes_of_updateAfter? hop]
    exact .refl
  | conditional _ hs _ ih₁ ih₂ => exact (ih₁.trans (hs.settles ih₂)).mono
  | dot hs => exact (hs.settles .refl).mono
  | index _ hs ih => exact (ih.trans (hs.settles .refl)).mono
  | call _ ih => exact ih.mono
  | argument _ ih => exact ih
  | param hs => exact hs.settles .refl
  | declared hs => exact hs.settles .refl
  | initialised hs hs' _ ih => exact hs.settles (hs'.settles ih).mono
  | single _ _ _ ih => exact ih
  | more _ hs _ ih ihs => exact ih.trans (hs.settles ihs)
  | noItems hs => exact hs.settles .refl
  | someItems _ _ _ hs ih => exact ih.trans (hs.settles .refl)
  | named hs hs' _ _ ih ihb => exact hs.settles (hs'.settles (ih.mono.trans ihb)).mono
  | anonymous hs _ _ ih ihb => exact hs.settles (ih.mono.trans ihb)
  | block hs _ ih => exact hs.settles ih.mono
  | blockEnd hs => exact hs.settles .refl
  | blockMore _ _ ih ihs => exact ih.trans ihs
  | condition hs _ hs' ih => exact hs.settles (ih.trans (hs'.settles .refl)).mono
  | absent => exact .refl
  | present _ _ _ ih => exact ih.mono
  | forVar hs _ ih => exact (hs.settles ih.mono).mono
  | forOther _ _ _ ih => exact ih
  | semicolon hs | loopSemicolon hs => exact (hs.settles .refl).mono
  | inserted | loopBare => exact .refl
  | expressionStatement _ _ _ _ ih ihend => exact ih.trans ihend
  | opened hs _ ih => exact hs.settles ih
  | empty | returnNothing | programEnd => exact .refl
  | blockStatement _ ih => exact ih.mono
  | returnSome _ _ _ ih => exact ih.mono
  | returning _ _ ih ihend => exact ih.trans ihend
  | breakLoop _ ih | continueLoop _ ih => exact ih
  | branch _ _ _ _ ihc ihs => exact (ihc.trans ihs).mono
  | branchElse _ _ hs _ ihc ihs ihs' => exact (ihc.trans (ihs.trans (hs.settles ihs'.mono))).mono
  | whileLoop _ _ ihc ihs => exact (ihc.trans ihs).mono
  | doWhileLoop _ hs _ _ ihs ihc ihend => exact (ihs.trans ((hs.settles ihc.mono).trans ihend)).mono
  | forLoop s₁ _ s₃ _ s₅ _ s₇ _ ih₂ ih₄ ih₆ ih₈ =>
    have hparts := ih₂.trans (s₃.settles (ih₄.trans (s₅.settles (ih₆.trans (s₇.settles ih₈.mono)))))
    exact (s₁.settles hparts).mono
  | varList _ _ ih ihend => exact (ih.trans ihend).mono
  | declaration _ ih => exact ih.mono
  | programMore _ _ ih ihs => exact (ih.trans ihs).mono

end Phrases

/-! ### Entries -/

/-- A program leaves its text settled. -/
theorem settled_of_reads {cs cs' : List Char} {p : Program} (h : Reads (.program p) cs cs') : Settled cs := by
  obtain ⟨x, hx, hs⟩ := h.settles
  rw [← hx]
  exact (hs [] fun _ => settled_nil).blank (u := x) h.program_atEnd

/-- An entry that can be read asks for more only where an update or a regular expression ends. -/
theorem Settled.endsOpen_iff {cs : List Char} (h : Settled cs) :
    endsOpen cs = true ↔ (trimEnd isWhiteSpace cs).head? ≠ some '.' ∧ Lingers (trimEnd isWhiteSpace cs) := by
  obtain ⟨w, hw, hwhite⟩ := exists_eq_trimEnd_append isWhiteSpace cs
  have htrim : trimEnd isBlank cs = trimEnd isBlank (trimEnd isWhiteSpace cs) := by
    conv_lhs => rw [hw]
    exact trimEnd_append fun c hc => by simp [isBlank, hwhite c hc]
  rw [Settled, htrim] at h
  unfold endsOpen
  generalize trimEnd isWhiteSpace cs = t at h ⊢
  simp only [Bool.and_eq_true, bne_iff_ne, ne_eq]
  refine and_congr_right fun _ => ⟨fun hany => ?_, Lingers.asksForMore⟩
  obtain ⟨c, hc, hmem⟩ := (Option.any_eq_true _ _).1 hany
  have hmem : c ∈ continuing := by simpa using hmem
  have hself : trimEnd isBlank t = t := by
    refine trimEnd_eq_self fun d hd => ?_
    obtain rfl : c = d := Option.some.inj (hc.symm.trans hd)
    exact isBlank_of_mem_continuing hmem
  rw [hself] at h
  exact h c hc hmem

/-- Only a slash can hide what a program opens. -/
theorem isBalanced_of_reads {cs cs' : List Char} {p : Program} (h : Reads (.program p) cs cs') (hs : '/' ∉ cs) :
    isBalanced cs = true := by
  obtain ⟨-, x, hx, hnest⟩ := h.takes hs
  have hall : Nested cs := hx ▸ Nested.append (x := x) hnest (nested_gap h.program_atEnd)
  simpa [isBalanced, closes] using hall [] []

/-- The prompt takes an entry that can be read for complete unless it ends as an update or a regular expression
does, or is unbalanced; and it is balanced if no slash is in it. -/
theorem isComplete_iff_of_parse {source : String} {p : Program} (h : parse source = .ok p) :
    (isComplete source.toList = true ↔ isBalanced source.toList = true ∧
      ((trimEnd isWhiteSpace source.toList).head? = some '.' ∨
        ¬ Lingers (trimEnd isWhiteSpace source.toList))) ∧
    ('/' ∉ source.toList → isBalanced source.toList = true) := by
  obtain ⟨rest, hr⟩ := parse_eq_ok_iff.1 h
  refine ⟨?_, isBalanced_of_reads hr⟩
  rw [isComplete, Bool.and_eq_true, Bool.not_eq_true', ← Bool.not_eq_true,
    (settled_of_reads hr).endsOpen_iff, not_and_or, not_not]

/-- A loop whose last statement ends in a bracket. -/
theorem isComplete_iff_of_parse_loop : isComplete "while (i--) f(i)\n".toList = true := by
  have hp : parse "while (i--) f(i)\n" = .ok [.whileLoop (.update .postDecrement (.identifier "i"))
      (.call (.identifier "f") [.identifier "i"])] := by cbv
  obtain ⟨hiff, hbalanced⟩ := isComplete_iff_of_parse hp
  exact hiff.2 ⟨hbalanced (by decide), .inr (by unfold Lingers; decide +kernel)⟩

/-- The prompt asks for more behind an update that ends a program. -/
theorem isComplete_update : parse "i++" = .ok [.update .postIncrement (.identifier "i")] ∧
    isComplete "i++".toList = false := by
  refine ⟨by cbv, by decide +kernel⟩

end Scriptlet
