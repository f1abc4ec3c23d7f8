import Scriptlet.Proofs.RenderedPieces

/-!
# Lists, functions and statements in renderings

What a rendering reads as beyond expressions. A statement that ends at a line break leaves the line
break to what comes next, which does not mind: `Resumes cs' cs` says that every token ahead in `cs` is
ahead in `cs'` too, up to the flag for line breaks, and the phrases that come after statements do not
look at that flag (`Reads.resume`).
-/

namespace Scriptlet

open Text Token

variable {post xs ys : List Piece} {k : Kind} {lb : Bool} {cs cs' cs₁ : List Char} {e : Node}

theorem ne_of_stops {p : Punct} (h : k.goesOn 0 lb = false) (hp : 0 < (Kind.punct p).power)
    (hu : (Kind.punct p).updateAfter? = none) : k ≠ .punct p := by
  rintro rfl
  simp [Kind.goesOn, hp, hu] at h

/-! ### Lists -/

/-- The pieces are an item of a list, before a comma and before the end of the list. -/
def ItemReads (xs : List Piece) (i : Item) : Prop :=
  ∀ post, admissible (xs ++ post) = true → Stops Kind.commaPower post →
    Reads (.item i) (textOf (xs ++ post)) (textOf post)

theorem argument_reads (h : Operand xs e (Kind.commaPower + 1) Kind.commaPower) :
    ItemReads xs (.argument e) :=
  fun _ ha hs => .argument (h.reads ha hs)

theorem param_reads (name : Name) : ItemReads [.text name.text] (.param name.text) :=
  fun _ _ _ => .param (shows_name name _)

theorem declared_reads (name : Name) : ItemReads [.text name.text] (.declarator (name.text, none)) := by
  intro post _ hs
  obtain ⟨k, lb, rest, hsees, hk⟩ := hs
  refine .declared (shows_name name _) hsees ?_
  rintro rfl
  cases lb <;> cases hk

theorem initialised_reads (name : Name) (h : Operand xs e (Kind.commaPower + 1) Kind.commaPower) :
    ItemReads (.text name.text :: .punct .equal :: xs) (.declarator (name.text, some e)) :=
  fun _ ha hs => .initialised (shows_name name _) (shows_operator _ _) (h.reads ha hs)

theorem items_reads {pss : List (List Piece)} {is : List Item} (h : List.Forall₂ ItemReads pss is)
    (hne : is ≠ []) (ha : admissible (separated pss ++ post) = true) (hs : Stops 0 post) :
    Reads (.items is) (textOf (separated pss ++ post)) (textOf post) := by
  induction h with
  | nil => exact absurd rfl hne
  | @cons ps i pss is hi his ih =>
    cases his with
    | nil =>
      obtain ⟨k, lb, rest, hsees, hk⟩ := hs
      exact .single (hi post ha ⟨k, lb, rest, hsees, goesOn_mono (Nat.zero_le _) hk⟩) hsees
        (ne_of_stops hk (by decide) rfl)
    | cons hi' his' =>
      simp only [separated, List.append_assoc, List.cons_append] at ha ⊢
      have hrest := admissible_of_append ps ha
      refine .more (hi _ ha (stops_punct (by decide))) (shows_operator _ _) ?_
      exact ih (List.cons_ne_nil _ _) hrest

theorem Reads.item_starts {i : Item} (h : Reads (.item i) cs cs') :
    ∃ k lb rest, Sees .operand cs k lb rest ∧ k ≠ .punct .rightParen := by
  cases h with
  | argument he =>
    obtain ⟨k, lb, rest, hs, hk⟩ := he.expression_starts
    exact ⟨k, lb, rest, hs, by rintro rfl; cases hk⟩
  | param hs => exact ⟨_, _, _, hs, Kind.noConfusion⟩
  | declared hs => exact ⟨_, _, _, hs, Kind.noConfusion⟩
  | initialised hs => exact ⟨_, _, _, hs, Kind.noConfusion⟩

theorem Reads.items_starts {is : List Item} (h : Reads (.items is) cs cs') :
    ∃ k lb rest, Sees .operand cs k lb rest ∧ k ≠ .punct .rightParen := by
  cases h with
  | single hi => exact hi.item_starts
  | more hi => exact hi.item_starts

theorem inParens_append (xs post : List Piece) :
    inParens xs ++ post = .punct .leftParen :: (xs ++ .punct .rightParen :: post) := by
  simp [inParens]

theorem inBraces_append (xs post : List Piece) :
    inBraces xs ++ post = .punct .leftBrace :: (xs ++ .punct .rightBrace :: post) := by
  simp [inBraces]

theorem parenthesised_reads {pss : List (List Piece)} {is : List Item}
    (h : List.Forall₂ ItemReads pss is)
    (ha : admissible (separated pss ++ .punct .rightParen :: post) = true) :
    Reads (.parenthesised is) (textOf (separated pss ++ .punct .rightParen :: post)) (textOf post) := by
  by_cases hne : is = []
  · subst hne
    cases h
    exact .noItems (shows_punct (by decide) (by decide) post)
  · have hr := items_reads h (by simpa using hne) ha (stops_punct (by decide))
    obtain ⟨k, lb, rest, hsees, hk⟩ := hr.items_starts
    exact .someItems hsees hk hr (shows_operator _ _)

theorem Operand.call {l : Node} {yss : List (List Piece)} {es : List Node} {right : Nat}
    (hl : Operand xs l 160 160)
    (h : List.Forall₂ (fun ys e => Operand ys e (Kind.commaPower + 1) Kind.commaPower) yss es) :
    Operand (xs ++ inParens (separated yss)) (.call l es) 160 right := by
  have hitems : List.Forall₂ ItemReads yss (es.map .argument) :=
    List.forall₂_map_right_iff.2 (h.imp fun _ _ => argument_reads)
  refine Operand.step (p := .leftParen) hl fun post ha _ => ?_
  rw [List.append_assoc] at ha ⊢
  exact .call (parenthesised_reads hitems ha)

/-! ### Functions -/

/-- The pieces are the statements of a block, before the brace that closes it. -/
def BlockReads (xs : List Piece) (inLoop : Bool) (ss : List Node) : Prop :=
  ∀ post, admissible (xs ++ .punct .rightBrace :: post) = true →
    Reads (.blockRest inLoop ss) (textOf (xs ++ .punct .rightBrace :: post)) (textOf post)

section Function

variable {body : List Node} {params : List Name}

theorem params_reads (params : List Name) :
    List.Forall₂ ItemReads (params.map fun x => [.text x.text]) ((params.map Name.text).map .param) := by
  rw [List.map_map, List.forall₂_map_left_iff, List.forall₂_map_right_iff, List.forall₂_same]
  exact fun name _ => param_reads name

theorem functionRest_reads (h : BlockReads xs false body)
    (ha : admissible (functionPieces params xs ++ post) = true) :
    ∃ cs₁ cs₂, Sees .operand (textOf (functionPieces params xs ++ post)) (.punct .leftParen) false cs₁ ∧
      Reads (.parenthesised ((params.map Name.text).map .param)) cs₁ cs₂ ∧
      Reads (.block false body) cs₂ (textOf post) := by
  unfold functionPieces at *
  rw [List.append_assoc, inParens_append, inBraces_append] at ha ⊢
  have hbody := admissible_of_append _ ha
  exact ⟨_, _, shows_punct (by decide) (by decide) _, parenthesised_reads (params_reads params) ha,
    .block (shows_punct (by decide) (by decide) _) (h post hbody)⟩

theorem named_reads (declared : Bool) (name : Name) (h : BlockReads xs false body)
    (ha : admissible (functionPieces params xs ++ post) = true) :
    Reads (.function declared (some name.text) (params.map Name.text) body)
      (textOf (.text name.text :: (functionPieces params xs ++ post))) (textOf post) := by
  obtain ⟨cs₁, cs₂, hs, hparams, hbody⟩ := functionRest_reads h ha
  exact .named (shows_name name _) hs hparams hbody

theorem Operand.function {left right : Nat} (name : Option Name) (h : BlockReads xs false body) :
    Operand (.word .function :: (name.toList.map (Piece.text ·.text) ++ functionPieces params xs))
      (.function (name.map Name.text) (params.map Name.text) body) left right := by
  refine Operand.start (shows_word _ _) (fun post ha _ => .function ?_) fun _ => rfl
  cases name with
  | some name => exact named_reads false name h ha
  | none =>
    obtain ⟨cs₁, cs₂, hs, hparams, hbody⟩ := functionRest_reads h ha
    exact .anonymous hs hparams hbody

end Function

/-! ### The ends of statements -/

/-- The tokens ahead are the same, up to the flag for line breaks. -/
def Resumes (cs' cs : List Char) : Prop :=
  ∀ k lb rest, Sees .operand cs k lb rest → ∃ lb', Sees .operand cs' k lb' rest

theorem resumes_refl (cs : List Char) : Resumes cs cs := fun _ lb _ h => ⟨lb, h⟩

theorem resumes_gap {gap : List Char} (cs : List Char) (hg : ∀ c ∈ gap, isBlank c = true) :
    Resumes (gap ++ cs) cs :=
  fun _ _ _ h => ⟨_, h.gap hg⟩

/-- The blank before the first piece does not matter. -/
theorem resumes_tail (ps : List Piece) : Resumes (textOf ps).tail (textOf ps) := by
  have hhead := head_textOf ps
  cases ht : textOf ps with
  | nil => exact resumes_refl _
  | cons c cs =>
    rw [ht] at hhead
    exact fun _ _ _ hs => hs.of_blank (hhead c rfl)

namespace Reads

variable {inLoop : Bool} {ss : List Node} {m : Nat}

theorem resume_expression (h : Reads (.expression m e) cs cs₁) (hr : Resumes cs' cs) :
    Reads (.expression m e) cs' cs₁ := by
  cases h with
  | expression hs ho hsuf =>
    obtain ⟨lb', hs'⟩ := hr _ _ _ hs
    exact .expression hs' ho hsuf

theorem resume_statement (h : Reads (.statement inLoop e) cs cs₁) (hr : Resumes cs' cs) :
    Reads (.statement inLoop e) cs' cs₁ := by
  cases h with
  | expressionStatement hs hk he hend =>
    obtain ⟨lb', hs'⟩ := hr _ _ _ hs
    exact .expressionStatement hs' hk (he.resume_expression hr) hend
  | opened hs ho =>
    obtain ⟨lb', hs'⟩ := hr _ _ _ hs
    exact .opened hs' ho

theorem resume_blockRest (h : Reads (.blockRest inLoop ss) cs cs₁) (hr : Resumes cs' cs) :
    Reads (.blockRest inLoop ss) cs' cs₁ := by
  cases h with
  | blockEnd hs =>
    obtain ⟨lb', hs'⟩ := hr _ _ _ hs
    exact .blockEnd hs'
  | blockMore hs hss => exact .blockMore (hs.resume_statement hr) hss

theorem resume_program (h : Reads (.program ss) cs cs₁) (hr : Resumes cs' cs) :
    ∃ cs₂, Reads (.program ss) cs' cs₂ := by
  cases h with
  | programEnd hs =>
    obtain ⟨lb', hs'⟩ := hr _ _ _ hs
    exact ⟨_, .programEnd hs'⟩
  | programMore hs hss => exact ⟨_, .programMore (hs.resume_statement hr) hss⟩

end Reads

/-- What the next token of the operator kind is behind a statement that ends so. -/
theorem ending_sees {e : Ending} (ha : admissible (.ending e :: post) = true) :
    ∃ k lb rest, Sees .operator (textOf (.ending e :: post)) k lb rest ∧ k.goesOn 0 lb = false ∧
      (k = .punct .semicolon ∧ rest = textOf post ∨
        k ≠ .punct .semicolon ∧ (lb || Parser.endsStatement k) = true ∧
          Resumes (textOf (.ending e :: post)) (textOf post)) := by
  obtain ⟨hadm, -⟩ := Bool.and_eq_true_iff.1 ha
  cases e with
  | semicolon => exact ⟨_, _, _, shows_operator .semicolon post, rfl, .inl ⟨rfl, rfl⟩⟩
  | lineBreak gap blank newline =>
    obtain ⟨a, hsees, hk⟩ := (Option.any_eq_true _ _).1 hadm
    simp only [ne_eq, decide_not, Bool.and_eq_true, Bool.not_eq_eq_eq_not, Bool.not_true,
      decide_eq_false_iff_not, Bool.or_eq_true, decide_eq_true_eq] at hk
    have hs : Sees .operator (textOf post) a.kind a.lineBreak a.rest := hsees
    have hgap := hs.gap blank
    rw [newline, Bool.true_or] at hgap
    refine ⟨a.kind, true, a.rest, ?_, ?_, .inr ⟨hk.1, rfl, ?_⟩⟩
    · rw [textOf_cons]
      exact hgap
    · rcases hk.2 with h | h <;> simp [Kind.goesOn, h]
    · rw [textOf_cons]
      exact resumes_gap _ blank
  | nothing =>
    obtain ⟨a, hsees, hk⟩ := (Option.any_eq_true _ _).1 hadm
    refine ⟨a.kind, a.lineBreak, a.rest, hsees, ?_, .inr ⟨?_, by simp [hk], resumes_refl _⟩⟩
    · generalize a.kind = k at hk
      unfold Parser.endsStatement at hk
      split at hk
      · rfl
      · rfl
      · cases hk
    · intro h
      rw [h] at hk
      cases hk

theorem ending_stops {e : Ending} (ha : admissible (.ending e :: post) = true) :
    Stops 0 (.ending e :: post) := by
  obtain ⟨k, lb, rest, hs, hk, -⟩ := ending_sees ha
  exact ⟨k, lb, rest, hs, hk⟩

theorem ending_reads {e : Ending} (ha : admissible (.ending e :: post) = true) :
    ∃ cs, Reads .ending (textOf (.ending e :: post)) cs ∧ Resumes cs (textOf post) := by
  obtain ⟨k, lb, rest, hs, -, ⟨rfl, rfl⟩ | ⟨hk, hends, hr⟩⟩ := ending_sees ha
  · exact ⟨_, .semicolon hs, resumes_refl _⟩
  · exact ⟨_, .inserted hs hk hends, hr⟩

theorem loopEnding_reads {e : Ending} (ha : admissible (.ending e :: post) = true) :
    ∃ cs, Reads .loopEnding (textOf (.ending e :: post)) cs ∧ Resumes cs (textOf post) := by
  obtain ⟨k, lb, rest, hs, -, ⟨rfl, rfl⟩ | ⟨hk, -, hr⟩⟩ := ending_sees ha
  · exact ⟨_, .loopSemicolon hs, resumes_refl _⟩
  · exact ⟨_, .loopBare hs hk, hr⟩

/-- What follows a statement can be scanned, and is no `else` that a conditional could take. -/
def Next (opens : Bool) (post : List Piece) : Prop :=
  ∃ k lb rest, Sees .operand (textOf post) k lb rest ∧ (opens = true → k ≠ .word .«else»)

theorem Next.mono {opens : Bool} (h : Next true post) : Next opens post := by
  obtain ⟨k, lb, rest, hs, hk⟩ := h
  exact ⟨k, lb, rest, hs, fun _ => hk rfl⟩

theorem next_word {w : Word} {opens : Bool} (hw : opens = true → w ≠ .«else») :
    Next opens (.word w :: post) :=
  ⟨_, _, _, shows_word w .operand post, fun h h' => hw h (Kind.word.inj h')⟩

/-- A `return` before the end of its statement hands back nothing. -/
theorem returnNothing_reads {e : Ending} {opens : Bool} (ha : admissible (.ending e :: post) = true)
    (hn : Next opens post) :
    Reads (.returnValue none) (textOf (.ending e :: post)) (textOf (.ending e :: post)) := by
  obtain ⟨k, lb, rest, hs, -⟩ := hn
  obtain ⟨hadm, -⟩ := Bool.and_eq_true_iff.1 ha
  cases e with
  | semicolon =>
    have hs : (Piece.punct .semicolon).Shows .operand (.punct .semicolon) :=
      shows_punct (by decide) (by decide)
    exact .returnNothing (hs post) rfl
  | lineBreak gap blank newline =>
    have hgap := hs.gap blank
    rw [newline, Bool.true_or] at hgap
    rw [textOf_cons]
    exact .returnNothing hgap rfl
  | nothing =>
    obtain ⟨a, hsees, hk⟩ := (Option.any_eq_true _ _).1 hadm
    have hs' : Sees .operator (textOf post) a.kind a.lineBreak a.rest := hsees
    refine .returnNothing (hs'.operand_of_operator ?_ ?_) (by simp [Kind.endsReturn, hk])
    · intro h
      rw [h] at hk
      cases hk
    · intro h
      rw [h] at hk
      cases hk

/-! ### Statements -/

/-- The pieces are a statement; it `opens` if it ends in a conditional that would take an `else`. -/
def StmtReads (xs : List Piece) (inLoop opens : Bool) (s : Node) : Prop :=
  ∀ post, admissible (xs ++ post) = true → Next opens post →
    ∃ cs, Reads (.statement inLoop s) (textOf (xs ++ post)) cs ∧ Resumes cs (textOf post)

/-- The pieces start with a token on the same line, and only `function` can be mistaken for the start
of another statement. -/
def Leads (xs : List Piece) : Prop :=
  ∃ x ys k, xs = x :: ys ∧ x.Shows .operand k ∧ (k.opensStatement = true → x = .word .function)

theorem Leads.append (h : Leads xs) (ys : List Piece) : Leads (xs ++ ys) := by
  obtain ⟨x, zs, k, rfl, hx, hk⟩ := h
  exact ⟨x, zs ++ ys, k, rfl, hx, hk⟩

theorem leads_inParens (xs : List Piece) : Leads (inParens xs) :=
  ⟨_, _, _, rfl, shows_punct (by decide) (by decide), fun h => by cases h⟩

theorem leads_wrap {flag : Bool} (h : Leads xs) : Leads (wrap flag xs) := by
  cases flag with
  | true => exact leads_inParens xs
  | false => exact h

/-- The pieces are an expression, or there is none. -/
def OptionReads (xs : List Piece) : Option Node → Prop
  | none => xs = []
  | some e => Operand xs e 1 0 ∧ Leads xs

theorem condition_reads (h : Operand xs e 1 0) (ha : admissible (inParens xs ++ post) = true) :
    Reads (.condition e) (textOf (inParens xs ++ post)) (textOf post) := by
  rw [inParens_append] at ha ⊢
  have hs : (Piece.punct .leftParen).Shows .operand (.punct .leftParen) :=
    shows_punct (by decide) (by decide)
  exact .condition (hs _) (h.reads ha (stops_punct (by decide))) (shows_operator _ _)

theorem optional_reads {o : Option Node} {p : Punct} (h : OptionReads xs o)
    (hp : p = .semicolon ∨ p = .rightParen) (ha : admissible (xs ++ .punct p :: post) = true) :
    Reads (.optional (.punct p) o) (textOf (xs ++ .punct p :: post)) (textOf (.punct p :: post)) := by
  cases o with
  | none =>
    subst h
    refine .absent (shows_punct ?_ ?_ post)
    · rcases hp with rfl | rfl <;> decide
    · rcases hp with rfl | rfl <;> decide
  | some e =>
    have he := h.1.reads ha (stops_punct (by rcases hp with rfl | rfl <;> decide))
    obtain ⟨k, lb, rest, hs, hk⟩ := he.expression_starts
    refine .present hs ?_ he
    rintro rfl
    rcases hp with rfl | rfl <;> cases hk

theorem forInit_reads {o : Option Node} (h : OptionReads xs o)
    (ha : admissible (xs ++ .punct .semicolon :: post) = true) :
    Reads (.forInit o) (textOf (xs ++ .punct .semicolon :: post)) (textOf (.punct .semicolon :: post)) := by
  have ho := optional_reads h (.inl rfl) ha
  cases o with
  | none =>
    subst h
    exact .forOther (shows_punct (by decide) (by decide) post) Kind.noConfusion ho
  | some e =>
    have he := h.1.reads ha (stops_punct (by decide))
    obtain ⟨k, lb, rest, hs, hk⟩ := he.expression_starts
    exact .forOther hs (by rintro rfl; cases hk) ho

theorem forVars_reads {pss : List (List Piece)} {ds : List (String × Option Node)}
    (hne : ds ≠ []) (h : List.Forall₂ ItemReads pss (ds.map .declarator))
    (post : List Piece) (ha : admissible ((.word .var :: separated pss) ++ .punct .semicolon :: post) = true) :
    Reads (.forInit (some (.varList ds))) (textOf ((.word .var :: separated pss) ++ .punct .semicolon :: post))
      (textOf (.punct .semicolon :: post)) :=
  .forVar (shows_word _ _ _) (items_reads h (by simpa using hne) ha (stops_punct (by decide)))

namespace StmtReads

variable {inLoop opens : Bool} {s s' : Node} {en : Ending} {o o₁ o₂ o₃ : Option Node} {zs : List Piece}

/-- Statements that start with a word of their own. -/
theorem word {w : Word} (h : ∀ post, admissible (ys ++ post) = true → Next opens post →
      ∃ cs, Reads (.opened inLoop (.word w) s) (textOf (ys ++ post)) cs ∧ Resumes cs (textOf post)) :
    StmtReads (.word w :: ys) inLoop opens s := by
  intro post ha hn
  obtain ⟨cs, ho, hr⟩ := h post ha hn
  exact ⟨cs, .opened (shows_word w _ _) ho, hr⟩

theorem expression (h : Operand xs e 1 0) (hlead : Leads xs) (hf : opensFunction xs = false) :
    StmtReads (xs ++ [.ending en]) inLoop opens e := by
  intro post ha _
  rw [List.append_assoc, List.singleton_append] at ha ⊢
  have hend := admissible_of_append xs ha
  obtain ⟨cs, hreads, hr⟩ := ending_reads hend
  have he := h.reads ha (ending_stops hend)
  obtain ⟨x, zs, k, rfl, hx, hk⟩ := hlead
  refine ⟨cs, .expressionStatement (hx _) ?_ he hreads, hr⟩
  cases hopens : k.opensStatement with
  | false => rfl
  | true => rw [hk hopens] at hf; cases hf

theorem empty : StmtReads [.punct .semicolon] inLoop opens .empty := by
  intro post _ _
  exact ⟨_, .opened (shows_punct (by decide) (by decide) post) .empty, resumes_refl _⟩

theorem block {ss : List Node} (h : BlockReads xs inLoop ss) :
    StmtReads (inBraces xs) inLoop opens (.block ss) := by
  intro post ha _
  rw [inBraces_append] at ha ⊢
  exact ⟨_, .opened (shows_punct (by decide) (by decide) _) (.blockStatement (h post ha)), resumes_refl _⟩

theorem varList {pss : List (List Piece)} {ds : List (String × Option Node)}
    (hne : ds ≠ [])
    (h : List.Forall₂ ItemReads pss (ds.map .declarator)) :
    StmtReads (.word .var :: (separated pss ++ [.ending en])) inLoop opens (.varList ds) := by
  refine word fun post ha _ => ?_
  rw [List.append_assoc, List.singleton_append] at ha ⊢
  have hend := admissible_of_append _ ha
  obtain ⟨cs, hreads, hr⟩ := ending_reads hend
  exact ⟨cs, .varList (items_reads h (by simpa using hne) ha (ending_stops hend)) hreads, hr⟩

theorem returning (h : OptionReads xs o) :
    StmtReads (.word .«return» :: (xs ++ [.ending en])) inLoop opens (.returning o) := by
  refine word fun post ha hn => ?_
  rw [List.append_assoc, List.singleton_append] at ha ⊢
  have hend := admissible_of_append xs ha
  obtain ⟨cs, hreads, hr⟩ := ending_reads hend
  cases o with
  | none =>
    subst h
    exact ⟨cs, .returning (returnNothing_reads ha hn) hreads, hr⟩
  | some e =>
    obtain ⟨he, x, zs, k, rfl, hx, -⟩ := h
    have he := he.reads ha (ending_stops hend)
    obtain ⟨k', lb, rest, hs, hstarts⟩ := he.expression_starts
    have hk : k' = k := (hs.unique (hx _)).1
    subst hk
    refine ⟨cs, .returning (.returnSome (hx _) ?_ he) hreads, hr⟩
    cases k' with
    | punct p => cases p <;> first | rfl | cases hstarts
    | eof => cases hstarts
    | _ => rfl

theorem jump {w : Word} (h : ∀ cs cs', Reads .ending cs cs' → Reads (.opened inLoop (.word w) s) cs cs') :
    StmtReads [.word w, .ending en] inLoop opens s := by
  refine word fun post ha _ => ?_
  obtain ⟨cs, hreads, hr⟩ := ending_reads ha
  exact ⟨cs, h _ _ hreads, hr⟩

theorem branch (hc : Operand xs e 1 0) (hs : StmtReads ys inLoop opens s) :
    StmtReads (.word .«if» :: (inParens xs ++ ys)) inLoop true (.branch e s none) := by
  refine word fun post ha hn => ?_
  rw [List.append_assoc] at ha ⊢
  have hys := admissible_of_append _ ha
  obtain ⟨cs, hreads, hr⟩ := hs post hys hn.mono
  obtain ⟨k, lb, rest, hsees, hk⟩ := hn
  obtain ⟨lb', hsees'⟩ := hr _ _ _ hsees
  exact ⟨cs, .branch (condition_reads hc ha) hreads hsees' (hk rfl), hr⟩

theorem branchElse (hc : Operand xs e 1 0) (hs : StmtReads ys inLoop false s)
    (hs' : StmtReads zs inLoop opens s') :
    StmtReads (.word .«if» :: (inParens xs ++ (ys ++ .word .«else» :: zs))) inLoop opens
      (.branch e s (some s')) := by
  refine word fun post ha hn => ?_
  rw [List.append_assoc, List.append_assoc, List.cons_append] at ha ⊢
  have hys := admissible_of_append _ ha
  have hzs := admissible_of_append _ hys
  have helse : Next false (.word .«else» :: (zs ++ post)) := next_word fun h => by cases h
  obtain ⟨cs, hreads, hr⟩ := hs _ hys helse
  obtain ⟨cs', hreads', hr'⟩ := hs' post hzs hn
  obtain ⟨lb, hsees⟩ := hr _ _ _ (shows_word .«else» .operand (zs ++ post))
  exact ⟨cs', .branchElse (condition_reads hc ha) hreads hsees hreads', hr'⟩

theorem whileLoop (hc : Operand xs e 1 0) (hs : StmtReads ys true opens s) :
    StmtReads (.word .while :: (inParens xs ++ ys)) inLoop opens (.whileLoop e s) := by
  refine word fun post ha hn => ?_
  rw [List.append_assoc] at ha ⊢
  have hys := admissible_of_append _ ha
  obtain ⟨cs, hreads, hr⟩ := hs post hys hn
  exact ⟨cs, .whileLoop (condition_reads hc ha) hreads, hr⟩

theorem doWhileLoop {opens' : Bool} (hc : Operand xs e 1 0) (hs : StmtReads ys true opens' s) :
    StmtReads (.word .«do» :: (ys ++ .word .while :: (inParens xs ++ [.ending en]))) inLoop opens
      (.doWhileLoop e s) := by
  refine word fun post ha _ => ?_
  rw [List.append_assoc, List.cons_append, List.append_assoc, List.singleton_append] at ha ⊢
  have hxs := admissible_of_append ys ha
  have hend := admissible_of_append (inParens xs) hxs
  obtain ⟨cs, hreads, hr⟩ := hs _ ha (next_word fun _ => by decide)
  obtain ⟨lb, hsees⟩ := hr _ _ _ (shows_word .while .operand _)
  obtain ⟨cs', hreads', hr'⟩ := loopEnding_reads hend
  exact ⟨cs', .doWhileLoop hreads hsees (condition_reads hc hxs) hreads', hr'⟩

/-- A loop with three parts, the first of which is read by any rule for it. -/
theorem forLoop {us : List Piece} (h₁ : ∀ post, admissible (xs ++ .punct .semicolon :: post) = true →
      Reads (.forInit o₁) (textOf (xs ++ .punct .semicolon :: post)) (textOf (.punct .semicolon :: post)))
    (h₂ : OptionReads ys o₂) (h₃ : OptionReads zs o₃) (hs : StmtReads us true opens s) :
    StmtReads (.word .«for» :: (inParens (xs ++ .punct .semicolon :: (ys ++ .punct .semicolon :: zs)) ++ us))
      inLoop opens (.forLoop o₁ o₂ o₃ s) := by
  refine word fun post ha hn => ?_
  rw [List.append_assoc, inParens_append] at ha ⊢
  simp only [List.append_assoc, List.cons_append] at ha ⊢
  have hxs : admissible (xs ++ _) = true := ha
  have hys := admissible_of_append xs hxs
  have hzs := admissible_of_append ys hys
  have hus := admissible_of_append zs hzs
  obtain ⟨cs, hreads, hr⟩ := hs post hus hn
  have hopen : (Piece.punct .leftParen).Shows .operand (.punct .leftParen) :=
    shows_punct (by decide) (by decide)
  exact ⟨cs, .forLoop (hopen _) (h₁ _ hxs) (shows_operator _ _) (optional_reads h₂ (.inl rfl) hys)
    (shows_operator _ _) (optional_reads h₃ (.inr rfl) hzs) (shows_operator _ _) hreads, hr⟩

theorem declaration {body : List Node} {params : List Name} (name : Name) (h : BlockReads xs false body) :
    StmtReads (.word .function :: .text name.text :: functionPieces params xs) inLoop opens
      (.declaration (some name.text) (params.map Name.text) body) := by
  refine word fun post ha _ => ?_
  exact ⟨_, .declaration (named_reads true name h ha), resumes_refl _⟩

end StmtReads

/-! ### Lists of statements -/

variable {inLoop opens : Bool} {s : Node} {ss : List Node}

theorem BlockReads.nil : BlockReads [] inLoop [] :=
  fun post _ => .blockEnd (shows_punct (by decide) (by decide) post)

theorem BlockReads.cons (hs : StmtReads xs inLoop opens s) (hss : BlockReads ys inLoop ss) :
    BlockReads (xs ++ ys) inLoop (s :: ss) := by
  intro post ha
  rw [List.append_assoc] at ha ⊢
  have hrest := hss post (admissible_of_append xs ha)
  obtain ⟨k, lb, rest, hsees, -, hk⟩ := hrest.blockRest_starts
  obtain ⟨cs, hreads, hr⟩ := hs _ ha ⟨k, lb, rest, hsees, fun _ => hk⟩
  exact .blockMore hreads (hrest.resume_blockRest hr)

/-- The pieces are the statements of a program. -/
def ProgramReads (xs : List Piece) (ss : List Node) : Prop :=
  admissible xs = true → ∃ cs, Reads (.program ss) (textOf xs) cs

theorem ProgramReads.nil : ProgramReads [] [] := by
  intro _
  have hs : Sees .operand [] .eof false [] := Sees.eof (by simp)
  exact ⟨_, .programEnd hs⟩

theorem ProgramReads.cons (hs : StmtReads xs false opens s) (hss : ProgramReads ys ss) :
    ProgramReads (xs ++ ys) (s :: ss) := by
  intro ha
  obtain ⟨cs, hrest⟩ := hss (admissible_of_append xs ha)
  obtain ⟨k, lb, rest, hsees, hk⟩ := hrest.program_starts
  obtain ⟨cs₁, hreads, hr⟩ := hs _ ha ⟨k, lb, rest, hsees, fun _ => hk⟩
  obtain ⟨cs₂, hrest'⟩ := hrest.resume_program hr
  exact ⟨cs₂, .programMore hreads hrest'⟩

end Scriptlet
