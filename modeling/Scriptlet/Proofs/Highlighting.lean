import Scriptlet.Console.Highlight
import Scriptlet.Proofs.TokenText

/-!
# Highlighted lines

Highlighting writes the characters of the line in their order and control sequences around them. The segments make up
the line (`flatMap_text_segments`): a word is held back until a character that is no part of it or the end of the line
comes, and no word is held back inside of a string. A terminal shows each segment in its style: no colour is opened
while another runs, and none is left running (`highlight_adds_styles`).
-/

namespace Scriptlet.Console

/-! ### What a terminal reads -/

/-- What is written to a terminal: a control sequence with its number, or a character. -/
inductive Item where
  | code (digits : List Char)
  | char (c : Char)
  deriving DecidableEq, Repr

/-- The number of the control sequence that the text starts with, and what stands behind it. -/
def control? : List Char → Option (List Char × List Char)
  | '\x1b' :: '[' :: cs =>
    match cs.takeWhile Char.isDigit, cs.dropWhile Char.isDigit with
    | d :: digits, 'm' :: rest => some (d :: digits, rest)
    | _, _ => none
  | _ => none

theorem length_lt_of_control? {cs digits rest : List Char} (h : control? cs = some (digits, rest)) :
    rest.length < cs.length := by
  unfold control? at h
  split at h
  next cs =>
    split at h
    next d digits' rest' htake hdrop =>
      obtain ⟨-, rfl⟩ := Prod.mk.inj (Option.some.inj h)
      have := (List.dropWhile_sublist (l := cs) Char.isDigit).length_le
      rw [hdrop] at this
      simp only [List.length_cons] at this ⊢
      omega
    · cases h
  · cases h

/-- The control sequences and characters of a text. -/
def items (cs : List Char) : List Item :=
  match h : control? cs with
  | some (digits, rest) =>
    have := length_lt_of_control? h
    .code digits :: items rest
  | none =>
    match cs with
    | [] => []
    | c :: cs => .char c :: items cs
termination_by cs.length

/-- The character that an item is, if it is one. -/
def Item.char? : Item → Option Char
  | .code _ => none
  | .char c => some c

/-- The text without its control sequences. -/
def strip (cs : List Char) : List Char := (items cs).filterMap Item.char?

/-- The colour with the given number. -/
def Colour.ofCode? (digits : List Char) : Option Colour :=
  [.red, .green, .yellow, .blue, .magenta, .cyan, .white, .brightGreen, .brightYellow, .brightCyan].find?
    fun c : Colour => c.code.toList = digits

/-- The weight with the given number. -/
def Weight.ofCode? (digits : List Char) : Option Weight :=
  [.bold, .dimmed].find? fun w : Weight => w.code.toList = digits

/-- The style that runs behind a control sequence. A weight is opened while no style runs and a colour while no other
colour does; 39 closes the colour, and 0 the weight once the colour is closed. -/
def Style.change? (running : Style) (digits : List Char) : Option Style :=
  match running with
  | ⟨some _, w⟩ => if digits = ['3', '9'] then some ⟨none, w⟩ else none
  | ⟨none, some w⟩ =>
    if digits = ['0'] then some .plain else (Colour.ofCode? digits).map fun c => ⟨some c, some w⟩
  | ⟨none, none⟩ => (Colour.ofCode? digits).map .coloured <|> (Weight.ofCode? digits).map fun w => ⟨none, some w⟩

/-- What a terminal shows from the given running style on: the characters, each in the style it is shown in. There is
no answer if a style is opened in one that it does not nest in, closed without being open, or left open at the end. -/
def display? (running : Style) : List Item → Option (List (Style × Char))
  | [] => if running = .plain then some [] else none
  | .code digits :: items => (running.change? digits).bind (display? · items)
  | .char c :: items => (display? running items).map ((running, c) :: ·)

theorem change?_colour (w : Option Weight) (c : Colour) :
    Style.change? ⟨none, w⟩ c.code.toList = some ⟨some c, w⟩ := by
  obtain _ | _ | _ := w <;> cases c <;> decide

theorem change?_weight (w : Weight) : Style.change? .plain w.code.toList = some ⟨none, some w⟩ := by
  cases w <;> decide

/-! ### Items of a text in a style -/

section

variable {cs rest text digits : List Char} {c : Char}

theorem control?_cons (hc : c ≠ '\x1b') : control? (c :: cs) = none := by
  unfold control?
  split
  next heq => exact absurd (List.cons.inj heq).1 hc
  · rfl

@[simp] theorem items_nil : items [] = [] := by
  rw [items]
  rfl

theorem items_of_control? (h : control? cs = some (digits, rest)) : items cs = .code digits :: items rest := by
  rw [items]
  split
  next h' =>
    obtain ⟨rfl, rfl⟩ := Prod.mk.inj (Option.some.inj (h'.symm.trans h))
    rfl
  next h' => cases h'.symm.trans h

theorem items_cons (hc : c ≠ '\x1b') : items (c :: cs) = .char c :: items cs := by
  rw [items]
  split
  next h => cases (control?_cons hc).symm.trans h
  · rfl

theorem items_append (htext : '\x1b' ∉ text) (rest : List Char) :
    items (text ++ rest) = text.map .char ++ items rest := by
  induction text with
  | nil => rfl
  | cons c text ih =>
    rw [List.mem_cons, not_or] at htext
    rw [List.cons_append, items_cons (Ne.symm htext.1), ih htext.2, List.map_cons, List.cons_append]

theorem items_control (code : String) (hne : code.toList ≠ []) (hdigits : code.toList.all Char.isDigit)
    (rest : List Char) : items ((control code).toList ++ rest) = .code code.toList :: items rest := by
  have htext : (control code).toList ++ rest = '\x1b' :: '[' :: (code.toList ++ 'm' :: rest) := by
    simp [control]
  have hall : ∀ c ∈ code.toList, c.isDigit = true := List.all_eq_true.1 hdigits
  refine items_of_control? ?_
  rw [htext, control?]
  -- the digits end at the letter, which is none
  have htake : (code.toList ++ 'm' :: rest).takeWhile Char.isDigit = code.toList := by
    rw [List.takeWhile_append_of_pos hall, List.takeWhile_cons_of_neg (by decide), List.append_nil]
  have hdrop : (code.toList ++ 'm' :: rest).dropWhile Char.isDigit = 'm' :: rest := by
    rw [List.dropWhile_append_of_pos hall, List.dropWhile_cons_of_neg (by decide)]
  rw [htake, hdrop]
  cases h : code.toList with
  | nil => exact absurd h hne
  | cons d digits => rfl

/-- The control sequences that open a style, the outer one first. -/
def Style.opening (s : Style) : List Item :=
  (s.weight.map fun w => .code w.code.toList).toList ++ (s.colour.map fun c => .code c.code.toList).toList

/-- The control sequences that close a style, the inner one first. -/
def Style.closing (s : Style) : List Item :=
  (s.colour.map fun _ => .code ['3', '9']).toList ++ (s.weight.map fun _ => .code ['0']).toList

theorem items_colour (c : Colour) (rest : List Char) :
    items ((control c.code).toList ++ rest) = .code c.code.toList :: items rest := by
  cases c <;> exact items_control _ (by decide) (by decide) rest

theorem items_weight (w : Weight) (rest : List Char) :
    items ((control w.code).toList ++ rest) = .code w.code.toList :: items rest := by
  cases w <;> exact items_control _ (by decide) (by decide) rest

/-- A text in a style stands between the control sequences of the style. -/
theorem items_apply (s : Style) {text : String} (htext : '\x1b' ∉ text.toList) (rest : List Char) :
    items ((s.apply text).toList ++ rest) =
      s.opening ++ text.toList.map .char ++ s.closing ++ items rest := by
  have hcolour := items_control "39" (by decide) (by decide)
  have hweight := items_control "0" (by decide) (by decide)
  obtain ⟨colour, weight⟩ := s
  cases colour <;> cases weight <;>
    simp [Style.apply, Style.opening, Style.closing, items_colour, items_weight, items_append htext, hcolour, hweight]

end

/-! ### What is shown of a text in a style -/

section

variable {s : Style}

theorem display?_opening (s : Style) (rest : List Item) : display? .plain (s.opening ++ rest) = display? s rest := by
  obtain ⟨colour, weight⟩ := s
  have hcolour : ∀ w c, display? ⟨none, w⟩ (.code c.code.toList :: rest) = display? ⟨some c, w⟩ rest := by
    intro w c
    rw [display?, change?_colour, Option.bind_some]
  have hweight : ∀ w items, display? .plain (.code w.code.toList :: items) = display? ⟨none, some w⟩ items := by
    intro w items
    rw [display?, change?_weight, Option.bind_some]
  cases weight with
  | none =>
    cases colour with
    | none => rfl
    | some c => exact hcolour none c
  | some w =>
    refine (hweight w _).trans ?_
    cases colour with
    | none => rfl
    | some c => exact hcolour (some w) c

theorem display?_closing (s : Style) (rest : List Item) : display? s (s.closing ++ rest) = display? .plain rest := by
  obtain ⟨_ | c, _ | w⟩ := s <;> rfl

theorem display?_text (s : Style) (text : List Char) (rest : List Item) :
    display? s (text.map .char ++ rest) = (display? s rest).map (text.map (s, ·) ++ ·) := by
  induction text with
  | nil => simp
  | cons c text ih => simp [display?, ih, Function.comp_def]

/-- What is shown are the characters in their order. -/
theorem filterMap_char?_of_display? {running : Style} {its : List Item} {shown : List (Style × Char)}
    (h : display? running its = some shown) : its.filterMap Item.char? = shown.map Prod.snd := by
  induction its generalizing running shown with
  | nil =>
    rw [display?] at h
    split at h <;> cases h
    rfl
  | cons item its ih =>
    cases item with
    | code digits =>
      obtain ⟨running', -, hrest⟩ := Option.bind_eq_some_iff.1 h
      exact ih hrest
    | char c =>
      obtain ⟨shown, hrest, rfl⟩ := Option.map_eq_some_iff.1 h
      exact congrArg (c :: ·) (ih hrest)

/-- A text in a style is shown in it, and no style runs behind it. -/
theorem display?_styled (s : Style) (text : List Char) (rest : List Item) :
    display? .plain (s.opening ++ text.map .char ++ s.closing ++ rest)
      = (display? .plain rest).map (text.map (s, ·) ++ ·) := by
  rw [List.append_assoc, List.append_assoc, display?_opening, display?_text, display?_closing]

end

/-! ### Words -/

section

open Token

/-- The words that the console lists are those that the scanner knows. -/
theorem mem_keywords_iff {name : String} : name ∈ keywords ↔ ∃ w : Word, Kind.ofWord? name = some (.word w) := by
  constructor
  · have hall : ∀ name ∈ keywords, (Kind.ofWord? name).any (fun k => k.isKeyword || k.isReserved) = true := by decide
    intro hname
    obtain ⟨k, hk, hword⟩ := (Option.any_eq_true ..).1 (hall name hname)
    cases k with
    | word w => exact ⟨w, hk⟩
    | _ => cases hword
  · rintro ⟨w, hw⟩
    obtain rfl := Option.some.inj (Kind.spelling?_of_ofWord? hw)
    cases w <;> decide

/-- A text is bold if the scanner reads it as a word, and only then. -/
theorem wordStyle_eq_bold_iff {text : List Char} :
    wordStyle text = .bold .magenta ↔ ∃ w : Word, Kind.ofWord? (String.ofList text) = some (.word w) := by
  rw [← mem_keywords_iff, wordStyle]
  split_ifs with hword
  · exact iff_of_true rfl (List.contains_iff_mem.1 hword)
  all_goals exact iff_of_false nofun (mt List.contains_iff_mem.2 hword)

end

/-! ### The segments of a line -/

section

variable {segs : List Segment} {line : List Char}

theorem flatMap_text_wordSegment (word : List Char) : (wordSegment word).flatMap Segment.text = word := by
  unfold wordSegment
  split
  next h => exact (List.isEmpty_iff.1 h).symm
  · simp

/-- Inside of a string no word is held back, and outside the word comes before the rest of the line. -/
theorem flatMap_text_segmentsFrom {quote : Option Char} {word : List Char} (hword : quote.isSome → word = [])
    (cs : List Char) : (segmentsFrom quote word cs).flatMap Segment.text = word ++ cs := by
  induction cs generalizing quote word with
  | nil => rw [segmentsFrom, flatMap_text_wordSegment, List.append_nil]
  | cons c cs ih =>
    cases quote with
    | some q =>
      obtain rfl := hword rfl
      simp only [segmentsFrom]
      rw [List.flatMap_cons, ih fun _ => rfl]
      simp
    | none =>
      simp only [segmentsFrom]
      -- a character outside of words ends the word, whether it opens a string or not
      split
      · rw [ih fun h => by cases h]
        simp
      · rw [List.flatMap_append, flatMap_text_wordSegment, List.flatMap_cons, ih fun _ => rfl]
        simp

theorem flatMap_text_segments (line : List Char) : (segments line).flatMap Segment.text = line := by
  unfold segments
  split
  · simp
  · exact flatMap_text_segmentsFrom (fun _ => rfl) line

variable (hesc : ∀ s ∈ segs, '\x1b' ∉ s.text)
include hesc

theorem items_render : items (segs.flatMap fun s => s.render.toList)
    = segs.flatMap fun s => s.style.opening ++ s.text.map .char ++ s.style.closing := by
  induction segs with
  | nil => exact items_nil
  | cons s segs ih =>
    rw [List.forall_mem_cons] at hesc
    rw [List.flatMap_cons, Segment.render, items_apply s.style (by simpa using hesc.1), ih hesc.2, List.flatMap_cons,
      String.toList_ofList]

theorem display?_render : display? .plain (items (segs.flatMap fun s => s.render.toList))
    = some (segs.flatMap fun s => s.text.map (s.style, ·)) := by
  rw [items_render hesc]
  clear hesc
  induction segs with
  | nil => rfl
  | cons s segs ih => rw [List.flatMap_cons, display?_styled, ih, Option.map_some, List.flatMap_cons]

end

theorem toList_highlight (line : String) :
    (highlight line).toList = (segments line.toList).flatMap fun s => s.render.toList := by
  rw [highlight, String.toList_join, List.flatMap_map]

/-- Without its control sequences, a highlighted line is the line, if there is no escape in that. A terminal shows each
segment of the line in the segment's style; that it shows anything says that the styles are closed in their turn. -/
theorem highlight_adds_styles (line : String) (hesc : '\x1b' ∉ line.toList) :
    strip (highlight line).toList = line.toList ∧
      display? .plain (items (highlight line).toList)
        = some ((segments line.toList).flatMap fun s => s.text.map (s.style, ·)) ∧
      (segments line.toList).flatMap Segment.text = line.toList := by
  have hline := flatMap_text_segments line.toList
  have hsegs : ∀ s ∈ segments line.toList, '\x1b' ∉ s.text := by
    intro s hs hmem
    exact hesc (hline ▸ List.mem_flatMap.2 ⟨s, hs, hmem⟩)
  have hshown := display?_render hsegs
  rw [← toList_highlight] at hshown
  refine ⟨?_, hshown, hline⟩
  calc strip (highlight line).toList
      = ((segments line.toList).flatMap fun s => s.text.map (s.style, ·)).map Prod.snd :=
        filterMap_char?_of_display? hshown
    _ = (segments line.toList).flatMap Segment.text := by simp [List.map_flatMap, Function.comp_def]
    _ = line.toList := hline

theorem highlight_adds_styles_condition :
    let line := "if (a) 'é"
    '\x1b' ∉ line.toList ∧ strip (highlight line).toList = line.toList ∧
      display? .plain (items (highlight line).toList) =
        some ("if".toList.map (.bold .magenta, ·) ++ [(.plain, ' '), (.coloured .yellow, '('), (.plain, 'a'),
          (.coloured .yellow, ')'), (.plain, ' '), (.coloured .green, '\''), (.coloured .green, 'é')]) := by
  have hesc : '\x1b' ∉ "if (a) 'é".toList := by decide
  obtain ⟨hstrip, hshown, -⟩ := highlight_adds_styles "if (a) 'é" hesc
  exact ⟨hesc, hstrip, hshown.trans (by decide +kernel)⟩

end Scriptlet.Console
