import Scriptlet.Proofs.DecimalRounding
import Scriptlet.Proofs.NumericGrammar
import Scriptlet.Proofs.ShortestDecimal
import Scriptlet.Number.Layout

/-!
# Numbers survive being written

The text of a number is a decimal literal that denotes its shortest decimal exactly, whatever the layout of
the digits around the point. The shortest decimal rounds to the number, and so does the literal, since
rounding depends on nothing but the number that a literal denotes.
-/

namespace Scriptlet

open Text Number

namespace Number

open Float.Model UnpackedFloat

variable {m : Nat} {e x : Int} {t whole fraction exp ds : List Char} {l : Literal}

/-! ### What literals denote -/

/-- The number that a literal denotes. -/
def Literal.value (l : Literal) : ℚ :=
  natOfDigits (l.whole ++ l.fraction) * 10 ^ (l.exponent - l.fraction.length)

/-- What may stand behind the digits of a literal: nothing, or an exponent with a sign. -/
inductive Exponent : List Char → Int → Prop where
  | none : Exponent [] 0
  | positive {ds : List Char} : ds ≠ [] → (∀ c ∈ ds, c.isDigit = true) →
      Exponent ('e' :: '+' :: ds) (exponentDigits ds)
  | negative {ds : List Char} : ds ≠ [] → (∀ c ∈ ds, c.isDigit = true) →
      Exponent ('e' :: '-' :: ds) (-(exponentDigits ds : Int))

namespace Exponent

theorem mem (h : Exponent exp x) : exp ∈ Form.exponent := by
  rw [Form.mem_exponent]
  cases h with
  | none => exact .inl rfl
  | positive hne hds => exact .inr ⟨'e', ['+'], _, rfl, .inl rfl, Form.mem_sign.2 (.inr (.inl rfl)), hne, hds⟩
  | negative hne hds => exact .inr ⟨'e', ['-'], _, rfl, .inl rfl, Form.mem_sign.2 (.inr (.inr rfl)), hne, hds⟩

theorem value (h : Exponent exp x) : exponentValue exp = x := by
  cases h <;> rfl

end Exponent

theorem literal?_whole (hne : whole ≠ []) (hw : ∀ c ∈ whole, c.isDigit = true) (hx : Exponent exp x) :
    literal? (whole ++ exp) = some ⟨whole, [], x⟩ := by
  have h := literal?_append hw (Form.mem_fraction.2 (.inl rfl)) hx.mem (.inl hne)
  rwa [hx.value] at h

theorem literal?_fraction (hne : whole ≠ []) (hw : ∀ c ∈ whole, c.isDigit = true)
    (hf : ∀ c ∈ fraction, c.isDigit = true) (hx : Exponent exp x) :
    literal? (whole ++ '.' :: (fraction ++ exp)) = some ⟨whole, fraction, x⟩ := by
  have h := literal?_append hw (Form.mem_fraction.2 (.inr ⟨fraction, rfl, hf⟩)) hx.mem (.inl hne)
  rwa [hx.value] at h

theorem natOfDigits_toDigits (n : Nat) : natOfDigits (Nat.toDigits 10 n) = n := Nat.ofDigitChars_ten_toDigits

theorem natOfDigits_replicate (n : Nat) : natOfDigits (List.replicate n '0') = 0 :=
  Nat.ofDigitChars_replicate_zero.trans (Nat.mul_zero _)

theorem natOfDigits_dropWhile (ds : List Char) : natOfDigits (ds.dropWhile (· == '0')) = natOfDigits ds := by
  induction ds with
  | nil => rfl
  | cons c ds ih =>
    by_cases hc : c = '0'
    · subst hc
      rw [List.dropWhile_cons_of_pos (by decide), ih]
      rfl
    · rw [List.dropWhile_cons_of_neg (by simpa using hc)]

theorem pow_le_natOfDigits {c : Char} (hc : c.isDigit = true) (hne : c ≠ '0') (ds : List Char) :
    10 ^ ds.length ≤ natOfDigits (c :: ds) := by
  have hpos : 1 ≤ natOfDigits [c] := by
    simp only [natOfDigits, List.foldl_cons, List.foldl_nil, digitValue]
    have hle : '0'.toNat ≤ c.toNat := by
      simp only [Char.isDigit, Bool.and_eq_true, decide_eq_true_eq] at hc
      exact hc.1
    have hne' : c.toNat ≠ '0'.toNat := fun h => hne (Char.toNat_inj.1 h)
    omega
  rw [← List.singleton_append, natOfDigits_append]
  exact (Nat.le_mul_of_pos_left _ hpos).trans (Nat.le_add_right _ _)

/-- The value of a literal from its first digit that is not zero. -/
theorem Literal.value_eq (l : Literal) :
    l.value = natOfDigits l.digits * 10 ^ (l.exponent - l.fraction.length) := by
  rw [value, digits, natOfDigits_dropWhile]

/-- A literal that rounds to a double has no more digits before the point than the largest one. -/
theorem Literal.point_le (hd : ∀ c ∈ l.whole ++ l.fraction, c.isDigit = true) (hc : Canonical m e)
    (hr : Rounds l.value m e) (hne : l.digits ≠ []) : l.digits.length + (l.exponent - l.fraction.length) ≤ 309 := by
  obtain ⟨c, cs, hcs⟩ := List.exists_cons_of_ne_nil hne
  have hfirst : c ≠ '0' := by
    have hnot := List.head?_dropWhile_not (· == '0') (l.whole ++ l.fraction)
    rw [show (l.whole ++ l.fraction).dropWhile (· == '0') = c :: cs from hcs] at hnot
    simpa using hnot
  have hdigit : c.isDigit = true :=
    hd c ((List.dropWhile_suffix (· == '0')).subset (hcs.symm ▸ List.mem_cons_self : c ∈ l.digits))
  have hle : (10 : ℚ) ^ cs.length ≤ natOfDigits l.digits := by
    rw [hcs]
    exact_mod_cast pow_le_natOfDigits hdigit hfirst cs
  have hpow : (10 : ℚ) ^ (cs.length + (l.exponent - l.fraction.length) : Int) ≤ l.value := by
    rw [zpow_add₀ (by norm_num), zpow_natCast, l.value_eq]
    gcongr
  have hlt := hc.exponent_lt hr hpow
  rw [hcs, List.length_cons]
  push_cast
  omega

/-- A literal is read as the double that is nearest to what it denotes. -/
theorem Literal.unpack_toFloat (hd : ∀ c ∈ l.whole ++ l.fraction, c.isDigit = true) (hc : Canonical m e)
    (hr : Rounds l.value m e) : l.toFloat.toModel.unpack = .finite .positive m e hc.pos := by
  have hguard : ¬ (l.digits ≠ [] ∧ 309 < l.digits.length + (l.exponent - l.fraction.length)) := fun h =>
    absurd h.2 (not_lt.2 (point_le hd hc hr h.1))
  have hne : natOfDigits l.digits ≠ 0 := fun h0 => by
    have hpos : (0 : ℚ) < l.value := (zpow_pos two_pos _).trans_le (hc.pow_le hr)
    rw [l.value_eq, h0, Nat.cast_zero, zero_mul] at hpos
    exact lt_irrefl _ hpos
  rw [l.value_eq] at hr
  unfold toFloat
  dsimp only
  rw [if_neg hguard, natByHalves_eq]
  exact unpack_ofDecimal hne hc hr

/-! ### Digits around a point -/

theorem toDigits_head {n : Nat} (hn : 0 < n) : ∃ c cs, Nat.toDigits 10 n = c :: cs ∧ c ≠ '0' := by
  induction n using Nat.strong_induction_on with
  | _ n ih =>
    rw [Nat.toDigits_eq_if (by decide)]
    split_ifs with h
    · exact ⟨_, [], rfl, by simp; omega⟩
    · obtain ⟨c, cs, hcs, hc⟩ := ih (n / 10) (by omega) (by omega)
      exact ⟨c, cs ++ [(n % 10).digitChar], by rw [hcs]; rfl, hc⟩

theorem isDigit_of_mem_digits {n : Nat} : ∀ c ∈ Nat.toDigits 10 n, c.isDigit = true :=
  fun _ hc => Nat.isDigit_of_mem_toDigits (by decide) (by decide) hc

theorem isDigit_of_mem_replicate {n : Nat} : ∀ c ∈ List.replicate n '0', c.isDigit = true :=
  fun c hc => by rw [List.eq_of_mem_replicate hc]; decide

/-- An exponent of a double is far below the place where further digits are ignored. -/
theorem exponentDigits_eq (h : natOfDigits ds < 65536) : exponentDigits ds = natOfDigits ds := by
  induction ds using List.reverseRecOn with
  | nil => rfl
  | append_singleton ds c ih =>
    rw [natOfDigits, List.foldl_append] at h ⊢
    simp only [List.foldl_cons, List.foldl_nil] at h ⊢
    have hds : natOfDigits ds < 65536 := by
      rw [natOfDigits]
      omega
    rw [exponentDigits, List.foldl_append]
    simp only [List.foldl_cons, List.foldl_nil]
    rw [← exponentDigits, ih hds, if_pos hds]
    rfl

/-- The text is a literal of the number, with no digit behind a leading zero. -/
structure Writes (t : List Char) (q : ℚ) : Prop where
  literal : ∃ l, literal? t = some l ∧ l.value = q ∧ ∀ c ∈ l.whole ++ l.fraction, c.isDigit = true
  leading : ∀ c rest, t = '0' :: c :: rest → c.isDigit = false

theorem leading_of_ne {c : Char} {cs : List Char} (hc : c ≠ '0') :
    ∀ d rest, c :: cs = '0' :: d :: rest → d.isDigit = false :=
  fun _ _ heq => absurd (List.cons.inj heq).1 hc

theorem Writes.of_whole {q : ℚ} (hne : whole ≠ []) (hw : ∀ c ∈ whole, c.isDigit = true) (hx : Exponent exp x)
    (hq : natOfDigits whole * 10 ^ x = q)
    (hlead : ∀ c rest, whole ++ exp = '0' :: c :: rest → c.isDigit = false) : Writes (whole ++ exp) q := by
  refine ⟨⟨_, literal?_whole hne hw hx, ?_, by simpa using hw⟩, hlead⟩
  simpa [Literal.value] using hq

theorem Writes.of_fraction {q : ℚ} (hne : whole ≠ []) (hw : ∀ c ∈ whole, c.isDigit = true)
    (hf : ∀ c ∈ fraction, c.isDigit = true) (hx : Exponent exp x)
    (hq : natOfDigits (whole ++ fraction) * 10 ^ (x - fraction.length) = q)
    (hlead : ∀ c rest, whole ++ '.' :: (fraction ++ exp) = '0' :: c :: rest → c.isDigit = false) :
    Writes (whole ++ '.' :: (fraction ++ exp)) q := by
  refine ⟨⟨_, literal?_fraction hne hw hf hx, hq, fun c hc => ?_⟩, hlead⟩
  exact (List.mem_append.1 hc).elim (hw c) (hf c)

namespace Layout

variable {n : Nat} {point : Int}

theorem writes_small (hpoint : point ≤ 0) :
    Writes ('0' :: '.' :: (List.replicate (-point).toNat '0' ++ Nat.toDigits 10 n))
      (n * 10 ^ (point - (Nat.toDigits 10 n).length)) := by
  have hall : ∀ c ∈ List.replicate (-point).toNat '0' ++ Nat.toDigits 10 n, c.isDigit = true := fun c hc =>
    (List.mem_append.1 hc).elim (isDigit_of_mem_replicate c) (isDigit_of_mem_digits c)
  have hzero : ∀ c ∈ ['0'], c.isDigit = true := List.forall_mem_singleton.2 (by decide)
  have hvalue : natOfDigits (['0'] ++ (List.replicate (-point).toNat '0' ++ Nat.toDigits 10 n)) = n := by
    rw [natOfDigits_append, natOfDigits_append, natOfDigits_replicate, natOfDigits_toDigits]
    simp [natOfDigits, digitValue]
  have hscale : (0 : Int) - ((List.replicate (-point).toNat '0' ++ Nat.toDigits 10 n).length : Nat) =
      point - (Nat.toDigits 10 n).length := by
    rw [List.length_append, List.length_replicate]
    omega
  have h := Writes.of_fraction (List.cons_ne_nil '0' []) hzero hall .none
    (by rw [hvalue, hscale]) fun c rest heq => by cases heq; decide
  rw [List.append_nil] at h
  exact h

theorem writes_whole (hn : 0 < n) (hpoint : (Nat.toDigits 10 n).length ≤ point) :
    Writes (Nat.toDigits 10 n ++ List.replicate (point.toNat - (Nat.toDigits 10 n).length) '0')
      (n * 10 ^ (point - (Nat.toDigits 10 n).length)) := by
  obtain ⟨c, cs, hcs, hc⟩ := toDigits_head hn
  have hall : ∀ c ∈ Nat.toDigits 10 n ++ List.replicate (point.toNat - (Nat.toDigits 10 n).length) '0',
      c.isDigit = true := fun c hc =>
    (List.mem_append.1 hc).elim (isDigit_of_mem_digits c) (isDigit_of_mem_replicate c)
  have hscale : point - (Nat.toDigits 10 n).length = (point.toNat - (Nat.toDigits 10 n).length : Nat) := by omega
  have h := Writes.of_whole (List.append_ne_nil_of_left_ne_nil Nat.toDigits_ne_nil _) hall .none
    (q := n * 10 ^ (point - (Nat.toDigits 10 n).length)) (by
      rw [natOfDigits_append, natOfDigits_toDigits, natOfDigits_replicate, hscale, zpow_natCast, zpow_zero,
        List.length_replicate]
      simp [tenTo]) (by rw [hcs]; exact leading_of_ne hc)
  rw [List.append_nil] at h
  exact h

theorem writes_split (hn : 0 < n) (hpoint : 0 < point) (hlt : point < (Nat.toDigits 10 n).length) :
    Writes ((Nat.toDigits 10 n).take point.toNat ++ '.' :: (Nat.toDigits 10 n).drop point.toNat)
      (n * 10 ^ (point - (Nat.toDigits 10 n).length)) := by
  obtain ⟨c, cs, hcs, hc⟩ := toDigits_head hn
  obtain ⟨k, hk⟩ : ∃ k : Nat, point.toNat = k + 1 := ⟨point.toNat - 1, by omega⟩
  have hscale : (0 : Int) - ((Nat.toDigits 10 n).drop point.toNat).length =
      point - (Nat.toDigits 10 n).length := by
    rw [List.length_drop]
    omega
  have hne : (Nat.toDigits 10 n).take point.toNat ≠ [] := by
    rw [hcs, hk]
    exact List.cons_ne_nil _ _
  have h := Writes.of_fraction hne
    (fun c hc => isDigit_of_mem_digits c (List.mem_of_mem_take hc))
    (fun c hc => isDigit_of_mem_digits c (List.mem_of_mem_drop hc)) .none
    (q := n * 10 ^ (point - (Nat.toDigits 10 n).length))
    (by rw [List.take_append_drop, natOfDigits_toDigits, hscale])
    (by rw [hcs, hk]; exact leading_of_ne hc)
  rw [List.append_nil] at h
  exact h

theorem exponent_text (h : x.natAbs < 65536) : Exponent (exponentText x) x := by
  have hvalue : exponentDigits (Nat.toDigits 10 x.natAbs) = x.natAbs := by
    rw [exponentDigits_eq, natOfDigits_toDigits]
    rwa [natOfDigits_toDigits]
  have hdigits := isDigit_of_mem_digits (n := x.natAbs)
  unfold exponentText
  split_ifs with hneg
  · have hexp := Exponent.negative Nat.toDigits_ne_nil hdigits
    rwa [hvalue, show -(x.natAbs : Int) = x by omega] at hexp
  · have hexp := Exponent.positive Nat.toDigits_ne_nil hdigits
    rwa [hvalue, show (x.natAbs : Int) = x by omega] at hexp

theorem scientific_single (c : Char) (point : Int) :
    ofValue.scientific [c] point = [c] ++ exponentText (point - 1) := by
  simp [scientific, exponentText, ofValue]

theorem scientific_cons (c d : Char) (cs : List Char) (point : Int) :
    ofValue.scientific (c :: d :: cs) point = [c] ++ '.' :: (d :: cs ++ exponentText (point - 1)) := by
  simp [scientific, exponentText, ofValue]

theorem writes_scientific (hn : 0 < n) (hpoint : (point - 1).natAbs < 65536) :
    Writes (ofValue.scientific (Nat.toDigits 10 n) point) (n * 10 ^ (point - (Nat.toDigits 10 n).length)) := by
  obtain ⟨c, cs, hcs, hc⟩ := toDigits_head hn
  have hdigits := isDigit_of_mem_digits (n := n)
  have hvalue := natOfDigits_toDigits n
  have hexp := exponent_text hpoint
  rw [hcs] at hdigits hvalue ⊢
  have hfirst : ∀ d ∈ [c], d.isDigit = true := List.forall_mem_singleton.2 (hdigits c List.mem_cons_self)
  cases cs with
  | nil =>
    rw [scientific_single]
    exact .of_whole (List.cons_ne_nil c []) hfirst hexp (by rw [hvalue]; rfl) (leading_of_ne hc)
  | cons d cs =>
    have hscale : point - 1 - ((d :: cs).length : Int) = point - ((c :: d :: cs).length : Int) := by
      simp only [List.length_cons]
      push_cast
      ring
    rw [scientific_cons]
    exact .of_fraction (List.cons_ne_nil c []) hfirst (fun a ha => hdigits a (List.mem_cons_of_mem c ha))
      hexp (by rw [List.singleton_append, hvalue, hscale]) (leading_of_ne hc)

/-- Where positional notation ends. -/
theorem isPositional_iff : ofValue.isPositional point = true ↔ -6 < point ∧ point ≤ 21 := by
  simp [isPositional, ofValue]

/-- The three places of the point: before the digits, behind them, or between them. -/
theorem positional_cases (ds : List Char) (point : Int) :
    (point ≤ 0 ∧
      ofValue.positional ds point = '0' :: '.' :: (List.replicate (-point).toNat '0' ++ ds)) ∨
    (0 < point ∧ ds.length ≤ point ∧
      ofValue.positional ds point = ds ++ List.replicate (point.toNat - ds.length) '0') ∨
    (0 < point ∧ point < ds.length ∧
      ofValue.positional ds point = ds.take point.toNat ++ '.' :: ds.drop point.toNat) := by
  rcases le_or_gt point 0 with h0 | h0
  · exact .inl ⟨h0, if_pos h0⟩
  · rcases le_or_gt (ds.length : Int) point with hle | hlt
    · refine .inr (.inl ⟨h0, hle, ?_⟩)
      rw [positional, if_neg (not_le.2 h0), if_pos hle]
      exact List.append_nil _
    · refine .inr (.inr ⟨h0, hlt, ?_⟩)
      rw [positional, if_neg (not_le.2 h0), if_neg (not_le.2 hlt)]

/-- Whatever the layout, the text denotes the decimal exactly. -/
theorem writes_decimal {d : Decimal} (hd : 0 < d.digits)
    (hpoint : ((Nat.toDigits 10 d.digits).length + d.exponent - 1).natAbs < 65536) :
    Writes (ofValue.decimal d) d.value := by
  set ds := Nat.toDigits 10 d.digits with hds
  obtain ⟨point, hp⟩ : ∃ point : Int, point = ds.length + d.exponent := ⟨_, rfl⟩
  have hvalue : d.value = d.digits * 10 ^ (point - ds.length) := by
    rw [Decimal.value, hp, add_sub_cancel_left]
  have hpos : 0 < ds.length := Nat.length_toDigits_pos
  rw [decimal, ← hds, ← hp, hvalue]
  rw [← hp] at hpoint
  split_ifs
  · rcases positional_cases ds point with ⟨h0, h⟩ | ⟨-, hle, h⟩ | ⟨h0, hlt, h⟩ <;> rw [h]
    · exact writes_small h0
    · exact writes_whole hd hle
    · exact writes_split hd h0 hlt
  · exact writes_scientific hd hpoint

/-- An exponent is written exactly if the point would be too far away from the digits. -/
theorem mem_decimal_iff (d : Decimal) :
    'e' ∈ ofValue.decimal d ↔ ¬ (-6 < (Nat.toDigits 10 d.digits).length + d.exponent ∧
      (Nat.toDigits 10 d.digits).length + d.exponent ≤ 21) := by
  have hdigits : ∀ cs : List Char, (∀ c ∈ cs, c.isDigit = true) → 'e' ∉ cs := fun cs hcs he =>
    absurd (hcs 'e' he) (by decide)
  have hds := hdigits _ (isDigit_of_mem_digits (n := d.digits))
  have hzeros (n : Nat) : 'e' ∉ List.replicate n '0' := hdigits _ isDigit_of_mem_replicate
  rw [← isPositional_iff, decimal]
  split_ifs with h
  · refine ⟨fun he => absurd he ?_, fun hn => absurd h hn⟩
    rcases positional_cases (Nat.toDigits 10 d.digits) ((Nat.toDigits 10 d.digits).length + d.exponent) with
      ⟨-, h⟩ | ⟨-, -, h⟩ | ⟨-, -, h⟩ <;> rw [h]
    · simp [hds, hzeros]
    · simp [hds, hzeros]
    · simp only [List.mem_append, List.mem_cons, not_or]
      exact ⟨fun he => hds (List.mem_of_mem_take he), by decide, fun he => hds (List.mem_of_mem_drop he)⟩
  · simp [scientific, h]

/-! ### Slices and repetitions -/

/-- No step fails, and the text is the one that is written. -/
theorem steps?_eq (d : Decimal) : steps? (Nat.toDigits 10 d.digits)
    ((Nat.toDigits 10 d.digits).length + d.exponent - 1) = some (ofValue.decimal d) := by
  set ds := Nat.toDigits 10 d.digits with hds
  obtain ⟨point, hp⟩ : ∃ point : Int, point = ds.length + d.exponent := ⟨_, rfl⟩
  have hpos : 0 < ds.length := Nat.length_toDigits_pos
  have hpositional : ofValue.isPositional point = true ↔ -6 < point ∧ point ≤ 21 := isPositional_iff
  rw [decimal, ← hds, ← hp, steps?]
  simp only [sub_add_cancel]
  by_cases hall : -6 < point ∧ point ≤ 21
  · rw [if_pos (hpositional.2 hall)]
    rcases positional_cases ds point with ⟨h0, h⟩ | ⟨h0, hle, h⟩ | ⟨h0, hlt, h⟩ <;> rw [h]
    · rw [if_neg (by omega), if_neg (by omega), if_pos ⟨hall.1, h0⟩, zeros?, if_pos (by omega)]
      rfl
    · rw [if_pos ⟨hle, hall.2⟩, zeros?, if_pos (by omega),
        show (point - ds.length).toNat = point.toNat - ds.length by omega]
      rfl
    · rw [if_neg (by omega), if_pos ⟨h0, hall.2⟩, cut?, if_pos (by omega)]
      rfl
  · rw [if_neg (mt hpositional.1 hall), if_neg (by omega), if_neg (by omega), if_neg (by omega), cut?,
      if_pos (by omega)]
    obtain ⟨c, cs, hcs⟩ := List.exists_cons_of_length_pos hpos
    rw [hcs]
    cases cs with
    | nil => exact congrArg some (scientific_single c point).symm
    | cons d cs => exact congrArg some (scientific_cons c d cs point).symm

end Layout

/-! ### The number of a text -/

theorem unsigned_of_literal? (h : literal? t = some l) : unsigned t = l.toFloat := by
  obtain ⟨c, rest, rfl, hc⟩ := exists_cons_of_startsNumber (startsNumber_of_literal? h)
  simp only [unsigned, if_neg (ne_infinity_of_starts hc), h]

theorem Writes.numeral {q : ℚ} (h : Writes t q) (hl : literal? t = some l) : Numeral t l.toFloat :=
  .decimal hl (decimalLength_of_literal? hl h.leading)

/-- A minus sign in front of a literal negates it. -/
theorem Writes.ofText_neg {q : ℚ} (h : Writes t q) : ofText ('-' :: t) = -ofText t := by
  obtain ⟨l, hl, -⟩ := h.literal
  have hnum := h.numeral hl
  have htrim : trim isBlank ('-' :: t) = '-' :: t := by
    refine trim_eq_self (fun c hc => by cases hc; decide) fun c hc => hnum.isBlank_getLast c ?_
    obtain ⟨d, rest, rfl, -⟩ := exists_cons_of_startsNumber hnum.startsNumber
    rwa [List.getLast?_cons_cons] at hc
  rw [hnum.ofText, ofText, htrim]
  exact congrArg Neg.neg (unsigned_of_literal? hl)

/-! ### Round trips -/

theorem eq_of_unpack {x y : Float} (h : x.toModel.unpack = y.toModel.unpack) : x = y :=
  Float.toBits_inj.1 (UInt64.toBitVec_inj.1 ((unpack_inj_of_valid x.toModel.valid y.toModel.valid).1 h))

theorem shortest_pos (hc : Canonical m e) : 0 < (shortest m e).digits := by
  refine Nat.pos_of_ne_zero fun h0 => ?_
  have hpos : (0 : ℚ) < (shortest m e).value := (zpow_pos two_pos _).trans_le (hc.pow_le (shortest_rounds hc))
  rw [Decimal.value, h0, Nat.cast_zero, zero_mul] at hpos
  exact lt_irrefl _ hpos

/-- The first digit of a double is not far from the point. -/
theorem shortest_exponent (hc : Canonical m e) :
    ((Nat.toDigits 10 (shortest m e).digits).length + (shortest m e).exponent - 1).natAbs < 65536 := by
  set d := shortest m e
  have hr : Rounds d.value m e := shortest_rounds hc
  have hpos : 0 < digitCount d.digits := Nat.length_toDigits_pos
  have hle : (10 : ℚ) ^ (digitCount d.digits - 1 + d.exponent : Int) ≤ d.value := by
    have hdigits : (10 : ℚ) ^ (digitCount d.digits - 1) ≤ d.digits := by
      exact_mod_cast Interval.pow_digitCount_le (shortest_pos hc)
    rw [zpow_add₀ (by norm_num), ← Nat.cast_pred hpos, zpow_natCast, Decimal.value]
    gcongr
  have hlt : d.value < 10 ^ (digitCount d.digits + d.exponent : Int) := by
    have hdigits : (d.digits : ℚ) < 10 ^ digitCount d.digits := by
      exact_mod_cast Interval.lt_pow_digitCount d.digits
    rw [zpow_add₀ (by norm_num), zpow_natCast, Decimal.value]
    gcongr
  have hbelow := hc.exponent_lt hr hle
  have habove := hc.lt_exponent hr hlt
  rw [digitCount] at hbelow habove
  omega

theorem writes_shortest (hc : Canonical m e) : Writes (Layout.ofValue.decimal (shortest m e)) (shortest m e).value :=
  Layout.writes_decimal (shortest_pos hc) (shortest_exponent hc)

/-- The text of the magnitude is read as the magnitude. -/
theorem unpack_ofText_decimal (hc : Canonical m e) :
    (ofText (Layout.ofValue.decimal (shortest m e))).toModel.unpack = .finite .positive m e hc.pos := by
  have hw := writes_shortest hc
  obtain ⟨l, hl, hvalue, hdigits⟩ := hw.literal
  rw [(hw.numeral hl).ofText]
  exact Literal.unpack_toFloat hdigits hc (hvalue ▸ shortest_rounds hc)

theorem ofText_chars_of_finite {x : Float} {s : Sign} {hm : 0 < m} (h : x.toModel.unpack = .finite s m e hm) :
    ofText (Layout.ofValue.chars x) = x := by
  have hc := canonical_of_unpack h
  have hread := unpack_ofText_decimal hc
  refine eq_of_unpack ?_
  rw [Layout.chars, h]
  cases s with
  | positive => exact hread
  | negative =>
    have hneg : (ofText ('-' :: Layout.ofValue.decimal (shortest m e))).toModel =
        Float.Model.pack (.finite .negative m e hc.pos) := by
      rw [(writes_shortest hc).ofText_neg]
      change Float.Model.pack (ofText _).toModel.unpack.neg = _
      rw [hread]
      rfl
    exact (congrArg Float.Model.unpack hneg).trans (hc.unpack_pack .negative)

theorem ofText_chars_of_infinity {x : Float} {s : Sign} (h : x.toModel.unpack = .infinity s) :
    ofText (Layout.ofValue.chars x) = x := by
  refine eq_of_unpack ?_
  rw [Layout.chars, h]
  cases s <;> rfl

theorem ofText_chars_of_zero {x : Float} {s : Sign} (h : x.toModel.unpack = .zero s) :
    ofText (Layout.ofValue.chars x) = 0.0 := by
  rw [Layout.chars, h]
  rfl

theorem beq_self_of_isNaN {x : Float} (h : x.isNaN = false) : (x == x) = true := by
  refine Float.beq_self_iff.2 ?_
  rintro rfl
  cases h

/-- The text of a number is read as the number; the text of both zeros is read as the positive one. -/
theorem ofText_render {x : Float} (h : x.isNaN = false) :
    (ofText (Layout.ofValue.render x).toList == x) = true ∧
      ((x == 0.0) = false → ofText (Layout.ofValue.render x).toList = x) := by
  rw [Layout.render, String.toList_ofList]
  cases hu : x.toModel.unpack with
  | notANumber =>
    change x.toModel.unpack.isNaN = false at h
    rw [hu] at h
    cases h
  | infinity s =>
    rw [ofText_chars_of_infinity hu]
    exact ⟨beq_self_of_isNaN h, fun _ => rfl⟩
  | zero s =>
    have hzero : value? x = some 0 := congrArg rational? hu
    rw [ofText_chars_of_zero hu]
    refine ⟨(beq_iff_of_value? rfl hzero).2 rfl, fun hne => ?_⟩
    rw [(beq_iff_of_value? hzero rfl).2 rfl] at hne
    cases hne
  | finite s m e hm =>
    rw [ofText_chars_of_finite hu]
    exact ⟨beq_self_of_isNaN h, fun _ => rfl⟩

end Number

/-- The text of a finite number that is not zero, behind its sign, is laid out without a cut outside of the
digits or a negative number of zeros. It is a decimal literal that denotes exactly the shortest decimal among
those that round to the number, and it has an exponent exactly if that of the first digit is 21 or more, or
-7 or less. So numbers are read back from their texts, and different numbers have different texts. -/
theorem number_text_round_trip :
    (∀ x s m e hm, x.toModel.unpack = .finite s m e hm →
      let d := shortest m e
      let ds := Nat.toDigits 10 d.digits
      let E : Int := ds.length + d.exponent - 1
      Rounds d.value m e ∧ (∀ (c : Nat) (j : Int), Rounds (c * 10 ^ j) m e → ds.length ≤ digitCount c) ∧
        ∃ t l, Layout.ofValue.chars x = Layout.signed s t ∧ Layout.steps? ds E = some t ∧
          literal? t = some l ∧ l.value = d.digits * 10 ^ (E + 1 - ds.length) ∧
          ('e' ∈ t ↔ 21 ≤ E ∨ E ≤ -7)) ∧
    (∀ x, x.isNaN = false → (ofText (Layout.ofValue.render x).toList == x) = true ∧
      ((x == 0.0) = false → ofText (Layout.ofValue.render x).toList = x)) ∧
    ∀ x y, x.isNaN = false → y.isNaN = false → Layout.ofValue.render x = Layout.ofValue.render y →
      (x == y) = true := by
  refine ⟨fun x s m e hm h => ?_, fun x => ofText_render, fun x y hx hy heq => ?_⟩
  · have hc := canonical_of_unpack h
    obtain ⟨l, hl, hvalue, -⟩ := (writes_shortest hc).literal
    refine ⟨shortest_rounds hc, fun c j => digitCount_shortest_le hm, _, l, ?_, Layout.steps?_eq _, hl, ?_, ?_⟩
    · rw [Layout.chars, h]
    · rw [hvalue, Decimal.value, sub_add_cancel, add_sub_cancel_left]
    · rw [Layout.mem_decimal_iff]
      omega
  · have hx' := (ofText_render hx).1
    rw [heq] at hx'
    exact BEq.trans (BEq.symm hx') (ofText_render hy).1

/-- A tenth is no double, but its text is that of the double next to it. -/
theorem number_text_round_trip_tenth :
    (∃ t l, Layout.ofValue.chars (-0.1) = '-' :: t ∧ literal? t = some l) ∧
      ofText (Layout.ofValue.render (-0.1)).toList = -0.1 ∧ ((-0.1 : Float) == -0.1) = true := by
  obtain ⟨-, -, t, l, ht, -, hl, -⟩ :=
    number_text_round_trip.1 (-0.1) .negative 7205759403792794 (-56) (by decide) rfl
  exact ⟨⟨t, l, ht, hl⟩, (number_text_round_trip.2.1 (-0.1) rfl).2 rfl,
    number_text_round_trip.2.2 (-0.1) (-0.1) rfl rfl rfl⟩

end Scriptlet
