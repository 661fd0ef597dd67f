import LivePanel.Proofs.Json.Numerals

/-!
# How numbers are spelled

A number in JSON text is a sign, digits without a leading zero, and perhaps digits after a point and
a power of ten. The reader of numbers takes these texts and no others, and gives each the number it
spells, unless that is too large. Main statement: `readNumeral?_eq_some_iff`.
-/
namespace LivePanel

/-- One digit or more. -/
structure DigitRun where
  first : Char
  rest : List Char
  digits : ∀ c ∈ first :: rest, isDigit c = true

/-- A number without its power of ten. A zero before the point stands alone. -/
structure Mantissa where
  negative : Bool
  whole : DigitRun
  alone : whole.first = '0' → whole.rest = []
  fraction : Option DigitRun

/-- A power of ten with its letter. It may have a sign, a minus if `sign` is `some true`. -/
structure Exponent where
  mark : Char
  marks : Numeral.isMark mark = true
  sign : Option Bool
  size : DigitRun

/-- A number in JSON text. -/
structure Figures where
  mantissa : Mantissa
  power : Option Exponent

namespace DigitRun

def text (r : DigitRun) : List Char := r.first :: r.rest

def one (c : Char) (hc : isDigit c = true) : DigitRun := ⟨c, [], by simpa using hc⟩

def push (r : DigitRun) (c : Char) (hc : isDigit c = true) : DigitRun :=
  ⟨r.first, r.rest ++ [c], by
    simpa [or_imp, forall_and, hc] using List.forall_mem_cons.1 r.digits⟩

@[simp] theorem text_one (c : Char) (hc : isDigit c = true) : (one c hc).text = [c] := rfl

@[simp] theorem text_push (r : DigitRun) (c : Char) (hc : isDigit c = true) :
    (r.push c hc).text = r.text ++ [c] := rfl

end DigitRun

namespace Mantissa

def text (m : Mantissa) : List Char :=
  (if m.negative then ['-'] else []) ++ m.whole.text ++
    m.fraction.elim [] fun r => '.' :: r.text

/-- The digits before the point as a 64-bit word holds them. -/
def wholeSignificand (m : Mantissa) : Significand :=
  m.whole.rest.foldl Significand.pushWhole (.ofDigit m.whole.first)

/-- The digits as a 64-bit word holds them. -/
def significand (m : Mantissa) : Significand :=
  m.fraction.elim m.wholeSignificand fun r =>
    r.text.foldl Significand.pushFraction { m.wholeSignificand with full := false }

end Mantissa

namespace Exponent

def text (e : Exponent) : List Char :=
  e.mark :: (e.sign.elim [] fun down => [if down then '-' else '+']) ++ e.size.text

def value (e : Exponent) : Int :=
  if e.sign = some true then -(ofDigits e.size.text : Int) else ofDigits e.size.text

end Exponent

namespace Figures

def text (f : Figures) : List Char := f.mantissa.text ++ f.power.elim [] Exponent.text

theorem text_none (m : Mantissa) : text ⟨m, none⟩ = m.text := List.append_nil _

/-- The integer that the digits before the point stand for. -/
def integer (f : Figures) : Int :=
  if f.mantissa.negative then -(ofDigits f.mantissa.whole.text : Int)
  else ofDigits f.mantissa.whole.text

/-- The number that is spelled, if it is not too large. Without point and power of ten it is whole
if a 64-bit word holds it, but for the negative zero; else it is a double. -/
def value (f : Figures) : Option Number :=
  match f.mantissa.fraction, f.power with
  | none, none =>
    if f.mantissa.negative ∧ f.integer = 0 then some (.real (.zero true))
    else match Whole.ofInt? f.integer with
      | some w => some (.whole w)
      | none => (Numeral.real f.mantissa.negative f.mantissa.significand 0).toOption
  | _, power =>
    (Numeral.real f.mantissa.negative f.mantissa.significand (power.elim 0 Exponent.value)).toOption

end Figures

namespace Significand

theorem full_foldl_pushWhole_of_full {s : Significand} (hs : s.full = true) (ds : List Char) :
    (ds.foldl pushWhole s).full = true := by
  induction ds generalizing s with
  | nil => exact hs
  | cons d ds ih => exact ih (by simp [pushWhole, fits, hs])

/-- Digits whose number has more than 64 bits are not all kept. -/
theorem full_foldl_pushWhole {ds : List Char} {n : Nat} (scale : Int)
    (hn : n < powerOfTwo 64) (hover : powerOfTwo 64 ≤ ds.foldl pushDigit n) :
    (ds.foldl pushWhole ⟨n, scale, false⟩).full = true := by
  induction ds generalizing n with
  | nil => exact absurd hover (Nat.not_le.2 hn)
  | cons d ds ih =>
    rw [List.foldl_cons] at hover ⊢
    by_cases hd : pushDigit n d < powerOfTwo 64
    · have hpush : pushWhole ⟨n, scale, false⟩ d = ⟨pushDigit n d, scale, false⟩ := by
        simp [pushWhole, fits, hd]
      rw [hpush]
      exact ih hd hover
    · have hpush : pushWhole ⟨n, scale, false⟩ d = ⟨n, scale + 1, true⟩ := by
        simp [pushWhole, fits, hd]
      rw [hpush]
      exact full_foldl_pushWhole_of_full rfl ds

end Significand

theorem digitChar_digitValue {c : Char} (hc : isDigit c = true) : digitChar (digitValue c) = c := by
  have hrange : '0' ≤ c ∧ c ≤ '9' := by simpa [isDigit] using hc
  have hlow : '0'.toNat ≤ c.toNat := UInt32.le_iff_toNat_le.1 hrange.1
  rw [digitChar, digitValue, Nat.add_sub_cancel' hlow, Char.ofNat_toNat]

theorem ofDigits_singleton (c : Char) : ofDigits [c] = digitValue c := ofDigits_cons c []

namespace Mantissa

/-- A number that begins with this digit. -/
def one (negative : Bool) (c : Char) (hc : isDigit c = true) : Mantissa :=
  ⟨negative, .one c hc, fun _ => rfl, none⟩

/-- One more digit before the point. -/
def pushWhole (m : Mantissa) (hm : m.whole.first ≠ '0') (c : Char) (hc : isDigit c = true) :
    Mantissa :=
  { m with whole := m.whole.push c hc, alone := fun h => absurd h hm }

def withFraction (m : Mantissa) (r : DigitRun) : Mantissa := { m with fraction := some r }

variable {m : Mantissa} {c : Char}

theorem text_pushWhole (hm : m.whole.first ≠ '0') (hc : isDigit c = true)
    (hnone : m.fraction = none) : (m.pushWhole hm c hc).text = m.text ++ [c] := by
  simp [text, pushWhole, hnone]

theorem significand_pushWhole (hm : m.whole.first ≠ '0') (hc : isDigit c = true)
    (hnone : m.fraction = none) :
    (m.pushWhole hm c hc).significand = m.significand.pushWhole c := by
  simp [significand, wholeSignificand, pushWhole, DigitRun.push, hnone]

theorem text_withFraction (hnone : m.fraction = none) (r : DigitRun) :
    (m.withFraction r).text = m.text ++ '.' :: r.text := by
  simp only [text, withFraction, hnone, Option.elim_none, Option.elim_some, List.append_nil,
    List.append_assoc]
  rfl

theorem significand_withFraction (hnone : m.fraction = none) (r : DigitRun) :
    (m.withFraction r).significand =
      r.text.foldl Significand.pushFraction { m.significand with full := false } := by
  simp [significand, wholeSignificand, withFraction, hnone]

theorem significand_of_none (hnone : m.fraction = none) : m.significand = m.wholeSignificand := by
  rw [significand, hnone, Option.elim_none]

theorem wholeSignificand_of_zero (hzero : m.whole.first = '0') :
    m.wholeSignificand = ⟨0, 0, false⟩ := by
  rw [wholeSignificand, m.alone hzero, hzero]
  rfl

end Mantissa

namespace Exponent

/-- A power of ten that begins with this digit. -/
def one (mark : Char) (hmark : Numeral.isMark mark = true) (sign : Option Bool) (c : Char)
    (hc : isDigit c = true) : Exponent :=
  ⟨mark, hmark, sign, .one c hc⟩

def push (e : Exponent) (c : Char) (hc : isDigit c = true) : Exponent :=
  { e with size := e.size.push c hc }

theorem size_one (mark : Char) (hmark : Numeral.isMark mark = true) (sign : Option Bool) (c : Char)
    (hc : isDigit c = true) : (one mark hmark sign c hc).size = .one c hc := rfl

theorem text_push (e : Exponent) {c : Char} (hc : isDigit c = true) :
    (e.push c hc).text = e.text ++ [c] := by
  simp [text, push]

end Exponent

namespace Numeral

/-- What has been read of a number, and its text so far. -/
inductive Written : Numeral → List Char → Prop where
  | sign : Written .sign ['-']
  | zero {m : Mantissa} : m.fraction = none → m.whole.first = '0' →
      Written (.zero m.negative) m.text
  | whole {m : Mantissa} : m.fraction = none → m.whole.first ≠ '0' →
      Written (.whole m.negative m.significand) m.text
  | point {m : Mantissa} : m.fraction = none →
      Written (.point m.negative { m.significand with full := false }) (m.text ++ ['.'])
  | fraction {m : Mantissa} (r : DigitRun) : m.fraction = none →
      Written (.fraction m.negative (m.withFraction r).significand) (m.withFraction r).text
  | mark {m : Mantissa} {c : Char} : isMark c = true →
      Written (.mark m.negative m.significand) (m.text ++ [c])
  | markSign {m : Mantissa} {c : Char} (down : Bool) : isMark c = true →
      Written (.markSign m.negative m.significand down) (m.text ++ [c, if down then '-' else '+'])
  | power {m : Mantissa} (e : Exponent) :
      Written (.power m.negative m.significand (e.sign == some true) (ofDigits e.size.text))
        (m.text ++ e.text)

variable {n n' : Numeral} {c : Char} {t : List Char}

theorem written_ofDigit (negative : Bool) (hc : isDigit c = true) :
    (ofDigit negative c).Written (Mantissa.one negative c hc).text := by
  rw [ofDigit]
  split
  case isTrue hzero => exact .zero (m := .one negative c hc) rfl hzero
  case isFalse hzero => exact .whole (m := .one negative c hc) rfl hzero

theorem written_of_ofChar? (h : ofChar? c = some n) : n.Written [c] := by
  by_cases hc : isDigit c = true
  · rw [ofChar?_of_isDigit hc] at h
    obtain rfl := Option.some.inj h
    exact written_ofDigit false hc
  · have hzero : c ≠ '0' := by
      rintro rfl
      exact hc rfl
    rw [ofChar?, if_neg hzero, if_neg hc] at h
    split at h
    · subst_vars
      obtain rfl := Option.some.inj h
      exact .sign
    · cases h

/-- The first digit of a power of ten. -/
theorem written_power_one (m : Mantissa) {d : Char} (hd : isMark d = true) (sign : Option Bool)
    (hc : isDigit c = true) :
    Written (.power m.negative m.significand (sign == some true) (digitValue c))
      (m.text ++ (Exponent.one d hd sign c hc).text) := by
  have hwritten := Written.power (m := m) (.one d hd sign c hc)
  rwa [Exponent.size_one, DigitRun.text_one, ofDigits_singleton] at hwritten

/-- What a number takes next is written behind it. -/
theorem Written.next? (h : n.Written t) (hn : n.next? c = some n') : n'.Written (t ++ [c]) := by
  cases h with
  | sign =>
    by_cases hc : isDigit c = true
    · rw [next?_sign hc] at hn
      obtain rfl := Option.some.inj hn
      exact written_ofDigit true hc
    · have hzero : c ≠ '0' := by
        rintro rfl
        exact hc rfl
      rw [Numeral.next?, if_neg hzero, if_neg hc] at hn
      cases hn
  | @zero m hnone hzero =>
    rw [Numeral.next?] at hn
    have hlone : m.significand = ⟨0, 0, false⟩ := by
      rw [Mantissa.significand_of_none hnone, Mantissa.wholeSignificand_of_zero hzero]
    split at hn
    case isTrue hpoint =>
      obtain rfl := Option.some.inj hn
      have hwritten := Written.point hnone
      rw [hlone] at hwritten
      exact hpoint ▸ hwritten
    case isFalse =>
      obtain ⟨hmark, hn⟩ := Option.ite_none_right_eq_some.1 hn
      obtain rfl := Option.some.inj hn
      exact hlone ▸ .mark hmark
  | @whole m hnone hzero =>
    rw [Numeral.next?] at hn
    split at hn
    case isTrue hc =>
      obtain rfl := Option.some.inj hn
      rw [← Mantissa.text_pushWhole hzero hc hnone, ← Mantissa.significand_pushWhole hzero hc hnone]
      exact .whole (m := m.pushWhole hzero c hc) hnone hzero
    case isFalse =>
      split at hn
      case isTrue hpoint =>
        obtain rfl := Option.some.inj hn
        exact hpoint ▸ .point hnone
      case isFalse =>
        obtain ⟨hmark, hn⟩ := Option.ite_none_right_eq_some.1 hn
        obtain rfl := Option.some.inj hn
        exact .mark hmark
  | @point m hnone =>
    obtain ⟨hc, hn⟩ := Option.ite_none_right_eq_some.1 hn
    obtain rfl := Option.some.inj hn
    have hwritten := Written.fraction (.one c hc) hnone
    rw [Mantissa.text_withFraction hnone, Mantissa.significand_withFraction hnone] at hwritten
    rw [List.append_assoc]
    exact hwritten
  | @fraction m r hnone =>
    rw [Numeral.next?] at hn
    split at hn
    case isTrue hc =>
      obtain rfl := Option.some.inj hn
      have hwritten := Written.fraction (r.push c hc) hnone
      rw [Mantissa.text_withFraction hnone, Mantissa.significand_withFraction hnone,
        DigitRun.text_push, List.foldl_append] at hwritten
      rw [Mantissa.text_withFraction hnone, Mantissa.significand_withFraction hnone,
        List.append_assoc]
      exact hwritten
    case isFalse =>
      obtain ⟨hmark, hn⟩ := Option.ite_none_right_eq_some.1 hn
      obtain rfl := Option.some.inj hn
      exact .mark (m := m.withFraction r) hmark
  | @mark m d hd =>
    rw [Numeral.next?] at hn
    split at hn
    case isTrue hc =>
      obtain rfl := Option.some.inj hn
      rw [List.append_assoc]
      exact written_power_one m hd none hc
    case isFalse =>
      rw [List.append_assoc]
      split at hn
      case isTrue hplus =>
        obtain rfl := Option.some.inj hn
        exact hplus ▸ .markSign false hd
      case isFalse =>
        obtain ⟨hminus, hn⟩ := Option.ite_none_right_eq_some.1 hn
        obtain rfl := Option.some.inj hn
        exact hminus ▸ .markSign true hd
  | @markSign m d down hd =>
    obtain ⟨hc, hn⟩ := Option.ite_none_right_eq_some.1 hn
    obtain rfl := Option.some.inj hn
    rw [List.append_assoc]
    cases down with
    | false => exact written_power_one m hd (some false) hc
    | true => exact written_power_one m hd (some true) hc
  | @power m e =>
    obtain ⟨hc, hn⟩ := Option.ite_none_right_eq_some.1 hn
    obtain rfl := Option.some.inj hn
    have hwritten := Written.power (m := m) (e.push c hc)
    rw [Exponent.text_push, ← List.append_assoc] at hwritten
    simp only [Exponent.push, DigitRun.text_push, ofDigits_append_singleton] at hwritten
    exact hwritten

theorem Written.foldlM (h : n.Written t) {cs : List Char}
    (hcs : cs.foldlM Numeral.next? n = some n') : n'.Written (t ++ cs) := by
  induction cs generalizing n t with
  | nil =>
    obtain rfl := Option.some.inj hcs
    rwa [List.append_nil]
  | cons c cs ih =>
    rw [List.foldlM_cons] at hcs
    obtain ⟨n₁, hn₁, hrest⟩ := Option.bind_eq_some_iff.1 hcs
    rw [List.append_cons]
    exact ih (h.next? hn₁) hrest

theorem digitValue_pos (hc : isDigit c = true) (hzero : c ≠ '0') : 0 < digitValue c := by
  refine Nat.pos_of_ne_zero fun hvalue => hzero ?_
  rw [← digitChar_digitValue hc, hvalue]
  rfl

theorem Mantissa.ofDigits_pos {m : Mantissa} (hzero : m.whole.first ≠ '0') :
    0 < ofDigits m.whole.text := by
  have hfirst := digitValue_pos (m.whole.digits _ List.mem_cons_self) hzero
  rw [DigitRun.text, ofDigits_cons, foldl_pushDigit]
  exact Nat.lt_of_lt_of_le (Nat.mul_pos hfirst (powerOfTen_pos _)) (Nat.le_add_right _ _)

/-- Digits before the point that end the number are an integer, or a double if they do not fit. -/
theorem value_whole {m : Mantissa} (hnone : m.fraction = none) (hzero : m.whole.first ≠ '0') :
    (value (.whole m.negative m.significand)).toOption = Figures.value ⟨m, none⟩ := by
  have hpos := Mantissa.ofDigits_pos hzero
  have hword : powerOfTwo 64 = 18446744073709551616 := rfl
  have hfirst : digitValue m.whole.first < powerOfTwo 64 :=
    Nat.lt_trans (digitValue_lt (m.whole.digits _ List.mem_cons_self)) (by decide)
  have hvalue : ofDigits m.whole.text = m.whole.rest.foldl pushDigit (digitValue m.whole.first) :=
    ofDigits_cons _ _
  have hsignificand : m.significand = m.whole.rest.foldl Significand.pushWhole
      (.ofDigit m.whole.first) := Mantissa.significand_of_none hnone
  have hinteger : Figures.integer ⟨m, none⟩ = if m.negative = true then
      -(ofDigits m.whole.text : Int) else ofDigits m.whole.text := rfl
  have hne : ¬ (m.negative = true ∧ Figures.integer ⟨m, none⟩ = 0) := by
    rintro ⟨hsign, hnothing⟩
    rw [hinteger, if_pos hsign] at hnothing
    omega
  simp only [value, Figures.value, hnone]
  rw [if_neg hne]
  -- either the word holds all digits, or no word holds the integer
  by_cases hfits : ofDigits m.whole.text < powerOfTwo 64
  · rw [hvalue] at hfits
    have hkept := Significand.foldl_pushWhole 0 hfits
    rw [hsignificand, Significand.ofDigit, hkept, ← hvalue, if_neg Bool.false_ne_true, hinteger]
    generalize (if m.negative = true then -(ofDigits m.whole.text : Int)
      else ofDigits m.whole.text) = k
    cases Whole.ofInt? k <;> rfl
  · have hfull := Significand.full_foldl_pushWhole 0 hfirst (hvalue ▸ Nat.not_lt.1 hfits)
    have hlarge : Whole.ofInt? (Figures.integer ⟨m, none⟩) = none := by
      refine dif_neg fun hbounds => ?_
      rw [hinteger] at hbounds
      split at hbounds <;> omega
    rw [← Significand.ofDigit, ← hsignificand] at hfull
    rw [if_pos hfull, hlarge]

theorem value_zero {m : Mantissa} (hnone : m.fraction = none) (hzero : m.whole.first = '0') :
    (value (.zero m.negative)).toOption = Figures.value ⟨m, none⟩ := by
  have hnothing : Figures.integer ⟨m, none⟩ = 0 := by
    simp [Figures.integer, DigitRun.text, hzero, m.alone hzero, ofDigits_singleton, digitValue]
  simp only [value, Figures.value, hnone, hnothing, and_true]
  cases m.negative <;> rfl

theorem value_fraction (m : Mantissa) (r : DigitRun) :
    (value (.fraction m.negative (m.withFraction r).significand)).toOption =
      Figures.value ⟨m.withFraction r, none⟩ := rfl

theorem value_exponent (m : Mantissa) (e : Exponent) :
    (value (.power m.negative m.significand (e.sign == some true)
      (ofDigits e.size.text))).toOption = Figures.value ⟨m, some e⟩ := by
  have hvalue : (if (e.sign == some true) = true then -(ofDigits e.size.text : Int)
      else ofDigits e.size.text) = e.value := by
    simp only [beq_iff_eq, Exponent.value]
  simp only [value, Figures.value, hvalue]
  cases m.fraction <;> rfl

/-- A number that may end is spelled by its text. -/
theorem Written.exists_figures (h : n.Written t) {v : Number} (hv : n.value = .ok v) :
    ∃ f : Figures, f.text = t ∧ f.value = some v := by
  cases h with
  | sign | point | mark | markSign => cases hv
  | @zero m hnone hzero =>
    refine ⟨⟨m, none⟩, Figures.text_none m, ?_⟩
    rw [← value_zero hnone hzero, hv]
    rfl
  | @whole m hnone hzero =>
    refine ⟨⟨m, none⟩, Figures.text_none m, ?_⟩
    rw [← value_whole hnone hzero, hv]
    rfl
  | @fraction m r hnone =>
    refine ⟨⟨m.withFraction r, none⟩, Figures.text_none _, ?_⟩
    rw [← value_fraction, hv]
    rfl
  | @power m e =>
    refine ⟨⟨m, some e⟩, rfl, ?_⟩
    rw [← value_exponent, hv]
    rfl

end Numeral

namespace Mantissa

variable (m : Mantissa)

/-- What the reader has made of the digits before the point. -/
def leading : Numeral :=
  if m.whole.first = '0' then .zero m.negative else .whole m.negative m.wholeSignificand

/-- What it has made of the whole mantissa. -/
def numeral : Numeral :=
  m.fraction.elim m.leading fun _ => .fraction m.negative m.significand

theorem foldlM_leading : m.whole.rest.foldlM Numeral.next?
    (.ofDigit m.negative m.whole.first) = some m.leading := by
  rw [Numeral.ofDigit, leading]
  split
  case isTrue hzero =>
    rw [m.alone hzero]
    rfl
  case isFalse =>
    exact Numeral.foldlM_whole m.negative _
      fun c hc => m.whole.digits c (List.mem_cons_of_mem _ hc)

theorem next?_leading_point : m.leading.next? '.' =
    some (.point m.negative { m.wholeSignificand with full := false }) := by
  rw [leading]
  split
  case isTrue hzero =>
    rw [wholeSignificand_of_zero hzero]
    rfl
  case isFalse => rfl

theorem foldlM_text : (m.whole.rest ++ m.fraction.elim [] fun r => '.' :: r.text).foldlM
    Numeral.next? (.ofDigit m.negative m.whole.first) = some m.numeral := by
  rw [List.foldlM_append, foldlM_leading, Option.bind_eq_bind, Option.bind_some]
  cases hfraction : m.fraction with
  | none => simp [numeral, hfraction]
  | some r =>
    have hpoint := Numeral.foldlM_point m.negative { m.wholeSignificand with full := false }
      r.digits (List.cons_ne_nil _ _)
    rw [Option.elim_some, List.foldlM_cons, next?_leading_point, Option.bind_eq_bind,
      Option.bind_some, DigitRun.text, hpoint, numeral, significand, hfraction]
    rfl

theorem text_eq : m.text = if m.negative then
    '-' :: m.whole.first :: (m.whole.rest ++ m.fraction.elim [] fun r => '.' :: r.text)
    else m.whole.first :: (m.whole.rest ++ m.fraction.elim [] fun r => '.' :: r.text) := by
  rw [text]
  cases m.negative <;> rfl

theorem value_numeral : m.numeral.value.toOption = Figures.value ⟨m, none⟩ := by
  cases hfraction : m.fraction with
  | none =>
    rw [numeral, hfraction, Option.elim_none, leading]
    split
    case isTrue hzero => exact Numeral.value_zero hfraction hzero
    case isFalse hzero =>
      rw [← significand_of_none hfraction]
      exact Numeral.value_whole hfraction hzero
  | some r =>
    rw [numeral, hfraction]
    simp only [Figures.value, hfraction]
    rfl

/-- A letter begins the power of ten. -/
theorem next?_numeral {c : Char} (hc : Numeral.isMark c = true) :
    m.numeral.next? c = some (.mark m.negative m.significand) := by
  have hletter : isDigit c = false ∧ c ≠ '.' := by
    simp only [Numeral.isMark, Bool.or_eq_true, beq_iff_eq] at hc
    obtain rfl | rfl := hc <;> decide
  rw [numeral, significand]
  cases m.fraction with
  | some r => simp [Numeral.next?, hletter, hc]
  | none =>
    rw [Option.elim_none, Option.elim_none, leading]
    split
    case isTrue hzero => simp [Numeral.next?, hletter, hc, wholeSignificand_of_zero hzero]
    case isFalse => simp [Numeral.next?, hletter, hc]

end Mantissa

namespace Exponent

variable (negative : Bool) (s : Significand)

/-- The digits of a power of ten, with its sign before them or not. -/
theorem foldlM_size {n : Numeral} {down : Bool}
    (hn : ∀ c, isDigit c = true → n.next? c = some (.power negative s down (digitValue c)))
    (r : DigitRun) : r.text.foldlM Numeral.next? n =
      some (.power negative s down (ofDigits r.text)) := by
  obtain ⟨hfirst, hrest⟩ := List.forall_mem_cons.1 r.digits
  rw [DigitRun.text, List.foldlM_cons, hn _ hfirst, Option.bind_eq_bind, Option.bind_some,
    Numeral.foldlM_power negative s hrest, ofDigits_cons]

theorem foldlM_text (e : Exponent) {n : Numeral}
    (hmark : n.next? e.mark = some (.mark negative s)) :
    e.text.foldlM Numeral.next? n =
      some (.power negative s (e.sign == some true) (ofDigits e.size.text)) := by
  rw [text, List.cons_append, List.foldlM_cons, hmark, Option.bind_eq_bind, Option.bind_some]
  cases e.sign with
  | none =>
    have hn : ∀ c, isDigit c = true → Numeral.next? (.mark negative s) c =
        some (.power negative s false (digitValue c)) := fun _ hc => if_pos hc
    exact foldlM_size negative s hn e.size
  | some down =>
    have hn : ∀ c, isDigit c = true → Numeral.next? (.markSign negative s down) c =
        some (.power negative s down (digitValue c)) := fun _ hc => if_pos hc
    have hsign : Numeral.next? (.mark negative s) (if down then '-' else '+') =
        some (.markSign negative s down) := by
      cases down <;> rfl
    have hdown : (some down == some true) = down := by cases down <;> rfl
    rw [Option.elim_some, List.singleton_append, List.foldlM_cons, hsign, Option.bind_eq_bind,
      Option.bind_some, hdown]
    exact foldlM_size negative s hn e.size

end Exponent

/-- The number that figures spell is read from their text. -/
theorem Figures.readNumeral?_text (f : Figures) : readNumeral? f.text = f.value := by
  obtain ⟨m, power⟩ := f
  have hfirst := (List.forall_mem_cons.1 m.whole.digits).1
  have hmantissa := m.foldlM_text
  cases power with
  | none =>
    rw [text_none, m.text_eq, readNumeral?_eq_toOption hfirst hmantissa]
    exact m.value_numeral
  | some e =>
    have hexponent := e.foldlM_text m.negative m.significand (m.next?_numeral e.marks)
    have hread : ((m.whole.rest ++ m.fraction.elim [] fun r => '.' :: r.text) ++ e.text).foldlM
        Numeral.next? (.ofDigit m.negative m.whole.first) =
          some (.power m.negative m.significand (e.sign == some true) (ofDigits e.size.text)) := by
      rw [List.foldlM_append, hmantissa]
      exact hexponent
    have htext : text ⟨m, some e⟩ = if m.negative then '-' :: m.whole.first ::
          ((m.whole.rest ++ m.fraction.elim [] fun r => '.' :: r.text) ++ e.text)
        else m.whole.first ::
          ((m.whole.rest ++ m.fraction.elim [] fun r => '.' :: r.text) ++ e.text) := by
      rw [text, m.text_eq]
      cases m.negative <;> rfl
    rw [htext, readNumeral?_eq_toOption hfirst hread]
    exact Numeral.value_exponent m e

/-- The texts that are read as a number are those that spell it. -/
theorem readNumeral?_eq_some_iff {cs : List Char} {v : Number} :
    readNumeral? cs = some v ↔ ∃ f : Figures, f.text = cs ∧ f.value = some v := by
  constructor
  · intro h
    cases cs with
    | nil => cases h
    | cons c cs =>
      obtain ⟨n, hn, h⟩ := Option.bind_eq_some_iff.1 h
      obtain ⟨m, hm, hv⟩ := Option.bind_eq_some_iff.1 h
      have hwritten := (Numeral.written_of_ofChar? hn).foldlM hm
      cases hr : m.value with
      | error e => simp [hr, Except.toOption] at hv
      | ok w =>
        obtain rfl : w = v := by simpa [hr, Except.toOption] using hv
        exact hwritten.exists_figures hr
  · rintro ⟨f, rfl, hv⟩
    rw [f.readNumeral?_text, hv]

end LivePanel
