import LivePanel.Proofs.Json.Values
import LivePanel.Proofs.Number.Drift
import LivePanel.Proofs.Number.Entered

/-!
# Doubles read again

The text of a double stands for one decimal. Typed, it is read as the double nearest to that; in
JSON text it is rounded in steps, which may give another one close to it. Main statements:
`readNumeral?_reread`, `reread_of_brief` and `reread_close`.
-/
namespace LivePanel

open Decimal (zeros plain scientific)

/-- Digits after the point are all kept while their number has 64 bits. -/
theorem Significand.foldl_pushFraction_of_lt {ds : List Char} {n : Nat} (scale : Int)
    (hfits : ds.foldl pushDigit n < powerOfTwo 64) :
    ds.foldl pushFraction ⟨n, scale, false⟩ =
      ⟨ds.foldl pushDigit n, scale - ds.length, false⟩ := by
  induction ds generalizing n scale with
  | nil => simp
  | cons d ds ih =>
    rw [List.foldl_cons] at hfits
    have hle : pushDigit n d ≤ ds.foldl pushDigit (pushDigit n d) := by
      rw [foldl_pushDigit]
      exact Nat.le_trans (Nat.le_mul_of_pos_right _ (powerOfTen_pos _)) (Nat.le_add_right _ _)
    have hfirst : pushFraction ⟨n, scale, false⟩ d = ⟨pushDigit n d, scale - 1, false⟩ := by
      simp [pushFraction, fits, Nat.lt_of_le_of_lt hle hfits]
    rw [List.foldl_cons, hfirst, ih (scale - 1) hfits, List.foldl_cons, List.length_cons]
    congr 1
    push_cast
    omega

namespace Numeral

/-- A text without a sign that stands for a decimal, whether it is typed or goes in JSON text, where
the decimal is rounded in steps. -/
structure Spells (negative : Bool) (t : List Char) (d : Decimal) : Prop where
  typed : readDecimal? t = some d
  numeral : ∃ c cs m, t = c :: cs ∧ isDigit c = true ∧
    cs.foldlM next? (ofDigit negative c) = some m ∧
    m.value = (d.stepwise? negative).elim (.error .tooLarge) (.ok <| .real ·)
  fits : d.coefficient < powerOfTwo 64

variable (negative : Bool) {c : Char} {ws fs : List Char}

theorem spells_pointed (hp : Pointed c ws fs) (hfits : ofDigits (c :: ws ++ fs) < powerOfTwo 64) :
    Spells negative (c :: (ws ++ '.' :: fs)) ⟨ofDigits (c :: ws ++ fs), -fs.length⟩ := by
  have hdigits : ofDigits (c :: ws ++ fs) = fs.foldl pushDigit (ofDigits (c :: ws)) := by
    rw [ofDigits, List.foldl_append, ofDigits]
  constructor
  case typed =>
    have hread := readDecimal?_point hp.digits (List.cons_ne_nil c ws) hp.fraction breaks_nil rfl
    rwa [List.append_nil, Int.zero_sub] at hread
  case numeral =>
    refine ⟨c, _, _, rfl, hp.digit,
      foldlM_pointed negative ws hp.alone hp.whole hp.fits hp.fraction hp.nonempty, ?_⟩
    rw [hdigits] at hfits ⊢
    rw [Significand.foldl_pushFraction_of_lt 0 hfits, value, real_eq_elim, Decimal.stepwise?]
    simp only [Int.zero_sub, Int.add_zero]
  case fits => exact hfits

theorem spells_plain {ds : List Char} (hds : ∀ d ∈ ds, isDigit d = true) (hne : ds ≠ [])
    (hlead : ds.head? ≠ some '0') (hfits : ofDigits ds < powerOfTwo 64) {m : Int} (hm : m ≤ 15) :
    ∃ d, Spells negative (plain ds m) d := by
  obtain ⟨c, ws, fs, htext, hp, hsame | hshort⟩ := exists_pointed_plain hds hne hlead hm
  · rw [htext]
    exact ⟨_, spells_pointed negative hp (hsame ▸ hfits)⟩
  · rw [htext]
    have hall : ∀ d ∈ c :: ws ++ fs, isDigit d = true := by
      intro d hd
      obtain hwhole | hfraction := List.mem_append.1 hd
      · exact hp.digits d hwhole
      · exact hp.fraction d hfraction
    have hlt : ofDigits (c :: ws ++ fs) < powerOfTwo 64 :=
      Nat.lt_of_lt_of_le (ofDigits_lt hall) (Nat.le_trans (powerOfTen_le hshort) (by decide))
    exact ⟨_, spells_pointed negative hp hlt⟩

theorem spells_scientific {ds : List Char} (hds : ∀ d ∈ ds, isDigit d = true) (hne : ds ≠ [])
    (hlead : ds.head? ≠ some '0') (hfits : ofDigits ds < powerOfTwo 64) (m : Int) :
    ∃ d, Spells negative (scientific ds m) d := by
  obtain ⟨c, fs, rfl⟩ := List.exists_cons_of_ne_nil hne
  obtain ⟨hc, hfs⟩ := List.forall_mem_cons.1 hds
  have hnonzero : c ≠ '0' := fun h => hlead (h ▸ rfl)
  obtain ⟨cs, htext, hcs⟩ := foldlM_scientific negative hc hnonzero hfs m
  refine ⟨_, readDecimal?_scientific hds hne m, ⟨c, cs, _, htext, hc, hcs, ?_⟩, hfits⟩
  rw [ofDigits_cons] at hfits ⊢
  have hscale : (0 : Int) - fs.length + m = m + 1 - (c :: fs).length := by
    rw [List.length_cons]
    push_cast
    omega
  rw [value_power, Significand.ofDigit, Significand.foldl_pushFraction_of_lt 0 hfits, real_eq_elim,
    hscale, Decimal.stepwise?]

end Numeral

namespace Binary64

theorem text_shortest_of_zero {x : Binary64} (hx : x.significand = 0) :
    x.shortest.text = ['0', '.', '0'] := by
  have hshortest : x.shortest = ⟨0, 0⟩ := by
    rw [shortest, if_pos]
    simpa [isZero] using hx
  rw [hshortest]
  rfl

/-- The text of a double stands for one decimal. -/
theorem exists_spells (x : Binary64) : ∃ d, Numeral.Spells x.negative x.shortest.text d := by
  by_cases hzero : x.significand = 0
  · have hp : Numeral.Pointed '0' [] ['0'] :=
      ⟨rfl, fun _ => rfl, by simp, by decide, by simp [isDigit], by simp⟩
    rw [text_shortest_of_zero hzero]
    exact ⟨_, Numeral.spells_pointed x.negative hp (by decide)⟩
  · have hcoefficient := coefficient_ne_zero_of_readsBack hzero (readsBack_shortest hzero)
    have hmost := x.coefficient_shortest_le
    generalize x.shortest = d at hcoefficient hmost
    obtain ⟨ds, n, htext, hne, hdigits, hvalue⟩ := Decimal.exists_written hcoefficient
    have hds := Decimal.isDigit_of_written hdigits
    have hlead : ds.head? ≠ some '0' := by
      intro hfirst
      obtain ⟨rest, rfl⟩ := List.head?_eq_some_iff.1 hfirst
      exact hcoefficient (eq_zero_of_digits hdigits)
    have hfits : ofDigits ds < powerOfTwo 64 := by
      have hle : ofDigits ds ≤ ofDigits ds * powerOfTen n :=
        Nat.le_mul_of_pos_right _ (powerOfTen_pos n)
      have hword : powerOfTen 17 < powerOfTwo 64 := by decide
      omega
    rw [htext]
    split
    · rename_i hplain
      exact Numeral.spells_plain x.negative hds hne hlead hfits hplain.2
    · exact Numeral.spells_scientific x.negative hds hne hlead hfits d.magnitude

/-- What a double is read as after it has been written. -/
def reread (x : Binary64) : Binary64 :=
  match readNumeral? x.text with
  | some (.real y) => y
  | _ => x

/-- One decimal is written; it is nearest to the double, and read in steps. -/
theorem exists_decimal (x : Binary64) : ∃ d, readDecimal? x.shortest.text = some d ∧
    d.coefficient < powerOfTwo 64 ∧ d.toBinary64? x.negative = some x ∧
    d.stepwise? x.negative = some x.reread ∧
    readNumeral? (Number.text (.real x)) = some (.real x.reread) := by
  obtain ⟨d, hspells⟩ := x.exists_spells
  obtain ⟨e, he, hnearest⟩ := x.readDecimal?_shortest
  obtain rfl : d = e := Option.some.inj (hspells.typed.symm.trans he)
  obtain ⟨c, cs, m, htext, hc, hcs, hm⟩ := hspells.numeral
  obtain ⟨v, hv⟩ := exists_readNumeral?_real x
  have hread : readNumeral? x.text = m.value.toOption := by
    rw [text, htext]
    exact readNumeral?_eq_toOption hc hcs
  have hreal : readNumeral? x.text = (d.stepwise? x.negative).map .real := by
    rw [hread, hm]
    cases d.stepwise? x.negative <;> rfl
  rw [Number.text, hreal] at hv
  obtain ⟨y, hy, -⟩ := Option.map_eq_some_iff.1 hv
  have hnumeral : readNumeral? x.text = some (.real y) := by rw [hreal, hy]; rfl
  have hreread : x.reread = y := by rw [reread, hnumeral]
  rw [hreread]
  exact ⟨d, he, hspells.fits, hnearest, hy, hnumeral⟩

theorem readNumeral?_reread (x : Binary64) :
    readNumeral? (Number.text (.real x)) = some (.real x.reread) := by
  obtain ⟨d, -, -, -, -, hread⟩ := x.exists_decimal
  exact hread

/-- A double whose text is that of a brief decimal. -/
def Brief (x : Binary64) : Prop := ∀ d ∈ readDecimal? x.shortest.text, d.Brief

instance (x : Binary64) : Decidable x.Brief :=
  inferInstanceAs (Decidable (∀ d ∈ readDecimal? x.shortest.text, d.Brief))

/-- Such a double is read as it was. -/
theorem reread_of_brief {x : Binary64} (hx : x.Brief) : x.reread = x := by
  obtain ⟨d, hd, hword, hnearest, hsteps, -⟩ := x.exists_decimal
  rw [Decimal.stepwise?_of_brief x.negative hword (hx d hd), hnearest] at hsteps
  exact (Option.some.inj hsteps).symm

theorem brief_of_zero {x : Binary64} (hx : x.significand = 0) : x.Brief := by
  have hread : readDecimal? ['0', '.', '0'] = some ⟨0, -1⟩ := by decide
  intro d hd
  rw [text_shortest_of_zero hx, hread] at hd
  obtain rfl := Option.some.inj hd
  decide

/-- No double is read as one of another sign, or as one that lies further off than by one part in
`2 ^ 50` and by two units. -/
theorem reread_close (x : Binary64) : x.reread.negative = x.negative ∧
    (x.reread.units - x.units : Int).natAbs * powerOfTwo 50 ≤ x.units + powerOfTwo 51 := by
  obtain ⟨d, -, hword, hnearest, hsteps, -⟩ := x.exists_decimal
  refine ⟨Decimal.negative_of_stepwise? hsteps, ?_⟩
  by_cases hzero : x.significand = 0
  · rw [reread_of_brief (brief_of_zero hzero), Int.sub_self, Int.natAbs_zero, Nat.zero_mul]
    exact Nat.zero_le _
  · exact Decimal.units_of_stepwise? hzero hword hnearest hsteps

end Binary64
end LivePanel
