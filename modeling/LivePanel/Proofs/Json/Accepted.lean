import LivePanel.Proofs.Json.Grammar

/-!
# JSON texts are read

Whatever the grammar has for a JSON text is read as the value it holds. A value is read in the same
way wherever it stands, until a character comes that cannot belong to it. Main statement:
`Holds.ofText_eq`.
-/
namespace LivePanel.Json

variable {fs : List Frame} {cs t : List Char} {v : Json}

/-- Goes on with a string in which one more character has been read. -/
def resume (fs : List Frame) (owner : Option Members) : Text → State
  | .more cs e => .reading fs (.string owner cs e)
  | .ended cs => endString fs owner cs
  | .bad => unexpected

theorem step_string (fs : List Frame) (owner : Option Members) (cs : List Char) (e : Escape)
    (c : Char) : step (.reading fs (.string owner cs e)) c = resume fs owner (stepText cs e c) := by
  rw [step]
  cases stepText cs e c <;> rfl

/-- A hexadecimal digit is one byte long. -/
theorem utf8Size_of_hexValue? {c : Char} {n : Nat} (hc : hexValue? c = some n) :
    c.utf8Size = 1 := by
  have hle : c.toNat ≤ 102 := by
    rw [hexValue?] at hc
    split at hc
    case isTrue hdigit =>
      have hrange : '0' ≤ c ∧ c ≤ '9' := by simpa [isDigit] using hdigit
      exact Nat.le_trans (UInt32.le_iff_toNat_le.1 hrange.2) (by decide)
    case isFalse =>
      split at hc
      case isTrue hsmall => exact UInt32.le_iff_toNat_le.1 hsmall.2
      case isFalse =>
        obtain ⟨hlarge, -⟩ := Option.ite_none_right_eq_some.1 hc
        exact Nat.le_trans (UInt32.le_iff_toNat_le.1 hlarge.2) (by decide)
  have hascii : c.val ≤ 0x7f := UInt32.le_iff_toNat_le.2 (Nat.le_trans hle (by decide))
  exact if_pos hascii

theorem run_unit (owner : Option Members) (cs : List Char) (high : Option Nat) {u : List Char}
    {bytes value n : Nat} (hu : u.foldlM pushHex? value = some n) (hne : u ≠ [])
    (hbytes : bytes + u.length = 4) :
    run (.reading fs (.string owner cs (.unit high bytes (some value)))) u =
      resume fs owner (endUnit cs high n) := by
  induction u generalizing bytes value with
  | nil => exact absurd rfl hne
  | cons c u ih =>
    rw [List.foldlM_cons] at hu
    obtain ⟨k, hk, hrest⟩ := Option.bind_eq_some_iff.1 hu
    obtain ⟨d, hd, -⟩ := Option.map_eq_some_iff.1 hk
    have hsize := utf8Size_of_hexValue? hd
    rw [List.length_cons] at hbytes
    have hvalue : ((some value).bind fun n => (hexValue? c).map (n * 16 + ·)) = some k := hk
    rw [run_cons, step_string, stepText, hvalue, hsize]
    dsimp only
    cases u with
    | nil =>
      obtain rfl := Option.some.inj hrest
      rw [if_neg (by simp only [List.length_nil] at hbytes; omega), run_nil]
    | cons d u =>
      rw [if_pos (by simp only [List.length_cons] at hbytes; omega)]
      exact ih hrest (List.cons_ne_nil d u) (by omega)

variable (owner : Option Members)

theorem IsUnit.run {u : List Char} {n : Nat} (hu : IsUnit u n) (cs : List Char)
    (high : Option Nat) : Json.run (.reading fs (.string owner cs (.unit high 0 (some 0)))) u =
      resume fs owner (endUnit cs high n) := by
  refine run_unit owner cs high hu.2 ?_ (by rw [hu.1])
  rintro rfl
  cases hu.1

theorem Glyph.run {d : Char} (h : Glyph t d) (cs : List Char) :
    Json.run (.reading fs (.string owner cs .none)) t =
      .reading fs (.string owner (d :: cs) .none) := by
  have hopen : Json.run (.reading fs (.string owner cs .none)) ['\\', 'u'] =
      .reading fs (.string owner cs (.unit none 0 (some 0))) := rfl
  cases h with
  | plain hquote hslash hcontrol =>
    rw [run_cons, step_string, stepText, if_neg hquote, if_neg hslash, if_neg hcontrol]
    rfl
  | @letter c d hletter =>
    have hmark : c ≠ 'u' := by
      rintro rfl
      cases hletter
    have hslash : step (.reading fs (.string owner cs .none)) '\\' =
        .reading fs (.string owner cs .slash) := rfl
    rw [run_cons, hslash, run_cons, step_string, stepText, if_neg hmark, hletter]
    rfl
  | @unit u n hu hhigh hlow =>
    have htext : '\\' :: 'u' :: u = ['\\', 'u'] ++ u := rfl
    rw [htext, run_append, hopen, hu.run, endUnit]
    simp [hhigh, hlow, resume]
  | @pair u w high low hu hhigh hw hlow =>
    have htext : '\\' :: 'u' :: u ++ '\\' :: 'u' :: w =
        ['\\', 'u'] ++ (u ++ (['\\', 'u'] ++ w)) := rfl
    have hnotLow : isLowHalf high = false := by
      simp only [isHighHalf, Bool.and_eq_true, decide_eq_true_eq] at hhigh
      simp [isLowHalf]
      omega
    have hagain : Json.run (.reading fs (.string owner cs (.lowSlash high))) ['\\', 'u'] =
        .reading fs (.string owner cs (.unit (some high) 0 (some 0))) := rfl
    have hfirst : endUnit cs none high = .more cs (.lowSlash high) := by
      simp [endUnit, hnotLow, hhigh]
    have hsecond : endUnit cs (some high) low = .more (joinHalves high low :: cs) .none :=
      if_pos hlow
    rw [htext, run_append, hopen, run_append, hu.run, hfirst, resume, run_append, hagain, hw.run,
      hsecond, resume]

theorem Quoted.run {q ds : List Char} (h : Quoted q ds) (cs : List Char) :
    Json.run (.reading fs (.string owner cs .none)) q =
      .reading fs (.string owner (ds.reverse ++ cs) .none) := by
  induction h with
  | nil => rfl
  | snoc _ hglyph ih => rw [run_append, ih, hglyph.run, List.reverse_append]; rfl

theorem Spaces.run {a : List Char} (ha : Spaces a) {s : State}
    (hs : ∀ c, isSpace c = true → step s c = s) : Json.run s a = s := by
  induction a with
  | nil => rfl
  | cons c a ih =>
    obtain ⟨hc, ha⟩ := List.forall_mem_cons.1 ha
    rw [run_cons, hs c hc, ih ha]

theorem Named.run {ns : List Char} {name : String} (h : Named ns name) (ms : Members) :
    Json.run (.reading fs (.name ms)) (ns ++ [':']) = .reading (.member ms name :: fs) .value := by
  cases h with
  | @mk a b q ds ha hq hb =>
    have hbefore := ha.run (s := .reading fs (.name ms)) fun c hc => if_pos hc
    have hafter := hb.run (s := .reading fs (.colon ms (.ofList ds))) fun c hc => if_pos hc
    have hopen : step (.reading fs (.name ms)) '"' = .reading fs (.string (some ms) [] .none) := rfl
    have hclose : step (.reading fs (.string (some ms) ds.reverse .none)) '"' =
        .reading fs (.colon ms (.ofList ds)) := by
      rw [step_string]
      simp [stepText, resume, endString]
    have hcolon : step (.reading fs (.colon ms (.ofList ds))) ':' =
        .reading (.member ms (.ofList ds) :: fs) .value := rfl
    have htext : a ++ '"' :: q ++ '"' :: b ++ [':'] = a ++ ('"' :: (q ++ ('"' :: (b ++ [':'])))) := by
      simp
    rw [htext, run_append, hbefore, run_cons, hopen, run_append, hq.run, List.append_nil, run_cons,
      hclose, run_append, hafter, run_cons, hcolon, run_nil]

theorem next?_space {c : Char} (hc : isSpace c = true) (n : Numeral) : n.next? c = none := by
  simp only [isSpace, Bool.or_eq_true, beq_iff_eq] at hc
  obtain ((rfl | rfl) | rfl) | rfl := hc <;> cases n <;> rfl

theorem between_space (fs : List Frame) (v : Json) {c : Char} (hc : isSpace c = true) :
    between (deliver fs v) c = deliver fs v := by
  cases fs with
  | nil => exact if_pos hc
  | cons f fs => cases f <;> exact if_pos hc

/-- A text that is read as a value and may have blanks after it. A number ends only there. -/
structure Delivers (fs : List Frame) (cs : List Char) (v : Json) : Prop extends
    ReadsAs fs cs v where
  blank : ∀ c, isSpace c = true → Json.run (.reading fs .value) (cs ++ [c]) = deliver fs v

theorem delivers_of_run (h : Json.run (.reading fs .value) cs = deliver fs v) :
    Delivers fs cs v where
  toReadsAs := readsAs_of_run h
  blank c hc := by rw [run_append, h, run_cons, run_nil, step_deliver, between_space fs v hc]

theorem delivers_number {n : Number} (h : readNumeral? cs = some n) :
    Delivers fs cs (.number n) := by
  constructor
  case toReadsAs =>
    refine ⟨fun d hd => run_number h fs hd, ?_⟩
    rintro rfl
    exact finish_number h
  case blank =>
    intro c hc
    obtain ⟨m, hm, hrun⟩ := exists_numeral h fs
    rw [run_append, hrun, run_cons, step]
    simp only [next?_space hc, hm]
    exact between_space fs (.number n) hc

/-- Blanks before and after a value do not change how it is read. -/
theorem Delivers.padded {a b : List Char} (h : Delivers fs cs v) (ha : Spaces a) (hb : Spaces b) :
    Delivers fs (a ++ cs ++ b) v := by
  have hbefore := ha.run (s := .reading fs .value) fun c hc => if_pos hc
  -- the first blank after the value ends it
  cases b with
  | nil =>
    rw [List.append_nil]
    constructor
    case toReadsAs =>
      constructor
      case closed =>
        intro d hd
        rw [List.append_assoc, run_append, hbefore, h.closed d hd]
      case ended =>
        intro hfs
        rw [run_append, hbefore, h.ended hfs]
    case blank =>
      intro c hc
      rw [List.append_assoc, run_append, hbefore, h.blank c hc]
  | cons c b =>
    obtain ⟨hc, hb⟩ := List.forall_mem_cons.1 hb
    have hafter := Spaces.run hb (s := deliver fs v) fun c hc => by
      rw [step_deliver, between_space fs v hc]
    refine delivers_of_run ?_
    rw [List.append_assoc, run_append, hbefore, List.append_cons, run_append, h.blank c hc, hafter]

/-- A text whose first character that is not blank is of some kind. -/
def Begins (p : Char → Prop) (cs : List Char) : Prop :=
  ∃ a c rest, cs = a ++ c :: rest ∧ Spaces a ∧ isSpace c = false ∧ p c

variable {p : Char → Prop}

theorem Begins.append (h : Begins p cs) (ds : List Char) : Begins p (cs ++ ds) := by
  obtain ⟨a, c, rest, rfl, ha, hc⟩ := h
  exact ⟨a, c, rest ++ ds, by rw [List.append_assoc, List.cons_append], ha, hc⟩

/-- Two states that pass over blanks and agree on that character agree on the text. -/
theorem Begins.run_eq (h : Begins p cs) {r s : State} (hr : ∀ c, isSpace c = true → step r c = r)
    (hs : ∀ c, isSpace c = true → step s c = s)
    (hp : ∀ c, isSpace c = false → p c → step r c = step s c) : Json.run r cs = Json.run s cs := by
  obtain ⟨a, c, rest, rfl, ha, hspace, hc⟩ := h
  rw [run_append, run_append, ha.run hr, ha.run hs, run_cons, run_cons, hp c hspace hc]

theorem Spells.begins (h : Spells cs v) :
    ∃ c rest, cs = c :: rest ∧ isSpace c = false ∧ c ≠ ']' := by
  cases h with
  | @number f _ hn => exact exists_cons_of_readNumeral? (f.readNumeral?_text.trans hn)
  | null | yes | no | string | emptyArray | array | emptyObject | object =>
    exact ⟨_, _, rfl, by decide, by decide⟩

theorem Padded.begins (h : Padded cs v) : Begins (· ≠ ']') cs := by
  cases h with
  | @mk a b _ _ ha hv hb =>
    obtain ⟨c, rest, rfl, hc⟩ := hv.begins
    exact ⟨a, c, rest ++ b, by simp, ha, hc⟩

theorem Named.begins {ns : List Char} {name : String} (h : Named ns name) :
    Begins (· = '"') ns := by
  cases h with
  | @mk a b q _ ha _ _ => exact ⟨a, '"', q ++ '"' :: b, by simp, ha, by decide, rfl⟩

theorem Items.begins : ∀ {cs : List Char} {vs : List Json}, Items cs vs →
    cs = [] ∨ Begins (· ≠ ']') cs
  | _, _, .nil => .inl rfl
  | _, _, .snoc hitems hv => by
    obtain rfl | hbegins := hitems.begins
    · exact .inr (hv.begins.append _)
    · exact .inr ((hbegins.append _).append _)

theorem Entries.begins : ∀ {cs : List Char} {ms : List (String × Json)}, Entries cs ms →
    cs = [] ∨ Begins (· = '"') cs
  | _, _, .nil => .inl rfl
  | _, _, .snoc hentries hname hv => by
    obtain rfl | hbegins := hentries.begins
    · exact .inr ((hname.begins.append _).append _)
    · exact .inr (((hbegins.append _).append _).append _)

/-- An array just begun takes its first item like any other. -/
theorem run_firstItem (h : Begins (· ≠ ']') cs) :
    Json.run (.reading fs .firstItem) cs = Json.run (.reading (.items [] :: fs) .value) cs :=
  h.run_eq (fun _ hc => if_pos hc) (fun _ hc => if_pos hc) fun c hspace hc => by
    simp [step, hspace, hc]

/-- An object just begun takes its first name like any other. -/
theorem run_firstName (h : Begins (· = '"') cs) :
    Json.run (.reading fs .firstName) cs = Json.run (.reading fs (.name [])) cs :=
  h.run_eq (fun _ hc => if_pos hc) (fun _ hc => if_pos hc) fun c _ hc => by
    rw [hc]
    rfl

-- By induction on how the text is derived. What is open around a value only has to leave room for it,
-- so the frames are general, and the items of an array are read with one frame more.
mutual

theorem Spells.delivers : ∀ {cs : List Char} {v : Json}, Spells cs v → ∀ fs : List Frame,
    fs.length + v.depth ≤ maxDepth → Delivers fs cs v.tidy
  | _, _, .null, _, _ => delivers_of_run rfl
  | _, _, .yes, _, _ => delivers_of_run rfl
  | _, _, .no, _, _ => delivers_of_run rfl
  | _, _, @Spells.number f _ hn, _, _ => delivers_number (f.readNumeral?_text.trans hn)
  | _, _, @Spells.string q ds hq, fs, _ => by
    have hopen : step (.reading fs .value) '"' = .reading fs (.string none [] .none) := rfl
    refine delivers_of_run ?_
    rw [List.cons_append, run_cons, hopen, run_append, hq.run, run_cons, run_nil, step_string]
    simp [stepText, resume, endString, tidy]
  | _, _, @Spells.emptyArray a ha, fs, h => by
    rw [depth] at h
    have hopen : step (.reading fs .value) '[' = .reading fs .firstItem := if_pos (by omega)
    have hblank := ha.run (s := .reading fs .firstItem) fun c hc => if_pos hc
    refine delivers_of_run ?_
    rw [List.cons_append, run_cons, hopen, run_append, hblank]
    rfl
  | _, _, @Spells.array cs ds vs v hitems hv, fs, h => by
    rw [depth, depthItems_append] at h
    have hopen : step (.reading fs .value) '[' = .reading fs .firstItem := if_pos (by omega)
    have hfirst : Begins (· ≠ ']') (cs ++ ds) := by
      obtain rfl | hbegins := hitems.begins
      · exact hv.begins
      · exact hbegins.append ds
    have hread := hv.delivers (.items (tidyItems vs).reverse :: fs)
      (by rw [List.length_cons]; omega)
    have hclose : between (deliver (.items (tidyItems vs).reverse :: fs) v.tidy) ']' =
        deliver fs (tidy (.array (vs ++ [v]))) := by
      rw [tidy, tidyItems_append]
      simp [deliver, between, isSpace]
    refine delivers_of_run ?_
    rw [List.cons_append, List.cons_append, run_cons, hopen, run_firstItem (hfirst.append _),
      List.append_assoc, run_append, hitems.run fs (by omega),
      hread.closed ']' (.inr (.inl rfl)), hclose]
  | _, _, @Spells.emptyObject a ha, fs, h => by
    rw [depth] at h
    have hopen : step (.reading fs .value) '\x7b' = .reading fs .firstName := if_pos (by omega)
    have hblank := ha.run (s := .reading fs .firstName) fun c hc => if_pos hc
    refine delivers_of_run ?_
    rw [List.cons_append, run_cons, hopen, run_append, hblank]
    rfl
  | _, _, @Spells.object cs ns ds ms name v hentries hname hv, fs, h => by
    rw [depth, depthMembers_append] at h
    have hopen : step (.reading fs .value) '\x7b' = .reading fs .firstName := if_pos (by omega)
    have hfirst : Begins (· = '"') (cs ++ ns) := by
      obtain rfl | hbegins := hentries.begins
      · exact hname.begins
      · exact hbegins.append ns
    have hread := hv.delivers (.member (tidyMembers [] ms) name :: fs)
      (by rw [List.length_cons]; omega)
    have hclose : between (deliver (.member (tidyMembers [] ms) name :: fs) v.tidy) '\x7d' =
        deliver fs (tidy (.object (ms ++ [(name, v)]))) := by
      rw [tidy, tidyMembers_append]
      rfl
    have htext : '\x7b' :: cs ++ ns ++ ':' :: ds ++ ['\x7d'] =
        '\x7b' :: (cs ++ ns ++ (':' :: ds ++ ['\x7d'])) := by simp
    have hsplit : cs ++ ns ++ (':' :: ds ++ ['\x7d']) =
        cs ++ ((ns ++ [':']) ++ (ds ++ ['\x7d'])) := by simp
    refine delivers_of_run ?_
    rw [htext, run_cons, hopen, run_firstName (hfirst.append _), hsplit, run_append, run_append,
      hentries.run fs (by omega), hname.run, hread.closed '\x7d' (.inr (.inr rfl)), hclose]

theorem Padded.delivers : ∀ {cs : List Char} {v : Json}, Padded cs v → ∀ fs : List Frame,
    fs.length + v.depth ≤ maxDepth → Delivers fs cs v.tidy
  | _, _, .mk ha hv hb, fs, h => (hv.delivers fs h).padded ha hb

theorem Items.run : ∀ {cs : List Char} {vs : List Json}, Items cs vs → ∀ fs : List Frame,
    fs.length + 1 + depthItems vs ≤ maxDepth →
    Json.run (.reading (.items [] :: fs) .value) cs =
      .reading (.items (tidyItems vs).reverse :: fs) .value
  | _, _, .nil, _, _ => rfl
  | _, _, @Items.snoc cs ds vs v hitems hv, fs, h => by
    rw [depthItems_append] at h
    have hread := hv.delivers (.items (tidyItems vs).reverse :: fs)
      (by rw [List.length_cons]; omega)
    rw [List.append_assoc, run_append, hitems.run fs (by omega),
      hread.closed ',' (.inl rfl), tidyItems_append, List.reverse_append]
    rfl

theorem Entries.run : ∀ {cs : List Char} {ms : List (String × Json)}, Entries cs ms →
    ∀ fs : List Frame, fs.length + 1 + depthMembers ms ≤ maxDepth →
    Json.run (.reading fs (.name [])) cs = .reading fs (.name (tidyMembers [] ms))
  | _, _, .nil, _, _ => rfl
  | _, _, @Entries.snoc cs ns ds ms name v hentries hname hv, fs, h => by
    rw [depthMembers_append] at h
    have hread := hv.delivers (.member (tidyMembers [] ms) name :: fs)
      (by rw [List.length_cons]; omega)
    have htext : cs ++ ns ++ ':' :: ds ++ [','] = cs ++ ((ns ++ [':']) ++ (ds ++ [','])) := by simp
    rw [htext, run_append, run_append, hentries.run fs (by omega), hname.run,
      hread.closed ',' (.inl rfl), tidyMembers_append]
    rfl

end

/-- A JSON text is read as the value it holds. -/
theorem Holds.ofText_eq {text : String} (h : Holds text v) : ofText text = .ok v.tidy :=
  (h.padded.delivers [] (by simpa using h.depth)).ended rfl

end LivePanel.Json
