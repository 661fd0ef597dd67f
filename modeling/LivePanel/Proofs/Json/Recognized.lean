import LivePanel.Proofs.Json.Accepted

/-!
# Only JSON texts are read

What the reader has in its hands spells what it has read so far, so a text that it reads to the end
is one of the grammar. Main statements: `Reached.step` and `ofText_eq_ok_iff`.
-/
namespace LivePanel.Json

variable {fs : List Frame} {cs ds es ns pre a : List Char} {v : Json} {name : String}
  {vs : List Json} {ms : List (String × Json)} {s : State} {c : Char}

mutual

/-- The text before a value that is due, with the arrays and objects that are open there. -/
inductive Due : List Frame → List Char → Prop where
  | top {a : List Char} : Spaces a → Due [] a
  | item {fs : List Frame} {vs : List Json} {cs a : List Char} : OpenArray fs vs cs → Spaces a →
      Due (.items (tidyItems vs).reverse :: fs) (cs ++ a)
  | member {fs : List Frame} {ms : List (String × Json)} {name : String} {cs ns a : List Char} :
      OpenObject fs ms cs → Named ns name → Spaces a →
      Due (.member (tidyMembers [] ms) name :: fs) (cs ++ ns ++ ':' :: a)

/-- The text up to an item of an array, with the items before it. -/
inductive OpenArray : List Frame → List Json → List Char → Prop where
  | mk {fs : List Frame} {vs : List Json} {pre cs : List Char} : Due fs pre → Items cs vs →
      fs.length + 1 + depthItems vs ≤ maxDepth → OpenArray fs vs (pre ++ '[' :: cs)

/-- The text up to a member of an object, with the members before it. -/
inductive OpenObject : List Frame → List (String × Json) → List Char → Prop where
  | mk {fs : List Frame} {ms : List (String × Json)} {pre cs : List Char} : Due fs pre →
      Entries cs ms → fs.length + 1 + depthMembers ms ≤ maxDepth →
      OpenObject fs ms (pre ++ '\x7b' :: cs)

end

/-- The text of a string from its quote on, the characters it stands for, last first, and the
backslash form that has begun. A unit that is no number never becomes a string. -/
inductive Quoting : List Char → List Char → Escape → Prop where
  | plain {q ds : List Char} : Quoted q ds → Quoting q ds.reverse .none
  | slash {q ds : List Char} : Quoted q ds → Quoting (q ++ ['\\']) ds.reverse .slash
  | unit {q ds u : List Char} {n : Nat} : Quoted q ds → u.length < 4 →
      u.foldlM pushHex? 0 = some n →
      Quoting (q ++ '\\' :: 'u' :: u) ds.reverse (.unit none u.length (some n))
  | lowSlash {q ds u : List Char} {high : Nat} : Quoted q ds → IsUnit u high →
      isHighHalf high = true → Quoting (q ++ '\\' :: 'u' :: u) ds.reverse (.lowSlash high)
  | lowMark {q ds u : List Char} {high : Nat} : Quoted q ds → IsUnit u high →
      isHighHalf high = true → Quoting (q ++ '\\' :: 'u' :: u ++ ['\\']) ds.reverse (.lowMark high)
  | lowUnit {q ds u w : List Char} {high n : Nat} : Quoted q ds → IsUnit u high →
      isHighHalf high = true → w.length < 4 → w.foldlM pushHex? 0 = some n →
      Quoting (q ++ '\\' :: 'u' :: u ++ '\\' :: 'u' :: w) ds.reverse
        (.unit (some high) w.length (some n))
  | noUnit {q ds : List Char} {high : Option Nat} {bytes : Nat} :
      Quoting q ds (.unit high bytes none)

/-- The text up to the end of a value and the blanks after it. -/
inductive Ended : State → List Char → Prop where
  | done {cs : List Char} {v : Json} : Padded cs v → v.depth ≤ maxDepth →
      Ended (.reading [] (.done v.tidy)) cs
  | afterItem {fs : List Frame} {vs : List Json} {v : Json} {cs ds : List Char} :
      OpenArray fs vs cs → Padded ds v → fs.length + 1 + v.depth ≤ maxDepth →
      Ended (.reading fs (.afterItem (tidyItems (vs ++ [v])).reverse)) (cs ++ ds)
  | afterMember {fs : List Frame} {ms : List (String × Json)} {name : String} {v : Json}
      {cs ns ds : List Char} : OpenObject fs ms cs → Named ns name → Padded ds v →
      fs.length + 1 + v.depth ≤ maxDepth →
      Ended (.reading fs (.afterMember (tidyMembers [] (ms ++ [(name, v)]))))
        (cs ++ ns ++ ':' :: ds)

/-- The text that brings the reader to a state. Of a failure nothing is said. -/
inductive Reached : State → List Char → Prop where
  | value {fs : List Frame} {cs : List Char} : Due fs cs → Reached (.reading fs .value) cs
  | firstItem {fs : List Frame} {cs a : List Char} : OpenArray fs [] cs → Spaces a →
      Reached (.reading fs .firstItem) (cs ++ a)
  | firstName {fs : List Frame} {cs a : List Char} : OpenObject fs [] cs → Spaces a →
      Reached (.reading fs .firstName) (cs ++ a)
  | name {fs : List Frame} {ms : List (String × Json)} {cs a : List Char} : OpenObject fs ms cs →
      Spaces a → Reached (.reading fs (.name (tidyMembers [] ms))) (cs ++ a)
  | colon {fs : List Frame} {ms : List (String × Json)} {name : String} {cs ns : List Char} :
      OpenObject fs ms cs → Named ns name →
      Reached (.reading fs (.colon (tidyMembers [] ms) name)) (cs ++ ns)
  | word {fs : List Frame} {cs ws rest : List Char} {v : Json} : Due fs cs →
      Spells (ws ++ rest) v → v.tidy = v → v.depth = 0 →
      Reached (.reading fs (.word rest v)) (cs ++ ws)
  | number {fs : List Frame} {cs t : List Char} {n : Numeral} : Due fs cs → n.Written t →
      Reached (.reading fs (.number n)) (cs ++ t)
  | string {fs : List Frame} {cs q ds : List Char} {e : Escape} : Due fs cs → Quoting q ds e →
      Reached (.reading fs (.string none ds e)) (cs ++ '"' :: q)
  | nameString {fs : List Frame} {ms : List (String × Json)} {cs a q ds : List Char} {e : Escape} :
      OpenObject fs ms cs → Spaces a → Quoting q ds e →
      Reached (.reading fs (.string (some (tidyMembers [] ms)) ds e)) (cs ++ a ++ '"' :: q)
  | ended {s : State} {cs : List Char} : Ended s cs → Reached s cs
  | failed {f : Fault} {cs : List Char} : Reached (.failed f) cs

theorem Spaces.push (ha : Spaces a) (hc : isSpace c = true) : Spaces (a ++ [c]) := by
  intro d hd
  obtain hd | hd := List.mem_append.1 hd
  · exact ha d hd
  · obtain rfl := List.mem_singleton.1 hd
    exact hc

theorem Due.push (h : Due fs cs) (hc : isSpace c = true) : Due fs (cs ++ [c]) := by
  cases h with
  | top ha => exact .top (ha.push hc)
  | item hopen ha =>
    rw [List.append_assoc]
    exact .item hopen (ha.push hc)
  | member hopen hname ha =>
    rw [List.append_assoc, List.cons_append]
    exact .member hopen hname (ha.push hc)

theorem Padded.push (h : Padded cs v) (hc : isSpace c = true) : Padded (cs ++ [c]) v := by
  cases h with
  | mk ha hv hb =>
    rw [List.append_assoc]
    exact .mk ha hv (hb.push hc)

theorem Named.push (h : Named ns name) (hc : isSpace c = true) : Named (ns ++ [c]) name := by
  cases h with
  | mk ha hq hb =>
    rw [List.append_assoc, List.cons_append]
    exact .mk ha hq (hb.push hc)

theorem Items.eq_nil : ∀ {cs : List Char}, Items cs [] → cs = [] := by
  intro cs h
  generalize hvs : ([] : List Json) = vs at h
  cases h with
  | nil => rfl
  | snoc => simp at hvs

theorem Entries.eq_nil (h : Entries cs []) : cs = [] := by
  generalize hms : ([] : List (String × Json)) = ms at h
  cases h with
  | nil => rfl
  | snoc => simp at hms

theorem spaces_nil : Spaces [] := fun _ hc => by cases hc

/-- Where a value is due there is room for one that is not nested. -/
theorem Due.length_le (h : Due fs cs) : fs.length ≤ maxDepth := by
  cases h with
  | top => exact Nat.zero_le _
  | item hopen =>
    cases hopen with
    | mk _ _ hroom =>
      rw [List.length_cons]
      omega
  | member hopen =>
    cases hopen with
    | mk _ _ hroom =>
      rw [List.length_cons]
      omega

/-- A value that was due goes to what is around it. -/
theorem Due.deliver (h : Due fs pre) (hv : Spells cs v) (hroom : fs.length + v.depth ≤ maxDepth) :
    Ended (Json.deliver fs v.tidy) (pre ++ cs) := by
  -- the blanks before the value belong to it, those after it are still to come
  have hpadded : ∀ {a : List Char}, Spaces a → Padded (a ++ cs) v := fun ha => by
    have hp := Padded.mk ha hv spaces_nil
    rwa [List.append_nil] at hp
  cases h with
  | top ha => exact .done (hpadded ha) (by simpa using hroom)
  | @item fs vs cs a hopen ha =>
    have hended := Ended.afterItem hopen (hpadded ha) (by rw [List.length_cons] at hroom; omega)
    rw [tidyItems_append, List.reverse_append] at hended
    rw [List.append_assoc]
    exact hended
  | member hopen hname ha =>
    have hended := Ended.afterMember hopen hname (hpadded ha)
      (by rw [List.length_cons] at hroom; omega)
    rw [tidyMembers_append] at hended
    rw [List.append_assoc, List.cons_append]
    exact hended

theorem Ended.congr (h : Ended s cs) (hcs : cs = ds) : Ended s ds := hcs ▸ h

/-- An array that ends before it has an item. -/
theorem OpenArray.deliver_nil (h : OpenArray fs [] cs) (ha : Spaces a) :
    Ended (Json.deliver fs (.array [])) (cs ++ a ++ [']']) := by
  cases h with
  | mk hdue hitems hroom =>
    obtain rfl := hitems.eq_nil
    exact (hdue.deliver (.emptyArray ha) hroom).congr (by simp)

/-- An array that ends after its last item. -/
theorem OpenArray.deliver (h : OpenArray fs vs cs) (hv : Padded ds v)
    (hdepth : fs.length + 1 + v.depth ≤ maxDepth) :
    Ended (Json.deliver fs (.array (tidyItems (vs ++ [v])))) (cs ++ ds ++ [']']) := by
  cases h with
  | mk hdue hitems hroom =>
    refine (hdue.deliver (.array hitems hv) ?_).congr (by simp)
    rw [depth, depthItems_append]
    omega

/-- A comma goes on with an array. -/
theorem OpenArray.push (h : OpenArray fs vs cs) (hv : Padded ds v)
    (hdepth : fs.length + 1 + v.depth ≤ maxDepth) :
    OpenArray fs (vs ++ [v]) (cs ++ ds ++ [',']) := by
  cases h with
  | @mk _ _ pre items hdue hitems hroom =>
    have htext : pre ++ '[' :: items ++ ds ++ [','] =
        pre ++ '[' :: (items ++ ds ++ [',']) := by simp
    rw [htext]
    refine .mk hdue (.snoc hitems hv) ?_
    rw [depthItems_append]
    omega

theorem OpenObject.deliver_nil (h : OpenObject fs [] cs) (ha : Spaces a) :
    Ended (Json.deliver fs (.object [])) (cs ++ a ++ ['\x7d']) := by
  cases h with
  | mk hdue hentries hroom =>
    obtain rfl := hentries.eq_nil
    exact (hdue.deliver (.emptyObject ha) hroom).congr (by simp)

theorem OpenObject.deliver (h : OpenObject fs ms cs) (hname : Named ns name) (hv : Padded ds v)
    (hdepth : fs.length + 1 + v.depth ≤ maxDepth) :
    Ended (Json.deliver fs (.object (tidyMembers [] (ms ++ [(name, v)]))))
      (cs ++ ns ++ ':' :: ds ++ ['\x7d']) := by
  cases h with
  | mk hdue hentries hroom =>
    refine (hdue.deliver (.object hentries hname hv) ?_).congr (by simp)
    rw [depth, depthMembers_append]
    omega

theorem OpenObject.push (h : OpenObject fs ms cs) (hname : Named ns name) (hv : Padded ds v)
    (hdepth : fs.length + 1 + v.depth ≤ maxDepth) :
    OpenObject fs (ms ++ [(name, v)]) (cs ++ ns ++ ':' :: ds ++ [',']) := by
  cases h with
  | @mk _ _ pre entries hdue hentries hroom =>
    have htext : pre ++ '\x7b' :: entries ++ ns ++ ':' :: ds ++ [','] =
        pre ++ '\x7b' :: (entries ++ ns ++ ':' :: ds ++ [',']) := by simp
    rw [htext]
    refine .mk hdue (.snoc hentries hname hv) ?_
    rw [depthMembers_append]
    omega

/-! ## One more character -/

theorem Reached.congr (h : Reached s cs) (hcs : cs = ds) : Reached s ds := hcs ▸ h

/-- After a value. -/
theorem Ended.between (h : Ended s cs) : Reached (Json.between s c) (cs ++ [c]) := by
  cases h with
  | done hv hdepth =>
    rw [Json.between]
    split
    case isTrue hc => exact .ended (.done (hv.push hc) hdepth)
    case isFalse => exact .failed
  | afterItem hopen hv hdepth =>
    rw [Json.between, List.reverse_reverse]
    split
    case isTrue hc =>
      rw [List.append_assoc]
      exact .ended (.afterItem hopen (hv.push hc) hdepth)
    case isFalse =>
      split
      case isTrue hcomma =>
        subst hcomma
        exact (Reached.value (.item (hopen.push hv hdepth) spaces_nil)).congr (by simp)
      case isFalse =>
        split
        case isTrue hend =>
          subst hend
          exact .ended (hopen.deliver hv hdepth)
        case isFalse => exact .failed
  | afterMember hopen hname hv hdepth =>
    rw [Json.between]
    split
    case isTrue hc =>
      rw [List.append_assoc, List.cons_append]
      exact .ended (.afterMember hopen hname (hv.push hc) hdepth)
    case isFalse =>
      split
      case isTrue hcomma =>
        subst hcomma
        exact (Reached.name (hopen.push hname hv hdepth) spaces_nil).congr (by simp)
      case isFalse =>
        split
        case isTrue hend =>
          subst hend
          exact .ended (hopen.deliver hname hv hdepth)
        case isFalse => exact .failed

/-- At the first character of a value. -/
theorem Due.begin (h : Due fs cs) : Reached (Json.begin fs c) (cs ++ [c]) := by
  have hword : ∀ {ws : List Char} {v : Json}, Spells (c :: ws) v → v.tidy = v → v.depth = 0 →
      Reached (.reading fs (.word ws v)) (cs ++ [c]) := fun hv => .word h hv
  rw [Json.begin]
  split
  case isTrue hquote =>
    subst hquote
    exact .string h (.plain .nil)
  split
  case isTrue hbracket =>
    subst hbracket
    split
    case isTrue hroom =>
      exact (Reached.firstItem (.mk h .nil hroom) spaces_nil).congr (List.append_nil _)
    case isFalse => exact .failed
  split
  case isTrue hbrace =>
    subst hbrace
    split
    case isTrue hroom =>
      exact (Reached.firstName (.mk h .nil hroom) spaces_nil).congr (List.append_nil _)
    case isFalse => exact .failed
  split
  case isTrue hn =>
    subst hn
    exact hword .null rfl rfl
  split
  case isTrue ht =>
    subst ht
    exact hword .yes rfl rfl
  split
  case isTrue hf =>
    subst hf
    exact hword .no rfl rfl
  split
  case h_1 n hn => exact .number h (Numeral.written_of_ofChar? hn)
  case h_2 => exact .failed

variable {q u : List Char} {e e' : Escape} {ds' : List Char} {n : Nat}

/-- A place of a unit holds a digit, which may be the last, or spoils the unit. -/
theorem stepText_unit (high : Option Nat) (hu : u.length < 4)
    (hn : u.foldlM pushHex? 0 = some n)
    (h : stepText ds (.unit high u.length (some n)) c = .more ds' e') :
    (ds' = ds ∧ ∃ bytes, e' = .unit high bytes none) ∨
    (ds' = ds ∧ (u ++ [c]).length < 4 ∧ ∃ k, (u ++ [c]).foldlM pushHex? 0 = some k ∧
      e' = .unit high (u ++ [c]).length (some k)) ∨
    ∃ k, IsUnit (u ++ [c]) k ∧ endUnit ds high k = .more ds' e' := by
  have hpush : ((some n).bind fun n => (hexValue? c).map (n * 16 + ·)) = pushHex? n c := rfl
  have hfold : (u ++ [c]).foldlM pushHex? 0 = pushHex? n c := by
    rw [List.foldlM_append, hn]
    simp
  have hlength : (u ++ [c]).length = u.length + 1 := by simp
  rw [stepText, hpush] at h
  cases hk : pushHex? n c with
  | none =>
    rw [hk] at h
    split at h
    case isTrue =>
      obtain ⟨rfl, rfl⟩ := Text.more.inj h
      exact .inl ⟨rfl, _, rfl⟩
    case isFalse => cases h
  | some k =>
    obtain ⟨d, hd, -⟩ := Option.map_eq_some_iff.1 hk
    rw [hk, utf8Size_of_hexValue? hd, ← hlength] at h
    rw [hk] at hfold
    split at h
    case isTrue hlt =>
      obtain ⟨rfl, rfl⟩ := Text.more.inj h
      exact .inr (.inl ⟨rfl, hlt, k, hfold, rfl⟩)
    case isFalse hlt => exact .inr (.inr ⟨k, ⟨by omega, hfold⟩, h⟩)

theorem Quoting.more (h : Quoting q ds e) (hc : stepText ds e c = .more ds' e') :
    Quoting (q ++ [c]) ds' e' := by
  have hpush : ∀ {q t ds : List Char} {d : Char}, Quoted q ds → Glyph t d →
      Quoting (q ++ t) (d :: ds.reverse) .none := fun hq ht => by
    have hquoting := Quoting.plain (hq.snoc ht)
    rwa [List.reverse_append] at hquoting
  cases h with
  | plain hq =>
    rw [stepText] at hc
    split at hc
    case isTrue => cases hc
    split at hc
    case isTrue hslash =>
      subst hslash
      obtain ⟨rfl, rfl⟩ := Text.more.inj hc
      exact .slash hq
    split at hc
    case isTrue => cases hc
    case isFalse hquote hslash hcontrol =>
      obtain ⟨rfl, rfl⟩ := Text.more.inj hc
      exact hpush hq (.plain hquote hslash hcontrol)
  | slash hq =>
    rw [List.append_assoc]
    rw [stepText] at hc
    split at hc
    case isTrue hmark =>
      subst hmark
      obtain ⟨rfl, rfl⟩ := Text.more.inj hc
      exact .unit hq (by decide) rfl
    split at hc
    case h_1 d hd =>
      obtain ⟨rfl, rfl⟩ := Text.more.inj hc
      exact hpush hq (.letter hd)
    case h_2 => cases hc
  | @unit q ds u n hq hu hn =>
    have htext : q ++ '\\' :: 'u' :: u ++ [c] = q ++ '\\' :: 'u' :: (u ++ [c]) := by simp
    rw [htext]
    obtain ⟨rfl, bytes, rfl⟩ | ⟨rfl, hlt, k, hk, rfl⟩ | ⟨k, hk, hend⟩ := stepText_unit none hu hn hc
    · exact .noUnit
    · exact .unit hq hlt hk
    · rw [endUnit] at hend
      split at hend
      case isTrue => cases hend
      case isFalse hlow =>
        split at hend
        case isTrue hhigh =>
          obtain ⟨rfl, rfl⟩ := Text.more.inj hend
          exact .lowSlash hq hk hhigh
        case isFalse hhigh =>
          obtain ⟨rfl, rfl⟩ := Text.more.inj hend
          exact hpush hq (.unit hk (Bool.not_eq_true _ ▸ hhigh) (Bool.not_eq_true _ ▸ hlow))
  | lowSlash hq hu hhigh =>
    rw [stepText] at hc
    split at hc
    case isTrue hslash =>
      subst hslash
      obtain ⟨rfl, rfl⟩ := Text.more.inj hc
      exact .lowMark hq hu hhigh
    case isFalse => cases hc
  | @lowMark q ds u high hq hu hhigh =>
    rw [stepText] at hc
    split at hc
    case isTrue hmark =>
      subst hmark
      obtain ⟨rfl, rfl⟩ := Text.more.inj hc
      have htext : q ++ '\\' :: 'u' :: u ++ ['\\'] ++ ['u'] =
          q ++ '\\' :: 'u' :: u ++ '\\' :: 'u' :: [] := by simp
      rw [htext]
      exact .lowUnit hq hu hhigh (by decide) rfl
    case isFalse => cases hc
  | @lowUnit q ds u w high n hq hu hhigh hw hn =>
    have htext : q ++ '\\' :: 'u' :: u ++ '\\' :: 'u' :: w ++ [c] =
        q ++ '\\' :: 'u' :: u ++ '\\' :: 'u' :: (w ++ [c]) := by simp
    rw [htext]
    obtain ⟨rfl, bytes, rfl⟩ | ⟨rfl, hlt, k, hk, rfl⟩ | ⟨k, hk, hend⟩ :=
      stepText_unit (some high) hw hn hc
    · exact .noUnit
    · exact .lowUnit hq hu hhigh hlt hk
    · rw [endUnit] at hend
      split at hend
      case isTrue hlow =>
        obtain ⟨rfl, rfl⟩ := Text.more.inj hend
        rw [List.append_assoc]
        exact hpush hq (.pair hu hhigh hk hlow)
      case isFalse => cases hend
  | @noUnit q ds high bytes =>
    rw [stepText] at hc
    split at hc
    case isTrue =>
      obtain ⟨rfl, rfl⟩ := Text.more.inj hc
      exact .noUnit
    case isFalse => cases hc

/-- A string ends with a quote that no backslash is before. -/
theorem Quoting.ended (h : Quoting q ds e) (hc : stepText ds e c = .ended ds') :
    c = '"' ∧ Quoted q ds'.reverse := by
  have hend : ∀ high k, endUnit ds high k ≠ .ended ds' := by
    intro high k h
    unfold endUnit at h
    repeat' split at h
    all_goals cases h
  cases h with
  | plain hq =>
    rw [stepText] at hc
    split at hc
    case isTrue hquote =>
      obtain rfl := Text.ended.inj hc
      rw [List.reverse_reverse]
      exact ⟨hquote, hq⟩
    case isFalse =>
      repeat' split at hc
      all_goals cases hc
  | slash | unit | lowSlash | lowMark | lowUnit | noUnit =>
    rw [stepText] at hc
    repeat' split at hc
    all_goals first | cases hc | exact absurd hc (hend _ _)

/-! ## From the first character to the last -/

theorem Ended.step (h : Ended s cs) : Reached (Json.step s c) (cs ++ [c]) := by
  have hstep : Json.step s c = Json.between s c := by cases h <;> rfl
  rw [hstep]
  exact h.between

/-- The text grows with the state. A number and a word are over only when the next character comes,
which then stands after a value. -/
theorem Reached.step (h : Reached s cs) : Reached (Json.step s c) (cs ++ [c]) := by
  cases h with
  | value hdue =>
    rw [Json.step]
    split
    case isTrue hc => exact .value (hdue.push hc)
    case isFalse => exact hdue.begin
  | firstItem hopen ha =>
    rw [Json.step]
    split
    case isTrue hc =>
      rw [List.append_assoc]
      exact .firstItem hopen (ha.push hc)
    split
    case isTrue hend =>
      subst hend
      exact .ended (hopen.deliver_nil ha)
    case isFalse => exact (Due.item hopen ha).begin
  | firstName hopen ha =>
    rw [Json.step]
    split
    case isTrue hc =>
      rw [List.append_assoc]
      exact .firstName hopen (ha.push hc)
    split
    case isTrue hend =>
      subst hend
      exact .ended (hopen.deliver_nil ha)
    split
    case isTrue hquote =>
      subst hquote
      exact .nameString hopen ha (.plain .nil)
    case isFalse => exact .failed
  | name hopen ha =>
    rw [Json.step]
    split
    case isTrue hc =>
      rw [List.append_assoc]
      exact .name hopen (ha.push hc)
    split
    case isTrue hquote =>
      subst hquote
      exact .nameString hopen ha (.plain .nil)
    case isFalse => exact .failed
  | colon hopen hname =>
    rw [Json.step]
    split
    case isTrue hc =>
      rw [List.append_assoc]
      exact .colon hopen (hname.push hc)
    split
    case isTrue hcolon =>
      subst hcolon
      exact .value (.member hopen hname spaces_nil)
    case isFalse => exact .failed
  | @word fs pre ws rest v hdue hv htidy hdepth =>
    have hended : ∀ {ws : List Char}, Spells ws v → Ended (Json.deliver fs v) (pre ++ ws) :=
      fun hws => by
        have hdeliver := hdue.deliver hws (by rw [hdepth]; exact hdue.length_le)
        rwa [htidy] at hdeliver
    cases rest with
    | nil =>
      rw [List.append_nil] at hv
      exact (hended hv).between
    | cons d rest =>
      rw [List.append_cons] at hv
      rw [List.append_assoc]
      cases rest with
      | nil =>
        rw [List.append_nil] at hv
        rw [Json.step]
        split
        case isTrue hc => exact .ended (hended (hc ▸ hv))
        case isFalse => exact .failed
      | cons d' rest =>
        rw [Json.step]
        · split
          case isTrue hc => exact .word hdue (hc ▸ hv) htidy hdepth
          case isFalse => exact .failed
        · intro h
          cases h
  | @number fs pre t n hdue hn =>
    rw [Json.step]
    split
    case h_1 n' hnext =>
      rw [List.append_assoc]
      exact .number hdue (hn.next? hnext)
    case h_2 =>
      split
      case h_1 w hw =>
        obtain ⟨f, rfl, hf⟩ := hn.exists_figures hw
        exact (hdue.deliver (.number hf) hdue.length_le).between
      case h_2 => exact .failed
  | @string fs pre q ds e hdue hq =>
    rw [step_string]
    cases hc : stepText ds e c with
    | more ds' e' =>
      rw [List.append_assoc]
      exact .string hdue (hq.more hc)
    | ended ds' =>
      obtain ⟨rfl, hquoted⟩ := hq.ended hc
      rw [List.append_assoc]
      exact .ended (hdue.deliver (.string hquoted) hdue.length_le)
    | bad => exact .failed
  | @nameString fs ms cs a q ds e hopen ha hq =>
    rw [step_string]
    cases hc : stepText ds e c with
    | more ds' e' =>
      rw [List.append_assoc]
      exact .nameString hopen ha (hq.more hc)
    | ended ds' =>
      obtain ⟨rfl, hquoted⟩ := hq.ended hc
      exact (Reached.colon hopen (.mk ha hquoted spaces_nil)).congr (by simp)
    | bad => exact .failed
  | ended h => exact h.step
  | failed => exact .failed

theorem Reached.run (h : Reached s cs) (ds : List Char) : Reached (Json.run s ds) (cs ++ ds) := by
  induction ds generalizing s cs with
  | nil => rwa [List.append_nil]
  | cons d ds ih =>
    rw [List.append_cons]
    exact ih h.step

/-- What is left at the end of a text is the value that it spells. -/
theorem Reached.finish (h : Reached s cs) (hs : Json.finish s = .ok v) :
    ∃ w, Padded cs w ∧ w.depth ≤ maxDepth ∧ w.tidy = v := by
  cases h with
  | ended h =>
    cases h with
    | @done _ w hw hdepth => exact ⟨w, hw, hdepth, Except.ok.inj hs⟩
    | afterItem | afterMember => cases hs
  | @number fs pre t n hdue hn =>
    rw [Json.finish] at hs
    split at hs
    case h_1 | h_2 => cases hs
    case h_3 w hw =>
      split at hs
      case isFalse => cases hs
      case isTrue hempty =>
        obtain rfl := List.isEmpty_iff.1 hempty
        obtain rfl := Except.ok.inj hs
        obtain ⟨f, rfl, hf⟩ := hn.exists_figures hw
        cases hdue with
        | top ha =>
          have hpadded := Padded.mk ha (.number hf) spaces_nil
          rw [List.append_nil] at hpadded
          exact ⟨_, hpadded, Nat.zero_le _, rfl⟩
  | value | firstItem | firstName | name | colon | word | string | nameString | failed => cases hs

/-- The texts that are read are the JSON texts, and what is kept of the value is what is read. -/
theorem ofText_eq_ok_iff {text : String} :
    ofText text = .ok v ↔ ∃ w, Holds text w ∧ w.tidy = v := by
  constructor
  · intro h
    have hreached := Reached.run (.value (.top spaces_nil)) text.toList
    obtain ⟨w, hpadded, hdepth, hw⟩ := hreached.finish h
    exact ⟨w, ⟨hpadded, hdepth⟩, hw⟩
  · rintro ⟨w, hw, rfl⟩
    exact hw.ofText_eq

end LivePanel.Json
