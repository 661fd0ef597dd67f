import LivePanel.Proofs.Json.Doubles
import LivePanel.Proofs.Json.Strings

/-!
# Written values

A value that is written is read again, unless it is nested too deep: doubles may change, and members
are put in the order of their names, but nothing else does. Main statement: `ofText_text`.
-/
namespace LivePanel

namespace Json

mutual

/-- How deep a value is nested. -/
def depth : Json → Nat
  | .null | .bool _ | .number _ | .string _ => 0
  | .array vs => depthItems vs + 1
  | .object ms => depthMembers ms + 1

def depthItems : List Json → Nat
  | [] => 0
  | v :: vs => max (depth v) (depthItems vs)

def depthMembers : List (String × Json) → Nat
  | [] => 0
  | (_, v) :: ms => max (depth v) (depthMembers ms)

end

mutual

/-- What a value is read as after it has been written. -/
def reread : Json → Json
  | .null => .null
  | .bool b => .bool b
  | .number n => .number ((readNumeral? n.text).getD n)
  | .string s => .string s
  | .array vs => .array (rereadItems vs)
  | .object ms => .object (rereadMembers [] ms)

def rereadItems : List Json → List Json
  | [] => []
  | v :: vs => reread v :: rereadItems vs

/-- The members join those that have been read before. -/
def rereadMembers (before : Members) : List (String × Json) → Members
  | [] => before
  | (name, v) :: ms => rereadMembers (before.insert name (reread v)) ms

end

theorem readNumeral?_text (n : Number) :
    readNumeral? n.text = some ((readNumeral? n.text).getD n) := by
  obtain ⟨v, hv⟩ : ∃ v, readNumeral? n.text = some v := by
    cases n with
    | whole n => exact ⟨_, readNumeral?_whole n⟩
    | real x => exact exists_readNumeral?_real x
  rw [hv]
  rfl

/-- Whole numbers do not change. -/
theorem reread_whole (n : Whole) : reread (.number (.whole n)) = .number (.whole n) := by
  rw [reread, readNumeral?_whole]
  rfl

/-- A text that is read as a value, whatever is open around it. A number ends only with the
character that closes it, or with the whole text. -/
structure ReadsAs (fs : List Frame) (cs : List Char) (v : Json) : Prop where
  closed : ∀ d, Closes d → run (.reading fs .value) (cs ++ [d]) = between (deliver fs v) d
  ended : fs = [] → finish (run (.reading fs .value) cs) = .ok v

theorem step_deliver (fs : List Frame) (v : Json) (d : Char) :
    step (deliver fs v) d = between (deliver fs v) d := by
  cases fs with
  | nil => rfl
  | cons f fs => cases f <;> rfl

theorem readsAs_of_run {fs : List Frame} {cs : List Char} {v : Json}
    (h : run (.reading fs .value) cs = deliver fs v) : ReadsAs fs cs v := by
  constructor
  case closed =>
    intro d _
    rw [run_append, h, run_cons, run_nil, step_deliver]
  case ended =>
    rintro rfl
    rw [h]
    rfl

theorem readsAs_number (n : Number) (fs : List Frame) :
    ReadsAs fs n.text (.number ((readNumeral? n.text).getD n)) := by
  constructor
  case closed => exact fun d hd => run_number (readNumeral?_text n) fs hd
  case ended =>
    rintro rfl
    exact finish_number (readNumeral?_text n)

theorem run_string (fs : List Frame) (s : String) :
    run (.reading fs .value) (stringText s) = deliver fs (.string s) := by
  have hopen : step (.reading fs .value) '"' = .reading fs (.string none [] .none) := rfl
  rw [stringText, List.cons_append, run_cons, hopen, run_stringText, endString,
    List.reverse_reverse, String.ofList_toList]

/-- No value begins with a blank or with the end of an array. -/
theorem exists_write_cons (v : Json) :
    ∃ c cs, v.write = c :: cs ∧ isSpace c = false ∧ c ≠ ']' := by
  cases v with
  | null | string s | array vs | object ms => exact ⟨_, _, rfl, by decide, by decide⟩
  | bool b => cases b <;> exact ⟨_, _, rfl, by decide, by decide⟩
  | number n => exact exists_cons_of_readNumeral? (readNumeral?_text n)

theorem writeItems_cons_cons (v w : Json) (ws : List Json) :
    writeItems (v :: w :: ws) = v.write ++ [','] ++ writeItems (w :: ws) := by
  simp [writeItems]

theorem writeMembers_singleton (name : String) (v : Json) :
    writeMembers [(name, v)] = stringText name ++ [':'] ++ v.write := by
  simp [writeMembers]

theorem writeMembers_cons_cons (name : String) (v : Json) (m : String × Json)
    (ms : List (String × Json)) : writeMembers ((name, v) :: m :: ms) =
      stringText name ++ [':'] ++ (v.write ++ [','] ++ writeMembers (m :: ms)) := by
  simp [writeMembers]

variable {fs : List Frame} (cs : List Char)

/-- The first item of an array is read like any other. -/
theorem run_openArray (h : fs.length < maxDepth) (v : Json) (vs : List Json) :
    run (.reading fs .value) ('[' :: (writeItems (v :: vs) ++ cs)) =
      run (.reading (.items [] :: fs) .value) (writeItems (v :: vs) ++ cs) := by
  obtain ⟨c, ds, htext, hspace, hend⟩ : ∃ c ds, writeItems (v :: vs) = c :: ds ∧
      isSpace c = false ∧ c ≠ ']' := by
    obtain ⟨c, ds, htext, hc⟩ := exists_write_cons v
    cases vs with
    | nil => exact ⟨c, ds, htext, hc⟩
    | cons w ws => exact ⟨c, _, by rw [writeItems_cons_cons, htext]; rfl, hc⟩
  have hopen : step (.reading fs .value) '[' = .reading fs .firstItem := if_pos h
  have hfirst : step (.reading fs .firstItem) c = step (.reading (.items [] :: fs) .value) c := by
    simp [step, hspace, hend]
  rw [run_cons, hopen, htext, List.cons_append, run_cons, hfirst, run_cons]

theorem run_openObject (h : fs.length < maxDepth) (m : String × Json)
    (ms : List (String × Json)) :
    run (.reading fs .value) ('\x7b' :: (writeMembers (m :: ms) ++ cs)) =
      run (.reading fs (.name [])) (writeMembers (m :: ms) ++ cs) := by
  have hopen : step (.reading fs .value) '\x7b' = .reading fs .firstName := if_pos h
  rw [run_cons, hopen]
  cases ms <;> rfl

theorem run_name (fs : List Frame) (ms : Members) (name : String) :
    run (.reading fs (.name ms)) (stringText name ++ [':']) =
      .reading (.member ms name :: fs) .value := by
  have hopen : step (.reading fs (.name ms)) '"' = .reading fs (.string (some ms) [] .none) := rfl
  rw [stringText, List.cons_append, List.cons_append, run_cons, hopen, run_append, run_stringText,
    endString, List.reverse_reverse, String.ofList_toList]
  rfl

mutual

/-- Whatever is open around it, a value is read if there is room for what it nests. -/
theorem readsAs_write : ∀ (v : Json) (fs : List Frame), fs.length + v.depth ≤ maxDepth →
    ReadsAs fs v.write v.reread
  | .null, _, _ => readsAs_of_run rfl
  | .bool true, _, _ => readsAs_of_run rfl
  | .bool false, _, _ => readsAs_of_run rfl
  | .number n, fs, _ => readsAs_number n fs
  | .string s, fs, _ => readsAs_of_run (run_string fs s)
  | .array [], fs, h => by
    refine readsAs_of_run ?_
    rw [depth] at h
    have hopen : step (.reading fs .value) '[' = .reading fs .firstItem := if_pos (by omega)
    rw [write, List.cons_append, run_cons, hopen]
    rfl
  | .array (v :: vs), fs, h => by
    refine readsAs_of_run ?_
    rw [depth] at h
    rw [write, List.cons_append, run_openArray _ (by omega), run_writeItems v vs fs [] (by omega)]
    rfl
  | .object [], fs, h => by
    refine readsAs_of_run ?_
    rw [depth] at h
    have hopen : step (.reading fs .value) '\x7b' = .reading fs .firstName := if_pos (by omega)
    rw [write, List.cons_append, run_cons, hopen]
    rfl
  | .object ((name, v) :: ms), fs, h => by
    refine readsAs_of_run ?_
    rw [depth] at h
    rw [write, List.cons_append, run_openObject _ (by omega),
      run_writeMembers name v ms fs [] (by omega)]
    rfl
termination_by v => sizeOf v

theorem run_writeItems : ∀ (v : Json) (vs : List Json) (fs : List Frame) (before : List Json),
    fs.length + 1 + depthItems (v :: vs) ≤ maxDepth →
    run (.reading (.items before :: fs) .value) (writeItems (v :: vs) ++ [']']) =
      deliver fs (.array (before.reverse ++ rereadItems (v :: vs)))
  | v, [], fs, before, h => by
    rw [depthItems] at h
    have hread := readsAs_write v (.items before :: fs) (by rw [List.length_cons]; omega)
    rw [writeItems, hread.closed ']' (.inr (.inl rfl))]
    simp [deliver, between, isSpace, rereadItems]
  | v, w :: ws, fs, before, h => by
    rw [depthItems] at h
    have hread := readsAs_write v (.items before :: fs) (by rw [List.length_cons]; omega)
    have hrest := run_writeItems w ws fs (v.reread :: before) (by omega)
    have hcomma : between (deliver (.items before :: fs) v.reread) ',' =
        .reading (.items (v.reread :: before) :: fs) .value := rfl
    rw [writeItems_cons_cons, List.append_assoc, run_append, hread.closed ',' (.inl rfl), hcomma,
      hrest]
    simp [rereadItems]
termination_by v vs => sizeOf (v :: vs)

theorem run_writeMembers : ∀ (name : String) (v : Json) (ms : List (String × Json))
    (fs : List Frame) (before : Members),
    fs.length + 1 + depthMembers ((name, v) :: ms) ≤ maxDepth →
    run (.reading fs (.name before)) (writeMembers ((name, v) :: ms) ++ ['\x7d']) =
      deliver fs (.object (rereadMembers before ((name, v) :: ms)))
  | name, v, [], fs, before, h => by
    rw [depthMembers] at h
    have hread := readsAs_write v (.member before name :: fs) (by rw [List.length_cons]; omega)
    rw [writeMembers_singleton, List.append_assoc, run_append, run_name,
      hread.closed '\x7d' (.inr (.inr rfl))]
    simp [deliver, between, isSpace, rereadMembers]
  | name, v, (next, w) :: ms, fs, before, h => by
    rw [depthMembers] at h
    have hread := readsAs_write v (.member before name :: fs) (by rw [List.length_cons]; omega)
    have hrest := run_writeMembers next w ms fs (before.insert name v.reread) (by omega)
    have hcomma : between (deliver (.member before name :: fs) v.reread) ',' =
        .reading fs (.name (before.insert name v.reread)) := rfl
    rw [writeMembers_cons_cons, List.append_assoc, run_append, run_name, List.append_assoc,
      run_append, hread.closed ',' (.inl rfl), hcomma, hrest]
    rfl
termination_by name v ms => sizeOf ((name, v) :: ms)

end

/-- A value that is written is read again. -/
theorem ofText_text {v : Json} (h : v.depth ≤ maxDepth) : ofText v.text = .ok v.reread := by
  have hread := (readsAs_write v [] (by simpa using h)).ended rfl
  rw [ofText, text, String.toList_ofList]
  exact hread

theorem step_bracket_deep {fs : List Frame} (h : maxDepth ≤ fs.length) {c : Char}
    (hc : c = '[' ∨ c = '\x7b') : step (.reading fs .value) c = unexpected := by
  obtain rfl | rfl := hc <;> exact if_neg (Nat.not_lt.2 h)

mutual

/-- The first bracket that opens too deep is as far as the reader gets. -/
theorem run_write_deep : ∀ (v : Json) (fs : List Frame), fs.length ≤ maxDepth →
    maxDepth < fs.length + v.depth → run (.reading fs .value) v.write = unexpected
  | .null, _, hfs, h | .bool _, _, hfs, h | .number _, _, hfs, h | .string _, _, hfs, h => by
    rw [depth] at h
    omega
  | .array [], fs, hfs, h => by
    rw [depth, depthItems] at h
    rw [write, List.cons_append, run_cons, step_bracket_deep (by omega) (.inl rfl)]
    exact run_failed .unexpected _
  | .array (v :: vs), fs, hfs, h => by
    rw [depth] at h
    rw [write, List.cons_append]
    by_cases hopen : fs.length < maxDepth
    · rw [run_openArray _ hopen, run_append, run_writeItems_deep v vs fs [] hopen (by omega)]
      rfl
    · rw [run_cons, step_bracket_deep (Nat.not_lt.1 hopen) (.inl rfl)]
      exact run_failed .unexpected _
  | .object [], fs, hfs, h => by
    rw [depth, depthMembers] at h
    rw [write, List.cons_append, run_cons, step_bracket_deep (by omega) (.inr rfl)]
    exact run_failed .unexpected _
  | .object ((name, v) :: ms), fs, hfs, h => by
    rw [depth] at h
    rw [write, List.cons_append]
    by_cases hopen : fs.length < maxDepth
    · rw [run_openObject _ hopen, run_append,
        run_writeMembers_deep name v ms fs [] hopen (by omega)]
      rfl
    · rw [run_cons, step_bracket_deep (Nat.not_lt.1 hopen) (.inr rfl)]
      exact run_failed .unexpected _
termination_by v => sizeOf v

theorem run_writeItems_deep : ∀ (v : Json) (vs : List Json) (fs : List Frame) (before : List Json),
    fs.length < maxDepth → maxDepth < fs.length + 1 + depthItems (v :: vs) →
    run (.reading (.items before :: fs) .value) (writeItems (v :: vs)) = unexpected
  | v, [], fs, before, hfs, h => by
    rw [depthItems, depthItems, Nat.max_zero] at h
    exact run_write_deep v (.items before :: fs) hfs h
  | v, w :: ws, fs, before, hfs, h => by
    rw [depthItems] at h
    rw [writeItems_cons_cons, run_append]
    by_cases hdeep : maxDepth < fs.length + 1 + v.depth
    · rw [run_append, run_write_deep v (.items before :: fs) hfs hdeep]
      exact run_failed .unexpected _
    · have hread := readsAs_write v (.items before :: fs) (Nat.not_lt.1 hdeep)
      rw [hread.closed ',' (.inl rfl)]
      exact run_writeItems_deep w ws fs (v.reread :: before) hfs (by omega)
termination_by v vs => sizeOf (v :: vs)

theorem run_writeMembers_deep : ∀ (name : String) (v : Json) (ms : List (String × Json))
    (fs : List Frame) (before : Members), fs.length < maxDepth →
    maxDepth < fs.length + 1 + depthMembers ((name, v) :: ms) →
    run (.reading fs (.name before)) (writeMembers ((name, v) :: ms)) = unexpected
  | name, v, [], fs, before, hfs, h => by
    rw [depthMembers, depthMembers, Nat.max_zero] at h
    rw [writeMembers_singleton, run_append, run_name]
    exact run_write_deep v (.member before name :: fs) hfs h
  | name, v, (next, w) :: ms, fs, before, hfs, h => by
    rw [depthMembers] at h
    rw [writeMembers_cons_cons, run_append, run_name, run_append]
    by_cases hdeep : maxDepth < fs.length + 1 + v.depth
    · rw [run_append, run_write_deep v (.member before name :: fs) hfs hdeep]
      exact run_failed .unexpected _
    · have hread := readsAs_write v (.member before name :: fs) (Nat.not_lt.1 hdeep)
      rw [hread.closed ',' (.inl rfl)]
      exact run_writeMembers_deep next w ms fs (before.insert name v.reread) hfs (by omega)
termination_by name v ms => sizeOf ((name, v) :: ms)

end

/-- A value that is nested deeper than may be read is written all the same. -/
theorem ofText_text_of_deep {v : Json} (h : maxDepth < v.depth) :
    ofText v.text = .error .unexpected := by
  have hrun := run_write_deep v [] (Nat.zero_le _) (by simpa using h)
  rw [ofText, text, String.toList_ofList, read, start, hrun]
  rfl

end Json
end LivePanel
