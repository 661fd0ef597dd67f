import LivePanel.Command

/-!
# Screens

A screen holds the text that each rendered variable shows. It moves with marks: the commands a
session gives, and the edits that found their variable. Nothing but a mark moves it, so its marks
tell what is on it. Main statement: `recorded_of_run`.
-/
namespace LivePanel

/-- The text of each rendered variable. -/
abbrev Screen := Handle → Option String

/-- What moves a screen: a command, or an edit of a stored variable. -/
inductive Mark where
  | command : Command → Mark
  | edited : Handle → Mark

/-- The handle and the text that a command puts before the user. -/
def Command.presents? : Command → Option (Handle × String)
  | .render view => some (view.handle, view.text)
  | .show h text => some (h, text)
  | .dial _ | .send _ | .status _ => none

namespace Mark

def command? : Mark → Option Command
  | .command c => some c
  | .edited _ => none

def rendered? : Mark → Option Handle
  | .command (.render view) => some view.handle
  | _ => none

/-- Whether a mark puts a text of this variable before the user. -/
def Presents (h : Handle) (m : Mark) : Prop :=
  ∃ c text, m = .command c ∧ c.presents? = some (h, text)

/-- The text last presented, unless an edit came after it. -/
def tell (h : Handle) (t : Option String) : Mark → Option String
  | .edited k => if k = h then none else t
  | .command c =>
    match c.presents? with
    | some (k, text) => if k = h then some text else t
    | none => t

end Mark

/-- The commands among the marks. -/
def commands (ms : List Mark) : List Command := ms.filterMap Mark.command?

/-- The handles of the variables rendered, in order. -/
def rendered (ms : List Mark) : List Handle := ms.filterMap Mark.rendered?

def told (h : Handle) (ms : List Mark) : Option String := ms.foldl (Mark.tell h) none

@[simp] theorem commands_append (ms ns : List Mark) :
    commands (ms ++ ns) = commands ms ++ commands ns := List.filterMap_append

theorem rendered_snoc (ms : List Mark) (m : Mark) :
    rendered (ms ++ [m]) = rendered ms ++ m.rendered?.toList := by
  rw [rendered, List.filterMap_append]
  cases hm : m.rendered? <;> simp [rendered, hm]

/-- What presents nothing renders nothing. -/
theorem rendered?_of_presents?_eq_none {c : Command} (h : c.presents? = none) :
    (Mark.command c).rendered? = none := by
  cases c <;> simp_all [Command.presents?, Mark.rendered?]

theorem told_snoc (h : Handle) (ms : List Mark) (m : Mark) :
    told h (ms ++ [m]) = m.tell h (told h ms) := by simp [told]

/-- A text that was presented stays the one told until an edit. -/
theorem told_of_presents {h : Handle} {m : Mark} (hm : m.Presents h) (before after : List Mark)
    (hn : Mark.edited h ∉ after) : ∃ text, told h (before ++ m :: after) = some text := by
  have hkeeps : ∀ (t : String) (ns : List Mark), Mark.edited h ∉ ns →
      ∃ text, ns.foldl (Mark.tell h) (some t) = some text := by
    intro t ns
    induction ns generalizing t with
    | nil => intro _; exact ⟨t, rfl⟩
    | cons n ns ih =>
      intro hns
      rw [List.mem_cons, not_or] at hns
      have hn : ∃ u, n.tell h (some t) = some u := by
        cases n with
        | edited k => exact ⟨t, if_neg fun hk => hns.1 (by rw [hk])⟩
        | command c =>
          simp only [Mark.tell]
          split
          · split
            · exact ⟨_, rfl⟩
            · exact ⟨t, rfl⟩
          · exact ⟨t, rfl⟩
      obtain ⟨u, hu⟩ := hn
      rw [List.foldl_cons, hu]
      exact ih u hns.2
  obtain ⟨c, text, rfl, hc⟩ := hm
  rw [told, List.foldl_append, List.foldl_cons]
  simp only [Mark.tell, hc, if_true]
  exact hkeeps text after hn

namespace Screen

def empty : Screen := fun _ => none

def put (t : Screen) (h : Handle) (text : Option String) : Screen :=
  fun k => if k = h then text else t k

@[simp] theorem put_same (t : Screen) (h : Handle) (text : Option String) :
    t.put h text h = text := by
  simp [put]

theorem put_other (t : Screen) {h k : Handle} (hk : k ≠ h) (text : Option String) :
    t.put h text k = t k := by simp [put, hk]

@[simp] theorem put_self (t : Screen) (h : Handle) : t.put h (t h) = t := by
  funext k
  by_cases hk : k = h <;> simp [put, hk]

@[simp] theorem put_put (t : Screen) (h : Handle) (a b : Option String) :
    (t.put h a).put h b = t.put h b := by
  funext k
  by_cases hk : k = h <;> simp [put, hk]

/-- A variable is rendered if it has no text yet, and shown if it has one. An edit leaves open what
the text becomes. -/
inductive Move (t : Screen) : Mark → Screen → Prop where
  | rendering (view : View) : t view.handle = none →
      Move t (.command (.render view)) (t.put view.handle (some view.text))
  | showing (h : Handle) (text : String) : (t h).isSome = true →
      Move t (.command (.show h text)) (t.put h (some text))
  | editing (h : Handle) (text : Option String) : text.isSome = (t h).isSome →
      Move t (.edited h) (t.put h text)
  | silent (c : Command) : c.presents? = none → Move t (.command c) t

/-- The moves of some marks, one after another. -/
inductive Run (t : Screen) : List Mark → Screen → Prop where
  | nil : Run t [] t
  | snoc {ms : List Mark} {m : Mark} {u v : Screen} : Run t ms u → Move u m v → Run t (ms ++ [m]) v

theorem Run.single {t u : Screen} {m : Mark} (h : Move t m u) : Run t [m] u := .snoc .nil h

theorem Run.trans {t u v : Screen} {ms ns : List Mark} (h₁ : Run t ms u) (h₂ : Run u ns v) :
    Run t (ms ++ ns) v := by
  induction h₂ with
  | nil => simpa using h₁
  | snoc _ hm ih => rw [← List.append_assoc]; exact .snoc ih hm

/-- Whatever comes first among the marks of a run makes a run by itself. -/
theorem Run.prefix {t u : Screen} {ms before after : List Mark} (h : Run t ms u)
    (he : ms = before ++ after) : ∃ v, Run t before v := by
  induction h generalizing after with
  | nil =>
    rw [(List.append_eq_nil_iff.1 he.symm).1]
    exact ⟨t, .nil⟩
  | @snoc ms m u v hprefix hm ih =>
    obtain rfl | ⟨rest, y, rfl⟩ := List.eq_nil_or_concat after
    · rw [List.append_nil] at he
      exact ⟨v, he ▸ .snoc hprefix hm⟩
    · have he' : ms ++ [m] = (before ++ rest) ++ [y] := by simpa using he
      exact ih (List.append_inj' he' rfl).1

/-- Commands that present nothing leave the screen as it is. -/
theorem Run.others (t : Screen) (cs : List Command) (h : ∀ c ∈ cs, c.presents? = none) :
    Run t (cs.map .command) t := by
  induction cs with
  | nil => exact .nil
  | cons c cs ih =>
    have hc : Run t [.command c] t := .single (.silent c (h c (by simp)))
    exact hc.trans (ih fun d hd => h d (by simp [hd]))

end Screen

/-- A mark in a list that ends with `m` is this last one or stands before it. -/
theorem split_snoc {α : Type} {xs before after : List α} {x m : α}
    (h : xs ++ [m] = before ++ x :: after) :
    (before = xs ∧ x = m) ∨ ∃ rest, xs = before ++ x :: rest := by
  obtain rfl | ⟨rest, y, rfl⟩ := List.eq_nil_or_concat after
  · obtain ⟨h₁, h₂⟩ := List.append_inj' h rfl
    exact .inl ⟨h₁.symm, by simpa using h₂.symm⟩
  · have h' : xs ++ [m] = (before ++ x :: rest) ++ [y] := by simpa using h
    exact .inr ⟨rest, (List.append_inj' h' rfl).1⟩

/-- What marks that began with an empty screen tell of the screen they led to. -/
structure Recorded (ms : List Mark) (t : Screen) : Prop where
  once : (rendered ms).Nodup
  rendered_iff : ∀ h, h ∈ rendered ms ↔ (t h).isSome = true
  shown : ∀ before h text after, ms = before ++ .command (.show h text) :: after →
    h ∈ rendered before
  current : ∀ h text, told h ms = some text → t h = some text

namespace Recorded

open Screen

variable {ms : List Mark} {t : Screen}

theorem empty : Recorded [] Screen.empty where
  once := List.nodup_nil
  rendered_iff h := by simp [rendered, Screen.empty]
  shown before h text after he := by simp at he
  current h text ht := by simp [told] at ht

theorem rendering (hr : Recorded ms t) (view : View) (hn : t view.handle = none) :
    Recorded (ms ++ [.command (.render view)]) (t.put view.handle (some view.text)) where
  once := by
    have hnew : view.handle ∉ rendered ms := by simp [hr.rendered_iff, hn]
    rw [rendered_snoc]
    refine List.nodup_append.2 ⟨hr.once, by simp [Mark.rendered?], ?_⟩
    rintro h hh _ hk rfl
    simp only [Mark.rendered?, Option.toList_some, List.mem_singleton] at hk
    exact hnew (hk ▸ hh)
  rendered_iff h := by
    by_cases hh : h = view.handle
    · simp [hh, rendered_snoc, Mark.rendered?]
    · simp [put_other t hh, ← hr.rendered_iff, rendered_snoc, Mark.rendered?, hh]
  shown before h text after he := by
    obtain ⟨-, hm⟩ | ⟨rest, hm⟩ := split_snoc he
    · cases hm
    · exact hr.shown before h text rest hm
  current h text ht := by
    simp only [told_snoc, Mark.tell, Command.presents?] at ht
    by_cases hh : view.handle = h
    · rw [if_pos hh] at ht
      rw [← hh, put_same, ht]
    · rw [if_neg hh] at ht
      rw [put_other t (Ne.symm hh)]
      exact hr.current h text ht

theorem showing (hr : Recorded ms t) (h : Handle) (text : String) (hs : (t h).isSome = true) :
    Recorded (ms ++ [.command (.show h text)]) (t.put h (some text)) where
  once := by simpa [rendered_snoc, Mark.rendered?] using hr.once
  rendered_iff k := by
    simp only [rendered_snoc, Mark.rendered?, Option.toList_none, List.append_nil, hr.rendered_iff]
    by_cases hk : k = h
    · simp [hk, hs]
    · rw [put_other t hk]
  shown before k text' after he := by
    obtain ⟨hb, hm⟩ | ⟨rest, hm⟩ := split_snoc he
    · cases hm
      rw [hb]
      exact (hr.rendered_iff h).2 hs
    · exact hr.shown before k text' rest hm
  current k text' ht := by
    simp only [told_snoc, Mark.tell, Command.presents?] at ht
    by_cases hk : h = k
    · rw [if_pos hk] at ht
      rw [← hk, put_same, ht]
    · rw [if_neg hk] at ht
      rw [put_other t (Ne.symm hk)]
      exact hr.current k text' ht

theorem editing (hr : Recorded ms t) (h : Handle) (text : Option String)
    (hs : text.isSome = (t h).isSome) : Recorded (ms ++ [.edited h]) (t.put h text) where
  once := by simpa [rendered_snoc, Mark.rendered?] using hr.once
  rendered_iff k := by
    simp only [rendered_snoc, Mark.rendered?, Option.toList_none, List.append_nil, hr.rendered_iff]
    by_cases hk : k = h
    · simp [hk, hs]
    · rw [put_other t hk]
  shown before k text' after he := by
    obtain ⟨-, hm⟩ | ⟨rest, hm⟩ := split_snoc he
    · cases hm
    · exact hr.shown before k text' rest hm
  current k text' ht := by
    simp only [told_snoc, Mark.tell] at ht
    by_cases hk : h = k
    · rw [if_pos hk] at ht
      cases ht
    · rw [if_neg hk] at ht
      rw [put_other t (Ne.symm hk)]
      exact hr.current k text' ht

theorem silent (hr : Recorded ms t) (c : Command) (hc : c.presents? = none) :
    Recorded (ms ++ [.command c]) t where
  once := by simpa [rendered_snoc, rendered?_of_presents?_eq_none hc] using hr.once
  rendered_iff k := by simp [rendered_snoc, rendered?_of_presents?_eq_none hc, hr.rendered_iff]
  shown before k text after he := by
    obtain ⟨-, hm⟩ | ⟨rest, hm⟩ := split_snoc he
    · cases hm
      cases hc
    · exact hr.shown before k text rest hm
  current k text ht := by
    simp only [told_snoc, Mark.tell, hc] at ht
    exact hr.current k text ht

theorem move (hr : Recorded ms t) {m : Mark} {u : Screen} (hm : Move t m u) :
    Recorded (ms ++ [m]) u := by
  cases hm with
  | rendering view hn => exact hr.rendering view hn
  | showing h text hs => exact hr.showing h text hs
  | editing h text hs => exact hr.editing h text hs
  | silent c hc => exact hr.silent c hc

end Recorded

/-- The marks of a run from an empty screen record the screen. -/
theorem recorded_of_run {ms : List Mark} {t : Screen} (h : Screen.Run Screen.empty ms t) :
    Recorded ms t := by
  induction h with
  | nil => exact .empty
  | snoc _ hm ih => exact ih.move hm

end LivePanel
