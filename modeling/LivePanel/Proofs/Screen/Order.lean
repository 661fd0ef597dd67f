import LivePanel.Proofs.Screen.Basic

/-!
# Order of commands

A variable is rendered once, and its values are shown after that. Commands are in order for a
variable if they keep to this. Main statements: `Orderly.countP_renders` and
`Orderly.render_before_show`.
-/
namespace LivePanel

namespace Command

/-- The variable that a command is about. -/
def handle? : Command → Option Handle
  | .render view => some view.handle
  | .show h _ => some h
  | .send u => some u.handle
  | .dial _ | .status _ => none

def names (h : Handle) (c : Command) : Bool := decide (c.handle? = some h)

def renders (h : Handle) : Command → Bool
  | .render view => decide (view.handle = h)
  | .show .. | .send _ | .dial _ | .status _ => false

theorem renders_iff {h : Handle} {c : Command} :
    c.renders h = true ↔ ∃ view, c = .render view ∧ view.handle = h := by
  cases c <;> simp [renders]

theorem handle?_of_presents? {c : Command} {h : Handle} {text : String}
    (hc : c.presents? = some (h, text)) : c.handle? = some h := by
  cases c <;> simp_all [presents?, handle?]

/-- The text that a command presents of a variable. -/
def text? (h : Handle) (c : Command) : Option String :=
  (c.presents?.filter (·.1 = h)).map Prod.snd

theorem text?_eq_some_iff {h : Handle} {c : Command} {text : String} :
    c.text? h = some text ↔ c.presents? = some (h, text) := by
  rw [text?, Option.map_eq_some_iff]
  constructor
  · rintro ⟨⟨k, _⟩, hfilter, rfl⟩
    obtain ⟨hp, hk⟩ := Option.filter_eq_some_iff.1 hfilter
    obtain rfl : k = h := of_decide_eq_true hk
    exact hp
  · intro hp
    exact ⟨(h, text), by simp [hp], rfl⟩

theorem renders_eq_false {c : Command} {h : Handle} (hc : ∀ text, c.presents? ≠ some (h, text)) :
    c.renders h = false := by
  cases c with
  | render view =>
    have hne : view.handle ≠ h := fun he => hc view.text (by rw [presents?, he])
    simp [renders, hne]
  | «show» k text | send u | dial request | status status => rfl

end Command

/-- The texts that some commands present of a variable, in order. -/
def texts (h : Handle) (cs : List Command) : List String := cs.filterMap (Command.text? h)

@[simp] theorem texts_append (h : Handle) (cs ds : List Command) :
    texts h (cs ++ ds) = texts h cs ++ texts h ds := List.filterMap_append

@[simp] theorem texts_render (view : View) : texts view.handle [.render view] = [view.text] := by
  simp [texts, Command.text?, Command.presents?]

@[simp] theorem texts_show (h : Handle) (text : String) : texts h [.show h text] = [text] := by
  simp [texts, Command.text?, Command.presents?]

/-- Commands that present nothing of a variable can be left out. -/
theorem texts_filter {p : Command → Bool} {h : Handle}
    (hp : ∀ c text, c.text? h = some text → p c = true) (cs : List Command) :
    texts h (cs.filter p) = texts h cs := by
  rw [texts, texts, List.filterMap_filter]
  congr 1
  funext c
  by_cases hc : p c = true
  · rw [if_pos hc]
  · have hnone : c.text? h = none := by
      rw [Option.eq_none_iff_forall_ne_some]
      exact fun text ht => hc (hp c text ht)
    rw [if_neg hc, hnone]

/-- Commands in order for a variable that is rendered or not before them, and rendered or not after
them. -/
inductive Orderly (h : Handle) : Bool → List Command → Bool → Prop where
  | nil (a : Bool) : Orderly h a [] a
  | rendering {cs : List Command} {b : Bool} (view : View) : view.handle = h →
      Orderly h true cs b → Orderly h false (.render view :: cs) b
  | showing {cs : List Command} {b : Bool} (text : String) :
      Orderly h true cs b → Orderly h true (.show h text :: cs) b
  /-- A command that does not present the variable. -/
  | other {a : Bool} {cs : List Command} {b : Bool} (c : Command) :
      (∀ text, c.presents? ≠ some (h, text)) → Orderly h a cs b → Orderly h a (c :: cs) b

namespace Orderly

variable {h : Handle} {a b e : Bool} {cs ds : List Command}

theorem append (hc : Orderly h a cs b) (hd : Orderly h b ds e) : Orderly h a (cs ++ ds) e := by
  induction hc with
  | nil => exact hd
  | rendering view hv _ ih => exact .rendering view hv (ih hd)
  | showing text _ ih => exact .showing text (ih hd)
  | other c hc _ ih => exact .other c hc (ih hd)

theorem others (a : Bool) (hc : ∀ c ∈ cs, c.presents? = none) : Orderly h a cs a := by
  induction cs with
  | nil => exact .nil a
  | cons c cs ih =>
    have hnone : c.presents? = none := hc c List.mem_cons_self
    exact .other c (by simp [hnone]) (ih fun d hd => hc d (List.mem_cons_of_mem c hd))

/-- The order for a variable hangs on the commands that name it. -/
theorem of_filter (hc : Orderly h a (cs.filter (Command.names h)) b) : Orderly h a cs b := by
  induction cs generalizing a with
  | nil => exact hc
  | cons c cs ih =>
    by_cases hn : c.names h = true
    · rw [List.filter_cons_of_pos hn] at hc
      cases hc with
      | rendering view hv hrest => exact .rendering view hv (ih hrest)
      | showing text hrest => exact .showing text (ih hrest)
      | other _ hother hrest => exact .other c hother (ih hrest)
    · -- a command that presents the variable would name it
      rw [List.filter_cons_of_neg hn] at hc
      refine .other c (fun text hp => hn ?_) (ih hc)
      simp [Command.names, Command.handle?_of_presents? hp]

/-- A variable is rendered at most once, and once if it comes to be rendered. -/
theorem countP_renders (hc : Orderly h a cs b) :
    a.toNat + cs.countP (Command.renders h) = b.toNat := by
  induction hc with
  | nil => rfl
  | rendering view hv _ ih =>
    have hr : (Command.render view).renders h = true := by simp [Command.renders, hv]
    rw [List.countP_cons_of_pos hr, ← ih, Bool.toNat_false, Bool.toNat_true]
    omega
  | showing text _ ih =>
    rw [List.countP_cons_of_neg (by simp [Command.renders]), ih]
  | other c hother _ ih =>
    rw [List.countP_cons_of_neg (by simp [Command.renders_eq_false hother]), ih]

/-- There is a `render` among the commands if and only if the variable comes to be rendered. -/
theorem exists_render_iff (hc : Orderly h false cs b) :
    (∃ view, .render view ∈ cs ∧ view.handle = h) ↔ b = true := by
  have hcount : cs.countP (Command.renders h) = b.toNat := by
    have hc := hc.countP_renders
    rwa [Bool.toNat_false, Nat.zero_add] at hc
  have hmem : (∃ view, .render view ∈ cs ∧ view.handle = h) ↔
      0 < cs.countP (Command.renders h) := by
    rw [List.countP_pos_iff]
    constructor
    · rintro ⟨view, hview, hh⟩
      exact ⟨.render view, hview, Command.renders_iff.2 ⟨view, rfl, hh⟩⟩
    · rintro ⟨c, hc, hr⟩
      obtain ⟨view, rfl, hh⟩ := Command.renders_iff.1 hr
      exact ⟨view, hc, hh⟩
  rw [hmem, hcount]
  cases b <;> decide

/-- A value is shown only of a variable that was rendered. -/
theorem render_before_show (hc : Orderly h a cs b) {before after : List Command} {text : String}
    (he : cs = before ++ .show h text :: after) :
    a = true ∨ ∃ view, .render view ∈ before ∧ view.handle = h := by
  induction hc generalizing before with
  | nil => simp at he
  | rendering view hv _ _ =>
    cases before with
    | nil => simp at he
    | cons c before =>
      -- the `render` is the first of those before
      rw [List.cons_append, List.cons.injEq] at he
      exact .inr ⟨view, by rw [← he.1]; exact List.mem_cons_self, hv⟩
  | showing text _ _ => exact .inl rfl
  | other c hother _ ih =>
    cases before with
    | nil =>
      rw [List.nil_append, List.cons.injEq] at he
      exact absurd (by rw [he.1]; rfl) (hother text)
    | cons d before =>
      rw [List.cons_append, List.cons.injEq] at he
      obtain ha | ⟨view, hmem, hv⟩ := ih he.2
      · exact .inl ha
      · exact .inr ⟨view, List.mem_cons_of_mem d hmem, hv⟩

end Orderly
end LivePanel
