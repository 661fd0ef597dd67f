import LivePanel.Proofs.Field.Label
import LivePanel.Proofs.Session.Inputs
import LivePanel.Proofs.Wire.HandleKey
import LivePanel.Window.Host

/-!
# Rows of a window

A window carries out the commands of a session one after another, and its rows mirror the rendered
variables of the store: one row for each, in the order of rendering, under the key of its handle.
Main statement: `rows_mirror_session`.
-/
namespace LivePanel

open Screen (Run)

namespace Window

theorem putRow_of_not_mem {row : Row} {rows : List Row} (h : row.key ∉ rows.map Row.key) :
    putRow row rows = rows ++ [row] := by
  induction rows with
  | nil => rfl
  | cons r rs ih =>
    simp only [List.map_cons, List.mem_cons, not_or] at h
    rw [putRow, if_neg (Ne.symm h.1), ih h.2, List.cons_append]

/-- A shown value finds the first row of its key and changes no other. -/
theorem showIn_of_mem {key : String} (text : String) {rows : List Row}
    (h : key ∈ rows.map Row.key) :
    ∃ above r below, rows = above ++ r :: below ∧ r.key = key ∧
      showIn key text rows = above ++ r.showing text :: below := by
  induction rows with
  | nil => simp at h
  | cons r rs ih =>
    by_cases hr : r.key = key
    · exact ⟨[], r, rs, rfl, hr, by rw [showIn, if_pos hr]; rfl⟩
    · have hrest : key ∈ rs.map Row.key := by
        obtain hk | hk := List.mem_cons.1 h
        · exact absurd hk.symm hr
        · exact hk
      obtain ⟨above, x, below, hx, hk, hs⟩ := ih hrest
      exact ⟨r :: above, x, below, by rw [hx]; rfl, hk, by rw [showIn, if_neg hr, hs]; rfl⟩

theorem keys_showIn (key text : String) (rows : List Row) :
    (showIn key text rows).map Row.key = rows.map Row.key := by
  induction rows with
  | nil => rfl
  | cons r rs ih =>
    simp only [showIn]
    split
    · rfl
    · rw [List.map_cons, List.map_cons, ih]

/-- Where keys are distinct, a shown value is the text of every row of its key. -/
theorem text_showIn {key text : String} {rows : List Row} (distinct : (rows.map Row.key).Nodup)
    {r : Row} (hr : r ∈ showIn key text rows) (hk : r.key = key) : r.text = text := by
  induction rows with
  | nil => simp [showIn] at hr
  | cons x rs ih =>
    simp only [List.map_cons, List.nodup_cons] at distinct
    simp only [showIn] at hr
    split at hr
    · rename_i hx
      obtain rfl | hmem := List.mem_cons.1 hr
      · rfl
      · -- a second row with this key would repeat the key of the first
        refine absurd (List.mem_map.2 ⟨r, hmem, ?_⟩) distinct.1
        rw [hk, hx]
    · rename_i hx
      obtain rfl | hmem := List.mem_cons.1 hr
      · exact absurd hk hx
      · exact ih distinct.2 hmem

/-- Rows of other keys stand as before. -/
theorem mem_of_mem_showIn {key text : String} {rows : List Row} {r : Row}
    (hr : r ∈ showIn key text rows) (hk : r.key ≠ key) : r ∈ rows := by
  induction rows with
  | nil => simp [showIn] at hr
  | cons x rs ih =>
    simp only [showIn] at hr
    split at hr
    · rename_i hx
      obtain rfl | hmem := List.mem_cons.1 hr
      · exact absurd hx hk
      · exact List.mem_cons_of_mem _ hmem
    · obtain rfl | hmem := List.mem_cons.1 hr
      · exact List.mem_cons_self
      · exact List.mem_cons_of_mem _ (ih hmem)

/-- Carries out whatever of some commands concerns the window. -/
def carryOut (w : Window) (cs : List Command) : Window :=
  w.applyAll (cs.filterMap Command.windowCall?)

/-- The rows of a new window after some commands. -/
def rowsAfter (cs : List Command) : List Row := (({} : Window).carryOut cs).rows

theorem carryOut_snoc (w : Window) (cs : List Command) (c : Command) :
    w.carryOut (cs ++ [c]) = c.windowCall?.elim (w.carryOut cs) (w.carryOut cs).apply := by
  unfold carryOut applyAll
  cases hc : c.windowCall? <;> simp [hc]

theorem ownRows_apply (w : Window) (c : WindowCall) : (w.apply c).ownRows = w.ownRows := by
  cases c <;> simp only [apply] <;> split <;> rfl

theorem ownRows_carryOut (w : Window) (cs : List Command) :
    (w.carryOut cs).ownRows = w.ownRows := by
  unfold carryOut applyAll
  induction cs.filterMap Command.windowCall? generalizing w with
  | nil => rfl
  | cons c cs ih => rw [List.foldl_cons, ih, ownRows_apply]

theorem rowsAfter_render (cs : List Command) (view : View) :
    rowsAfter (cs ++ [.render view]) = putRow (.ofView view) (rowsAfter cs) := by
  simp [rowsAfter, carryOut_snoc, Command.windowCall?, apply, ownRows_carryOut]

theorem rowsAfter_show (cs : List Command) (h : Handle) (text : String) :
    rowsAfter (cs ++ [.show h text]) = showIn h.key text (rowsAfter cs) := by
  simp [rowsAfter, carryOut_snoc, Command.windowCall?, apply, ownRows_carryOut]

theorem rowsAfter_silent (cs : List Command) {c : Command} (hc : c.presents? = none) :
    rowsAfter (cs ++ [c]) = rowsAfter cs := by
  cases c <;> simp_all [rowsAfter, carryOut_snoc, Command.windowCall?, apply, Command.presents?]

/-- Rows that stand in order of rendering and show what was told. -/
structure Tracks (rows : List Row) (ms : List Mark) : Prop where
  keys : rows.map Row.key = (rendered ms).map Handle.key
  texts : ∀ h text, told h ms = some text → ∀ r ∈ rows, r.key = h.key → r.text = text

theorem Tracks.distinct {rows : List Row} {ms : List Mark} (ht : Tracks rows ms)
    (once : (rendered ms).Nodup) : (rows.map Row.key).Nodup := by
  rw [ht.keys]
  refine List.pairwise_map.2 (List.Pairwise.imp ?_ once)
  intro h k hne he
  exact hne (Handle.key_injective he)

theorem commands_snoc (ms : List Mark) (c : Command) :
    commands (ms ++ [.command c]) = commands ms ++ [c] := commands_append ms [.command c]

/-- The rows of a run stand in order of rendering and show what was told. -/
theorem tracks_of_run {ms : List Mark} {t : Screen} (hrun : Run Screen.empty ms t) :
    Tracks (rowsAfter (commands ms)) ms := by
  induction hrun with
  | nil => exact ⟨rfl, fun h text ht => by simp [told] at ht⟩
  | @snoc ms m u v hprefix hm ih =>
    have hrec := recorded_of_run hprefix
    cases hm with
    | rendering view hn =>
      have hnew : view.handle ∉ rendered ms := by simp [hrec.rendered_iff, hn]
      have hrow : rowsAfter (commands (ms ++ [.command (.render view)])) =
          rowsAfter (commands ms) ++ [.ofView view] := by
        rw [commands_snoc, rowsAfter_render, putRow_of_not_mem]
        rw [ih.keys]
        intro hmem
        obtain ⟨k, hk, he⟩ := List.mem_map.1 hmem
        exact hnew (Handle.key_injective he ▸ hk)
      rw [hrow]
      constructor
      · rw [List.map_append, ih.keys, rendered_snoc, List.map_append]
        rfl
      · intro h text htold r hr hk
        rw [told_snoc] at htold
        simp only [Mark.tell, Command.presents?] at htold
        obtain hold | hlast := List.mem_append.1 hr
        · by_cases hh : view.handle = h
          · -- no earlier row has the key of a variable that is only now rendered
            have hmem : h.key ∈ (rendered ms).map Handle.key := by
              rw [← ih.keys, ← hk]
              exact List.mem_map_of_mem hold
            obtain ⟨k, hk', he⟩ := List.mem_map.1 hmem
            exact absurd (Handle.key_injective he ▸ hk') (hh ▸ hnew)
          · rw [if_neg hh] at htold
            exact ih.texts h text htold r hold hk
        · rw [List.mem_singleton] at hlast
          subst hlast
          have hh : view.handle = h := Handle.key_injective hk
          rw [if_pos hh] at htold
          exact Option.some.inj htold
    | showing h text hs =>
      have hdistinct := ih.distinct hrec.once
      rw [commands_snoc, rowsAfter_show]
      constructor
      · rw [keys_showIn, ih.keys, rendered_snoc]
        simp [Mark.rendered?]
      · intro k text' htold r hr hk
        rw [told_snoc] at htold
        simp only [Mark.tell, Command.presents?] at htold
        by_cases hh : h = k
        · rw [if_pos hh] at htold
          rw [text_showIn hdistinct hr (by rw [hk, hh])]
          exact Option.some.inj htold
        · rw [if_neg hh] at htold
          have hne : r.key ≠ h.key := fun he => hh (Handle.key_injective (he.symm.trans hk))
          exact ih.texts k text' htold r (mem_of_mem_showIn hr hne) hk
    | editing h text hs =>
      have hsame : commands (ms ++ [.edited h]) = commands ms := by
        rw [commands_append]
        exact List.append_nil _
      rw [hsame]
      constructor
      · rw [ih.keys, rendered_snoc]
        simp [Mark.rendered?]
      · intro k text' htold
        rw [told_snoc] at htold
        simp only [Mark.tell] at htold
        split at htold
        · cases htold
        · exact ih.texts k text' htold
    | silent c hc =>
      rw [commands_snoc, rowsAfter_silent _ hc]
      constructor
      · rw [ih.keys, rendered_snoc, rendered?_of_presents?_eq_none hc]
        simp
      · intro k text' htold
        rw [told_snoc] at htold
        simp only [Mark.tell, hc] at htold
        exact ih.texts k text' htold

/-- How the rows of a window, after the commands among some marks, mirror the variables of a store. -/
structure Mirrors {φ : Type} [FieldKind φ] (ms : List Mark) (s : Store φ) : Prop where
  /-- At no point do two rows share a key. -/
  distinct : ∀ before after, ms = before ++ after →
    ((rowsAfter (commands before)).map Row.key).Nodup
  /-- The rows stand in the order of their `render` commands, each under the key of its handle. -/
  keys : (rowsAfter (commands ms)).map Row.key = (rendered ms).map Handle.key
  once : (rendered ms).Nodup
  rendered_iff : ∀ h, h ∈ rendered ms ↔ ∃ v, s.find? h = some v ∧ v.rendered = true
  /-- A shown value finds its row, and changes nothing but this row's text and revision. -/
  shown : ∀ before h text after, ms = before ++ .command (.show h text) :: after →
    ∃ above r below, rowsAfter (commands before) = above ++ r :: below ∧ r.key = h.key ∧
      rowsAfter (commands before ++ [.show h text]) =
        above ++ { r with text := text, revision := r.revision + 1 } :: below ∧
      r.revision + 1 ≠ r.revision
  /-- Unless an edit came after it, the text last presented is what the field holds. -/
  texts : ∀ before h m after, ms = before ++ m :: after → m.Presents h → .edited h ∉ after →
    ∀ r ∈ rowsAfter (commands ms), r.key = h.key →
      ∃ v f, s.find? h = some v ∧ v.field = some f ∧ r.text = FieldKind.text f

end Window

/-- The rows of a window refine the session. Whatever events and registrations a session takes, the
window that carries out its commands mirrors its variables at every point. -/
theorem rows_mirror_session {φ : Type} [FieldKind φ] (steady : Steady φ) (c : Catalog φ)
    (url : String) (inputs : List (Input φ)) :
    Window.Mirrors ((Session.new c url).play inputs).2
      ((Session.new c url).play inputs).1.store := by
  have hrun := Session.run_play steady (s := Session.new c url) Store.keyed_empty inputs
  generalize (Session.new c url).play inputs = played at hrun ⊢
  obtain ⟨s, ms⟩ := played
  have hrec := recorded_of_run hrun
  have htracks := Window.tracks_of_run hrun
  constructor
  case distinct =>
    intro before after he
    obtain ⟨t, hbefore⟩ := hrun.prefix he
    exact (Window.tracks_of_run hbefore).distinct (recorded_of_run hbefore).once
  case keys => exact htracks.keys
  case once => exact hrec.once
  case rendered_iff => exact fun h => (hrec.rendered_iff h).trans (s.store.isSome_screen h)
  case shown =>
    intro before h text after he
    obtain ⟨t, hbefore⟩ := hrun.prefix he
    have hmem : h.key ∈ (Window.rowsAfter (commands before)).map Row.key := by
      rw [(Window.tracks_of_run hbefore).keys]
      exact List.mem_map_of_mem (hrec.shown before h text after he)
    obtain ⟨above, r, below, hrows, hk, hshown⟩ := Window.showIn_of_mem text hmem
    exact ⟨above, r, below, hrows, hk, (Window.rowsAfter_show _ h text).trans hshown, by simp⟩
  case texts =>
    intro before h m after he hm hn r hr hk
    obtain ⟨text, htold⟩ := told_of_presents hm before after hn
    rw [← he] at htold
    rw [htracks.texts h text htold r hr hk]
    exact s.store.field_of_screen (hrec.current h text htold)

/-- An edit that is refused and one that is sent, and a refresh after them. -/
def labelInputs : List (Input Label) :=
  [.register [.time] Label.maker, .event .reconnect, .event (.transport 1 .opened),
    .event (.transport 1 (.message
      "\x7b\"type\":\"hello\",\"vars\":[[1,null,\"int\",null,null,2],[\"1\",null,\"time\"]]\x7d")),
    .event (.edit "n:1" "x"), .event (.edit "s:1" "now"),
    .event (.transport 1 (.message "\x7b\"type\":\"refresh\",\"vars\":[[\"1\",null],[1,7]]\x7d"))]

/-- The label keeps what the window says its user typed, and its row does not hear of it. -/
theorem rows_mirror_session_label :
    Steady Label ∧
      Window.Mirrors ((Session.new .withNumeric "ws://h").play labelInputs).2
        ((Session.new .withNumeric "ws://h").play labelInputs).1.store ∧
      (Window.rowsAfter (commands ((Session.new .withNumeric "ws://h").play labelInputs).2)).map
        (fun r => (r.key, r.text)) = [("n:1", "7"), ("s:1", "")] :=
  ⟨steady_label, rows_mirror_session steady_label .withNumeric "ws://h" labelInputs,
    by decide +kernel⟩

end LivePanel
