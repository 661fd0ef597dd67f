import LivePanel.Proofs.Session.Inputs
import LivePanel.Proofs.Store.Rendering

/-!
# Rendering once

Over a whole run, whatever is registered meanwhile, each variable is rendered at most once, and its
values are shown after that. Main statement: `renders_once`.
-/
namespace LivePanel

theorem commands_map_command (cs : List Command) : commands (cs.map .command) = cs := by
  induction cs with
  | nil => rfl
  | cons c cs ih => exact congrArg (c :: ·) ih

variable {φ : Type} [FieldKind φ]

namespace Session

/-- The arrivals that an input makes. -/
def arrivals (s : Session φ) (i : Input φ) : List (Arrival φ) :=
  (s.delivery? i).elim [] Delivery.arrivals

/-- The arrivals that some inputs make, in order. -/
def allArrivals (s : Session φ) : List (Input φ) → List (Arrival φ)
  | [] => []
  | i :: is => s.arrivals i ++ (s.take i).1.allArrivals is

theorem store_take_arrivals (s : Session φ) (i : Input φ) :
    (s.take i).1.store = (s.arrivals i).foldl Store.arrive s.store := by
  rw [store_take, arrivals]
  cases s.delivery? i with
  | none => rfl
  | some d => exact s.store.deliver_eq_foldl d

theorem store_play (s : Session φ) (is : List (Input φ)) :
    (s.play is).1.store = (s.allArrivals is).foldl Store.arrive s.store := by
  induction is generalizing s with
  | nil => rfl
  | cons i is ih => rw [play, ih, allArrivals, List.foldl_append, store_take_arrivals]

/-- Beside the replies to what arrives, an input is answered by nothing that presents a text. -/
theorem commands_take (s : Session φ) (i : Input φ) :
    ∃ cs, (s.take i).2 = s.store.replies (s.arrivals i) ++ cs ∧ ∀ c ∈ cs, c.presents? = none := by
  cases i with
  | register ds m => exact ⟨[], rfl, by simp⟩
  | installNumeric => exact ⟨[], rfl, by simp⟩
  | event e =>
    cases e with
    | shutdown => exact ⟨[], rfl, by simp⟩
    | reconnect => exact ⟨s.dial.2, rfl, s.presents?_dial⟩
    | edit key text =>
      obtain ⟨cs, hcs, hquiet⟩ := s.commands_edit key text
      refine ⟨cs, ?_, hquiet⟩
      simp only [take, step, hcs, arrivals, delivery?, Option.elim_some, Delivery.arrivals,
        Store.replies, Store.reply, List.append_nil]
    | transport generation report =>
      cases report with
      | opened => exact ⟨_, rfl, s.presents?_settle (s.link.opened generation)⟩
      | closed => exact ⟨_, rfl, s.presents?_settle (s.link.closed generation)⟩
      | errored reason => exact ⟨_, rfl, s.presents?_settle (s.link.failed generation reason)⟩
      | message payload =>
        refine ⟨[], ?_, by simp⟩
        rw [List.append_nil]
        simp only [take, step, Session.report, arrivals, delivery?]
        split
        · cases hm : Message.ofText payload with
          | error e => simp only [receive, hm]; rfl
          | ok m =>
            cases m with
            | hello entries =>
              simp only [receive, hm, hello, conclude]
              exact Store.commands_hello s.catalog s.store entries
            | refresh entries =>
              simp only [receive, hm, refresh, conclude]
              exact Store.commands_refresh s.store entries
            | unrecognized type => simp only [receive, hm]; rfl
        · rfl

/-- The commands among the marks of an input are those that answer it. -/
theorem commands_marks (s : Session φ) (i : Input φ) : commands (s.marks i) = (s.take i).2 := by
  have hedited : commands ((s.edited? i).toList.map Mark.edited) = [] := by
    cases s.edited? i <;> rfl
  rw [marks, commands_append, hedited, commands_map_command, List.nil_append]

theorem commands_play_cons (s : Session φ) (i : Input φ) (is : List (Input φ)) :
    commands (s.play (i :: is)).2 = (s.take i).2 ++ commands ((s.take i).1.play is).2 := by
  rw [play, commands_append, commands_marks]

/-- The commands of a run that present a text are the replies to what arrives in it. -/
theorem presented_play (s : Session φ) (is : List (Input φ)) :
    (commands (s.play is).2).filter (·.presents?.isSome) =
      s.store.replies (s.allArrivals is) := by
  induction is generalizing s with
  | nil => rfl
  | cons i is ih =>
    obtain ⟨cs, hcs, hquiet⟩ := s.commands_take i
    have hpresenting : (s.store.replies (s.arrivals i)).filter (·.presents?.isSome) =
        s.store.replies (s.arrivals i) :=
      List.filter_eq_self.2 (s.store.presents_replies _)
    have hothers : cs.filter (·.presents?.isSome) = [] :=
      List.filter_eq_nil_iff.2 fun c hc => by simp [hquiet c hc]
    rw [commands_play_cons, List.filter_append, ih, hcs, List.filter_append, hpresenting, hothers,
      List.append_nil, allArrivals, Store.replies_append, store_take_arrivals]

/-- The commands of a run keep to the order of every variable. -/
theorem orderly_play {s : Session φ} (hs : s.store.Keyed) (is : List (Input φ)) (h : Handle) :
    Orderly h (s.store.renders h) (commands (s.play is).2) ((s.play is).1.store.renders h) := by
  induction is generalizing s with
  | nil => exact .nil _
  | cons i is ih =>
    obtain ⟨cs, hcs, hquiet⟩ := s.commands_take i
    have hreplies := Store.orderly_replies hs (s.arrivals i) h
    rw [← store_take_arrivals] at hreplies
    rw [commands_play_cons, hcs]
    exact (hreplies.append (Orderly.others _ hquiet)).append (ih (Keyed.take hs i))

theorem play_append (s : Session φ) (is js : List (Input φ)) :
    (s.play (is ++ js)).1 = ((s.play is).1.play js).1 := by rw [play_append_eq]

/-- A variable keeps its field through a run, whatever is registered meanwhile. -/
theorem keepsField_play (s : Session φ) (is : List (Input φ)) (h : Handle) :
    KeepsField (s.store.find? h) ((s.play is).1.store.find? h) := by
  rw [store_play]
  exact s.store.keeps_field _ h

/-- How a run renders its variables. -/
structure RendersOnce (s : Session φ) (inputs : List (Input φ)) : Prop where
  once : ∀ h, (commands (s.play inputs).2).countP (Command.renders h) ≤ 1
  rendered_iff : ∀ h, (∃ view, .render view ∈ commands (s.play inputs).2 ∧ view.handle = h) ↔
    ∃ v, (s.play inputs).1.store.find? h = some v ∧ v.rendered = true
  shown : ∀ before h text after, commands (s.play inputs).2 = before ++ .show h text :: after →
    ∃ view, .render view ∈ before ∧ view.handle = h
  /-- What is left unrendered waits for the first arrival that offers a field for it. Nothing is
  told of it before, and this arrival is answered with its `render`. -/
  awaited : ∀ before between arrival after h v,
    s.allArrivals inputs = before ++ between ++ arrival :: after →
    (before.foldl Store.arrive s.store).find? h = some v → v.rendered = false →
    Store.NoneOffers h (before.foldl Store.arrive s.store) between →
    ∃ w, ((before ++ between).foldl Store.arrive s.store).find? h = some w ∧ w.rendered = false ∧
      (arrival.Offers h w → ∃ quiet view rest, quiet.filter (Command.names h) = [] ∧
        view.handle = h ∧ (commands (s.play inputs).2).filter (·.presents?.isSome) =
          s.store.replies before ++ quiet ++ .render view :: rest)
  /-- A field is never replaced, whatever is registered after it was made. -/
  kept : ∀ earlier later, inputs = earlier ++ later → ∀ h,
    KeepsField ((s.play earlier).1.store.find? h) ((s.play inputs).1.store.find? h)

/-- What is told of a variable while it waits, and when it is rendered. -/
theorem replies_awaited {s : Store φ} {between : List (Arrival φ)} (arrival : Arrival φ)
    {h : Handle} {v : Variable φ} (hs : s.Keyed) (hv : s.find? h = some v)
    (hf : v.field = none) (hnone : Store.NoneOffers h s between) :
    ∃ w, (between.foldl Store.arrive s).find? h = some w ∧ w.rendered = false ∧
      (arrival.Offers h w → ∀ after, ∃ quiet view rest, quiet.filter (Command.names h) = [] ∧
        view.handle = h ∧ s.replies (between ++ arrival :: after) =
          quiet ++ .render view :: rest) := by
  obtain ⟨hquiet, w, hw, hwf⟩ := Store.replies_of_noneOffers hs hv hf hnone
  refine ⟨w, hw, by simp [Variable.rendered, hwf], fun ho after => ?_⟩
  have hkeyed : (between.foldl Store.arrive s).Keyed := hs.foldl_arrive between
  obtain ⟨-, view, hview, hreply⟩ := Store.reply_of_offers hkeyed hw hwf ho
  refine ⟨s.replies between, view, ((between.foldl Store.arrive s).arrive arrival).replies after,
    hquiet, hview, ?_⟩
  rw [Store.replies_append, Store.replies, hreply]
  rfl

end Session

/-- Rendering happens exactly once. Over every run of a session, with registrations at any point, a
variable is rendered at most once, and once if and only if it is rendered in the end. Its values are
shown after that, and it keeps its field. -/
theorem renders_once {φ : Type} [FieldKind φ] (c : Catalog φ) (url : String)
    (inputs : List (Input φ)) : (Session.new c url).RendersOnce inputs := by
  have hkeyed : (Session.new c url).store.Keyed := Store.keyed_empty
  have horder : ∀ h, Orderly h false (commands ((Session.new c url).play inputs).2)
      (((Session.new c url).play inputs).1.store.renders h) :=
    fun h => Session.orderly_play hkeyed inputs h
  constructor
  case once =>
    intro h
    have hcount := (horder h).countP_renders
    have hle := Bool.toNat_le (((Session.new c url).play inputs).1.store.renders h)
    rw [Bool.toNat_false] at hcount
    omega
  case rendered_iff =>
    intro h
    rw [(horder h).exists_render_iff, Store.renders_iff]
  case shown =>
    intro before h text after he
    obtain hfalse | hview := (horder h).render_before_show he
    · cases hfalse
    · exact hview
  case awaited =>
    intro before between arrival after h v harrivals hv hr hnone
    have hf : v.field = none := by simpa [Variable.rendered] using hr
    obtain ⟨w, hw, hwr, hoffer⟩ := Session.replies_awaited arrival
      (hkeyed.foldl_arrive before) hv hf hnone
    refine ⟨w, by rw [List.foldl_append]; exact hw, hwr, fun ho => ?_⟩
    obtain ⟨quiet, view, rest, hquiet, hview, hreplies⟩ := hoffer ho after
    refine ⟨quiet, view, rest, hquiet, hview, ?_⟩
    rw [Session.presented_play, harrivals, List.append_assoc, Store.replies_append, hreplies,
      List.append_assoc]
  case kept =>
    rintro earlier later rfl h
    rw [Session.play_append]
    exact Session.keepsField_play _ later h

/-- A number that nobody presents at first is rendered when it is heard of again. -/
example :
    (commands ((Session.new (Catalog.empty : Catalog Empty) "ws://h").play
      [.event .reconnect,
        .event (.transport 1 (.message "\x7b\"type\":\"hello\",\"vars\":[[1,null,\"int\"]]\x7d")),
        .installNumeric,
        .event (.transport 1 (.message "\x7b\"type\":\"hello\",\"vars\":[[1],[1]]\x7d"))]).2).map
      (Command.renders (.number 1)) = [false, false, true] := by
  decide +kernel

end LivePanel
