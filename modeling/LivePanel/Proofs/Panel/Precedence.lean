import Mathlib.Data.List.Forall2
import LivePanel.CommandLine
import LivePanel.Proofs.Wire.HandleKey
import LivePanel.Transport.Basic

/-!
# Where settings come from

A setting can be given in several places, one of which takes precedence over the next, and a place
that gives nothing usable counts for nothing. So there is always one value that is settled on, and
none of the limits is ever zero. Main statements: `Prevails.unique`, `chosen_foldr` and
`settings_follow_precedence`.
-/
namespace LivePanel

section
variable {α : Type}

/-- The value that is settled on: the one offered in the first place where any is, or else the
default. -/
inductive Prevails (default : α) : List (α → Prop) → α → Prop where
  | default : Prevails default [] default
  | here {p : α → Prop} {ps : List (α → Prop)} {a : α} : p a → Prevails default (p :: ps) a
  | skip {p : α → Prop} {ps : List (α → Prop)} {a : α} : (∀ b, ¬ p b) → Prevails default ps a →
      Prevails default (p :: ps) a

namespace Prevails

variable {default a b : α} {ps : List (α → Prop)}

/-- One value is settled on, if no place offers more than one. -/
theorem unique (hps : ∀ p ∈ ps, ∀ b c, p b → p c → b = c) (ha : Prevails default ps a)
    (hb : Prevails default ps b) : a = b := by
  induction ha with
  | default =>
    cases hb with
    | default => rfl
  | here hp =>
    cases hb with
    | here hq => exact hps _ List.mem_cons_self _ _ hp hq
    | skip hnone _ => exact absurd hp (hnone _)
  | skip hnone _ ih =>
    cases hb with
    | here hq => exact absurd hq (hnone _)
    | skip _ hrest => exact ih (fun p hp => hps p (List.mem_cons_of_mem _ hp)) hrest

/-- Places that offer nothing are passed over, however many there are. -/
theorem append {before : List (α → Prop)} (hbefore : ∀ p ∈ before, ∀ b, ¬ p b)
    (ha : Prevails default ps a) : Prevails default (before ++ ps) a := by
  induction before with
  | nil => exact ha
  | cons p before ih =>
    have hrest := ih fun q hq => hbefore q (List.mem_cons_of_mem p hq)
    exact .skip (hbefore p List.mem_cons_self) hrest

/-- What is settled on has whatever all that can be offered has. -/
theorem holds {P : α → Prop} (hdefault : P default) (hps : ∀ p ∈ ps, ∀ b, p b → P b)
    (ha : Prevails default ps a) : P a := by
  induction ha with
  | default => exact hdefault
  | here hp => exact hps _ List.mem_cons_self _ hp
  | skip _ _ ih => exact ih fun p hp => hps p (List.mem_cons_of_mem _ hp)

end Prevails

/-- A value that is settled on among some places. -/
structure Chosen (default : α) (places : List (α → Prop)) (a : α) : Prop where
  prevails : Prevails default places a
  unique : ∀ b, Prevails default places b → b = a
  /-- A place that offers nothing does not hide what the next one offers. -/
  unhidden : ∀ before p after b, places = before ++ p :: after → (∀ q ∈ before, ∀ c, ¬ q c) →
    p b → b = a

theorem chosen_of_prevails {default a : α} {places : List (α → Prop)}
    (hplaces : ∀ p ∈ places, ∀ b c, p b → p c → b = c) (ha : Prevails default places a) :
    Chosen default places a where
  prevails := ha
  unique _ hb := hb.unique hplaces ha
  unhidden before p after b he hbefore hp := by
    have hb : Prevails default places b := he ▸ Prevails.append hbefore (.here hp)
    exact hb.unique hplaces ha

theorem prevails_foldr (default : α) {os : List (Option α)} {places : List (α → Prop)}
    (h : List.Forall₂ (fun o p => ∀ a, o = some a ↔ p a) os places) :
    Prevails default places (os.foldr Option.getD default) := by
  induction h with
  | nil => exact .default
  | @cons o p os ps hop _ ih =>
    cases o with
    | some a => exact .here ((hop a).1 rfl)
    | none => exact .skip (fun b hb => by cases (hop b).2 hb) ih

theorem offers_unique {os : List (Option α)} {places : List (α → Prop)}
    (h : List.Forall₂ (fun o p => ∀ a, o = some a ↔ p a) os places) :
    ∀ p ∈ places, ∀ b c, p b → p c → b = c := by
  induction h with
  | nil => simp
  | cons hop _ ih =>
    rw [List.forall_mem_cons]
    refine ⟨fun b c hb hc => ?_, ih⟩
    exact Option.some.inj (((hop b).2 hb).symm.trans ((hop c).2 hc))

/-- Defaults put in one behind the other settle on the first that is given. -/
theorem chosen_foldr (default : α) {os : List (Option α)} {places : List (α → Prop)}
    (h : List.Forall₂ (fun o p => ∀ a, o = some a ↔ p a) os places) :
    Chosen default places (os.foldr Option.getD default) :=
  chosen_of_prevails (offers_unique h) (prevails_foldr default h)

end

/-- The texts of a positive number: any run of ASCII digits that a 64-bit word can hold, also with
leading zeros or a plus sign, and not zero. -/
inductive SpellsPositive : String → UInt64 → Prop where
  | number {sign : String} {ds : List Char} : sign ∈ ["", "+"] → (∀ c ∈ ds, '0' ≤ c ∧ c ≤ '9') →
      0 < ofDigits ds → ofDigits ds < UInt64.size →
      SpellsPositive (sign ++ .ofList ds) (.ofNat (ofDigits ds))

theorem one_le_word_iff {n : UInt64} : 1 ≤ n ↔ 0 < n := by
  rw [UInt64.le_iff_toNat_le, UInt64.lt_iff_toNat_lt]
  exact Iff.rfl

theorem pos_ofNat_iff {n : Nat} (h : n < UInt64.size) : 0 < UInt64.ofNat n ↔ 0 < n := by
  rw [UInt64.lt_iff_toNat_lt, UInt64.toNat_ofNat_of_lt' h]
  exact Iff.rfl

theorem SpellsPositive.pos {text : String} {n : UInt64} (h : SpellsPositive text n) : 0 < n := by
  cases h with
  | number _ _ hvalue hsize => exact (pos_ofNat_iff hsize).2 hvalue

namespace Settings

theorem nonempty?_eq_some_iff {s t : String} : nonempty? s = some t ↔ s = t ∧ t ≠ "" := by
  unfold nonempty?
  split
  case isTrue hs =>
    refine iff_of_false (fun h => by cases h) ?_
    rintro ⟨rfl, hne⟩
    exact hne hs
  case isFalse hs =>
    rw [Option.some_inj]
    constructor
    · rintro rfl
      exact ⟨rfl, hs⟩
    · exact fun h => h.1

theorem positive?_eq_some_iff {m n : UInt64} : positive? m = some n ↔ m = n ∧ 0 < n := by
  unfold positive?
  split
  case isTrue hm =>
    refine iff_of_false (fun h => by cases h) ?_
    rintro ⟨rfl, hpos⟩
    rw [hm] at hpos
    exact absurd hpos (by decide)
  case isFalse hm =>
    rw [Option.some_inj]
    constructor
    · rintro rfl
      exact ⟨rfl, UInt64.pos_iff_ne_zero.2 hm⟩
    · exact fun h => h.1

/-- What is read as a positive number is what spells one. -/
theorem readPositive?_eq_some_iff {text : String} {n : UInt64} :
    readPositive? text = some n ↔ SpellsPositive text n := by
  rw [readPositive?, Option.bind_eq_some_iff]
  constructor
  · rintro ⟨w, hw, hn⟩
    obtain ⟨rfl, hpos⟩ := positive?_eq_some_iff.1 hn
    obtain ⟨sign, ds, hsign, rfl, -, hds, hsize, rfl⟩ := readWord?_toList_eq_some_iff.1 hw
    exact .number hsign hds ((pos_ofNat_iff hsize).1 hpos) hsize
  · intro hs
    have hpos := hs.pos
    cases hs with
    | @number sign ds hsign hds hvalue hsize =>
      have hne : ds ≠ [] := by
        rintro rfl
        exact absurd hvalue (by decide)
      have hread := readWord?_toList_eq_some_iff.2 ⟨sign, ds, hsign, rfl, hne, hds, hsize, rfl⟩
      exact ⟨_, hread, positive?_eq_some_iff.2 ⟨rfl, hpos⟩⟩

/-- Where the address can come from. -/
def urlPlaces (lookup : String → Option String) (a : Arguments) : List (String → Prop) := [
  fun url => a.url = some url,
  fun url => ∃ host, a.host = some host ∧ url = "ws://" ++ host ++ "/socket",
  fun url => lookup "TWEAK_PANEL_URL" = some url ∧ url ≠ "",
  fun url => ∃ host, lookup "TWEAK_PANEL_HOST" = some host ∧ host ≠ "" ∧
    url = "ws://" ++ host ++ "/socket"]

/-- Where a number can come from: a flag, or else the environment. -/
def numberPlaces (flag : Option UInt64) (given : Option String) : List (UInt64 → Prop) := [
  fun n => flag = some n ∧ 0 < n,
  fun n => ∃ text, given = some text ∧ SpellsPositive text n]

/-- How settings follow from the environment and the command line. -/
structure Follows (lookup : String → Option String) (a : Arguments) (s : Settings) : Prop where
  url : Chosen "ws://127.0.0.1:8080/socket" (urlPlaces lookup a) s.url
  capacity : Chosen 256 (numberPlaces a.outboxCapacity (lookup "TWEAK_PANEL_OUTBOUND_QUEUE_CAP"))
    s.outboxCapacity
  timeout : Chosen 10000 (numberPlaces a.connectTimeout (lookup "TWEAK_PANEL_CONNECT_TIMEOUT_MS"))
    s.connectTimeout
  capacity_pos : 1 ≤ s.outboxCapacity
  timeout_pos : 1 ≤ s.connectTimeout
  /-- A new transport has room for an update. -/
  room : ∀ request text,
    ((Transport.ofRequest s.outboxCapacity request).outbox.offer text).2 = .accepted
  /-- Nothing else can be set. -/
  fixed : s.messageLimit = 1048576 ∧ s.revealDelay = 500 ∧ s.pollInterval = 20

theorem chosen_url (lookup : String → Option String) (a : Arguments) :
    Chosen "ws://127.0.0.1:8080/socket" (urlPlaces lookup a)
      (a.override (ofEnvironment lookup)).url := by
  have hplaces : List.Forall₂ (fun o p => ∀ u, o = some u ↔ p u)
      [a.url, a.host.map hostAddress, (lookup "TWEAK_PANEL_URL").bind nonempty?,
        ((lookup "TWEAK_PANEL_HOST").bind nonempty?).map hostAddress] (urlPlaces lookup a) := by
    refine .cons ?flag (.cons ?host (.cons ?url (.cons ?urlHost .nil)))
    case flag => exact fun u => Iff.rfl
    case host =>
      intro u
      simp only [Option.map_eq_some_iff, hostAddress, eq_comm]
    case url =>
      intro u
      simp [Option.bind_eq_some_iff, nonempty?_eq_some_iff]
    case urlHost =>
      intro u
      simp only [Option.map_eq_some_iff, Option.bind_eq_some_iff, nonempty?_eq_some_iff]
      constructor
      · rintro ⟨host, ⟨_, hlookup, rfl, hne⟩, rfl⟩
        exact ⟨_, hlookup, hne, rfl⟩
      · rintro ⟨host, hlookup, hne, rfl⟩
        exact ⟨host, ⟨host, hlookup, rfl, hne⟩, rfl⟩
  exact chosen_foldr "ws://127.0.0.1:8080/socket" hplaces

theorem chosen_number (default : UInt64) (flag : Option UInt64) (given : Option String) :
    Chosen default (numberPlaces flag given)
      ((flag.bind positive?).getD ((given.bind readPositive?).getD default)) := by
  have hplaces : List.Forall₂ (fun o p => ∀ n, o = some n ↔ p n)
      [flag.bind positive?, given.bind readPositive?] (numberPlaces flag given) := by
    refine .cons ?flag (.cons ?given .nil)
    case flag =>
      intro n
      simp [Option.bind_eq_some_iff, positive?_eq_some_iff]
    case given =>
      intro n
      simp only [Option.bind_eq_some_iff, readPositive?_eq_some_iff]
  exact chosen_foldr default hplaces

/-- No place offers zero. -/
theorem one_le_of_chosen {default n : UInt64} {flag : Option UInt64} {given : Option String}
    (hdefault : 1 ≤ default) (h : Chosen default (numberPlaces flag given) n) : 1 ≤ n := by
  refine h.prevails.holds hdefault ?_
  intro p hp m hm
  obtain rfl | rfl : p = _ ∨ p = _ := by simpa [numberPlaces] using hp
  · exact one_le_word_iff.2 hm.2
  · obtain ⟨text, -, hspells⟩ := hm
    exact one_le_word_iff.2 hspells.pos

theorem follows_override (lookup : String → Option String) (a : Arguments) :
    (a.override (ofEnvironment lookup)).Follows lookup a := by
  have hcapacity : Chosen 256
      (numberPlaces a.outboxCapacity (lookup "TWEAK_PANEL_OUTBOUND_QUEUE_CAP"))
      (a.override (ofEnvironment lookup)).outboxCapacity := chosen_number _ _ _
  have htimeout : Chosen 10000
      (numberPlaces a.connectTimeout (lookup "TWEAK_PANEL_CONNECT_TIMEOUT_MS"))
      (a.override (ofEnvironment lookup)).connectTimeout := chosen_number _ _ _
  have hcapacity_pos := one_le_of_chosen (by decide) hcapacity
  constructor
  case url => exact chosen_url lookup a
  case capacity => exact hcapacity
  case timeout => exact htimeout
  case capacity_pos => exact hcapacity_pos
  case timeout_pos => exact one_le_of_chosen (by decide) htimeout
  case room =>
    intro request text
    have hempty : 0 < (a.override (ofEnvironment lookup)).outboxCapacity.toNat :=
      UInt64.lt_iff_toNat_lt.1 (one_le_word_iff.1 hcapacity_pos)
    simp [Transport.ofRequest, Outbox.offer, hempty]
  case fixed => exact ⟨rfl, rfl, rfl⟩

theorem Follows.unique {lookup : String → Option String} {a : Arguments} {s t : Settings}
    (hs : s.Follows lookup a) (ht : t.Follows lookup a) : s = t := by
  obtain ⟨hlimit, hdelay, hinterval⟩ := hs.fixed
  obtain ⟨hlimit', hdelay', hinterval'⟩ := ht.fixed
  have hurl := ht.url.unique _ hs.url.prevails
  have hcapacity := ht.capacity.unique _ hs.capacity.prevails
  have htimeout := ht.timeout.unique _ hs.timeout.prevails
  cases s
  cases t
  simp_all

end Settings

/-- Settings are settled on by precedence, and in every case. Whatever the environment holds, a
command line that can be read gives settings, and these are the only ones that follow: the address
and the two numbers are what the first place offers that offers anything usable, neither number is
ever zero, and the rest is fixed. -/
theorem settings_follow_precedence (lookup : String → Option String) {args : List String}
    {a : Arguments} (hargs : Arguments.ofList args = .ok a) :
    ∃ s, Settings.ofLaunch lookup args = .ok s ∧ s.Follows lookup a ∧
      ∀ t : Settings, t.Follows lookup a → t = s := by
  have hfollows := Settings.follows_override lookup a
  refine ⟨a.override (.ofEnvironment lookup), ?_, hfollows, fun t ht => ht.unique hfollows⟩
  rw [Settings.ofLaunch, hargs]
  rfl

/-- A host on the command line goes before an address in the environment, a zero there does not go
before a number here, and a word is no number. -/
theorem settings_follow_precedence_rig :
    let lookup := fun name : String => [("TWEAK_PANEL_URL", "ws://other:1/socket"),
      ("TWEAK_PANEL_OUTBOUND_QUEUE_CAP", "16"),
      ("TWEAK_PANEL_CONNECT_TIMEOUT_MS", "soon")].lookup name
    let args := ["--host", "rig:9000", "--outbound-queue-cap", "0"]
    let a : Arguments := { host := some "rig:9000", outboxCapacity := some 0 }
    Arguments.ofList args = .ok a ∧ ∃ s, Settings.ofLaunch lookup args = .ok s ∧
      s.Follows lookup a ∧ s.url = "ws://rig:9000/socket" ∧ s.outboxCapacity = 16 ∧
      s.connectTimeout = 10000 := by
  intro lookup args a
  have hargs : Arguments.ofList args = .ok a := by decide
  obtain ⟨s, hs, hfollows, -⟩ := settings_follow_precedence lookup hargs
  have hlaunch : Settings.ofLaunch lookup args = .ok
      { url := "ws://rig:9000/socket", outboxCapacity := 16, connectTimeout := 10000 } := by decide
  obtain rfl := Except.ok.inj (hs.symm.trans hlaunch)
  exact ⟨hargs, _, hs, hfollows, rfl, rfl, rfl⟩

end LivePanel
