import LivePanel.Proofs.Session.Rendering
import LivePanel.Proofs.Session.Waiting

/-!
# The connection of a session

All that one input can do to the link, listed once with the commands that tell of it. A dial begins a
generation of its own, so the generation counts the dials. Main statements: `turns_take`,
`generation_play` and `openings_numbered`.
-/
namespace LivePanel

namespace Command

/-- Whether a command is about the connection. -/
def ofLink : Command → Bool
  | .dial _ | .status _ => true
  | .send _ | .render _ | .show .. => false

theorem ofLink_of_presents {c : Command} (hc : c.presents?.isSome = true) : c.ofLink = false := by
  cases c with
  | dial request | status a => cases hc
  | send u | render view | «show» h text => rfl

theorem dialed?_of_ofLink {c : Command} (hc : c.ofLink = false) : c.dialed? = none := by
  cases c with
  | dial request => cases hc
  | status a | send u | render view | «show» h text => rfl

end Command

theorem dials_of_ofLink {cs : List Command} (h : ∀ c ∈ cs, c.ofLink = false) : dials cs = [] := by
  rw [dials, List.filterMap_eq_nil_iff]
  intro c hc
  exact Command.dialed?_of_ofLink (h c hc)

theorem mem_dials_iff {cs : List Command} {request : Opening} :
    request ∈ dials cs ↔ .dial request ∈ cs := by
  rw [dials, List.mem_filterMap]
  constructor
  · rintro ⟨c, hc, hr⟩
    cases c with
    | dial r =>
      cases hr
      exact hc
    | status a | send u | render view | «show» h text => cases hr
  · intro hr
    exact ⟨.dial request, hr, rfl⟩

/-- A count that does not overflow. -/
theorem toNat_count {start : UInt64} {n : Nat} (h : start.toNat + n < UInt64.size) :
    (start + .ofNat n).toNat = start.toNat + n := by
  have hn : n < UInt64.size := by omega
  rw [UInt64.toNat_add, UInt64.toNat_ofNat_of_lt' hn]
  exact Nat.mod_eq_of_lt h

namespace Link

/-- The request for the next connection. -/
def next (l : Link) : Opening := ⟨l.generation + 1, l.url, subProtocol⟩

/-- All that can become of a link at once, with the commands that are given then. -/
inductive Turns (l : Link) : Link × List Command → Prop where
  /-- The link is as it was, and no command is about it. -/
  | aside {cs : List Command} : (∀ c ∈ cs, c.ofLink = false) → l.Turns (l, cs)
  | dialed : l.status = .disconnected →
      l.Turns ({ l with status := .connecting, generation := l.generation + 1 },
        [.status .connecting, .dial l.next])
  | opened : l.status = .connecting →
      l.Turns ({ l with status := .connected, lastFailure := none }, [.status .connected])
  | closed : l.status ≠ .disconnected →
      l.Turns ({ l with status := .disconnected }, [.status .disconnected])
  | failed (reason : String) : l.status ≠ .disconnected →
      l.Turns ({ l with status := .disconnected, lastFailure := some reason },
        [.status .disconnected])
  /-- A failure of a connection that has ended already. -/
  | blamed (reason : String) : l.status = .disconnected →
      l.Turns ({ l with lastFailure := some reason }, [])

namespace Turns

variable {l l' : Link} {cs : List Command}

theorem url_eq (ht : l.Turns (l', cs)) : l'.url = l.url := by
  cases ht with
  | aside | dialed | opened | closed | failed | blamed => rfl

/-- A generation begins with a dial, and with nothing else. -/
theorem dials_cases (ht : l.Turns (l', cs)) :
    (dials cs = [] ∧ l'.generation = l.generation) ∨
      (cs = [.status .connecting, .dial l.next] ∧ l'.generation = l.generation + 1) := by
  cases ht with
  | aside hcs => exact .inl ⟨dials_of_ofLink hcs, rfl⟩
  | dialed => exact .inr ⟨rfl, rfl⟩
  | opened | closed | failed | blamed => exact .inl ⟨rfl, rfl⟩

theorem generation_eq (ht : l.Turns (l', cs)) :
    l'.generation = l.generation + .ofNat (dials cs).length := by
  obtain ⟨hnone, hg⟩ | ⟨rfl, hg⟩ := ht.dials_cases
  · rw [hg, hnone]
    exact (UInt64.add_zero l.generation).symm
  · exact hg

end Turns

variable (l : Link)

/-- What a transport reports turns a link as listed. -/
theorem turns_opened (generation : UInt64) :
    l.Turns ((l.opened generation).1, ((l.opened generation).2.map Command.status).toList) := by
  unfold opened
  split
  · rename_i h
    exact .opened h.2
  · exact .aside (by simp)

theorem turns_closed (generation : UInt64) :
    l.Turns ((l.closed generation).1, ((l.closed generation).2.map Command.status).toList) := by
  unfold closed drop
  split
  · split
    · exact .aside (by simp)
    · rename_i h
      exact .closed h
  · exact .aside (by simp)

theorem turns_failed (generation : UInt64) (reason : String) :
    l.Turns ((l.failed generation reason).1,
      ((l.failed generation reason).2.map Command.status).toList) := by
  unfold failed drop
  split
  · split
    · rename_i h
      exact .blamed reason h
    · rename_i h
      exact .failed reason h
  · exact .aside (by simp)

end Link

variable {φ : Type} [FieldKind φ]

namespace Session

omit [FieldKind φ] in
theorem turns_dial (s : Session φ) : s.link.Turns (s.dial.1.link, s.dial.2) := by
  by_cases hs : s.link.status = .disconnected
  · simp only [dial, Link.dial, if_pos hs]
    exact .dialed hs
  · simp only [dial, Link.dial, if_neg hs]
    exact .aside (by simp)

/-- No command that answers an edit is about the connection. -/
theorem ofLink_edit (s : Session φ) (key text : String) :
    ∀ c ∈ (s.edit key text).2, c.ofLink = false := by
  have hundone := s.store.presents_undone key text
  obtain ⟨refusal, hr, he⟩ | ⟨u, -, -, he⟩ | ⟨u, -, -, he⟩ := s.edit_cases key text <;> rw [he]
  · rw [hr] at hundone
    exact fun c hc => Command.ofLink_of_presents (hundone c hc)
  · simp [reject]
  · simp [Command.ofLink]

/-- An input turns the link in one of the ways listed. -/
theorem turns_take (s : Session φ) (i : Input φ) :
    s.link.Turns ((s.take i).1.link, (s.take i).2) := by
  cases i with
  | register ds m => exact .aside (by simp [take])
  | installNumeric => exact .aside (by simp [take])
  | event e =>
    cases e with
    | shutdown => exact .aside (by simp [take, step])
    | reconnect => exact s.turns_dial
    | edit key text =>
      simp only [take, step, link_edit]
      exact .aside (s.ofLink_edit key text)
    | transport generation report =>
      cases report with
      | opened => exact s.link.turns_opened generation
      | closed => exact s.link.turns_closed generation
      | errored reason => exact s.link.turns_failed generation reason
      | message payload =>
        simp only [take, step, Session.report]
        split
        · rw [link_receive]
          exact .aside fun c hc => Command.ofLink_of_presents (s.presents_receive payload c hc)
        · exact .aside (by simp)

/-- A connection is opened right after its status was told, and nothing else is done with it. -/
theorem take_eq_of_dial {s : Session φ} {i : Input φ} {request : Opening}
    (hr : .dial request ∈ (s.take i).2) :
    (s.take i).2 = [.status .connecting, .dial request] := by
  have hmem : request ∈ dials (s.take i).2 := mem_dials_iff.2 hr
  obtain ⟨hnone, -⟩ | ⟨hcs, -⟩ := (s.turns_take i).dials_cases
  · rw [hnone] at hmem
    cases hmem
  · rw [hcs] at hmem ⊢
    have hnext : request = s.link.next := List.mem_singleton.1 hmem
    rw [hnext]

/-- The connections that a run asks for, in order. -/
def openings (s : Session φ) (is : List (Input φ)) : List Opening := dials (commands (s.play is).2)

theorem openings_cons (s : Session φ) (i : Input φ) (is : List (Input φ)) :
    s.openings (i :: is) = dials (s.take i).2 ++ (s.take i).1.openings is := by
  rw [openings, commands_play_cons, dials_append]
  rfl

theorem openings_append (s : Session φ) (is js : List (Input φ)) :
    s.openings (is ++ js) = s.openings is ++ (s.play is).1.openings js := by
  induction is generalizing s with
  | nil => rfl
  | cons i is ih => rw [List.cons_append, openings_cons, ih, openings_cons, List.append_assoc, play]

/-- The generation counts the connections asked for. -/
theorem generation_play (s : Session φ) (is : List (Input φ)) :
    (s.play is).1.link.generation = s.link.generation + .ofNat (s.openings is).length := by
  induction is generalizing s with
  | nil => exact (UInt64.add_zero s.link.generation).symm
  | cons i is ih =>
    rw [play, ih, (s.turns_take i).generation_eq, openings_cons, List.length_append,
      UInt64.ofNat_add, UInt64.add_assoc]

/-- As long as the count does not overflow it is exact. -/
theorem toNat_generation_play (s : Session φ) (is : List (Input φ))
    (h : s.link.generation.toNat + (s.openings is).length < UInt64.size) :
    (s.play is).1.link.generation.toNat =
      s.link.generation.toNat + (s.openings is).length := by
  rw [generation_play, toNat_count h]

/-- The connections of a run are numbered one after another. -/
theorem openings_numbered (s : Session φ) (is : List (Input φ)) (k : Nat) {request : Opening}
    (hk : (s.openings is)[k]? = some request) :
    request = ⟨s.link.generation + .ofNat (k + 1), s.link.url, subProtocol⟩ := by
  induction is generalizing s k with
  | nil => cases hk
  | cons i is ih =>
    have hturns := s.turns_take i
    rw [openings_cons] at hk
    obtain ⟨hnone, hg⟩ | ⟨hcs, hg⟩ := hturns.dials_cases
    · rw [hnone, List.nil_append] at hk
      rw [ih _ k hk, hg, hturns.url_eq]
    · rw [hcs] at hk
      cases k with
      | zero => exact (Option.some.inj hk).symm
      | succ k =>
        have hrest : ((s.take i).1.openings is)[k]? = some request := hk
        rw [ih _ k hrest, hg, hturns.url_eq, UInt64.ofNat_add (k + 1) 1, UInt64.add_assoc,
          UInt64.add_comm 1]
        rfl

end Session
end LivePanel
