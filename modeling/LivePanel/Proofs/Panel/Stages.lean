import Mathlib.Algebra.Order.Floor.Semiring
import Mathlib.Algebra.Order.Field.Rat
import Mathlib.Data.Rat.Floor
import LivePanel.Proofs.Panel.Steps

/-!
# Stages in order

A pipeline calls for each of its stages a report and then the stage itself, up to the first that
fails. The state is all that reports and stages can see and change, so the calls are known by what
they leave of it. Main statements: `percent_le_iff`, `ends_from` and `pipeline_runs`.
-/
namespace LivePanel

/-- A quotient rounded up is the least that makes up for what is divided. -/
theorem toNat_ceilDiv_le_iff {a b : UInt64} (hb : 0 < b.toNat) (c : Nat) :
    (ceilDiv a b).toNat ≤ c ↔ a.toNat ≤ c * b.toNat := by
  have hzero : a % b = 0 ↔ b.toNat ∣ a.toNat := by
    rw [← UInt64.toNat_inj, UInt64.toNat_mod, UInt64.toNat_zero, Nat.dvd_iff_mod_eq_zero]
  by_cases h : a % b = 0
  · rw [ceilDiv, if_pos h, UInt64.toNat_div, Nat.div_le_iff_le_mul_of_dvd hb.ne' (hzero.1 h)]
  · have hndvd : ¬ b.toNat ∣ a.toNat := fun hd => h (hzero.2 hd)
    -- a divisor of 1 leaves no remainder, so the quotient leaves room for one more
    have hone : b.toNat ≠ 1 := fun hone => hndvd (hone ▸ Nat.one_dvd _)
    have hroom : a.toNat / b.toNat + 1 < 2 ^ 64 := by
      have hhalf : a.toNat / b.toNat ≤ a.toNat / 2 := Nat.div_le_div_left (by omega) (by decide)
      have ha := a.toNat_lt
      omega
    rw [ceilDiv, if_neg h, UInt64.toNat_add, UInt64.toNat_div, UInt64.toNat_one,
      Nat.mod_eq_of_lt hroom, Nat.succ_le_iff, Nat.div_lt_iff_lt_mul hb]
    refine ⟨Nat.le_of_lt, fun hle => Nat.lt_of_le_of_ne hle fun he => hndvd ?_⟩
    exact he ▸ Nat.dvd_mul_left _ _

/-- The share of a stage is the least percentage that does not fall short of the stages before it. -/
theorem toNat_percent_le_iff {index total : UInt64} (htotal : 2 ≤ total.toNat)
    (hindex : index.toNat < total.toNat) (hsize : 100 * total.toNat < 2 ^ 64) (c : Nat) :
    (percent index total).toNat ≤ c ↔ 100 * index.toNat ≤ c * (total.toNat - 1) := by
  have hmany : ¬ total ≤ 1 := by
    rw [UInt64.le_iff_toNat_le, UInt64.toNat_one]
    omega
  have hone : 1 ≤ total := by
    rw [UInt64.le_iff_toNat_le, UInt64.toNat_one]
    omega
  have hlast : (total - 1).toNat = total.toNat - 1 := UInt64.toNat_sub_of_le _ _ hone
  have hmin : min index (total - 1) = index :=
    if_pos (by rw [UInt64.le_iff_toNat_le, hlast]; omega)
  have hproduct : (index * 100).toNat = 100 * index.toNat := by
    rw [UInt64.toNat_mul, show (100 : UInt64).toNat = 100 from rfl, Nat.mul_comm]
    exact Nat.mod_eq_of_lt (by omega)
  have hshare : ∀ c, (ceilDiv (index * 100) (total - 1)).toNat ≤ c ↔
      100 * index.toNat ≤ c * (total.toNat - 1) := by
    rw [← hproduct, ← hlast]
    exact toNat_ceilDiv_le_iff (by omega)
  have hhundred := (hshare 100).2 (Nat.mul_le_mul_left 100 (by omega))
  have hbyte : ceilDiv (index * 100) (total - 1) ≤ 255 := by
    rw [UInt64.le_iff_toNat_le]
    exact Nat.le_trans hhundred (by decide)
  simp only [percent, if_neg hmany, hmin, if_pos hbyte, UInt64.toNat_toUInt8]
  rw [Nat.mod_eq_of_lt (by omega), hshare]

theorem percent_le_iff {index total : Nat} (htotal : 2 ≤ total) (hindex : index < total)
    (hsize : 100 * total < UInt64.size) (c : Nat) :
    (percent (.ofNat index) (.ofNat total)).toNat ≤ c ↔ 100 * index ≤ c * (total - 1) := by
  have hsize' : 100 * total < 2 ^ 64 := hsize
  have hn : (UInt64.ofNat total).toNat = total := UInt64.toNat_ofNat_of_lt' (by omega)
  have hi : (UInt64.ofNat index).toNat = index := UInt64.toNat_ofNat_of_lt' (by omega)
  have hindex' : (UInt64.ofNat index).toNat < (UInt64.ofNat total).toNat := by rwa [hi, hn]
  have hiff := toNat_percent_le_iff (by rwa [hn]) hindex' (by rwa [hn]) c
  rwa [hi, hn] at hiff

theorem percent_eq_ceil {index total : Nat} (htotal : 2 ≤ total) (hindex : index < total)
    (hsize : 100 * total < UInt64.size) :
    (percent (.ofNat index) (.ofNat total)).toNat = ⌈(100 * index / (total - 1) : ℚ)⌉₊ := by
  have htwo : (2 : ℚ) ≤ total := by exact_mod_cast htotal
  have hpos : (0 : ℚ) < total - 1 := by linarith
  have hcast : ((total - 1 : Nat) : ℚ) = total - 1 := by
    rw [Nat.cast_sub (by omega), Nat.cast_one]
  refine eq_of_forall_ge_iff fun c => ?_
  rw [percent_le_iff htotal hindex hsize, Nat.ceil_le, div_le_iff₀ hpos, ← hcast]
  norm_cast

theorem percent_le_percent {i j total : Nat} (hij : i ≤ j) (hj : j < total) (htotal : 2 ≤ total)
    (hsize : 100 * total < UInt64.size) :
    percent (.ofNat i) (.ofNat total) ≤ percent (.ofNat j) (.ofNat total) := by
  rw [UInt8.le_iff_toNat_le, percent_le_iff htotal (by omega) hsize]
  have hleast := (percent_le_iff htotal hj hsize _).1 (Nat.le_refl _)
  omega

/-- The first stage begins at nothing. -/
theorem percent_first {total : Nat} (htotal : 2 ≤ total) (hsize : 100 * total < UInt64.size) :
    percent (.ofNat 0) (.ofNat total) = 0 := by
  have hiff := percent_le_iff htotal (show 0 < total by omega) hsize
  have hle := (hiff 0).2 (Nat.zero_le _)
  apply UInt8.toNat_inj.1
  show _ = 0
  omega

theorem percent_single (index : UInt64) : percent index (.ofNat 1) = 100 := rfl

theorem percent_le_hundred {index total : Nat} (hindex : index < total)
    (hsize : 100 * total < UInt64.size) : percent (.ofNat index) (.ofNat total) ≤ 100 := by
  obtain rfl | htotal : total = 1 ∨ 2 ≤ total := by omega
  · rw [percent_single]
    exact UInt8.le_refl 100
  · rw [UInt8.le_iff_toNat_le]
    exact (percent_le_iff htotal hindex hsize 100).2 (Nat.mul_le_mul_left 100 (by omega))

/-- The last stage begins at the whole. -/
theorem percent_last {index total : Nat} (hindex : index + 1 = total)
    (hsize : 100 * total < UInt64.size) : percent (.ofNat index) (.ofNat total) = 100 := by
  obtain rfl | htotal : total = 1 ∨ 2 ≤ total := by omega
  · exact percent_single _
  · have hlt : index < total := by omega
    have hle := UInt8.le_iff_toNat_le.1 (percent_le_hundred hlt hsize)
    have hge := (percent_le_iff htotal hlt hsize 99).1.mt (by omega)
    apply UInt8.toNat_inj.1
    change _ ≤ 100 at hle
    show _ = 100
    omega

namespace Pipeline

variable {σ : Type}

/-- What a pipeline calls. -/
inductive Call (σ : Type) where
  | report : Progress → Call σ
  | stage : Stage σ → Call σ

namespace Call

/-- What a call makes of the state. -/
def apply (report : σ → Progress → σ) (s : σ) : Call σ → σ
  | .report p => report s p
  | .stage t => (t.run s).1

def report? : Call σ → Option Progress
  | .report p => some p
  | .stage _ => none

end Call

/-- The stages in order, each with the report that announces it. -/
def announced (stages : List (Stage σ)) : List (Progress × Stage σ) :=
  stages.mapIdx fun i t => (progress i stages.length t.label, t)

/-- The calls for the first `k` stages, in order: each is reported, then run. -/
def calls (stages : List (Stage σ)) (k : Nat) : List (Call σ) :=
  ((announced stages).take k).flatMap fun e => [.report e.1, .stage e.2]

/-- What is reported of the first `k` stages. -/
def reports (stages : List (Stage σ)) (k : Nat) : List Progress :=
  (calls stages k).filterMap Call.report?

section
variable (report : σ → Progress → σ) (stages : List (Stage σ)) (s : σ)

/-- The state once the first `k` stages have been called. -/
def after (k : Nat) : σ := (calls stages k).foldl (Call.apply report) s

/-- What comes of a stage that is called once `k` others have been. -/
def outcome (k : Nat) (t : Stage σ) : Except String Unit :=
  (t.run (report (after report stages s k) (progress k stages.length t.label))).2

/-- The first `k` stages do not fail. -/
def Passes (k : Nat) : Prop :=
  ∀ i t, i < k → stages[i]? = some t → outcome report stages s i t = .ok ()

/-- How many stages are called, and what comes of it. -/
inductive Ends : Nat → Except Issue Unit → Prop where
  | completed : Passes report stages s stages.length → Ends stages.length (.ok ())
  /-- A stage fails, and is the first that does. -/
  | failed {k : Nat} {t : Stage σ} {reason : String} : Passes report stages s k →
      stages[k]? = some t → outcome report stages s k t = .error reason →
      Ends (k + 1) (.error (.stageFailed t.label reason))

end

variable {report : σ → Progress → σ} {stages : List (Stage σ)} {s : σ}

theorem calls_succ {k : Nat} {t : Stage σ} (ht : stages[k]? = some t) :
    calls stages (k + 1) =
      calls stages k ++ [.report (progress k stages.length t.label), .stage t] := by
  simp only [calls, announced, List.take_add_one, List.getElem?_mapIdx, ht, Option.map_some,
    Option.toList_some, List.flatMap_append, List.flatMap_singleton]

theorem after_succ {k : Nat} {t : Stage σ} (ht : stages[k]? = some t) :
    after report stages s (k + 1) =
      (t.run (report (after report stages s k) (progress k stages.length t.label))).1 := by
  rw [after, calls_succ ht, List.foldl_append]
  rfl

/-- A stage that notes itself in a log, beside the state. -/
def noted (t : Stage σ) : Stage (σ × List (Call σ)) where
  label := t.label
  run s := (((t.run s.1).1, s.2 ++ [.stage t]), (t.run s.1).2)

/-- A report that is noted in the same log. -/
def noting (report : σ → Progress → σ) (s : σ × List (Call σ)) (p : Progress) :
    σ × List (Call σ) :=
  (report s.1 p, s.2 ++ [.report p])

theorem Passes.succ {k : Nat} {t : Stage σ} (hk : Passes report stages s k)
    (ht : stages[k]? = some t) (hok : outcome report stages s k t = .ok ()) :
    Passes report stages s (k + 1) := by
  intro i u hi hu
  obtain hlt | rfl := Nat.lt_succ_iff_lt_or_eq.1 hi
  · exact hk i u hlt hu
  · obtain rfl := Option.some.inj (ht.symm.trans hu)
    exact hok

/-- Once some stages have passed, the others are called up to the first that fails. -/
theorem ends_from {k : Nat} {rest : List (Stage σ)} (hrest : stages.drop k = rest)
    (hk : k ≤ stages.length) (hpasses : Passes report stages s k) :
    ∃ j r, Ends report stages s j r ∧
      runFrom report k stages.length (after report stages s k) rest =
        (after report stages s j, r) ∧
      runFrom (noting report) k stages.length (after report stages s k, calls stages k)
          (rest.map noted) =
        ((after report stages s j, calls stages j), r) := by
  induction rest generalizing k with
  | nil =>
    obtain rfl : k = stages.length := Nat.le_antisymm hk (List.drop_eq_nil_iff.1 hrest)
    exact ⟨_, _, .completed hpasses, rfl, rfl⟩
  | cons t rest ih =>
    have ht : stages[k]? = some t := by rw [← List.head?_drop, hrest]; rfl
    have hrest' : stages.drop (k + 1) = rest := by rw [← List.tail_drop, hrest]; rfl
    have hafter : after report stages s (k + 1) =
        (t.run (report (after report stages s k) (progress k stages.length t.label))).1 :=
      after_succ ht
    have hcalls := calls_succ ht
    have hrun : t.run (report (after report stages s k) (progress k stages.length t.label)) =
        (after report stages s (k + 1), outcome report stages s k t) := Prod.ext hafter.symm rfl
    have hnoted : (noted t).run (noting report (after report stages s k, calls stages k)
        (progress k stages.length t.label)) =
          ((after report stages s (k + 1), calls stages (k + 1)), outcome report stages s k t) := by
      rw [hafter, hcalls]
      simp [noted, noting, outcome]
    cases hout : outcome report stages s k t with
    | error reason =>
      rw [hout] at hrun hnoted
      exact ⟨k + 1, _, .failed hpasses ht hout, runFrom_error hrun, runFrom_error hnoted⟩
    | ok u =>
      rw [hout] at hrun hnoted
      have hlt : k < stages.length := (List.getElem?_eq_some_iff.1 ht).1
      obtain ⟨j, r, hends, hrest, hlog⟩ := ih hrest' hlt (hpasses.succ ht hout)
      refine ⟨j, r, hends, ?_, ?_⟩
      · rw [runFrom_ok hrun, hrest]
      · rw [List.map_cons, runFrom_ok hnoted, hlog]

theorem reports_eq (stages : List (Stage σ)) (k : Nat) :
    reports stages k = ((announced stages).take k).map Prod.fst := by
  rw [reports, calls, List.filterMap_flatMap, List.map_eq_flatMap]
  rfl

/-- A report announces the stage in its place. -/
theorem exists_stage_of_report {k i : Nat} {p : Progress} (hp : (reports stages k)[i]? = some p) :
    ∃ t, stages[i]? = some t ∧ p = progress i stages.length t.label := by
  rw [reports_eq, List.getElem?_map, List.getElem?_take] at hp
  split at hp
  · rw [announced, List.getElem?_mapIdx, Option.map_map] at hp
    obtain ⟨t, ht, hp⟩ := Option.map_eq_some_iff.1 hp
    exact ⟨t, ht, hp.symm⟩
  · cases hp

/-- How far a pipeline has come, as it is reported. -/
structure Paced (stages : List (Stage σ)) (ps : List Progress) : Prop where
  /-- Every stage is reported in its turn, by its own label. -/
  numbered : ∀ (i : Nat) (p : Progress), ps[i]? = some p →
    p.index = i ∧ p.total = stages.length ∧ stages[i]?.map Stage.label = some p.label
  percent_eq : ∀ p ∈ ps, p.percent.toNat =
    if stages.length = 1 then 100 else ⌈(100 * p.index / (stages.length - 1) : ℚ)⌉₊
  ascending : ps.Pairwise fun p q => p.percent ≤ q.percent
  bounded : ∀ p ∈ ps, p.percent ≤ 100
  first : 2 ≤ stages.length → ∀ p ∈ ps.head?, p.percent = 0
  last : ∀ p ∈ ps, p.index + 1 = stages.length → p.percent = 100

/-- Whatever pipeline it is, what is reported of its first stages counts them and climbs to 100. -/
theorem paced_reports (stages : List (Stage σ)) (hsize : 100 * stages.length < UInt64.size)
    (k : Nat) : Paced stages (reports stages k) := by
  have hmem : ∀ p ∈ reports stages k, ∃ i, i < stages.length ∧ p.index = i ∧
      p.percent = percent (.ofNat i) (.ofNat stages.length) := by
    intro p hp
    obtain ⟨i, hi⟩ := List.mem_iff_getElem?.1 hp
    obtain ⟨t, ht, rfl⟩ := exists_stage_of_report hi
    exact ⟨i, (List.getElem?_eq_some_iff.1 ht).1, rfl, rfl⟩
  constructor
  case numbered =>
    intro i p hp
    obtain ⟨t, ht, rfl⟩ := exists_stage_of_report hp
    exact ⟨rfl, rfl, by rw [ht]; rfl⟩
  case percent_eq =>
    intro p hp
    obtain ⟨i, hi, hindex, hpercent⟩ := hmem p hp
    split
    · rename_i hone
      rw [hpercent, hone]
      exact congrArg UInt8.toNat (percent_single _)
    · rw [hpercent, hindex, percent_eq_ceil (by omega) hi hsize]
  case ascending =>
    rw [List.pairwise_iff_getElem]
    intro i j hi hj hij
    obtain ⟨t, ht, hp⟩ := exists_stage_of_report (List.getElem?_eq_getElem hi)
    obtain ⟨u, hu, hq⟩ := exists_stage_of_report (List.getElem?_eq_getElem hj)
    have hlt := (List.getElem?_eq_some_iff.1 hu).1
    rw [hp, hq]
    exact percent_le_percent (Nat.le_of_lt hij) hlt (by omega) hsize
  case bounded =>
    intro p hp
    obtain ⟨i, hi, -, hpercent⟩ := hmem p hp
    exact hpercent ▸ percent_le_hundred hi hsize
  case first =>
    intro hmany p hp
    have hzero : (reports stages k)[0]? = some p := by rw [← List.head?_eq_getElem?]; exact hp
    obtain ⟨t, -, rfl⟩ := exists_stage_of_report hzero
    exact percent_first hmany hsize
  case last =>
    intro p hp hlast
    obtain ⟨i, -, hindex, hpercent⟩ := hmem p hp
    exact hpercent ▸ percent_last (hindex ▸ hlast) hsize

/-- How a pipeline runs. -/
structure Runs (report : σ → Progress → σ) (stages : List (Stage σ)) (s : σ) : Prop where
  /-- The first stages are called, to the end or to the first that fails, and nothing else; a log of
  the calls shows them in order. The state is what they leave of it, one after another. -/
  ended : ∃ k r, Ends report stages s k r ∧
    run report stages s = (after report stages s k, r) ∧
    run (noting report) (stages.map noted) (s, []) = ((after report stages s k, calls stages k), r)
  /-- It succeeds if and only if no stage fails. -/
  ok_iff : (run report stages s).2 = .ok () ↔ Passes report stages s stages.length
  paced : 100 * stages.length < UInt64.size → ∀ k, Paced stages (reports stages k)

end Pipeline

/-- A pipeline runs its stages in order, each once it is reported, and stops at the first that fails,
whose label and reason it gives. Its reports count the stages, and rise from 0 to 100. -/
theorem pipeline_runs {σ : Type} (report : σ → Progress → σ) (stages : List (Stage σ)) (s : σ) :
    Pipeline.Runs report stages s := by
  have hnone : Pipeline.Passes report stages s 0 := by
    intro i t hi
    cases hi
  obtain ⟨k, r, hends, hrun, hlog⟩ := Pipeline.ends_from rfl (Nat.zero_le _) hnone
  have hrun' : Pipeline.run report stages s = (Pipeline.after report stages s k, r) := hrun
  constructor
  case ended =>
    refine ⟨k, r, hends, hrun', ?_⟩
    rw [Pipeline.run, List.length_map]
    exact hlog
  case ok_iff =>
    rw [hrun']
    constructor
    · rintro rfl
      cases hends with
      | completed hpasses => exact hpasses
    · intro hpasses
      cases hends with
      | completed => rfl
      | failed _ ht hout =>
        have hok := hpasses _ _ (List.getElem?_eq_some_iff.1 ht).1 ht
        rw [hout] at hok
        cases hok
  case paced => exact Pipeline.paced_reports stages

/-- A startup is announced in four stages. -/
example : (Pipeline.reports (Panel.stages : List (Stage (Panel Empty))) 4).map Progress.percent =
    [0, 34, 67, 100] := by
  decide

end LivePanel
