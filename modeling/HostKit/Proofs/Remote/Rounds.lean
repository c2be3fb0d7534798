import HostKit.Proofs.Machine.Running
import HostKit.Remote.Connection
import Mathlib.Logic.Relation

/-!
# The rounds of a collection

A collection is a row of rounds. A round either ends it or leads to the next one, and what it
comes to depends on what the two reads bring, on whether the far end was done before them, and,
only if they bring nothing and it was not, on the deadline. So a deadline that has passed does not
end a collection as long as data keeps coming: it ends with the first round without data, and
if there is none it never ends.
-/

namespace HostKit.Collect

open Relation (ReflTransGen)

variable {σ : Type}

/-- The next round brings data. -/
def BringsData (source : Source σ) (p : Progress σ) : Prop :=
  ∃ r, round source p = .ok r ∧ r.gotData = true

/-- How a collection ends whose time is over when a round brings no data: with the error of a read,
with what has been collected if the far end is done, or because of the time. -/
def overdueEnd (source : Source σ) (p : Progress σ) : Except IoError (Bytes × Bytes) :=
  match round source p with
  | .error e => .error e
  | .ok r => if r.done then .ok (r.after.out, r.after.err) else .error timedOut

variable {source : Source σ} {clock : Nat → Nat} {deadline : Option Nat}
variable {stage next : Stage σ} {r : Round σ}
variable {outcome : Except IoError (Bytes × Bytes)} {readings limit : Nat}

/-! ## A collection by its rounds -/

/-- A failed read ends the collection. -/
theorem turn_of_error {e : IoError} (h : round source stage.progress = .error e) :
    turn source clock deadline stage = .ends (.error e) stage.readings := by
  rw [turn, h]

/-- After a round with data comes another one, whatever the deadline. -/
theorem turn_of_gotData (h : round source stage.progress = .ok r) (hdata : r.gotData = true) :
    turn source clock deadline stage = .goesOn ⟨stage.readings, r.after⟩ := by
  rw [turn, h]
  simp [hdata]

/-- A round without data is the last one if the far end was done before it. -/
theorem turn_of_done (h : round source stage.progress = .ok r) (hdata : r.gotData = false)
    (hdone : r.done = true) :
    turn source clock deadline stage =
      .ends (.ok (r.after.out, r.after.err)) stage.readings := by
  rw [turn, h]
  simp [hdata, hdone]

/-- A round without data is the last one if the time is over, and leads to another one if not. -/
theorem turn_of_idle (h : round source stage.progress = .ok r) (hdata : r.gotData = false)
    (hdone : r.done = false) :
    turn source clock (some limit) stage =
      if limit ≤ clock stage.readings then .ends (.error timedOut) (stage.readings + 1)
      else .goesOn ⟨stage.readings + 1, r.after⟩ := by
  rw [turn, h]
  simp [hdata, hdone]

/-- Without a deadline a round without data leads to another one. -/
theorem turn_of_patient (h : round source stage.progress = .ok r) (hdata : r.gotData = false)
    (hdone : r.done = false) :
    turn source clock none stage = .goesOn ⟨stage.readings, r.after⟩ := by
  rw [turn, h]
  simp [hdata, hdone]

/-- The collection from a channel ends where its round does. -/
theorem collect_of_ends {stage : Stage Script}
    (h : turn Script.source clock deadline stage = .ends outcome readings) :
    collect clock deadline stage = (outcome, readings) := by
  rw [collect]
  split
  · next hends =>
    rw [h] at hends
    cases hends
    rfl
  · next hgoesOn =>
    rw [h] at hgoesOn
    cases hgoesOn

/-- The collection from a channel goes on where its round leads to. -/
theorem collect_of_goesOn {stage next : Stage Script}
    (h : turn Script.source clock deadline stage = .goesOn next) :
    collect clock deadline stage = collect clock deadline next := by
  rw [collect]
  split
  · next hends =>
    rw [h] at hends
    cases hends
  · next hgoesOn =>
    rw [h] at hgoesOn
    cases hgoesOn
    rfl

/-! ## Rounds after the deadline -/

/-- A round leads to another one. -/
def Leads (source : Source σ) (clock : Nat → Nat) (deadline : Option Nat)
    (stage next : Stage σ) : Prop :=
  turn source clock deadline stage = .goesOn next

/-- A round brings data and leads to another one. -/
def Flows (source : Source σ) (clock : Nat → Nat) (deadline : Option Nat)
    (stage next : Stage σ) : Prop :=
  Leads source clock deadline stage next ∧ BringsData source stage.progress

/-- Rounds that bring data lead to one that brings none, and this one ends the collection. -/
structure FlowsToEnd (source : Source σ) (clock : Nat → Nat) (limit : Nat)
    (stage last : Stage σ) : Prop where
  flows : ReflTransGen (Flows source clock (some limit)) stage last
  silent : ¬BringsData source last.progress
  ends : ∃ readings, turn source clock (some limit) last =
    .ends (overdueEnd source last.progress) readings

/-- Each round brings data and leads to another one. -/
def FlowsForever (source : Source σ) (clock : Nat → Nat) (limit : Nat) (stage : Stage σ) : Prop :=
  ∃ stages : Nat → Stage σ, stages 0 = stage ∧
    ∀ n, Flows source clock (some limit) (stages n) (stages (n + 1))

/-- From each stage that a collection from a channel reaches it goes on to the same end. -/
theorem collect_of_reaches {stage last : Stage Script}
    (h : ReflTransGen (Leads Script.source clock deadline) stage last) :
    collect clock deadline stage = collect clock deadline last := by
  induction h with
  | refl => rfl
  | tail _ hleads ih => exact ih.trans (collect_of_goesOn hleads)

/-- A round with data leads to another one, before which the clock has not been read again. -/
theorem flows_iff : Flows source clock deadline stage next ↔
    ∃ r, round source stage.progress = .ok r ∧ r.gotData = true ∧
      next = ⟨stage.readings, r.after⟩ := by
  constructor
  · rintro ⟨hleads, r, hr, hdata⟩
    exact ⟨r, hr, hdata, Turn.goesOn.inj (hleads.symm.trans (turn_of_gotData hr hdata))⟩
  · rintro ⟨r, hr, hdata, rfl⟩
    exact ⟨turn_of_gotData hr hdata, r, hr, hdata⟩

/-- While data comes the clock is not read. -/
theorem readings_eq_of_flows {last : Stage σ}
    (h : ReflTransGen (Flows source clock deadline) stage last) :
    last.readings = stage.readings := by
  induction h with
  | refl => rfl
  | tail _ hflow ih =>
    obtain ⟨r, -, -, rfl⟩ := flows_iff.mp hflow
    exact ih

/-- A round without data ends the collection once the time is over. -/
theorem exists_turn_of_silent (hpast : limit ≤ clock stage.readings)
    (hsilent : ¬BringsData source stage.progress) :
    ∃ readings, turn source clock (some limit) stage =
      .ends (overdueEnd source stage.progress) readings := by
  unfold overdueEnd
  cases hr : round source stage.progress with
  | error e => exact ⟨stage.readings, turn_of_error hr⟩
  | ok r =>
    have hdata : r.gotData = false := Bool.eq_false_iff.mpr fun hdata => hsilent ⟨r, hr, hdata⟩
    cases hdone : r.done with
    | true => exact ⟨stage.readings, by simpa [hdone] using turn_of_done hr hdata hdone⟩
    | false => exact ⟨stage.readings + 1, by simp [turn_of_idle hr hdata hdone, hdone, hpast]⟩

/-- Once the time is over a round is the last one exactly if it brings no data. -/
theorem ends_iff_of_overdue (hpast : limit ≤ clock stage.readings) :
    (∃ outcome readings, turn source clock (some limit) stage = .ends outcome readings) ↔
      ¬BringsData source stage.progress := by
  constructor
  · rintro ⟨outcome, readings, hends⟩ ⟨r, hr, hdata⟩
    cases hends.symm.trans (turn_of_gotData hr hdata)
  · intro hsilent
    obtain ⟨readings, hends⟩ := exists_turn_of_silent hpast hsilent
    exact ⟨_, readings, hends⟩

/-- The stage that a round leads to if it brings data. -/
def follow (source : Source σ) (stage : Stage σ) : Stage σ :=
  match round source stage.progress with
  | .ok r => ⟨stage.readings, r.after⟩
  | .error _ => stage

/-- The stage after so many rounds that bring data. -/
def stageAfter (source : Source σ) (stage : Stage σ) : Nat → Stage σ
  | 0 => stage
  | n + 1 => follow source (stageAfter source stage n)

/-- If all rounds that data leads to bring data, data comes forever. -/
theorem flowsForever_of_forall
    (h : ∀ last, ReflTransGen (Flows source clock (some limit)) stage last →
      BringsData source last.progress) : FlowsForever source clock limit stage := by
  have hflow (n : Nat)
      (hreach : ReflTransGen (Flows source clock (some limit)) stage (stageAfter source stage n)) :
      Flows source clock (some limit) (stageAfter source stage n)
        (stageAfter source stage (n + 1)) := by
    obtain ⟨r, hr, hdata⟩ := h _ hreach
    exact flows_iff.mpr ⟨r, hr, hdata, by rw [stageAfter, follow, hr]⟩
  have hreach (n : Nat) :
      ReflTransGen (Flows source clock (some limit)) stage (stageAfter source stage n) := by
    induction n with
    | zero => exact .refl
    | succ n ih => exact ih.tail (hflow n ih)
  exact ⟨stageAfter source stage, rfl, fun n => hflow n (hreach n)⟩

/-- Once the time is over a collection still goes through all rounds that bring data one after the
other, and ends with the first one that does not, if there is one. -/
theorem flowsToEnd_or_forever (hpast : limit ≤ clock stage.readings) :
    (∃ last, FlowsToEnd source clock limit stage last) ∨
      FlowsForever source clock limit stage := by
  by_cases hsilent : ∃ last, ReflTransGen (Flows source clock (some limit)) stage last ∧
      ¬BringsData source last.progress
  · obtain ⟨last, hflows, hlast⟩ := hsilent
    rw [← readings_eq_of_flows hflows] at hpast
    exact .inl ⟨last, hflows, hlast, exists_turn_of_silent hpast hlast⟩
  · refine .inr (flowsForever_of_forall fun last hreach => ?_)
    exact Classical.byContradiction fun hnot => hsilent ⟨last, hreach, hnot⟩

/-- The collection from a channel ends as the round does to which data leads. -/
theorem FlowsToEnd.collect_eq {stage last : Stage Script}
    (h : FlowsToEnd Script.source clock limit stage last) :
    (collect clock (some limit) stage).1 = overdueEnd Script.source last.progress := by
  obtain ⟨readings, hends⟩ := h.ends
  have hreach : ReflTransGen (Leads Script.source clock (some limit)) stage last :=
    ReflTransGen.mono (fun _ _ => And.left) _ _ h.flows
  rw [collect_of_reaches hreach, collect_of_ends hends]

/-- A channel has no data that comes forever. -/
theorem not_flowsForever {stage : Stage Script} :
    ¬FlowsForever Script.source clock limit stage := by
  rintro ⟨stages, -, hflows⟩
  have hless (n : Nat) : (stages (n + 1)).progress.state.measure <
      (stages n).progress.state.measure := measure_lt_of_goesOn (hflows n).1
  have hbound (n : Nat) : (stages n).progress.state.measure + n ≤
      (stages 0).progress.state.measure := by
    induction n with
    | zero => exact Nat.le_refl _
    | succ n ih => have := hless n; omega
  have := hbound ((stages 0).progress.state.measure + 1)
  omega

end HostKit.Collect

namespace HostKit.Connection

open Relation (ReflTransGen)
open HostKit.Action Collect

variable {channel : Channel} {machine : Machine}

/-! ## Collecting on a machine -/

/-- Without a timeout the clock is not read. -/
theorem runOn_collectOutput_none (channel : Channel) (machine : Machine) :
    (runOn (collectOutput channel none) machine).1 =
      .ok (collect machine.clock none ⟨machine.readings, .ofChannel channel⟩).1 := rfl

/-- The deadline is told from the next reading of the clock. -/
theorem runOn_deadlineAfter_some (timeout : Duration) (machine : Machine) :
    runOn (deadlineAfter (some timeout)) machine =
      (if maxSeconds < Duration.seconds (machine.clock machine.readings + timeout) then
          .error (.panic "overflow when adding duration to instant")
        else .ok (some (machine.clock machine.readings + timeout)),
        { machine with readings := machine.readings + 1 }) := by
  have hnow : runOn now machine = (.ok (machine.clock machine.readings),
      { machine with readings := machine.readings + 1 }) := rfl
  unfold deadlineAfter
  dsimp only
  rw [runOn_bind_ok hnow]
  split <;> rfl

/-- With a timeout the clock is read once for the deadline. -/
theorem runOn_collectOutput_some {timeout : Duration}
    (h : Duration.seconds (machine.clock machine.readings + timeout) ≤ maxSeconds) :
    (runOn (collectOutput channel (some timeout)) machine).1 =
      .ok (collect machine.clock (some (machine.clock machine.readings + timeout))
        ⟨machine.readings + 1, .ofChannel channel⟩).1 := by
  have hdeadline := runOn_deadlineAfter_some timeout machine
  rw [if_neg (Nat.not_lt.mpr h)] at hdeadline
  unfold collectOutput
  rw [runOn_bind_ok hdeadline]
  rfl

/-- A deadline that cannot be told is a panic. -/
theorem runOn_collectOutput_far {timeout : Duration}
    (h : maxSeconds < Duration.seconds (machine.clock machine.readings + timeout)) :
    (runOn (collectOutput channel (some timeout)) machine).1 =
      .error (.panic "overflow when adding duration to instant") := by
  have hdeadline := runOn_deadlineAfter_some timeout machine
  rw [if_pos h] at hdeadline
  unfold collectOutput
  rw [runOn_bind_error hdeadline]

/-- The collection from a channel ends with the first round without data once the time is over. -/
theorem exists_flowsToEnd {timeout : Duration} {limit : Nat} {stage : Stage Script}
    (hlimit : machine.clock machine.readings + timeout = limit)
    (htellable : Duration.seconds limit ≤ maxSeconds)
    (hreach : ReflTransGen (Leads Script.source machine.clock (some limit))
      ⟨machine.readings + 1, .ofChannel channel⟩ stage)
    (hpast : limit ≤ machine.clock stage.readings) :
    ∃ last, FlowsToEnd Script.source machine.clock limit stage last ∧
      (runOn (collectOutput channel (some timeout)) machine).1 =
        .ok (overdueEnd Script.source last.progress) := by
  subst hlimit
  obtain ⟨last, hlast⟩ := (flowsToEnd_or_forever hpast).resolve_right not_flowsForever
  refine ⟨last, hlast, ?_⟩
  rw [runOn_collectOutput_some htellable, collect_of_reaches hreach, hlast.collect_eq]

/-- A round that begins when the time is over is the last one exactly if it brings no data, whatever
answers the questions of the rounds. As long as data keeps coming the collection goes on: it ends
with the first round without data, or never. From a channel, which cannot say more than it has to
say, the collection ends. -/
theorem overdue_round_last_iff {limit time : Nat} (hpast : limit ≤ time) :
    (∀ {σ : Type} (source : Source σ) (clock : Nat → Nat) (stage : Stage σ),
      time ≤ clock stage.readings →
      ((∃ outcome readings, turn source clock (some limit) stage = .ends outcome readings) ↔
        ¬BringsData source stage.progress) ∧
      ((∃ last, FlowsToEnd source clock limit stage last) ∨
        FlowsForever source clock limit stage)) ∧
    ∀ (channel : Channel) (machine : Machine) (timeout : Duration) (stage : Stage Script),
      machine.clock machine.readings + timeout = limit → Duration.seconds limit ≤ maxSeconds →
      ReflTransGen (Leads Script.source machine.clock (some limit))
        ⟨machine.readings + 1, .ofChannel channel⟩ stage →
      time ≤ machine.clock stage.readings →
      ∃ last, FlowsToEnd Script.source machine.clock limit stage last ∧
        (runOn (collectOutput channel (some timeout)) machine).1 =
          .ok (overdueEnd Script.source last.progress) := by
  constructor
  · intro σ source clock stage hnext
    have hover := Nat.le_trans hpast hnext
    exact ⟨ends_iff_of_overdue hover, flowsToEnd_or_forever hover⟩
  · intro channel machine timeout stage hlimit htellable hreach hnext
    exact exists_flowsToEnd hlimit htellable hreach (Nat.le_trans hpast hnext)

/-- A channel that delivers two pieces of data, one a read. -/
def talkative : Channel := ⟨[.data [120], .data [121]], [], 0, 0, []⟩

/-- What always has one more byte. -/
def ceaseless : Source Unit where
  atEof _ := (false, ())
  readOut _ := (.ok [120], ())
  readErr _ := (.ok [], ())

/-- A command that has no time at all is still heard to its end, if it has one: neither the first
round of the talkative channel is the last one nor its second, and one that never stops is heard
forever. -/
theorem talkative_outlasts :
    (¬∃ outcome readings, turn Script.source (fun _ => 0) (some 0)
      ⟨1, .ofChannel talkative⟩ = .ends outcome readings) ∧
    (runOn (collectOutput talkative (some 0)) (.resting ⟨[], { workingDirectory := [] }⟩)).1 =
      .ok (.ok ([120, 121], [])) ∧
    FlowsForever ceaseless (fun _ => 0) 0 ⟨1, ⟨(), [], []⟩⟩ := by
  obtain ⟨hround, hends⟩ := overdue_round_last_iff (Nat.le_refl 0)
  have hfirst : turn Script.source (fun _ => 0) (some 0) ⟨1, .ofChannel talkative⟩ =
      .goesOn ⟨1, ⟨⟨[.data [121]], [], 0⟩, [120], []⟩⟩ := by rfl
  have hsecond : turn Script.source (fun _ => 0) (some 0)
      ⟨1, ⟨⟨[.data [121]], [], 0⟩, [120], []⟩⟩ = .goesOn ⟨1, ⟨⟨[], [], 0⟩, [120, 121], []⟩⟩ := by
    rfl
  have hthird : turn Script.source (fun _ => 0) (some 0) ⟨1, ⟨⟨[], [], 0⟩, [120, 121], []⟩⟩ =
      .ends (.ok ([120, 121], [])) 1 := by rfl
  refine ⟨fun hlast => ?_, ?_, ?_⟩
  · have hlast := (hround Script.source (fun _ => 0) _ (Nat.le_refl 0)).1.mp hlast
    exact hlast ⟨_, rfl, rfl⟩
  · obtain ⟨last, hlast, hrun⟩ := hends talkative
      (.resting ⟨[], { workingDirectory := [] }⟩) 0 ⟨1, .ofChannel talkative⟩ rfl
      (Nat.zero_le _) .refl (Nat.le_refl 0)
    have hcollect : (collect (fun _ => 0) (some 0) ⟨1, .ofChannel talkative⟩).1 = _ :=
      hlast.collect_eq
    rw [collect_of_goesOn hfirst, collect_of_goesOn hsecond, collect_of_ends hthird] at hcollect
    rw [hrun, ← hcollect]
  · refine (hround ceaseless (fun _ => 0) _ (Nat.le_refl 0)).2.resolve_left ?_
    rintro ⟨last, hlast⟩
    exact hlast.silent ⟨_, rfl, rfl⟩

end HostKit.Connection
