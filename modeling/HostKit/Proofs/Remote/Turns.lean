import HostKit.Proofs.Remote.Streams

/-!
# Reading in turn

What the reads of a stream come to depends on the stream and on their number alone. So the rounds of
a collection can be told from its channel before any of them is run: before a round each stream has
been read as often as there were rounds, and a round goes on, completes the collection or fails by
what its own two reads come to. Without a deadline some round does not go on, and it is the first
such round that ends the collection.
-/

namespace HostKit.Collect

open Relation (ReflTransGen)

/-- What the `n`-th read of a stream comes to, counted from zero, if none of those before it
fails. -/
def nthRead (steps : List ReadStep) (n : Nat) : Except IoError Bytes :=
  (readAvailable (remaining steps n)).map Prod.fst

/-- What the first `n` reads of a stream bring, one after the other. -/
def taken (steps : List ReadStep) (n : Nat) : Bytes :=
  (List.range n).flatMap fun k =>
    match nthRead steps k with
    | .ok bytes => bytes
    | .error _ => []

/-- Both reads of a round succeed, and another round follows: one of them brings data, or the far
end had not said that all has been sent. -/
def GoesOn (channel : Channel) (n : Nat) : Prop :=
  ∃ out err, nthRead channel.stdout n = .ok out ∧ nthRead channel.stderr n = .ok err ∧
    (out ≠ [] ∨ err ≠ [] ∨ n < channel.pendingEof)

/-- The far end had said before a round that all has been sent, and both reads of the round bring
nothing. -/
def Completes (channel : Channel) (n : Nat) : Prop :=
  channel.pendingEof ≤ n ∧ nthRead channel.stdout n = .ok [] ∧ nthRead channel.stderr n = .ok []

/-- A read of a round fails. The second stream is read only if reading the first one succeeds. -/
def FailsWith (channel : Channel) (n : Nat) (e : IoError) : Prop :=
  nthRead channel.stdout n = .error e ∨
    (∃ out, nthRead channel.stdout n = .ok out) ∧ nthRead channel.stderr n = .error e

/-- Where a collection without a deadline stands before a round: each stream has been read once in
every round before it. -/
def stageAt (channel : Channel) (readings n : Nat) : Stage Script where
  readings := readings
  progress := ⟨⟨remaining channel.stdout n, remaining channel.stderr n, channel.pendingEof - n⟩,
    taken channel.stdout n, taken channel.stderr n⟩

variable {steps rest : List ReadStep} {bytes : Bytes} {e : IoError} {n : Nat}

/-! ## The reads of a stream -/

/-- One more read is made from what the reads before it have left. -/
theorem remaining_succ (steps : List ReadStep) (n : Nat) :
    remaining steps (n + 1) = remaining (remaining steps n) 1 := by
  induction n generalizing steps with
  | zero => rfl
  | succ n ih =>
    cases hread : readAvailable steps with
    | ok result =>
      have hnext (n : Nat) : remaining steps (n + 1) = remaining result.2 n := by
        rw [remaining, hread]
      rw [hnext, hnext, ih]
    | error e =>
      have hstays (n : Nat) : remaining steps n = steps := by
        cases n with
        | zero => rfl
        | succ n => rw [remaining, hread]
      simp only [hstays]

/-- A read that succeeds takes its bytes and leaves the rest for the next one. -/
theorem of_nthRead_ok (h : nthRead steps n = .ok bytes) :
    readAvailable (remaining steps n) = .ok (bytes, remaining steps (n + 1)) ∧
      taken steps (n + 1) = taken steps n ++ bytes := by
  obtain ⟨⟨_, rest⟩, hread, rfl⟩ := Success.of_map h
  constructor
  · rw [remaining_succ, remaining, hread]
    rfl
  · rw [taken, List.range_succ, List.flatMap_append, List.flatMap_singleton, h]
    rfl

/-- A read that fails does so with an error of the stream that is more than a pause. -/
theorem of_nthRead_error (h : nthRead steps n = .error e) :
    readAvailable (remaining steps n) = .error e ∧ e.kind ≠ .wouldBlock := by
  have hread : readAvailable (remaining steps n) = .error e := Success.map_eq_error_iff.mp h
  refine ⟨hread, fun hkind => ?_⟩
  have havailable : available (read (remaining steps n)).1 = .error e :=
    Success.map_eq_error_iff.mp hread
  unfold available at havailable
  split at havailable
  · cases havailable
  · split at havailable
    · cases havailable
    · next hother =>
      cases havailable
      exact hother hkind

variable {channel : Channel} {clock : Nat → Nat} {readings : Nat} {out err : Bytes}

/-- A round fails with one error. -/
theorem FailsWith.unique {e' : IoError} (h : FailsWith channel n e) (h' : FailsWith channel n e') :
    e' = e := by
  rcases h with hout | ⟨⟨out, hout⟩, herr⟩
  · rcases h' with hout' | ⟨⟨out', hout'⟩, -⟩
    · exact Except.error.inj (hout'.symm.trans hout)
    · cases hout.symm.trans hout'
  · rcases h' with hout' | ⟨-, herr'⟩
    · cases hout.symm.trans hout'
    · exact Except.error.inj (herr'.symm.trans herr)

/-- A round with two reads that succeed takes what they bring. -/
theorem round_stageAt (readings : Nat) (hout : nthRead channel.stdout n = .ok out)
    (herr : nthRead channel.stderr n = .ok err) :
    round Script.source (stageAt channel readings n).progress =
      .ok ⟨decide (channel.pendingEof - n = 0), out ≠ [] || err ≠ [],
        (stageAt channel readings (n + 1)).progress⟩ := by
  obtain ⟨hreadOut, htakenOut⟩ := of_nthRead_ok hout
  obtain ⟨hreadErr, htakenErr⟩ := of_nthRead_ok herr
  have hround := round_of_reads (p := (stageAt channel readings n).progress) hreadOut hreadErr
  rw [hround]
  simp only [stageAt, htakenOut, htakenErr, Nat.sub_sub]
  rfl

theorem GoesOn.turn (h : GoesOn channel n) :
    Collect.turn Script.source clock none (stageAt channel readings n) =
      .goesOn (stageAt channel readings (n + 1)) := by
  obtain ⟨out, err, hout, herr, hmore⟩ := h
  have hround := round_stageAt readings hout herr
  by_cases hdata : out ≠ [] ∨ err ≠ []
  · exact turn_of_gotData hround (by simpa using hdata)
  · obtain ⟨hnoOut, hnoErr⟩ := not_or.mp hdata
    have hpending : n < channel.pendingEof := (hmore.resolve_left hnoOut).resolve_left hnoErr
    have hundone : ¬channel.pendingEof - n = 0 := by omega
    exact turn_of_patient hround (by simpa using hdata) (decide_eq_false hundone)

theorem Completes.turn (h : Completes channel n) :
    Collect.turn Script.source clock none (stageAt channel readings n) =
      .ends (.ok (taken channel.stdout n, taken channel.stderr n)) readings := by
  obtain ⟨hpending, hout, herr⟩ := h
  have hdone : channel.pendingEof - n = 0 := by omega
  rw [turn_of_done (round_stageAt readings hout herr) (by simp) (decide_eq_true hdone)]
  simp only [stageAt, (of_nthRead_ok hout).2, (of_nthRead_ok herr).2, List.append_nil]

theorem FailsWith.turn (h : FailsWith channel n e) :
    Collect.turn Script.source clock none (stageAt channel readings n) =
      .ends (.error e) readings := by
  apply turn_of_error
  rcases h with hout | ⟨⟨out, hout⟩, herr⟩
  · exact round_of_stdout_error (of_nthRead_error hout).1
  · exact round_of_stderr_error (of_nthRead_ok hout).1 (of_nthRead_error herr).1

/-- From each round on there is one that does not go on, before the channel is exhausted. -/
theorem exists_last (channel : Channel) (readings n : Nat) :
    ∃ last, n ≤ last ∧ last ≤ n + (stageAt channel readings n).progress.state.measure ∧
      (∀ k, n ≤ k → k < last → GoesOn channel k) ∧ ¬GoesOn channel last := by
  -- The induction is on what is still before the collection, which each round makes less.
  induction hmeasure : (stageAt channel readings n).progress.state.measure using Nat.strongRecOn
    generalizing n with
  | ind m ih =>
    subst hmeasure
    by_cases hmore : GoesOn channel n
    · have hturn : Collect.turn Script.source (fun _ => 0) none (stageAt channel readings n) =
          .goesOn (stageAt channel readings (n + 1)) := hmore.turn
      have hless : (stageAt channel readings (n + 1)).progress.state.measure <
          (stageAt channel readings n).progress.state.measure := measure_lt_of_goesOn hturn
      obtain ⟨last, hle, hbound, hbefore, hlast⟩ := ih _ hless (n + 1) rfl
      refine ⟨last, by omega, by omega, fun k hk hk' => ?_, hlast⟩
      rcases Nat.eq_or_lt_of_le hk with rfl | hk
      · exact hmore
      · exact hbefore k hk hk'
    · exact ⟨n, Nat.le_refl n, by omega, fun k hk hk' => by omega, hmore⟩

end HostKit.Collect

namespace HostKit.Connection

open HostKit.Action Collect

end HostKit.Connection
