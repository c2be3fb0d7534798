import HostKit.Remote.Peer
import HostKit.Success

/-!
# Collecting the output of a command

The two streams of a channel share one window, so they are read in turn, one read each in a
round; draining one of them first would stall a command that fills the window with the other.
The round that brings no data and began after the far end had said that all has been sent is
the last one. A round that brings no data looks at the deadline; one that brings data goes on
at once.

A round asks for the end and for a read of each stream. The answers may depend in any way on what
was asked before, and there may always be another one. Those of a channel are used up: each round
takes something from it, either a read or an answer that more is to come, so the loop ends.
-/

namespace HostKit.Collect

/-! ## One round -/

/-- What answers the questions of a round: whether all has been sent, and what a read of either
stream comes to. An answer leads to the state in which the next question is asked. -/
structure Source (σ : Type) where
  atEof : σ → Bool × σ
  readOut : σ → Except IoError Bytes × σ
  readErr : σ → Except IoError Bytes × σ

/-- Where the source stands, and what has been collected. -/
structure Progress (σ : Type) where
  state : σ
  out : Bytes
  err : Bytes

/-- What one round comes to. -/
structure Round (σ : Type) where
  /-- The far end had said, before the reads, that all has been sent. -/
  done : Bool
  /-- One of the reads brought data. -/
  gotData : Bool
  after : Progress σ

/-- What a read brings, which is nothing if it would have to wait. -/
def available : Except IoError Bytes → Except IoError Bytes
  | .ok bytes => .ok bytes
  | .error error => if error.kind = .wouldBlock then .ok [] else .error error

variable {σ : Type}

/-- One round: ask for the end, then read each stream once. -/
def round (source : Source σ) (p : Progress σ) : Except IoError (Round σ) := do
  let (done, state) := source.atEof p.state
  let (readOut, state) := source.readOut state
  let out ← available readOut
  let (readErr, state) := source.readErr state
  let err ← available readErr
  .ok ⟨done, out ≠ [] || err ≠ [], ⟨state, p.out ++ out, p.err ++ err⟩⟩

/-! ## The decision after it -/

/-- The error of a command that is not done in time. -/
def timedOut : IoError := ⟨.timedOut, "remote command timed out"⟩

/-- Where a collection stands before a round: how often the clock has been read, and what has been
collected. -/
structure Stage (σ : Type) where
  readings : Nat
  progress : Progress σ

/-- What a round leads to: the end of the collection, with the readings taken by then, or the next
round. -/
inductive Turn (σ : Type) where
  | ends (outcome : Except IoError (Bytes × Bytes)) (readings : Nat)
  | goesOn (next : Stage σ)

/-- One round and the decision after it. The clock is given by its readings; it is read only where
there is a deadline. -/
def turn (source : Source σ) (clock : Nat → Nat) (deadline : Option Nat) (stage : Stage σ) :
    Turn σ :=
  match round source stage.progress with
  | .error e => .ends (.error e) stage.readings
  | .ok r =>
    if r.gotData then .goesOn ⟨stage.readings, r.after⟩
    else if r.done then .ends (.ok (r.after.out, r.after.err)) stage.readings
    else
      match deadline with
      | none => .goesOn ⟨stage.readings, r.after⟩
      | some limit =>
        if limit ≤ clock stage.readings then .ends (.error timedOut) (stage.readings + 1)
        else .goesOn ⟨stage.readings + 1, r.after⟩

/-- A round that another one follows has succeeded, and has brought data or has come before the far
end was done and before the deadline. -/
theorem of_goesOn {source : Source σ} {clock : Nat → Nat} {deadline : Option Nat}
    {stage next : Stage σ} (h : turn source clock deadline stage = .goesOn next) :
    ∃ r, round source stage.progress = .ok r ∧ next.progress = r.after ∧
      stage.readings ≤ next.readings ∧
      (r.gotData = true ∨ r.done = false ∧ ∀ limit ∈ deadline, clock stage.readings < limit) := by
  unfold turn at h
  split at h
  · cases h
  next r hr =>
  refine ⟨r, hr, ?_⟩
  split at h
  · next hdata =>
    cases h
    exact ⟨rfl, Nat.le_refl _, .inl hdata⟩
  split at h
  · cases h
  next hdone =>
  split at h
  · cases h
    exact ⟨rfl, Nat.le_refl _, .inr ⟨by simpa using hdone, by simp⟩⟩
  · split at h
    · cases h
    · next hlimit =>
      cases h
      exact ⟨rfl, Nat.le_succ _, .inr ⟨by simpa using hdone, by simpa using hlimit⟩⟩

/-! ## Channels -/

/-- What is left of the two streams of a channel, and how often the far end will still say that more
is to come. -/
structure Script where
  stdout : List ReadStep
  stderr : List ReadStep
  pendingEof : Nat

/-- The most bytes that one read takes. -/
def bufferSize : Nat := 16384

/-- One read of a stream, and what is left of the stream. Data beyond the buffer stays for the next
read, and a stream at its end has no bytes for any read. -/
def read : List ReadStep → Except IoError Bytes × List ReadStep
  | [] => (.ok [], [])
  | .wouldBlock :: steps => (.error (.ofKind .wouldBlock), steps)
  | .fails error :: steps => (.error error, steps)
  | .data bytes :: steps =>
    if bytes.length ≤ bufferSize then (.ok bytes, steps)
    else (.ok (bytes.take bufferSize), .data (bytes.drop bufferSize) :: steps)

/-- A channel answers by its script. -/
def Script.source : Source Script where
  atEof script := (script.pendingEof = 0, { script with pendingEof := script.pendingEof - 1 })
  readOut script := ((read script.stdout).1, { script with stdout := (read script.stdout).2 })
  readErr script := ((read script.stderr).1, { script with stderr := (read script.stderr).2 })

/-- The start of collecting from a channel. -/
def Progress.ofChannel (channel : Channel) : Progress Script :=
  ⟨⟨channel.stdout, channel.stderr, channel.pendingEof⟩, [], []⟩

/-- The bytes that one read of a stream brings, and what is left of the stream. -/
def readAvailable (steps : List ReadStep) : Except IoError (Bytes × List ReadStep) :=
  (available (read steps).1).map fun bytes => (bytes, (read steps).2)

/-- All that a read can do: find nothing left, take one step of the stream, or fill the buffer with
the front of its data. -/
theorem readAvailable_cases {steps rest : List ReadStep} {bytes : Bytes}
    (h : readAvailable steps = .ok (bytes, rest)) :
    steps = [] ∧ bytes = [] ∧ rest = [] ∨
      (∃ step, steps = step :: rest ∧ bytes = step.bytes ∧ bytes.length ≤ bufferSize) ∨
      ∃ more later, steps = .data (bytes ++ more) :: later ∧ rest = .data more :: later ∧
        bytes.length = bufferSize ∧ more ≠ [] := by
  match steps with
  | [] =>
    cases h
    exact .inl ⟨rfl, rfl, rfl⟩
  | .wouldBlock :: steps =>
    cases h
    exact .inr (.inl ⟨_, rfl, rfl, Nat.zero_le _⟩)
  | .fails e :: steps =>
    by_cases hkind : e.kind = .wouldBlock
    · simp only [readAvailable, read, available, if_pos hkind] at h
      cases h
      exact .inr (.inl ⟨_, rfl, rfl, Nat.zero_le _⟩)
    · simp only [readAvailable, read, available, if_neg hkind] at h
      cases h
  | .data data :: steps =>
    by_cases hfits : data.length ≤ bufferSize
    · simp only [readAvailable, read, if_pos hfits, available] at h
      cases h
      exact .inr (.inl ⟨_, rfl, rfl, hfits⟩)
    · simp only [readAvailable, read, if_neg hfits, available] at h
      cases h
      refine .inr (.inr ⟨data.drop bufferSize, steps, ?_, rfl, ?_, ?_⟩)
      · rw [List.take_append_drop]
      · rw [List.length_take]
        omega
      · exact fun hnil => hfits (List.drop_eq_nil_iff.mp hnil)

variable {p : Progress Script} {out err : Bytes} {stdout stderr : List ReadStep} {e : IoError}

/-- A round of a channel takes what its two reads bring. -/
theorem round_of_reads (hout : readAvailable p.state.stdout = .ok (out, stdout))
    (herr : readAvailable p.state.stderr = .ok (err, stderr)) :
    round Script.source p = .ok ⟨p.state.pendingEof = 0, out ≠ [] || err ≠ [],
      ⟨⟨stdout, stderr, p.state.pendingEof - 1⟩, p.out ++ out, p.err ++ err⟩⟩ := by
  obtain ⟨_, havailableOut, heqOut⟩ := Success.of_map hout
  obtain ⟨_, havailableErr, heqErr⟩ := Success.of_map herr
  obtain ⟨rfl, rfl⟩ := Prod.mk.inj heqOut
  obtain ⟨rfl, rfl⟩ := Prod.mk.inj heqErr
  unfold round
  simp only [Script.source, havailableOut, havailableErr, Success.bind_ok]

/-- A round whose first read fails does not look at the second stream. -/
theorem round_of_stdout_error (h : readAvailable p.state.stdout = .error e) :
    round Script.source p = .error e := by
  have havailable := Success.map_eq_error_iff.mp h
  unfold round
  simp only [Script.source, havailable, Success.bind_error]

/-- A round of a channel fails with its second read. -/
theorem round_of_stderr_error (hout : readAvailable p.state.stdout = .ok (out, stdout))
    (h : readAvailable p.state.stderr = .error e) : round Script.source p = .error e := by
  obtain ⟨_, havailableOut, -⟩ := Success.of_map hout
  have havailableErr := Success.map_eq_error_iff.mp h
  unfold round
  simp only [Script.source, havailableOut, havailableErr, Success.bind_ok, Success.bind_error]

/-- What a round of a channel does: it takes these bytes from the streams with one read each. -/
structure Takes (p : Progress Script) (r : Round Script) (out err : Bytes) : Prop where
  readOut : readAvailable p.state.stdout = .ok (out, r.after.state.stdout)
  readErr : readAvailable p.state.stderr = .ok (err, r.after.state.stderr)
  afterOut : r.after.out = p.out ++ out
  afterErr : r.after.err = p.err ++ err
  pending : r.after.state.pendingEof = p.state.pendingEof - 1
  done : r.done = true ↔ p.state.pendingEof = 0
  silent : r.gotData = false ↔ out = [] ∧ err = []

/-- A round of a channel reads each stream once. -/
theorem exists_takes_of_round {r : Round Script} (h : round Script.source p = .ok r) :
    ∃ out err, Takes p r out err := by
  cases hout : readAvailable p.state.stdout with
  | error e => cases (round_of_stdout_error hout).symm.trans h
  | ok resultOut =>
    cases herr : readAvailable p.state.stderr with
    | error e => cases (round_of_stderr_error hout herr).symm.trans h
    | ok resultErr =>
      obtain rfl := Except.ok.inj ((round_of_reads hout herr).symm.trans h)
      exact ⟨resultOut.1, resultErr.1, hout, herr, rfl, rfl, rfl, decide_eq_true_iff, by simp⟩

/-! ## The whole collection -/

/-- The size of what a stream has left: its reads and its data. -/
def weight : List ReadStep → Nat
  | [] => 0
  | step :: steps => step.bytes.length + 1 + weight steps

/-- A read makes what is left smaller by the data it brings, and never larger. -/
theorem weight_of_readAvailable {steps rest : List ReadStep} {bytes : Bytes}
    (h : readAvailable steps = .ok (bytes, rest)) :
    weight rest + bytes.length ≤ weight steps := by
  rcases readAvailable_cases h with ⟨rfl, rfl, rfl⟩ | ⟨step, rfl, rfl, -⟩ |
    ⟨more, later, rfl, rfl, -⟩
  · simp [weight]
  · simp only [weight]
    omega
  · simp only [weight, ReadStep.bytes, List.length_append]
    omega

/-- How much a channel has still to say. -/
def Script.measure (script : Script) : Nat :=
  weight script.stdout + weight script.stderr + script.pendingEof

/-- A round that another one follows leaves less to be said. -/
theorem measure_lt_of_goesOn {clock : Nat → Nat} {deadline : Option Nat} {stage next : Stage Script}
    (h : turn Script.source clock deadline stage = .goesOn next) :
    next.progress.state.measure < stage.progress.state.measure := by
  obtain ⟨r, hr, hnext, -, hmore⟩ := of_goesOn h
  obtain ⟨out, err, htakes⟩ := exists_takes_of_round hr
  have hout := weight_of_readAvailable htakes.readOut
  have herr := weight_of_readAvailable htakes.readErr
  have hpending := htakes.pending
  rw [hnext]
  unfold Script.measure
  rcases hmore with hdata | ⟨hdone, -⟩
  · have hbrought : ¬(out = [] ∧ err = []) := by
      rw [← htakes.silent, hdata]
      simp
    by_cases hnil : out = []
    · have := List.length_pos_iff.mpr fun h => hbrought ⟨hnil, h⟩
      omega
    · have := List.length_pos_iff.mpr hnil
      omega
  · have hpositive : stage.progress.state.pendingEof ≠ 0 := by
      rw [ne_eq, ← htakes.done, hdone]
      simp
    omega

/-- What has been collected when the channel is done, and how often the clock was read. -/
def collect (clock : Nat → Nat) (deadline : Option Nat) (stage : Stage Script) :
    Except IoError (Bytes × Bytes) × Nat :=
  match h : turn Script.source clock deadline stage with
  | .ends outcome readings => (outcome, readings)
  | .goesOn next =>
    have := measure_lt_of_goesOn h
    collect clock deadline next
  termination_by stage.progress.state.measure

end HostKit.Collect
