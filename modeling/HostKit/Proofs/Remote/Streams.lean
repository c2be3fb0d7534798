import HostKit.Proofs.Remote.Rounds

/-!
# What streams deliver

A read takes its bytes from the front of what a stream has left, so the bytes that the reads of a
stream bring are its contents, however they were cut. A collection ends with a round that brings
nothing, and what comes later is lost. Nothing is lost if, from the first round on before which the
far end is done, no stream has a pause before its last data; the rounds before that one may bring
data and pauses in any order.
-/

namespace HostKit.Collect

/-- All data of a stream. -/
def contents (steps : List ReadStep) : Bytes := steps.flatMap ReadStep.bytes

/-- No read fails, unless because it would block. -/
def Faultless (steps : List ReadStep) : Prop := ∀ e, .fails e ∈ steps → e.kind = .wouldBlock

/-- After a read that brings nothing comes no data. -/
def Prompt (steps : List ReadStep) : Prop :=
  steps.Pairwise fun earlier later => earlier.bytes = [] → later.bytes = []

/-- What a stream has left after so many reads, as long as none of them fails. -/
def remaining (steps : List ReadStep) : Nat → List ReadStep
  | 0 => steps
  | n + 1 =>
    match readAvailable steps with
    | .ok (_, rest) => remaining rest n
    | .error _ => steps

variable {steps rest : List ReadStep} {bytes : Bytes}

/-! ## Reads -/

/-- A stream without faults can be read. -/
theorem Faultless.exists_read (h : Faultless steps) :
    ∃ bytes rest, readAvailable steps = .ok (bytes, rest) := by
  match steps with
  | [] | .wouldBlock :: _ => exact ⟨_, _, rfl⟩
  | .fails e :: later =>
    rw [readAvailable, read, available, if_pos (h e List.mem_cons_self)]
    exact ⟨_, _, rfl⟩
  | .data data :: later =>
    simp only [readAvailable, read]
    split
    · exact ⟨_, _, rfl⟩
    · exact ⟨_, _, rfl⟩

/-- A read takes its bytes from the front of the contents. -/
theorem contents_of_read (h : readAvailable steps = .ok (bytes, rest)) :
    contents steps = bytes ++ contents rest := by
  rcases readAvailable_cases h with ⟨rfl, rfl, rfl⟩ | ⟨step, rfl, rfl, -⟩ |
    ⟨more, later, rfl, rfl, -⟩
  · rfl
  · rfl
  · simp [contents, ReadStep.bytes]

/-- A read leaves no faults that were not there. -/
theorem Faultless.of_read (h : Faultless steps)
    (hread : readAvailable steps = .ok (bytes, rest)) : Faultless rest := by
  rcases readAvailable_cases hread with ⟨rfl, rfl, rfl⟩ | ⟨step, rfl, rfl, -⟩ |
    ⟨more, later, rfl, rfl, -⟩
  · exact h
  · exact fun e he => h e (List.mem_cons_of_mem _ he)
  · intro e he
    rcases List.mem_cons.mp he with heq | he
    · cases heq
    · exact h e (List.mem_cons_of_mem _ he)

/-- A read leaves no pause that was not there. -/
theorem Prompt.of_read (h : Prompt steps) (hread : readAvailable steps = .ok (bytes, rest)) :
    Prompt rest := by
  rcases readAvailable_cases hread with ⟨rfl, rfl, rfl⟩ | ⟨step, rfl, rfl, -⟩ |
    ⟨more, later, rfl, rfl, -, hmore⟩
  · exact h
  · exact (List.pairwise_cons.mp h).2
  · exact List.pairwise_cons.mpr
      ⟨fun _ _ hnil => absurd hnil hmore, (List.pairwise_cons.mp h).2⟩

/-- Where no data comes after a pause, a read that brings nothing is one after all data. -/
theorem Prompt.contents_eq_nil (h : Prompt steps)
    (hread : readAvailable steps = .ok ([], rest)) : contents rest = [] := by
  rcases readAvailable_cases hread with ⟨rfl, -, rfl⟩ | ⟨step, rfl, hstep, -⟩ |
    ⟨more, later, rfl, rfl, hlength, -⟩
  · rfl
  · have hsilent := (List.pairwise_cons.mp h).1
    exact List.flatMap_eq_nil_iff.mpr fun later hlater => hsilent later hlater hstep.symm
  · cases hlength

/-! ## Collections -/

/-- What a collection brings if nothing is lost: what has been collected, and what the streams have
left. -/
def Progress.delivery (p : Progress Script) : Bytes × Bytes :=
  (p.out ++ contents p.state.stdout, p.err ++ contents p.state.stderr)

/-- Both streams are read without faults, and have no pause before their last data once the far end
is done. -/
structure Steady (p : Progress Script) : Prop where
  faultlessOut : Faultless p.state.stdout
  faultlessErr : Faultless p.state.stderr
  promptOut : Prompt (remaining p.state.stdout p.state.pendingEof)
  promptErr : Prompt (remaining p.state.stderr p.state.pendingEof)

variable {p : Progress Script} {r : Round Script}

/-- A round keeps the delivery: what it takes from the streams it collects. -/
theorem delivery_of_round (h : round Script.source p = .ok r) : r.after.delivery = p.delivery := by
  obtain ⟨out, err, htakes⟩ := exists_takes_of_round h
  unfold Progress.delivery
  rw [contents_of_read htakes.readOut, contents_of_read htakes.readErr, htakes.afterOut,
    htakes.afterErr, List.append_assoc, List.append_assoc]

/-- Streams without faults can be read for another round. -/
theorem Steady.exists_round (h : Steady p) : ∃ r, round Script.source p = .ok r := by
  obtain ⟨out, stdout, hreadOut⟩ := h.faultlessOut.exists_read
  obtain ⟨err, stderr, hreadErr⟩ := h.faultlessErr.exists_read
  exact ⟨_, round_of_reads hreadOut hreadErr⟩

/-- If a stream has no pause before its last data once it has been read `n` times, then after one of
these reads it has none once it has been read the other times. -/
theorem prompt_remaining_of_read {n : Nat} (h : Prompt (remaining steps n))
    (hread : readAvailable steps = .ok (bytes, rest)) : Prompt (remaining rest (n - 1)) := by
  cases n with
  | zero => exact Prompt.of_read h hread
  | succ n =>
    rw [remaining, hread] at h
    exact h

/-- What holds of the streams before a round holds of them after it. -/
theorem Steady.of_round (h : Steady p) (hr : round Script.source p = .ok r) : Steady r.after := by
  obtain ⟨out, err, htakes⟩ := exists_takes_of_round hr
  refine ⟨h.faultlessOut.of_read htakes.readOut, h.faultlessErr.of_read htakes.readErr, ?_, ?_⟩
  · rw [htakes.pending]
    exact prompt_remaining_of_read h.promptOut htakes.readOut
  · rw [htakes.pending]
    exact prompt_remaining_of_read h.promptErr htakes.readErr

/-- The last round comes after all data. -/
theorem Steady.delivery_eq (h : Steady p) (hr : round Script.source p = .ok r)
    (hdone : r.done = true) (hsilent : r.gotData = false) : p.delivery = (r.after.out, r.after.err) := by
  rw [← delivery_of_round hr, Progress.delivery]
  obtain ⟨out, err, htakes⟩ := exists_takes_of_round hr
  have hpending := htakes.done.mp hdone
  obtain ⟨rfl, rfl⟩ := htakes.silent.mp hsilent
  have hpromptOut : Prompt p.state.stdout := by simpa [hpending, remaining] using h.promptOut
  have hpromptErr : Prompt p.state.stderr := by simpa [hpending, remaining] using h.promptErr
  rw [hpromptOut.contents_eq_nil htakes.readOut, hpromptErr.contents_eq_nil htakes.readErr,
    List.append_nil, List.append_nil]

/-- A collection without a deadline brings all data of both streams. -/
theorem collect_of_steady (clock : Nat → Nat) (stage : Stage Script)
    (h : Steady stage.progress) :
    (collect clock none stage).1 = .ok stage.progress.delivery := by
  induction hn : stage.progress.state.measure using Nat.strongRecOn generalizing stage with
  | ind n ih =>
    subst hn
    obtain ⟨r, hr⟩ := h.exists_round
    -- A round that another one follows keeps the delivery, so only the last one is left to look at.
    have hnext (hturn : turn Script.source clock none stage =
        .goesOn ⟨stage.readings, r.after⟩) :
        (collect clock none stage).1 = .ok stage.progress.delivery := by
      rw [collect_of_goesOn hturn, ← delivery_of_round hr]
      exact ih _ (measure_lt_of_goesOn hturn) ⟨stage.readings, r.after⟩ (h.of_round hr) rfl
    cases hdata : r.gotData with
    | true => exact hnext (turn_of_gotData hr hdata)
    | false =>
      cases hdone : r.done with
      | false => exact hnext (turn_of_patient hr hdata hdone)
      | true => rw [collect_of_ends (turn_of_done hr hdata hdone), h.delivery_eq hr hdone hdata]

end HostKit.Collect
