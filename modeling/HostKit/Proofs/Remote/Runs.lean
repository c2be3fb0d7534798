import HostKit.Proofs.Remote.Calls

/-!
# The calls and the outcome of a run

A run opens a session, goes through the calls of its command, and closes the session. It closes
every session that it has opened, whatever becomes of the command, and leaves none of them in a
mode that does not block. A session whose user is refused has not been opened: it is not closed
either, although its far end has shaken hands. Which variables are refused shows in the log alone.
-/

namespace HostKit

/-- The mode of a session after a call, by the mode before it: whether it blocks. -/
def Call.mode (blocking : Bool) : Call → Bool
  | .setBlocking blocking => blocking
  | _ => blocking

/-- Whether a session blocks after some calls; it does at the start. -/
def Call.blocking (calls : List Call) : Bool := calls.foldl Call.mode true

/-- The channel, if it refused no variable. -/
def Channel.granting (channel : Channel) : Channel := { channel with refused := [] }

/-- The far end, if it refused no variable. -/
def Peer.granting (peer : Peer) : Peer where
  refusals := peer.refusals.filter fun r => r.1 ≠ .setVariable
  channels := peer.channels.map Channel.granting

/-- The machine, if the far end refused no variable. -/
def Machine.granting (machine : Machine) : Machine := { machine with peer := machine.peer.granting }

/-- Calls that do not set the mode leave it as it is. -/
theorem Call.foldl_mode {calls : List Call} (h : ∀ mode, .setBlocking mode ∉ calls)
    (blocking : Bool) : calls.foldl Call.mode blocking = blocking := by
  induction calls with
  | nil => rfl
  | cons c calls ih =>
    have hc : Call.mode blocking c = blocking := by
      cases c with
      | setBlocking mode => exact absurd List.mem_cons_self (h mode)
      | _ => rfl
    rw [List.foldl_cons, hc]
    exact ih fun mode hmem => h mode (List.mem_cons_of_mem c hmem)

/-- A far end that refuses no variable refuses all other calls as before. -/
theorem Peer.stop?_granting (peer : Peer) {c : Call} (hc : c.kind? ≠ some .setVariable) :
    peer.granting.stop? c = peer.stop? c := by
  unfold Peer.stop? Peer.refusal? Peer.granting
  cases hkind : c.kind? with
  | none => rfl
  | some kind =>
    have hother : kind ≠ .setVariable := fun heq => hc (hkind.trans (congrArg some heq))
    rw [Option.bind_some, Option.bind_some, List.find?_filter]
    congr 3
    funext r
    by_cases hr : r.1 = kind
    · simp [hr, hother]
    · simp [hr]

namespace Connection

open HostKit.Action

variable {machine ready : Machine} {command : Text} {options : CommandOptions}
variable {target : ConnectionOptions} {connection : Connection}

/-- The call that closes a session. -/
def closeCall : Call := .disconnect "hostbelt done"

/-- The session is closed once, with the last of the calls. -/
def ClosedLast (calls : List Call) : Prop :=
  ∃ before, calls = before ++ [closeCall] ∧ ∀ text, .disconnect text ∉ before

/-- The calls that a command goes through on a machine. -/
def commandCalls (command : Text) (options : CommandOptions) (machine : Machine) : List Call :=
  Call.upTo (verdict machine options) (commandRow command options)

/-- The calls of a session: those that open it, those of the command, and the one that closes
it. -/
def sessionCalls (target : ConnectionOptions) (command : Text) (options : CommandOptions)
    (ready : Machine) : List Call :=
  openRow target ++ commandCalls command options ready ++ [closeCall]

/-! ## Opening -/

/-- No call that opens a session closes it. -/
theorem disconnect_not_mem_openRow (target : ConnectionOptions) (text : Text) :
    .disconnect text ∉ openRow target := by
  unfold openRow authCall
  cases target.auth <;> simp

/-- A session that has been opened has gone through all calls that open it. -/
theorem of_runOn_openTo (h : runOn (openTo target) machine = (.ok connection, ready)) :
    ready = opened target machine ∧ ready.calls = machine.calls ++ openRow target ∧
      (openRow target).findSome? machine.peer.stop? = none := by
  cases hreach : (runOn (reach target) machine).1 with
  | error stop => cases h.symm.trans (runOn_openTo_of_unreached hreach)
  | ok _ =>
    have hplays := plays_openTo hreach
    cases hrow : (openRow target).findSome? machine.peer.stop? with
    | some stop =>
      have hstop := hplays.stops stop hrow
      rw [h] at hstop
      cases hstop
    | none =>
      obtain ⟨-, -, hready⟩ := hplays.succeeds hrow
      have hcalls := hplays.calls
      rw [h] at hready hcalls
      rw [Call.upTo_of_none hrow] at hcalls
      exact ⟨hready, hcalls, rfl⟩

/-! ## Runs taken apart -/

/-- What is done on an open session: the command, and the judgement on its output. -/
def body (command : Text) (options : CommandOptions) (host : Text) : Action CommandOutput := do
  let output ← execute command options
  Remote.judge command options host output

/-- A run whose session is opened ends as what is done on the session does, and closes it. -/
theorem runOn_run_of_open (h : runOn (openTo target) machine = (.ok connection, ready)) :
    runOn (Remote.run command options target) machine =
      ((runOn (body command options target.host) ready).1,
        (runOn (body command options target.host) ready).2.called [closeCall]) := by
  have hclose (machine : Machine) : (runOn close machine).2 = machine.called [closeCall] := by
    rw [close, runOn_call]
    rfl
  unfold Remote.run
  rw [runOn_bind_ok h, runOn_ensuring, hclose]
  rfl

/-- The judgement makes no calls. -/
theorem calls_body (command : Text) (options : CommandOptions) (host : Text) (machine : Machine) :
    (runOn (body command options host) machine).2.calls =
      machine.calls ++ commandCalls command options machine := by
  rw [commandCalls, ← (plays_execute command options machine).calls]
  rcases hrun : runOn (body command options host) machine with ⟨outcome, after⟩
  rcases runOn_bind_cases hrun with ⟨stop, -, hfirst⟩ | ⟨output, between, hfirst, hsecond⟩
  · rw [hfirst]
  · rw [hfirst]
    exact (keeps_judge (fun _ _ _ => rfl) command options host output).eq hsecond

/-- A run whose session is opened makes the calls of the session. -/
theorem calls_run_of_open (h : runOn (openTo target) machine = (.ok connection, ready)) :
    (runOn (Remote.run command options target) machine).2.calls =
      machine.calls ++ sessionCalls target command options ready := by
  rw [runOn_run_of_open h, Machine.called, calls_body, (of_runOn_openTo h).2.1, sessionCalls]
  simp only [List.append_assoc]

/-- No call of a command closes the session. -/
theorem disconnect_not_mem_commandCalls (command : Text) (options : CommandOptions)
    (machine : Machine) (text : Text) :
    .disconnect text ∉ commandCalls command options machine := by
  intro hmem
  have hrow := Call.mem_of_mem_upTo hmem
  simp [commandRow, startRow] at hrow

/-- The session of a run is closed by its last call and by no other. -/
theorem closedLast_sessionCalls (target : ConnectionOptions) (command : Text)
    (options : CommandOptions) (ready : Machine) :
    ClosedLast (sessionCalls target command options ready) := by
  refine ⟨_, rfl, fun text hmem => ?_⟩
  rcases List.mem_append.mp hmem with hopen | hcommand
  · exact disconnect_not_mem_openRow target text hopen
  · exact disconnect_not_mem_commandCalls command options ready text hcommand

/-- Where the far end has shaken hands all that can still keep the session from being opened is that
the user is refused. -/
theorem findSome?_openRow_of_handshake
    (hmem : .handshake ∈ Call.upTo machine.peer.stop? (openRow target))
    (hshaken : machine.peer.refusal? .handshake = none) :
    (openRow target).findSome? machine.peer.stop? =
      machine.peer.stop? (authCall target.user target.auth) := by
  have hsession : machine.peer.stop? .newSession = none := by
    cases hfirst : machine.peer.stop? .newSession with
    | none => rfl
    | some stop =>
      rw [openRow, Call.upTo, hfirst] at hmem
      simp at hmem
  have hhandshake : machine.peer.stop? .handshake = none := Peer.stop?_eq_none_iff.mpr hshaken
  have hstream : machine.peer.stop? .setStream = none := rfl
  have htimeout : machine.peer.stop? (.setTimeout target.connectTimeout.millis32) = none := rfl
  simp only [openRow, List.findSome?_cons, List.findSome?_nil, hsession, hstream, htimeout,
    hhandshake]
  cases machine.peer.stop? (authCall target.user target.auth) <;> rfl

/-- A run whose session is not opened closes nothing, and if the far end has shaken hands it is the
user who is refused. -/
theorem calls_run_of_stop {stop : Stop} (h : (runOn (openTo target) machine).1 = .error stop) :
    ∃ made, (runOn (Remote.run command options target) machine).2.calls = machine.calls ++ made ∧
      (∀ text, .disconnect text ∉ made) ∧
      (.handshake ∈ made → machine.peer.refusal? .handshake = none →
        machine.peer.refusal? (authCall target.user target.auth) ≠ none) := by
  have hrun : runOn (Remote.run command options target) machine =
      (.error stop, (runOn (openTo target) machine).2) := by
    rw [Remote.run, runOn_bind_error (Prod.ext h rfl)]
  rw [hrun]
  cases hreach : (runOn (reach target) machine).1 with
  | error stop' =>
    -- There is no connection, and so no session that could be closed.
    rw [runOn_openTo_of_unreached hreach]
    exact ⟨[], (List.append_nil _).symm, fun _ => List.not_mem_nil,
      fun hmem => absurd hmem List.not_mem_nil⟩
  | ok _ =>
    have hplays := plays_openTo hreach
    refine ⟨_, hplays.calls, fun text hmem => ?_, fun hmem hshaken hadmitted => ?_⟩
    · exact disconnect_not_mem_openRow target text (Call.mem_of_mem_upTo hmem)
    · have hfind := (findSome?_openRow_of_handshake hmem hshaken).trans
        (Peer.stop?_eq_none_iff.mpr hadmitted)
      obtain ⟨connection, hok, -⟩ := hplays.succeeds hfind
      cases h.symm.trans hok

/-- A session whose far end has shaken hands is closed by the last call of the run exactly if the
user is let in; otherwise it is not closed at all. -/
theorem closedLast_run_iff (command : Text) (options : CommandOptions) (target : ConnectionOptions)
    (machine : Machine) :
    ∃ made, (runOn (Remote.run command options target) machine).2.calls = machine.calls ++ made ∧
      (.handshake ∈ made → machine.peer.refusal? .handshake = none →
        (ClosedLast made ↔ machine.peer.refusal? (authCall target.user target.auth) = none) ∧
        (machine.peer.refusal? (authCall target.user target.auth) ≠ none →
          ∀ text, .disconnect text ∉ made)) := by
  cases hopen : (runOn (openTo target) machine).1 with
  | error stop =>
    obtain ⟨made, hcalls, hunclosed, hrefused⟩ := calls_run_of_stop hopen
    refine ⟨made, hcalls, fun hmem hshaken => ⟨iff_of_false ?_ (hrefused hmem hshaken), ?_⟩⟩
    · rintro ⟨before, rfl, -⟩
      exact hunclosed _ (List.mem_append_right before List.mem_cons_self)
    · exact fun _ => hunclosed
  | ok connection =>
    have hready : runOn (openTo target) machine =
        (.ok connection, (runOn (openTo target) machine).2) := Prod.ext hopen rfl
    have hadmitted : machine.peer.refusal? (authCall target.user target.auth) = none := by
      have hfind := List.findSome?_eq_none_iff.mp (of_runOn_openTo hready).2.2
      exact Peer.stop?_eq_none_iff.mp (hfind _ (by simp [openRow]))
    refine ⟨_, calls_run_of_open hready, fun _ _ => ⟨iff_of_true ?_ hadmitted, ?_⟩⟩
    · exact closedLast_sessionCalls target command options _
    · exact fun hrefused => absurd hadmitted hrefused

/-- A user on this machine. -/
def guest : ConnectionOptions := { host := "localhost", user := "me" }

/-- A user who is refused leaves a session that nobody closes. -/
theorem refused_guest_unclosed :
    (runOn (Remote.run "true" {} guest) (.facing ⟨[(.authAgent, "denied")], []⟩)).2.calls =
        [.newSession, .setStream, .setTimeout 10000, .handshake, .authAgent "me"] ∧
      ∀ text, .disconnect text ∉
        (runOn (Remote.run "true" {} guest) (.facing ⟨[(.authAgent, "denied")], []⟩)).2.calls := by
  obtain ⟨made, hcalls, hclosed⟩ :=
    closedLast_run_iff "true" {} guest (.facing ⟨[(.authAgent, "denied")], []⟩)
  have hmade : made = [.newSession, .setStream, .setTimeout 10000, .handshake, .authAgent "me"] :=
    hcalls.symm
  rw [hcalls, hmade]
  refine ⟨rfl, hmade ▸ (hclosed ?_ rfl).2 ?_⟩
  · simp [hmade]
  · decide

/-! ## Blocking -/

/-- Output that cannot be collected for lack of a deadline is a panic. -/
theorem panic_of_collection? {stop : Stop} (h : collection? machine options = some (.error stop)) :
    ∃ message, stop = .panic message := by
  obtain ⟨channel, -, hcollect⟩ := Option.map_eq_some_iff.mp h
  cases htimeout : options.timeout with
  | none =>
    rw [htimeout, runOn_collectOutput_none] at hcollect
    cases hcollect
  | some timeout =>
    rw [htimeout] at hcollect
    by_cases hfar : maxSeconds < Duration.seconds (machine.clock machine.readings + timeout)
    · rw [runOn_collectOutput_far hfar] at hcollect
      exact ⟨_, (Except.error.inj hcollect).symm⟩
    · rw [runOn_collectOutput_some (Nat.not_lt.mp hfar)] at hcollect
      cases hcollect

/-- A command that has been started does not end between the two calls that set the mode, unless
with a panic. -/
theorem verdict_setBlocking_false (h : ¬Panics (execute command options) machine)
    (hstart : (startRow command options).findSome? (verdict machine options) = none) :
    verdict machine options (.setBlocking false) = none := by
  cases hverdict : verdict machine options (.setBlocking false) with
  | none => rfl
  | some stop =>
    have hfind : (commandRow command options).findSome? (verdict machine options) = some stop := by
      rw [commandRow, List.findSome?_append, hstart, List.findSome?_cons, hverdict]
      rfl
    have hcollection : collection? machine options = some (.error stop) := by
      rw [verdict] at hverdict
      split at hverdict
      · next stop' hcollection =>
        cases hverdict
        exact hcollection
      · cases hverdict
    obtain ⟨message, rfl⟩ := panic_of_collection? hcollection
    have hstop := (plays_execute command options machine).stops _ hfind
    exact absurd ⟨message, _, Prod.ext hstop rfl⟩ h

/-- A command that does not panic leaves the session blocking. -/
theorem blocking_commandCalls (h : ¬Panics (execute command options) machine) :
    Call.blocking (commandCalls command options machine) = true := by
  have hmode : ∀ mode, .setBlocking mode ∉ startRow command options := by simp [startRow]
  unfold commandCalls commandRow Call.blocking
  cases hstart : (startRow command options).findSome? (verdict machine options) with
  | some stop =>
    -- The command ends before the mode is first set.
    rw [Call.upTo_append_of_some hstart]
    exact Call.foldl_mode (fun mode hmem => hmode mode (Call.mem_of_mem_upTo hmem)) true
  | none =>
    have hcollected := verdict_setBlocking_false h hstart
    have hlater : ∀ mode, .setBlocking mode ∉
        Call.upTo (verdict machine options) [.waitClose, .exitStatus] := by
      intro mode hmem
      simpa using Call.mem_of_mem_upTo hmem
    rw [Call.upTo_append_of_none hstart, List.foldl_append, Call.foldl_mode hmode, Call.upTo,
      hcollected, Call.upTo]
    cases verdict machine options (.setBlocking true) with
    | some stop => rfl
    | none => exact Call.foldl_mode hlater true

/-! ## Refused variables -/

theorem collection?_granting (machine : Machine) (options : CommandOptions) :
    collection? machine.granting options = collection? machine options := by
  have hcollect (channel : Channel) :
      (runOn (collectOutput channel.granting options.timeout) machine.granting).1 =
        (runOn (collectOutput channel options.timeout) machine).1 :=
    runOn_collectOutput_congr options.timeout rfl rfl rfl
  have hchannel : machine.granting.peer.channels.head? =
      machine.peer.channels.head?.map Channel.granting := List.head?_map
  unfold collection?
  rw [hchannel, Option.map_map, ← funext hcollect]
  rfl

/-- What ends a command is not that a variable is refused. -/
theorem verdict_granting (machine : Machine) (options : CommandOptions) :
    verdict machine.granting options = verdict machine options := by
  have hstop {c : Call} (hc : c.kind? ≠ some .setVariable) :
      machine.granting.peer.stop? c = machine.peer.stop? c := machine.peer.stop?_granting hc
  funext c
  cases c with
  | setVariable name value => rfl
  | openChannel =>
    have hchannels : machine.granting.peer.channels = [] ↔ machine.peer.channels = [] :=
      List.map_eq_nil_iff
    simp only [verdict, hstop (c := .openChannel) (by decide), hchannels]
  | setBlocking blocking =>
    cases blocking <;> simp only [verdict, collection?_granting]
  | _ => exact hstop (by simp [Call.kind?])

/-- An action that goes on in the same way from both machines ends in the same way on both. -/
theorem outcome_bind_congr {α β : Type} {action : Action α} {next : α → Action β}
    {other : Machine} (h : (runOn action other).1 = (runOn action machine).1)
    (hnext : ∀ a machine other, (runOn (next a) other).1 = (runOn (next a) machine).1) :
    (runOn (action >>= next) other).1 = (runOn (action >>= next) machine).1 := by
  rw [runOn_bind, runOn_bind]
  rcases hrun : runOn action machine with ⟨outcome, after⟩
  rcases hrun' : runOn action other with ⟨outcome', after'⟩
  rw [hrun, hrun'] at h
  obtain rfl : outcome' = outcome := h
  cases outcome' with
  | error stop => rfl
  | ok a => exact hnext a after after'

/-- The judgement does not depend on the machine. -/
theorem outcome_judge (command : Text) (options : CommandOptions) (host : Text)
    (output : CommandOutput) (machine other : Machine) :
    (runOn (Remote.judge command options host output) other).1 =
      (runOn (Remote.judge command options host output) machine).1 := by
  rw [Remote.runOn_judge, Remote.runOn_judge]

/-- Whether variables are refused does not matter for the outcome of a command. -/
theorem outcome_execute_granting (command : Text) (options : CommandOptions) (machine : Machine) :
    (runOn (execute command options) machine.granting).1 =
      (runOn (execute command options) machine).1 := by
  have hplays := plays_execute command options machine
  have hplays' := plays_execute command options machine.granting
  rw [verdict_granting] at hplays'
  cases hrow : (commandRow command options).findSome? (verdict machine options) with
  | some stop => rw [hplays.stops stop hrow, hplays'.stops stop hrow]
  | none =>
    obtain ⟨output, houtput, channel, stdout, stderr, hchannel, hcollect, rfl⟩ :=
      hplays.succeeds hrow
    obtain ⟨output', houtput', channel', stdout', stderr', hchannel', hcollect', rfl⟩ :=
      hplays'.succeeds hrow
    have hgranting : machine.granting.peer.channels.head? = some channel.granting := by
      simp [Machine.granting, Peer.granting, hchannel]
    obtain rfl := Option.some.inj (hgranting.symm.trans hchannel')
    have hsame : (runOn (collectOutput channel.granting options.timeout) machine.granting).1 =
        (runOn (collectOutput channel options.timeout) machine).1 :=
      runOn_collectOutput_congr options.timeout rfl rfl rfl
    rw [hcollect, hcollect'] at hsame
    cases hsame
    exact houtput'.trans houtput.symm

/-- Whether variables are refused does not matter for opening a session. -/
theorem findSome?_openRow_granting (target : ConnectionOptions) (peer : Peer) :
    (openRow target).findSome? peer.granting.stop? = (openRow target).findSome? peer.stop? := by
  have hauth : (authCall target.user target.auth).kind? ≠ some .setVariable := by
    unfold authCall
    cases target.auth <;> simp [Call.kind?]
  have hsession : peer.granting.stop? .newSession = _ := peer.stop?_granting (by decide)
  have hhandshake : peer.granting.stop? .handshake = _ := peer.stop?_granting (by decide)
  simp only [openRow, List.findSome?_cons, List.findSome?_nil, hsession, hhandshake,
    peer.stop?_granting hauth]
  rfl

/-- Whether variables are refused does not matter for the outcome of a run. -/
theorem outcome_run_granting (command : Text) (options : CommandOptions)
    (target : ConnectionOptions) (machine : Machine) :
    (runOn (Remote.run command options target) machine.granting).1 =
      (runOn (Remote.run command options target) machine).1 := by
  have hsame : (runOn (reach target) machine.granting).1 = (runOn (reach target) machine).1 :=
    reach_congr target rfl rfl
  cases hreach : (runOn (reach target) machine).1 with
  | error stop =>
    rw [Remote.run, runOn_bind_error (runOn_openTo_of_unreached hreach),
      runOn_bind_error (runOn_openTo_of_unreached (hsame.trans hreach))]
  | ok _ =>
    have hplays := plays_openTo hreach
    have hplays' := plays_openTo (hsame.trans hreach)
    -- Either both sessions are opened or both runs stop at the same call.
    have hfind := findSome?_openRow_granting target machine.peer
    cases hrow : (openRow target).findSome? machine.peer.stop? with
    | some stop =>
      have hrun := hplays.stops stop hrow
      have hrun' := hplays'.stops stop (hfind.trans hrow)
      rw [Remote.run, runOn_bind_error (Prod.ext hrun rfl), runOn_bind_error (Prod.ext hrun' rfl)]
    | none =>
      obtain ⟨connection, hrun, hready⟩ := hplays.succeeds hrow
      obtain ⟨connection', hrun', hready'⟩ := hplays'.succeeds (hfind.trans hrow)
      rw [runOn_run_of_open (Prod.ext hrun hready), runOn_run_of_open (Prod.ext hrun' hready')]
      exact outcome_bind_congr (outcome_execute_granting command options (opened target machine))
        (outcome_judge command options target.host)

/-- A run whose session is opened and which does not panic makes the calls of the session, of which
the last one, and no other, closes it. It does not leave the session in a mode that does not block,
and ends as if the far end refused no variable. -/
theorem session_protocol_of_open (hopen : runOn (openTo target) machine = (.ok connection, ready))
    (hcalm : ¬Panics (Remote.run command options target) machine) :
    (runOn (Remote.run command options target) machine).2.calls =
        machine.calls ++ sessionCalls target command options ready ∧
      ClosedLast (sessionCalls target command options ready) ∧
      Call.blocking (sessionCalls target command options ready) = true ∧
      (runOn (Remote.run command options target) machine).1 =
        (runOn (Remote.run command options target) machine.granting).1 := by
  refine ⟨calls_run_of_open hopen, closedLast_sessionCalls target command options ready, ?_,
    (outcome_run_granting command options target machine).symm⟩
  have hexecute : ¬Panics (execute command options) ready := by
    rintro ⟨message, after, hexecute⟩
    refine hcalm ⟨message, _, Prod.ext ?_ rfl⟩
    rw [runOn_run_of_open hopen, body, runOn_bind_error hexecute]
  have hmode : ∀ mode, .setBlocking mode ∉ openRow target := by
    unfold openRow authCall
    cases target.auth <;> simp
  have hcommand := blocking_commandCalls hexecute
  unfold Call.blocking at hcommand ⊢
  rw [sessionCalls, List.foldl_append, List.foldl_append, Call.foldl_mode hmode, hcommand]
  rfl

/-- A channel on which a command ends without output. -/
def silent : Channel := ⟨[], [], 0, 0, []⟩

/-- A command whose one variable is refused runs all the same. -/
theorem run_of_refused_variable :
    (runOn (Remote.run "true" { environment := [("A", "1")] } guest)
        (.facing ⟨[(.setVariable, "no")], [silent]⟩)).2.calls =
      [.newSession, .setStream, .setTimeout 10000, .handshake, .authAgent "me", .setTimeout 0,
        .openChannel, .setVariable "A" "1", .execute "true", .setBlocking false, .setBlocking true,
        .waitClose, .exitStatus, .disconnect "hostbelt done"] ∧
    (runOn (Remote.run "true" { environment := [("A", "1")] } guest)
        (.facing ⟨[(.setVariable, "no")], [silent]⟩)).1 =
      (runOn (Remote.run "true" { environment := [("A", "1")] } guest)
        (.facing ⟨[], [silent]⟩)).1 := by
  have hcalm : ¬Panics (Remote.run "true" { environment := [("A", "1")] } guest)
      (.facing ⟨[(.setVariable, "no")], [silent]⟩) := by
    intro hpanics
    obtain ⟨duration, htimeout, -⟩ := panics_run_iff.mp hpanics
    cases htimeout
  have hopen : runOn (openTo guest) (.facing ⟨[(.setVariable, "no")], [silent]⟩) =
      (.ok ⟨guest.host⟩, opened guest (.facing ⟨[(.setVariable, "no")], [silent]⟩)) := rfl
  obtain ⟨hcalls, -, -, houtcome⟩ := session_protocol_of_open hopen hcalm
  have hserves : Serves (opened guest (.facing ⟨[(.setVariable, "no")], [silent]⟩)) "true" silent :=
    ⟨rfl, rfl, rfl, rfl, rfl⟩
  have hcollect : (runOn (collectOutput silent none)
      (opened guest (.facing ⟨[(.setVariable, "no")], [silent]⟩))).1 = .ok (.ok ([], [])) := by
    have hlast : Collect.turn Collect.Script.source (fun _ => 0) none ⟨0, .ofChannel silent⟩ =
        .ends (.ok ([], [])) 0 := rfl
    exact congrArg (fun result => Except.ok result.1) (Collect.collect_of_ends hlast)
  refine ⟨?_, houtcome⟩
  rw [hcalls, sessionCalls, commandCalls, Call.upTo_of_none (hserves.verdict_eq_none hcollect)]
  rfl

end Connection
end HostKit
