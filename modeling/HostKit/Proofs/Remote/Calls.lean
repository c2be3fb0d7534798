import HostKit.Proofs.Remote.Records
import HostKit.Proofs.Remote.Rounds

/-!
# The calls of a session

Opening a session and running a command on it are rows of calls. A row is gone through in order,
and what ends it is a verdict on one of its calls: a refusal by the far end, the lack of a channel,
or what reading the output of the command has come to. Which calls are made, and how the action
ends, follow from the row and the verdicts.
-/

namespace HostKit

/-- The calls of a row up to the first one with a verdict. -/
def Call.upTo (verdict : Call → Option Stop) : List Call → List Call
  | [] => []
  | c :: row => if (verdict c).isSome then [c] else c :: upTo verdict row

/-- How an action stops at a call that the far end refuses. -/
def Peer.stop? (peer : Peer) (c : Call) : Option Stop :=
  (peer.refusal? c).map fun message => .failure (.ssh message)

theorem Peer.stop?_eq_none_iff {peer : Peer} {c : Call} :
    peer.stop? c = none ↔ peer.refusal? c = none := Option.map_eq_none_iff

/-- The machine after some calls have been made. -/
def Machine.called (machine : Machine) (row : List Call) : Machine :=
  { machine with calls := machine.calls ++ row }

/-- A machine on which nothing has run yet, and from which every host leads to the far end. -/
def Machine.facing (peer : Peer) : Machine :=
  { Machine.resting ⟨[], { workingDirectory := [] }⟩ with
    lookup := fun _ => .ok [.v4 127 0 0 1]
    network := fun _ => .settles 0 none
    peer := peer }

@[simp] theorem Machine.called_called (machine : Machine) (row later : List Call) :
    (machine.called row).called later = machine.called (row ++ later) := by
  simp [called]

namespace Call

variable {verdict : Call → Option Stop} {row : List Call} {stop : Stop}

/-- After a verdict nothing more is gone through. -/
theorem upTo_append_of_some (h : row.findSome? verdict = some stop) (later : List Call) :
    upTo verdict (row ++ later) = upTo verdict row := by
  induction row with
  | nil => cases h
  | cons c row ih =>
    rw [List.findSome?_cons] at h
    rw [List.cons_append, upTo, upTo]
    cases hc : verdict c with
    | some _ => rfl
    | none =>
      rw [hc] at h
      rw [ih h]

/-- Without a verdict what comes later is gone through. -/
theorem upTo_append_of_none (h : row.findSome? verdict = none) (later : List Call) :
    upTo verdict (row ++ later) = row ++ upTo verdict later := by
  induction row with
  | nil => rfl
  | cons c row ih =>
    rw [List.findSome?_cons] at h
    rw [List.cons_append, upTo]
    cases hc : verdict c with
    | some _ =>
      rw [hc] at h
      cases h
    | none =>
      rw [hc] at h
      rw [ih h]
      rfl

/-- Without a verdict the whole row is gone through. -/
theorem upTo_of_none (h : row.findSome? verdict = none) : upTo verdict row = row := by
  simpa [upTo] using upTo_append_of_none h []

/-- Only calls of the row are gone through. -/
theorem mem_of_mem_upTo {c : Call} (h : c ∈ upTo verdict row) : c ∈ row := by
  induction row with
  | nil => cases h
  | cons first row ih =>
    rw [upTo] at h
    split at h
    · exact List.mem_cons.mpr (.inl (List.mem_singleton.mp h))
    · exact List.mem_cons.mpr ((List.mem_cons.mp h).imp_right ih)

end Call

namespace Action

variable {α β : Type} {verdict : Call → Option Stop} {row later : List Call}
variable {P : α → Machine → Prop} {Q : β → Machine → Prop}
variable {action : Action α} {next : α → Action β} {machine : Machine}

/-- On a machine an action goes through a row of calls, stops with the first verdict on one of
them, and succeeds in a certain way if there is none. -/
structure Plays (verdict : Call → Option Stop) (row : List Call) (P : α → Machine → Prop)
    (action : Action α) (machine : Machine) : Prop where
  calls : (runOn action machine).2.calls = machine.calls ++ Call.upTo verdict row
  stops : ∀ stop, row.findSome? verdict = some stop → (runOn action machine).1 = .error stop
  succeeds : row.findSome? verdict = none →
    ∃ a, (runOn action machine).1 = .ok a ∧ P a (runOn action machine).2

/-- An action that succeeds without a call goes through the empty row. -/
theorem plays_of_ok {a : α} {after : Machine} (hrun : runOn action machine = (.ok a, after))
    (hcalls : after.calls = machine.calls) (h : P a after) :
    Plays verdict [] P action machine := by
  refine ⟨?_, ?_, ?_⟩
  · rw [hrun]
    simpa [Call.upTo] using hcalls
  · intro stop hstop
    cases hstop
  · intro _
    rw [hrun]
    exact ⟨a, rfl, h⟩

/-- An action that makes one call and succeeds goes through that call if there is no verdict on
it. -/
theorem plays_one_of_ok {c : Call} {a : α} {after : Machine}
    (hrun : runOn action machine = (.ok a, after)) (hcalls : after.calls = machine.calls ++ [c])
    (hverdict : verdict c = none) (h : P a after) : Plays verdict [c] P action machine := by
  refine ⟨?_, ?_, ?_⟩
  · rw [hrun, Call.upTo, hverdict]
    exact hcalls
  · intro stop hstop
    rw [List.findSome?_singleton, hverdict] at hstop
    cases hstop
  · intro _
    rw [hrun]
    exact ⟨a, rfl, h⟩

/-- What comes after a verdict does not matter. -/
theorem plays_of_stop {stop : Stop} {after : Machine} (hrow : row.findSome? verdict = some stop)
    (hrun : runOn action machine = (.error stop, after))
    (hcalls : after.calls = machine.calls ++ Call.upTo verdict row) (later : List Call) :
    Plays verdict (row ++ later) P action machine := by
  have hfind : (row ++ later).findSome? verdict = some stop := by
    rw [List.findSome?_append, hrow]
    rfl
  refine ⟨?_, ?_, ?_⟩
  · rw [hrun, Call.upTo_append_of_some hrow]
    exact hcalls
  · intro stop' hstop'
    rw [hrun, Option.some.inj (hfind.symm.trans hstop')]
  · intro hnone
    cases hfind.symm.trans hnone

/-- An action that makes one call and stops goes through a row that starts with this call if it
stops with the verdict on it. -/
theorem plays_of_first {c : Call} {stop : Stop} {after : Machine} (hverdict : verdict c = some stop)
    (hrun : runOn action machine = (.error stop, after))
    (hcalls : after.calls = machine.calls ++ [c]) (later : List Call) :
    Plays verdict (c :: later) P action machine := by
  have hrow : [c].findSome? verdict = some stop := by rw [List.findSome?_singleton, hverdict]
  refine plays_of_stop hrow hrun ?_ later
  rw [hcalls, Call.upTo, hverdict]
  rfl

theorem Plays.mono {P' : α → Machine → Prop} (h : Plays verdict row P action machine)
    (hP : ∀ a after, P a after → P' a after) : Plays verdict row P' action machine := by
  refine ⟨h.calls, h.stops, fun hnone => ?_⟩
  obtain ⟨a, ha, hafter⟩ := h.succeeds hnone
  exact ⟨a, ha, hP a _ hafter⟩

/-- Two actions go through the row of the first one and then through that of the second one. -/
theorem Plays.bind (h : Plays verdict row P action machine)
    (hnext : ∀ a between, P a between → Plays verdict later Q (next a) between) :
    Plays verdict (row ++ later) Q (action >>= next) machine := by
  cases hrow : row.findSome? verdict with
  | some stop =>
    have hfirst : runOn action machine = (.error stop, (runOn action machine).2) :=
      Prod.ext (h.stops stop hrow) rfl
    exact plays_of_stop hrow (runOn_bind_error hfirst next) h.calls later
  | none =>
    obtain ⟨a, ha, hP⟩ := h.succeeds hrow
    have hfirst : runOn action machine = (.ok a, (runOn action machine).2) := Prod.ext ha rfl
    have hsecond := hnext a _ hP
    have hfind : (row ++ later).findSome? verdict = later.findSome? verdict := by
      rw [List.findSome?_append, hrow]
      rfl
    refine ⟨?_, ?_, ?_⟩
    · rw [runOn_bind_ok hfirst, hsecond.calls, h.calls, Call.upTo_of_none hrow,
        Call.upTo_append_of_none hrow, List.append_assoc]
    · rw [runOn_bind_ok hfirst, hfind]
      exact hsecond.stops
    · rw [runOn_bind_ok hfirst, hfind]
      exact hsecond.succeeds

/-- A call whose verdict is that of the far end is a row of its own. -/
theorem plays_call {c : Call} (hverdict : verdict c = machine.peer.stop? c) :
    Plays verdict [c] (fun _ after => after = machine.called [c]) (call c) machine := by
  have hrun := runOn_call c machine
  rw [Peer.stop?] at hverdict
  cases hrefusal : machine.peer.refusal? c with
  | none =>
    rw [hrefusal] at hrun hverdict
    exact plays_one_of_ok hrun rfl hverdict rfl
  | some message =>
    rw [hrefusal] at hrun hverdict
    exact plays_of_first hverdict hrun rfl []

/-- A call is the first one of a row. -/
theorem Plays.call_bind {c : Call} {next : Unit → Action β}
    (hverdict : verdict c = machine.peer.stop? c)
    (h : Plays verdict later Q (next ()) (machine.called [c])) :
    Plays verdict (c :: later) Q (call c >>= next) machine :=
  (plays_call hverdict).bind fun _ _ hafter => hafter ▸ h

/-- What succeeds without a call does not show in the row. -/
theorem Plays.ok_bind {a : α} {after : Machine} (hrun : runOn action machine = (.ok a, after))
    (hcalls : after.calls = machine.calls) (h : Plays verdict later Q (next a) after) :
    Plays verdict later Q (action >>= next) machine :=
  Plays.bind (P := fun a' after' => a' = a ∧ after' = after)
    (plays_of_ok hrun hcalls ⟨rfl, rfl⟩) fun _ _ ⟨ha, hafter⟩ => ha ▸ hafter ▸ h

end Action

namespace Connection

open HostKit.Action

variable {machine : Machine}

/-! ## Opening a session -/

/-- The calls that open a session. -/
def openRow (options : ConnectionOptions) : List Call :=
  [.newSession, .setStream, .setTimeout options.connectTimeout.millis32, .handshake,
    authCall options.user options.auth]

/-- The machine with an open session. -/
def opened (options : ConnectionOptions) (machine : Machine) : Machine :=
  (machine.called (openRow options)).logged .info
    ("Connected to " ++ options.host ++ " as " ++ options.user)

/-- Find the address of a host and connect to it, before there is a session. -/
def reach (options : ConnectionOptions) : Action Unit := do
  let address ← Action.ofExcept (options.socketAddress (← get).lookup)
  connect address options.connectTimeout

/-- A session is opened once the host has been reached. -/
theorem openTo_eq (options : ConnectionOptions) :
    openTo options = do
      reach options
      Action.call .newSession
      Action.call .setStream
      Action.call (.setTimeout options.connectTimeout.millis32)
      Action.call .handshake
      Action.call (authCall options.user options.auth)
      Action.log .info ("Connected to " ++ options.host ++ " as " ++ options.user)
      return ⟨options.host⟩ := by
  simp only [openTo, reach, bind_assoc]

/-- Reaching a host changes nothing. -/
theorem runOn_reach (options : ConnectionOptions) (machine : Machine) :
    runOn (reach options) machine = ((runOn (reach options) machine).1, machine) := by
  have hkeeps : Keeps id (reach options) :=
    keeps_get.bind fun _ => (keeps_ofExcept _).bind fun _ => keeps_connect _ _
  exact Prod.ext rfl (hkeeps machine)

/-- What becomes of connecting depends on the network alone. -/
theorem connect_congr {other : Machine} (address : SocketAddress) (timeout : Duration)
    (h : other.network = machine.network) :
    (runOn (connect address timeout) other).1 = (runOn (connect address timeout) machine).1 := by
  unfold connect
  rw [runOn_bind_ok (runOn_get other), runOn_bind_ok (runOn_get machine), h]
  cases machine.network address with
  | failsAtOnce error => rfl
  | settles delay outcome =>
    dsimp only
    split
    · rfl
    split
    · rfl
    cases outcome with
    | none => rfl
    | some error => rfl

/-- Whether a host is reached depends on the names and on the network alone. -/
theorem reach_congr {other : Machine} (options : ConnectionOptions)
    (hlookup : other.lookup = machine.lookup) (hnetwork : other.network = machine.network) :
    (runOn (reach options) other).1 = (runOn (reach options) machine).1 := by
  unfold reach
  rw [runOn_bind_ok (runOn_get other), runOn_bind_ok (runOn_get machine), hlookup]
  cases options.socketAddress machine.lookup with
  | error failure => rfl
  | ok address => exact connect_congr address options.connectTimeout hnetwork

/-- Where the host is not reached, opening stops before the first call. -/
theorem runOn_openTo_of_unreached {options : ConnectionOptions} {stop : Stop}
    (h : (runOn (reach options) machine).1 = .error stop) :
    runOn (openTo options) machine = (.error stop, machine) := by
  rw [openTo_eq, runOn_bind_error ((runOn_reach options machine).trans (by rw [h]))]

/-- Where the host is reached, opening goes through its calls. -/
theorem plays_openTo {options : ConnectionOptions}
    (h : (runOn (reach options) machine).1 = .ok ()) :
    Plays machine.peer.stop? (openRow options) (fun _ after => after = opened options machine)
      (openTo options) machine := by
  rw [openTo_eq]
  refine .ok_bind ((runOn_reach options machine).trans (by rw [h])) rfl ?_
  refine .call_bind rfl (.call_bind rfl (.call_bind rfl (.call_bind rfl (.call_bind rfl ?_))))
  simp only [Machine.called_called, List.cons_append, List.nil_append]
  exact plays_of_ok rfl rfl rfl

/-! ## Running a command -/

/-- The calls that start a command: no time limit in a call is written as zero, and each variable is
asked for. -/
def startRow (command : Text) (options : CommandOptions) : List Call :=
  [.setTimeout ((options.timeout.map Duration.millis32).getD 0), .openChannel] ++
    (options.environment.map fun (name, value) => .setVariable name value) ++ [.execute command]

/-- The calls that run a command. Reading its output does not block, all other calls do. -/
def commandRow (command : Text) (options : CommandOptions) : List Call :=
  startRow command options ++ [.setBlocking false, .setBlocking true, .waitClose, .exitStatus]

/-- What collecting the output comes to, if there is a channel. -/
def collection? (machine : Machine) (options : CommandOptions) :
    Option (Except Stop (Except IoError (Bytes × Bytes))) :=
  machine.peer.channels.head?.map fun channel =>
    (runOn (collectOutput channel options.timeout) machine).1

/-- How a command ends at a call, if it does: a variable may be refused, a channel has to be there,
and the output is collected between the two changes of blocking. -/
def verdict (machine : Machine) (options : CommandOptions) : Call → Option Stop
  | .setVariable _ _ => none
  | .openChannel =>
    (machine.peer.stop? .openChannel).or
      (if machine.peer.channels = [] then some (.failure (.ssh "no more channels")) else none)
  | .setBlocking false =>
    match collection? machine options with
    | some (.error stop) => some stop
    | _ => none
  | .setBlocking true =>
    match collection? machine options with
    | some (.ok (.error e)) => some (.failure (.io e))
    | _ => none
  | c => machine.peer.stop? c

/-- A machine with the same session and the same clock, later in a run. -/
structure Follows (machine after : Machine) : Prop where
  refusals : after.peer.refusals = machine.peer.refusals
  clock : after.clock = machine.clock
  readings : after.readings = machine.readings

theorem Follows.refl (machine : Machine) : Follows machine machine := ⟨rfl, rfl, rfl⟩

variable {after later : Machine}

theorem Follows.trans (h : Follows machine after) (h' : Follows after later) :
    Follows machine later :=
  ⟨h'.refusals.trans h.refusals, h'.clock.trans h.clock, h'.readings.trans h.readings⟩

theorem Follows.called (h : Follows machine after) (row : List Call) :
    Follows machine (after.called row) := ⟨h.refusals, h.clock, h.readings⟩

/-- The far end refuses the same calls later. -/
theorem Follows.stop? (h : Follows machine after) (c : Call) :
    after.peer.stop? c = machine.peer.stop? c :=
  congrArg (Option.map _) (refusal?_congr h.refusals c)

/-- What collecting comes to depends on the streams, the clock and its readings so far alone. -/
theorem runOn_collectOutput_congr {channel channel' : Channel} (timeout : Option Duration)
    (hstreams : Collect.Progress.ofChannel channel' = .ofChannel channel)
    (hclock : after.clock = machine.clock) (hreadings : after.readings = machine.readings) :
    (runOn (collectOutput channel' timeout) after).1 =
      (runOn (collectOutput channel timeout) machine).1 := by
  cases timeout with
  | none =>
    rw [runOn_collectOutput_none, runOn_collectOutput_none, hstreams, hclock, hreadings]
  | some timeout =>
    have hpresent : after.clock after.readings = machine.clock machine.readings := by
      rw [hclock, hreadings]
    by_cases hfar : maxSeconds < Duration.seconds (machine.clock machine.readings + timeout)
    · rw [runOn_collectOutput_far hfar, runOn_collectOutput_far (hpresent.symm ▸ hfar)]
    · have hnear := Nat.not_lt.mp hfar
      rw [runOn_collectOutput_some hnear, runOn_collectOutput_some (hpresent.symm ▸ hnear),
        hstreams, hclock, hreadings]

/-- What collecting comes to is the same later. -/
theorem Follows.runOn_collectOutput (h : Follows machine after) (channel : Channel)
    (timeout : Option Duration) :
    (runOn (collectOutput channel timeout) after).1 =
      (runOn (collectOutput channel timeout) machine).1 :=
  runOn_collectOutput_congr timeout rfl h.clock h.readings

section Variables

variable {verdict : Call → Option Stop}

/-- Asking for a variable goes on whether it is refused or not. -/
theorem plays_askVariable (channel : Channel) (name value : Text)
    (hverdict : verdict (.setVariable name value) = none) :
    Plays verdict [.setVariable name value] (fun _ after => Follows machine after)
      (askVariable channel name value) machine :=
  plays_one_of_ok (runOn_askVariable channel name value machine) rfl hverdict ⟨rfl, rfl, rfl⟩

/-- All variables are asked for. -/
theorem plays_variables (channel : Channel) (environment : List (Text × Text))
    (hverdict : ∀ name value, verdict (.setVariable name value) = none) (machine : Machine) :
    Plays verdict (environment.map fun (name, value) => .setVariable name value)
      (fun _ after => Follows machine after)
      (environment.forM fun (name, value) => askVariable channel name value) machine := by
  induction environment generalizing machine with
  | nil => exact plays_of_ok rfl rfl (.refl machine)
  | cons first environment ih =>
    obtain ⟨name, value⟩ := first
    refine (plays_askVariable channel name value (hverdict name value)).bind fun _ between h => ?_
    exact (ih between).mono fun _ _ => h.trans

/-- A channel is opened unless the far end refuses, or has none left. -/
theorem plays_openChannel
    (hverdict : verdict .openChannel = (machine.peer.stop? .openChannel).or
      (if machine.peer.channels = [] then some (.failure (.ssh "no more channels")) else none)) :
    Plays verdict [.openChannel]
      (fun channel after => machine.peer.channels.head? = some channel ∧ Follows machine after)
      openChannel machine := by
  have hrun := runOn_openChannel machine
  rw [Peer.stop?] at hverdict
  cases hrefusal : machine.peer.refusal? .openChannel with
  | some message =>
    simp only [hrefusal] at hrun hverdict
    exact plays_of_first hverdict hrun rfl []
  | none =>
    rw [hrefusal] at hverdict
    cases hchannels : machine.peer.channels with
    | nil =>
      simp only [hrefusal, hchannels] at hrun
      rw [if_pos hchannels] at hverdict
      exact plays_of_first hverdict hrun rfl []
    | cons channel channels =>
      simp only [hrefusal, hchannels] at hrun
      rw [if_neg (by simp [hchannels])] at hverdict
      exact plays_one_of_ok hrun rfl hverdict ⟨rfl, rfl, rfl, rfl⟩

end Variables

/-- Starting a command goes through its calls up to the one that makes reading not block, after
which the action goes on. -/
theorem plays_start_bind {β : Type} {Q : β → Machine → Prop} {later : List Call} (command : Text)
    (options : CommandOptions) (next : Channel → Action β) (machine : Machine)
    (h : ∀ channel between, machine.peer.channels.head? = some channel → Follows machine between →
      Plays (verdict machine options) (.setBlocking false :: later) Q
        (call (.setBlocking false) >>= fun _ => next channel) between) :
    Plays (verdict machine options) (startRow command options ++ .setBlocking false :: later) Q
      (start command options >>= next) machine := by
  unfold start startRow
  simp only [bind_assoc, pure_bind, List.append_assoc, List.cons_append, List.nil_append]
  refine .call_bind rfl ?_
  refine (plays_openChannel rfl).bind ?_
  rintro channel between ⟨hchannel, hbetween⟩
  refine (plays_variables channel options.environment (fun _ _ => rfl) between).bind ?_
  intro _ asked hasked
  have hfollows : Follows machine asked :=
    ((Follows.refl machine).called _).trans (hbetween.trans hasked)
  exact .call_bind (hfollows.stop? (.execute command)).symm
    (h channel _ hchannel (hfollows.called _))

/-- Running a command goes through its calls, and a success is the output as it has been collected,
with the status of the channel. -/
theorem plays_execute (command : Text) (options : CommandOptions) (machine : Machine) :
    Plays (verdict machine options) (commandRow command options)
      (fun output _ => ∃ channel stdout stderr, machine.peer.channels.head? = some channel ∧
        (runOn (collectOutput channel options.timeout) machine).1 = .ok (.ok (stdout, stderr)) ∧
        output = ⟨Utf8.decodeLossy stdout, Utf8.decodeLossy stderr, channel.status⟩)
      (execute command options) machine := by
  refine plays_start_bind command options _ machine fun channel between hchannel hbetween => ?_
  have hcall : runOn (call (.setBlocking false)) between =
      (.ok (), between.called [.setBlocking false]) := rfl
  have hcollect :=
    (hbetween.called [.setBlocking false]).runOn_collectOutput channel options.timeout
  have hcollection : collection? machine options =
      some (runOn (collectOutput channel options.timeout) machine).1 := by
    rw [collection?, hchannel]
    rfl
  rw [← hcollect] at hcollection
  rcases hrun : runOn (collectOutput channel options.timeout) (between.called [.setBlocking false])
    with ⟨outcome, after⟩
  rw [hrun] at hcollection hcollect
  have hcalls : after.calls = (between.called [.setBlocking false]).calls :=
    (keeps_collectOutput (fun _ _ => rfl) channel options.timeout).eq hrun
  have hpeer : after.peer = (between.called [.setBlocking false]).peer :=
    (keeps_collectOutput (fun _ _ => rfl) channel options.timeout).eq hrun
  have hstop (c : Call) : after.peer.stop? c = machine.peer.stop? c := by
    rw [hpeer]
    exact hbetween.stop? c
  -- Collecting is no call: that it stops is told at the call before it, and that a read fails at
  -- the one after it.
  cases outcome with
  | error stop =>
    have hverdict : verdict machine options (.setBlocking false) = some stop := by
      rw [verdict, hcollection]
    exact plays_of_first hverdict
      ((runOn_bind_ok hcall _).trans (runOn_bind_error hrun _)) hcalls _
  | ok collected =>
    have hverdict : verdict machine options (.setBlocking false) = none := by
      rw [verdict, hcollection]
    refine .call_bind hverdict (.ok_bind hrun hcalls ?_)
    cases collected with
    | error e =>
      have hverdict : verdict machine options (.setBlocking true) = some (.failure (.io e)) := by
        rw [verdict, hcollection]
      have hcall : runOn (call (.setBlocking true)) after =
          (.ok (), after.called [.setBlocking true]) := rfl
      exact plays_of_first hverdict (runOn_bind_ok hcall _) rfl _
    | ok collected =>
      have hverdict : verdict machine options (.setBlocking true) = none := by
        rw [verdict, hcollection]
      refine .call_bind hverdict (.ok_bind rfl rfl ?_)
      refine .call_bind (hstop .waitClose).symm (.call_bind (hstop .exitStatus).symm ?_)
      exact plays_of_ok rfl rfl ⟨channel, collected.1, collected.2, hchannel, hcollect.symm, rfl⟩

/-! ## Commands that are served -/

/-- The far end has the channel for the command and refuses none of the calls on it; variables it
may refuse. -/
structure Serves (machine : Machine) (command : Text) (channel : Channel) : Prop where
  next : machine.peer.channels.head? = some channel
  opens : machine.peer.refusal? .openChannel = none
  executes : machine.peer.refusal? (.execute command) = none
  closes : machine.peer.refusal? .waitClose = none
  exits : machine.peer.refusal? .exitStatus = none

/-- No call ends a command whose channel is served and whose output is collected. -/
theorem Serves.verdict_eq_none {command : Text} {options : CommandOptions} {channel : Channel}
    {stdout stderr : Bytes} (h : Serves machine command channel)
    (hcollect : (runOn (collectOutput channel options.timeout) machine).1 =
      .ok (.ok (stdout, stderr))) :
    (commandRow command options).findSome? (verdict machine options) = none := by
  have hcollection : collection? machine options = some (.ok (.ok (stdout, stderr))) := by
    rw [collection?, h.next, ← hcollect]
    rfl
  have hchannels : machine.peer.channels ≠ [] := by
    intro hnil
    have hnext := h.next
    rw [hnil] at hnext
    cases hnext
  refine List.findSome?_eq_none_iff.mpr fun c hc => ?_
  unfold commandRow startRow at hc
  simp only [List.mem_append, List.mem_cons, List.mem_map, List.not_mem_nil, or_false] at hc
  rcases hc with (((rfl | rfl) | ⟨_, -, rfl⟩) | rfl) | rfl | rfl | rfl | rfl
  · rfl
  · simp [verdict, Peer.stop?_eq_none_iff.mpr h.opens, hchannels]
  · rfl
  · exact Peer.stop?_eq_none_iff.mpr h.executes
  · simp only [verdict, hcollection]
  · simp only [verdict, hcollection]
  · exact Peer.stop?_eq_none_iff.mpr h.closes
  · exact Peer.stop?_eq_none_iff.mpr h.exits

end Connection
end HostKit
