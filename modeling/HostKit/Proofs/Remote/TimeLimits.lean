import HostKit.Proofs.Remote.Runs

/-!
# Time limits

A session has a time limit for each of its calls, in whole milliseconds, and a limit of zero is
none. Opening a session sets it to the time that connecting may take, and running a command to the
timeout of the command, if it has one. A length of time becomes a limit by leaving out what is less
than a millisecond, so a limit does not exceed the time asked for, and a time below a millisecond
becomes no limit at all.
-/

namespace HostKit

/-- The time limit that a call sets. -/
def Call.limit? : Call → Option Nat
  | .setTimeout millis => some millis
  | _ => none

/-- The time limits that calls set, in order. -/
def Call.limits (calls : List Call) : List Nat := calls.filterMap Call.limit?

namespace Duration

variable {d e n : Nat}

/-- A limit is the whole milliseconds of a length of time, or the largest number of 32 bits if there
are more. -/
theorem millis32_eq (d : Nat) :
    millis32 d = if d / 1000000 ≤ Word.largest 32 then d / 1000000 else Word.largest 32 := by
  rw [millis32, Nat.min_def]

/-- A length of time has no whole millisecond in it exactly if it is below one. -/
theorem millis32_eq_zero_iff : millis32 d = 0 ↔ d < ofMillis 1 := by
  have hlargest : Word.largest 32 ≠ 0 := by decide
  change millis32 d = 0 ↔ d < 1000000
  rw [millis32_eq]
  split <;> omega

/-- A longer time does not become a shorter limit. -/
theorem millis32_mono (h : d ≤ e) : millis32 d ≤ millis32 e := by
  have hdiv : d / 1000000 ≤ e / 1000000 := Nat.div_le_div_right h
  rw [millis32_eq, millis32_eq]
  split <;> split <;> omega

/-- A limit does not exceed any number of milliseconds that the time fits into, and it is held in 32
bits. -/
theorem millis32_le (h : d ≤ ofMillis n) : millis32 d ≤ min n (Word.largest 32) := by
  have hfits : d ≤ n * 1000000 := h
  rw [millis32_eq]
  split <;> omega

end Duration

namespace Connection

open HostKit.Action

variable {α : Type} {machine : Machine} {row later : List Call} {verdict : Call → Option Stop}
variable {action : Action α}

/-- An action on a machine sets some time limits, in order, and no others. -/
def Sets (action : Action α) (machine : Machine) (limits : List Nat) : Prop :=
  Call.limits (runOn action machine).2.calls = Call.limits machine.calls ++ limits

/-- An action sets the limits of the calls it goes through. -/
theorem sets_of_plays {P : α → Machine → Prop} (h : Plays verdict row P action machine) :
    Sets action machine (Call.limits (Call.upTo verdict row)) := by
  rw [Sets, h.calls, Call.limits, Call.limits, List.filterMap_append]
  rfl

/-- Calls that set no limit set none wherever they end. -/
theorem limits_upTo_eq_nil (h : ∀ c ∈ row, c.limit? = none) :
    Call.limits (Call.upTo verdict row) = [] :=
  List.filterMap_eq_nil_iff.mpr fun c hc => h c (Call.mem_of_mem_upTo hc)

/-- If no other call of a row sets a limit, that of the first one is the only limit. -/
theorem limits_upTo_setTimeout {millis : Nat} (hverdict : verdict (.setTimeout millis) = none)
    (h : ∀ c ∈ later, c.limit? = none) :
    Call.limits (Call.upTo verdict (.setTimeout millis :: later)) = [millis] := by
  have hlater : Call.limits (Call.upTo verdict later) = [] := limits_upTo_eq_nil h
  rw [Call.upTo, hverdict]
  exact congrArg (millis :: ·) hlater

/-- The time limit that a timeout becomes, zero if there is none. -/
def sessionLimit (timeout : Option Duration) : Nat := (timeout.map Duration.millis32).getD 0

/-- A limit is zero exactly if there is no timeout or one below a millisecond. -/
theorem sessionLimit_eq_zero_iff {timeout : Option Duration} :
    sessionLimit timeout = 0 ↔ ∀ d, timeout = some d → d < Duration.ofMillis 1 := by
  cases timeout with
  | none => simp [sessionLimit]
  | some d => simp [sessionLimit, Duration.millis32_eq_zero_iff]

/-- Running a command sets the limit that its timeout becomes. -/
theorem sets_execute (command : Text) (options : CommandOptions) (machine : Machine) :
    Sets (execute command options) machine [sessionLimit options.timeout] := by
  have hsets := sets_of_plays (plays_execute command options machine)
  rw [commandRow, startRow] at hsets
  simp only [List.cons_append, List.nil_append, List.append_assoc] at hsets
  rwa [limits_upTo_setTimeout rfl] at hsets
  intro c hc
  simp only [List.mem_cons, List.mem_append, List.mem_map, List.not_mem_nil, or_false] at hc
  rcases hc with rfl | ⟨_, -, rfl⟩ | rfl | rfl | rfl | rfl | rfl <;> rfl

/-- The host stands for an address, by itself or by its name, and is reached there in the time that
connecting may take. -/
def Reaches (target : ConnectionOptions) (machine : Machine) : Prop :=
  ∃ address, target.socketAddress machine.lookup = .ok address ∧
    (runOn (connect address target.connectTimeout) machine).1 = .ok ()

/-- A host is reached if its address is found and connecting to it succeeds. -/
theorem Reaches.runOn_reach {target : ConnectionOptions} (h : Reaches target machine) :
    (runOn (reach target) machine).1 = .ok () := by
  obtain ⟨address, haddress, hconnect⟩ := h
  rw [reach, runOn_bind_ok (runOn_get machine), haddress]
  exact hconnect

/-- No host is reached in no time. -/
theorem Reaches.pos {target : ConnectionOptions} (h : Reaches target machine) :
    0 < target.connectTimeout := by
  obtain ⟨address, -, hconnect⟩ := h
  refine Nat.pos_of_ne_zero fun hzero => ?_
  unfold connect at hconnect
  rw [runOn_bind_ok (runOn_get machine)] at hconnect
  cases hnetwork : machine.network address with
  | failsAtOnce error =>
    rw [hnetwork] at hconnect
    cases hconnect
  | settles delay outcome =>
    rw [hnetwork] at hconnect
    simp only [hzero, if_pos] at hconnect
    cases hconnect

/-- Opening a session sets the time that connecting may take as the limit, as soon as the host is
reached and there is a session. -/
theorem sets_openTo {target : ConnectionOptions} (h : Reaches target machine)
    (hsession : machine.peer.refusal? .newSession = none) :
    Sets (openTo target) machine [sessionLimit (some target.connectTimeout)] := by
  have hsets := sets_of_plays (plays_openTo h.runOn_reach)
  have hfirst : machine.peer.stop? .newSession = none := Peer.stop?_eq_none_iff.mpr hsession
  have hstream : machine.peer.stop? .setStream = none := rfl
  have hauth : (authCall target.user target.auth).limit? = none := by
    cases target.auth <;> rfl
  have hlimits : Call.limits (Call.upTo machine.peer.stop? (openRow target)) =
      [sessionLimit (some target.connectTimeout)] := by
    rw [openRow, Call.upTo, hfirst, Call.upTo, hstream]
    refine limits_upTo_setTimeout rfl ?_
    exact List.forall_mem_cons.mpr ⟨rfl, List.forall_mem_singleton.mpr hauth⟩
  rwa [hlimits] at hsets

/-- A command sets the one limit that its timeout becomes, and a session that is opened the one that
the time for connecting becomes, as soon as the host has been reached, which takes some time. The
limit of zero stands for a missing timeout alone exactly if the timeout, where there is one, is not
below a millisecond, and a session that is opened has a limit exactly if the time for connecting is
not below one. Limits do not decrease as the times grow, they do not exceed the times in
milliseconds when these are rounded up, and they stay within 32 bits. -/
theorem sessionLimit_meets_iff (command : Text) (options : CommandOptions)
    (target : ConnectionOptions) (machine : Machine) :
    Sets (execute command options) machine [sessionLimit options.timeout] ∧
    ((sessionLimit options.timeout = 0 ↔ options.timeout = none) ↔
      ∀ d, options.timeout = some d → Duration.ofMillis 1 ≤ d) ∧
    (Reaches target machine → machine.peer.refusal? .newSession = none →
      Sets (openTo target) machine [sessionLimit (some target.connectTimeout)] ∧
        0 < target.connectTimeout) ∧
    (sessionLimit (some target.connectTimeout) ≠ 0 ↔
      Duration.ofMillis 1 ≤ target.connectTimeout) ∧
    (∀ d e, d ≤ e → sessionLimit (some d) ≤ sessionLimit (some e)) ∧
    ∀ d n, d ≤ Duration.ofMillis n → sessionLimit (some d) ≤ min n (Word.largest 32) := by
  refine ⟨sets_execute command options machine, ?_, ?_, ?_, ?_, ?_⟩
  · cases options.timeout with
    | none => simp [sessionLimit]
    | some d => simp [sessionLimit_eq_zero_iff]
  · intro hreaches hsession
    exact ⟨sets_openTo hreaches hsession, hreaches.pos⟩
  · simp [sessionLimit_eq_zero_iff]
  · intro d e h
    exact Duration.millis32_mono h
  · intro d n h
    exact Duration.millis32_le h

/-- Half a millisecond becomes no limit, for a command as for a session that is opened. -/
theorem half_millisecond_unlimited :
    Call.limits (runOn (execute "true" { timeout := some 500000 })
        (.facing ⟨[], [silent]⟩)).2.calls = [0] ∧
      Call.limits (runOn (openTo { guest with connectTimeout := 500000 })
        (.facing ⟨[], [silent]⟩)).2.calls = [0] := by
  obtain ⟨hcommand, -, hopen, -⟩ :=
    sessionLimit_meets_iff "true" { timeout := some 500000 }
      { guest with connectTimeout := 500000 } (.facing ⟨[], [silent]⟩)
  have hsession := (hopen ⟨⟨.v4 127 0 0 1, 22⟩, rfl, rfl⟩ rfl).1
  have hzero : sessionLimit (some 500000) = 0 := sessionLimit_eq_zero_iff.mpr fun d hd => by
    rw [← Option.some.inj hd]
    decide
  rw [Sets, hzero] at hcommand hsession
  exact ⟨hcommand, hsession⟩

end Connection
end HostKit
