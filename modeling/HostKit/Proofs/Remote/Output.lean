import HostKit.Proofs.Remote.Calls
import HostKit.Proofs.Remote.Streams

/-!
# The output of a command

What a command has written comes back as its streams hold it. Each stream is decoded as a whole, so
neither where its data was cut nor how the two streams took turns shows in the output.
-/

namespace HostKit.Connection

open HostKit.Action Collect

variable {machine : Machine} {command : Text} {options : CommandOptions} {channel : Channel}

/-- The output of a command is all that its streams hold, each decoded as a whole. -/
theorem Serves.runOn_execute (h : Serves machine command channel)
    (htimeout : options.timeout = none) (hsteady : Steady (.ofChannel channel)) :
    (runOn (execute command options) machine).1 =
      .ok ⟨Utf8.decodeLossy (contents channel.stdout), Utf8.decodeLossy (contents channel.stderr),
        channel.status⟩ := by
  have hcollect : (runOn (collectOutput channel options.timeout) machine).1 =
      .ok (.ok (contents channel.stdout, contents channel.stderr)) := by
    rw [htimeout, runOn_collectOutput_none]
    exact congrArg Except.ok
      (collect_of_steady machine.clock ⟨machine.readings, .ofChannel channel⟩ hsteady)
  have hplays := plays_execute command options machine
  obtain ⟨output, houtput, channel', stdout, stderr, hchannel, hcollect', rfl⟩ :=
    hplays.succeeds (h.verdict_eq_none hcollect)
  obtain rfl := Option.some.inj (h.next.symm.trans hchannel)
  rw [hcollect] at hcollect'
  cases hcollect'
  exact houtput

/-- The output of a command is complete and does not depend on how its data was cut: without a
timeout it is all that the streams hold, each decoded as a whole, and another far end whose streams
hold the same and whose status is the same makes no difference. -/
theorem output_of_contents {other : Machine} {channel' : Channel}
    (htimeout : options.timeout = none)
    (h : Serves machine command channel) (hsteady : Steady (.ofChannel channel))
    (h' : Serves other command channel') (hsteady' : Steady (.ofChannel channel')) :
    (runOn (execute command options) machine).1 =
      .ok ⟨Utf8.decodeLossy (contents channel.stdout), Utf8.decodeLossy (contents channel.stderr),
        channel.status⟩ ∧
    (contents channel'.stdout = contents channel.stdout →
      contents channel'.stderr = contents channel.stderr → channel'.status = channel.status →
      (runOn (execute command options) other).1 = (runOn (execute command options) machine).1) := by
  refine ⟨h.runOn_execute htimeout hsteady, fun hout herr hstatus => ?_⟩
  rw [h.runOn_execute htimeout hsteady, h'.runOn_execute htimeout hsteady', hout, herr, hstatus]

/-- A channel that delivers a character of two bytes in two parts, each after a pause. -/
def hesitant : Channel :=
  ⟨[.wouldBlock, .data [0xc3], .wouldBlock, .data [0xa9]], [.data [120]], 4, 0, []⟩

/-- A channel that delivers the same at once. -/
def fluent : Channel := ⟨[.data [0xc3, 0xa9]], [.data [120]], 0, 0, []⟩

/-- A character that is cut in two comes back as one. -/
theorem hesitant_output_eq_fluent :
    (runOn (execute "true" {}) (.facing ⟨[], [hesitant]⟩)).1 = .ok ⟨['é'], ['x'], 0⟩ ∧
    (runOn (execute "true" {}) (.facing ⟨[], [fluent]⟩)).1 = .ok ⟨['é'], ['x'], 0⟩ := by
  have hserves (channel : Channel) : Serves (.facing ⟨[], [channel]⟩) "true" channel :=
    ⟨rfl, rfl, rfl, rfl, rfl⟩
  have hhesitant : Steady (.ofChannel hesitant) := by
    have hrestOut : remaining hesitant.stdout 4 = [] := by rfl
    have hrestErr : remaining hesitant.stderr 4 = [] := by rfl
    refine ⟨?_, ?_, hrestOut ▸ .nil, hrestErr ▸ .nil⟩ <;>
      simp [hesitant, Progress.ofChannel, Faultless]
  have hfluent : Steady (.ofChannel fluent) := by
    refine ⟨?_, ?_, ?_, ?_⟩ <;>
      simp [fluent, Progress.ofChannel, Faultless, Prompt, remaining]
  have htimeout : ({} : CommandOptions).timeout = none := rfl
  obtain ⟨houtput, hsame⟩ :=
    output_of_contents htimeout (hserves hesitant) hhesitant (hserves fluent) hfluent
  have htext : Utf8.decodeLossy (contents hesitant.stdout) = ['é'] := by decide +kernel
  have herror : Utf8.decodeLossy (contents hesitant.stderr) = ['x'] := by decide +kernel
  rw [htext, herror] at houtput
  exact ⟨houtput, (hsame rfl rfl rfl).trans houtput⟩

end HostKit.Connection
