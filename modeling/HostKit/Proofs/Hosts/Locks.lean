import HostKit.Proofs.Files.Sidecars
import HostKit.Proofs.Hosts.Holding

/-!
# Which registries share a lock

Operations on a file take turns only if they open one lock file. The lock file belongs to the
name that a hosts path ends with, but what is written is the file that the links lead to from
there. Two registries with one file share their lock exactly if their paths name one place; a
registry whose path is a link to the file of another one has a lock of its own.
-/

namespace HostKit.HostRegistry

open Files

variable {p q : HostRegistry} {files : Files} {l k k' : Location}

/-- Of two registries with one file, each names the file or a link to it, and they share the lock
file if they name one place, and only then unless the lock file of one of them is a link. -/
theorem lock_shared_iff (hfiles : files.WellFormed) (hp : files.Opens p.path l)
    (hq : files.Opens q.path l) (hk : p.LocksAt files k) (hk' : q.LocksAt files k') :
    ∃ a b, files.Names p.path a ∧ files.Names q.path b ∧
      (a = l ∨ ∃ target, files.item? a = some (.link target)) ∧
      (b = l ∨ ∃ target, files.item? b = some (.link target)) ∧
      (a = b → k = k') ∧
      (k = k' → a = b ∨ (∃ target, files.item? (sidecarOf a) = some (.link target)) ∨
        ∃ target, files.item? (sidecarOf b) = some (.link target)) := by
  obtain ⟨a, ha, hafile⟩ := hp.exists_names hfiles
  obtain ⟨b, hb, hbfile⟩ := hq.exists_names hfiles
  refine ⟨a, b, ha, hb, hafile, hbfile, ?_, ?_⟩
  · rintro rfl
    exact ha.lock_unique hfiles hb hk hk'
  · rintro rfl
    rcases ha.eq_sidecarOf hfiles hk with hsidecar | hlink
    · rcases hb.eq_sidecarOf hfiles hk' with hsidecar' | hlink'
      · have hroot : a ≠ [] := (ha.isPlace hfiles).ne_root
        have hroot' : b ≠ [] := (hb.isPlace hfiles).ne_root
        exact .inl (sidecarOf_injective hroot hroot' (hsidecar.symm.trans hsidecar'))
      · exact .inr (.inr hlink')
    · exact .inr (.inl hlink)

/-- The root directory with a file and a link to it. -/
def linked : List (Text × Item) :=
  [("hosts".toList, .link "real".toList), ("real".toList, .file 0o644 [])]

/-- The registry of the file that the link leads to. -/
def real : HostRegistry := ⟨"real".toList⟩

/-- The registries of a file and of a link to it do not share their lock. -/
theorem linked_locks_ne :
    (flat linked).WellFormed ∧ (flat linked).Opens plain.path ["real".toList] ∧
      (flat linked).Opens real.path ["real".toList] ∧
      (flat linked).item? ["real".toList] ≠ none ∧
      plain.LocksAt (flat linked) plainLock ∧ real.LocksAt (flat linked) ["real.lock".toList] ∧
      plainLock ≠ ["real.lock".toList] ∧
      ∃ a b, (flat linked).Names plain.path a ∧ (flat linked).Names real.path b ∧ a ≠ b := by
  have hfiles : (flat linked).WellFormed := wellFormed_flat_of_all (by decide)
  have hfile : (flat linked).item? ["real".toList] = some (.file 0o644 []) := by rfl
  have hlink : (flat linked).item? plainPlace = some (.link "real".toList) := by rfl
  have hend : IsEnd ((flat linked).item? ["real".toList]) := isEnd_iff.mpr (.inr ⟨_, _, hfile⟩)
  have hreal : (flat linked).Opens real.path ["real".toList] :=
    (names_flat (by decide) hend).opens hend
  have hopens : (flat linked).Opens plain.path ["real".toList] := by
    refine ⟨resolve_eq_ok_iff.mpr ⟨by decide, ?_⟩, hend⟩
    rw [foundAt_of_some hfile]
    exact .jump (Genuine.lookedUp (by decide)) hlink (by decide) (by decide)
      (.file (Genuine.lookedUp (by decide)) hfile)
  have hk : plain.LocksAt (flat linked) plainLock := locksAt_flat (isEnd_iff.mpr (.inl (by rfl)))
  have hk' : real.LocksAt (flat linked) ["real.lock".toList] := by
    have hpath : PathText.lockPath real.path = "real.lock".toList := by decide
    have hnone : IsEnd ((flat linked).item? ["real.lock".toList]) :=
      isEnd_iff.mpr (.inl (by rfl))
    rw [LocksAt, hpath]
    exact (names_flat (by decide) hnone).opens hnone
  have hne : plainLock ≠ ["real.lock".toList] := by decide
  obtain ⟨a, b, ha, hb, -, -, hshared, -⟩ := lock_shared_iff hfiles hopens hreal hk hk'
  exact ⟨hfiles, hopens, hreal, hfile ▸ Option.some_ne_none _, hk, hk', hne, a, b, ha, hb,
    fun heq => hne (hshared heq)⟩

end HostKit.HostRegistry
