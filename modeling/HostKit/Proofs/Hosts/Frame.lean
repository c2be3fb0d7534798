import HostKit.Proofs.Hosts.Effects

/-!
# What operations of a registry leave alone

An operation touches the place that the hosts path names, the one that links lead to from there,
and the lock file. Every other place keeps its item, so no temporary file is left either. The
lock file is made empty and not written, unless the hosts path leads to it; a file that is
replaced keeps its permission bits; and what only looks, or is refused, changes nothing.
-/

namespace HostKit.HostRegistry

open HostKit.Action Files HostsFile

variable {registry : HostRegistry} {machine after : Machine} {files : Files} {α : Type}
variable {outcome : Except Stop α} {place l k : Location}

/-- The places that operations of the registry may touch. -/
def Concerns (registry : HostRegistry) (files : Files) (place : Location) : Prop :=
  files.Names registry.path place ∨ files.Opens registry.path place ∨ registry.LocksAt files place

/-- The call asks for no change. -/
def Request.IsLook : Request → Prop
  | .contains _ | .nameOf _ | .entries => True
  | .add _ _ | .remove _ | .set _ _ => False

/-! ## How calls end -/

/-- A look changes nothing. -/
theorem Request.keeps_look {request : Request} (h : request.IsLook) :
    Keeps id (request.action registry) := by
  cases request with
  | contains ip => exact (keeps_contains registry ip).bind fun _ => keeps_pure _
  | nameOf ip => exact (keeps_hostname? registry ip).bind fun _ => keeps_pure _
  | entries => exact (keeps_entries registry).bind fun _ => keeps_pure _
  | add ip hostname => exact h.elim
  | remove ip => exact h.elim
  | set ip hostname => exact h.elim

/-- A call ends like an action that takes the lock. -/
theorem Request.ends {request : Request} {outcome : Except Stop Answer}
    (hfiles : machine.files.WellFormed)
    (hrun : runOn (request.action registry) machine = (outcome, after)) :
    Ends registry machine outcome after := by
  cases request with
  | add ip hostname => exact (locked_add registry ip hostname).ends hfiles hrun
  | remove ip => exact (locked_remove registry ip).ends hfiles hrun
  | set ip hostname => exact (locked_set registry ip hostname).ends hfiles hrun
  | contains ip => exact .early ((@keeps_look registry (.contains ip) trivial).eq hrun)
  | nameOf ip => exact .early ((@keeps_look registry (.nameOf ip) trivial).eq hrun)
  | entries => exact .early ((@keeps_look registry .entries trivial).eq hrun)

/-- Without a file at the end of the path, a removal changes nothing. -/
theorem Request.remove_missing {ip : Text} {outcome : Except Stop Answer} {e : IoError}
    (hfind : machine.files.find registry.path = .error e)
    (hrun : runOn (Request.action registry (.remove ip)) machine = (outcome, after)) :
    after = machine := by
  have hlook : runOn (look (·.find registry.path)) machine =
      (.error (.failure (.io e)), machine) := runOn_look_error hfind
  have hremove : runOn (registry.remove ip) machine = (.error (.failure (.io e)), machine) := by
    rw [HostRegistry.remove, runOn_bind_error hlook]
  rw [Request.action, runOn_bind_error hremove] at hrun
  exact (Prod.mk.inj hrun).2.symm

/-! ## The frame -/

/-- The setting is what it was. -/
theorem Ends.setting (h : Ends registry machine outcome after) :
    after.files.setting = machine.files.setting := by
  cases h with
  | early heq => rw [heq]
  | failed k e hk _ _ halike =>
    exact halike.setting.trans (grows_ensureFile hk.isEnd).setting
  | done k a hk _ hwrites =>
    exact hwrites.setting.trans (grows_ensureFile hk.isEnd).setting

/-- A place that the operation does not concern keeps its item. -/
theorem Ends.item?_of_not_concerns (hfiles : machine.files.WellFormed)
    (h : Ends registry machine outcome after) (hplace : ¬registry.Concerns machine.files place) :
    after.files.item? place = machine.files.item? place := by
  cases h with
  | early heq => rw [heq]
  | failed k e hk _ _ halike =>
    have hne : place ≠ k := fun heq => hplace (.inr (.inr (heq ▸ hk)))
    rw [halike.item?, item?_ensureFile_of_ne hk.isEnd hne]
  | done k a hk _ hwrites =>
    have hne : place ≠ k := fun heq => hplace (.inr (.inr (heq ▸ hk)))
    have hgrows := grows_ensureFile hk.isEnd
    rw [hwrites.item?_of_not (hfiles.ensureFile hk)
      (fun hopens => hplace (.inr (.inl (hopens.of_grows hfiles hgrows))))
      (fun hnames => hplace (.inl (hnames.of_grows hfiles hgrows))),
      item?_ensureFile_of_ne hk.isEnd hne]

/-- A lock file that is made sure of is as it was, or new and empty. -/
theorem item?_ensureFile_self (hk : registry.LocksAt files k) :
    (files.ensureFile k).item? k = files.item? k ∨
      files.item? k = none ∧
        (files.ensureFile k).item? k = some (.file files.setting.newFileMode []) := by
  by_cases hnone : files.item? k = none
  · refine .inr ⟨hnone, ?_⟩
    rw [exists_item?_ensureFile hk.isEnd, hnone]
    rfl
  · exact .inl (item?_ensureFile_of_some hk.isEnd hnone)

/-- A lock file that the hosts path does not lead to is as it was, or new and empty. -/
theorem Ends.item?_lock (hfiles : machine.files.WellFormed)
    (h : Ends registry machine outcome after) (hk : registry.LocksAt machine.files k)
    (hapart : ¬machine.files.Opens registry.path k) :
    after.files.item? k = machine.files.item? k ∨
      machine.files.item? k = none ∧
        after.files.item? k = some (.file machine.files.setting.newFileMode []) := by
  have hgrows := grows_ensureFile hk.isEnd
  cases h with
  | early heq => exact .inl (heq ▸ rfl)
  | failed k' e hk' _ _ halike =>
    obtain rfl := Opens.unique hk hk'
    rw [halike.item?]
    exact item?_ensureFile_self hk
  | done k' a hk' _ hwrites =>
    obtain rfl := Opens.unique hk hk'
    rw [hwrites.item?_of_not (hfiles.ensureFile hk)
      (fun hopens => hapart (hopens.of_grows hfiles hgrows))
      (fun hnames => hapart ((hnames.of_grows hfiles hgrows).opens hk.isEnd))]
    exact item?_ensureFile_self hk

/-- After a success, a file that the hosts path opens is still one with its permission bits. -/
theorem Ends.exists_file {a : α} (h : Ends registry machine outcome after)
    (houtcome : outcome = .ok a) (hopens : machine.files.Opens registry.path l) {mode : Nat}
    {content : Bytes} (hitem : machine.files.item? l = some (.file mode content)) :
    ∃ content, after.files.item? l = some (.file mode content) := by
  cases h with
  | early heq => exact ⟨content, heq ▸ hitem⟩
  | failed k e _ herror => simp [houtcome] at herror
  | done k b hk _ hwrites =>
    have hlocked : (machine.files.ensureFile k).item? l = some (.file mode content) :=
      (item?_ensureFile_of_some hk.isEnd (by simp [hitem])).trans hitem
    exact hwrites.exists_file (hopens.grows (grows_ensureFile hk.isEnd)) hlocked

/-- A refused argument changes nothing. -/
theorem Ends.eq_of_isInvalidArgument (h : Ends registry machine outcome after) {failure : Failure}
    (houtcome : outcome = .error (.failure failure)) (hinvalid : failure.isInvalidArgument = true) :
    after = machine := by
  cases h with
  | early heq => exact heq
  | failed k e _ herror =>
    rw [houtcome] at herror
    obtain rfl := Stop.failure.inj (Except.error.inj herror)
    cases hinvalid
  | done k a _ hok =>
    rw [houtcome] at hok
    cases hok

/-- However a call ends, places that it does not concern keep their items, and a lock file that the
hosts path does not lead to is as it was, or new and empty. A look, a refused argument and a
removal that finds nothing change nothing at all, and after a success the hosts file has the
permission bits that it had. -/
theorem call_frame {request : Request} {outcome : Except Stop Answer}
    (hfiles : machine.files.WellFormed)
    (hrun : runOn (request.action registry) machine = (outcome, after)) :
    after.files.setting = machine.files.setting ∧
    (∀ place, ¬registry.Concerns machine.files place →
      after.files.item? place = machine.files.item? place) ∧
    (∀ k, registry.LocksAt machine.files k → ¬machine.files.Opens registry.path k →
      after.files.item? k = machine.files.item? k ∨
        machine.files.item? k = none ∧
          after.files.item? k = some (.file machine.files.setting.newFileMode [])) ∧
    (request.IsLook → after = machine) ∧
    (∀ failure, outcome = .error (.failure failure) → failure.isInvalidArgument = true →
      after = machine) ∧
    (∀ ip e, request = .remove ip → machine.files.find registry.path = .error e →
      after = machine) ∧
    ∀ answer l mode content, outcome = .ok answer → machine.files.Opens registry.path l →
      machine.files.item? l = some (.file mode content) →
      ∃ content, after.files.item? l = some (.file mode content) := by
  have hends := Request.ends hfiles hrun
  refine ⟨hends.setting, fun place => hends.item?_of_not_concerns hfiles,
    fun k => hends.item?_lock hfiles, fun hlook => (Request.keeps_look hlook).eq hrun,
    fun failure => hends.eq_of_isInvalidArgument, ?_,
    fun answer l mode content houtcome hopens hitem => hends.exists_file houtcome hopens hitem⟩
  rintro ip e rfl hfind
  exact Request.remove_missing hfind hrun

/-- A replacement in a file that is alone makes no lock file but an empty one, keeps the permission
bits of the file and leaves all other places alone. -/
theorem set_frame_alone :
    (flat (alone mixedText)).WellFormed ∧
      ∃ after, runOn (Request.action plain (.set "10.0.0.1".toList "b".toList))
          (.resting (flat (alone mixedText))) = (.ok .done, after) ∧
        (∀ place, place ≠ plainPlace → place ≠ plainLock →
          after.files.item? place = (flat (alone mixedText)).item? place) ∧
        (after.files.item? plainLock = none ∨
          after.files.item? plainLock = some (.file 0o644 [])) ∧
        ∃ content, after.files.item? plainPlace = some (.file 0o644 content) := by
  have hholds : plain.Holds (Machine.resting (flat (alone mixedText))).files plainPlace
      (some mixedText) := holds_alone mixedText
  have hk : plain.LocksAt (Machine.resting (flat (alone mixedText))).files plainLock :=
    locksAt_alone mixedText
  have hitem : (flat (alone mixedText)).item? plainPlace =
      some (.file 0o644 (Utf8.encode mixedText)) := by rfl
  have hnames : (flat (alone mixedText)).Names plain.path plainPlace :=
    names_flat (by decide) hholds.opens.isEnd
  have hentry : HostEntry.make "10.0.0.1".toList "b".toList =
      .ok ⟨"10.0.0.1".toList, "b".toList⟩ := by rfl
  obtain ⟨after, hset, -, -⟩ := hholds.runOn_set hentry hk (fits_flat hk)
  have hrun : runOn (Request.action plain (.set "10.0.0.1".toList "b".toList))
      (.resting (flat (alone mixedText))) = (.ok .done, after) := runOn_bind_ok hset _
  obtain ⟨-, hframe, hlock, -, -, -, hmode⟩ := call_frame hholds.wellFormed hrun
  have hapart : ¬(flat (alone mixedText)).Opens plain.path plainLock :=
    fun hopens => absurd (Opens.unique hopens hholds.opens) (by decide)
  refine ⟨hholds.wellFormed, after, hrun, fun place hplace hplace' => hframe place ?_, ?_,
    hmode _ _ _ _ rfl hholds.opens hitem⟩
  · rintro (hname | hopens | hlocks)
    · exact hplace (hname.unique hnames)
    · exact hplace (hopens.unique hholds.opens)
    · exact hplace' (Opens.unique hlocks hk)
  · have hnone : (flat (alone mixedText)).item? plainLock = none := by rfl
    exact (hlock plainLock hk hapart).imp (fun hsame => hsame.trans hnone) And.right

/-- The root directory with a hosts file that is a link to its own lock file. -/
def circular : List (Text × Item) := [("hosts".toList, .link "hosts.lock".toList)]

/-- The new lock file is not empty where the hosts path leads to it. -/
theorem circular_lock_ne_nil :
    (flat circular).WellFormed ∧ plain.LocksAt (flat circular) plainLock ∧
      (flat circular).item? plainLock = none ∧
      ∃ after, runOn (Request.action plain (.add "10.0.0.1".toList "a".toList))
          (.resting (flat circular)) = (.ok .done, after) ∧
        after.files.item? plainLock =
          some (.file 0o644 (Utf8.encode "10.0.0.1\ta\n".toList)) ∧
        ¬(after.files.item? plainLock = none ∨
          after.files.item? plainLock = some (.file 0o644 [])) := by
  have hlink : (flat circular).item? plainPlace = some (.link "hosts.lock".toList) := by rfl
  have hnone : (flat circular).item? plainLock = none := by rfl
  have hend : IsEnd ((flat circular).item? plainLock) := isEnd_iff.mpr (.inl hnone)
  have hk : plain.LocksAt (Machine.resting (flat circular)).files plainLock := locksAt_flat hend
  have hopens : (Machine.resting (flat circular)).files.Opens plain.path plainLock := by
    refine ⟨resolve_eq_ok_iff.mpr ⟨by decide, ?_⟩, hend⟩
    rw [Machine.resting_files, foundAt_of_none hnone]
    exact .jump (Genuine.lookedUp (by decide)) hlink (by decide) (by decide)
      (.absent (Genuine.lookedUp (by decide)) hnone)
  have hentry : HostEntry.make "10.0.0.1".toList "a".toList =
      .ok ⟨"10.0.0.1".toList, "a".toList⟩ := by rfl
  obtain ⟨passed, final, hadd, hfinal⟩ := runOn_add hentry hk hopens
  have hitem : final.item? plainLock =
      some (.file 0o644 (Utf8.encode "10.0.0.1\ta\n".toList)) := by
    rw [hfinal.item?, item?_insert (by decide), if_pos rfl]
    rfl
  refine ⟨wellFormed_flat_of_all (by decide), hk, hnone, _, runOn_bind_ok hadd _, hitem, ?_⟩
  rw [Machine.logged_files, Machine.through_files, hitem]
  rintro (h | h)
  · cases h
  · cases h

end HostKit.HostRegistry
