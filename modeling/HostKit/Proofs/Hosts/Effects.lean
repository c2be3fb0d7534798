import HostKit.Proofs.Files.Renaming
import HostKit.Proofs.Hosts.AbstractStore
import HostKit.Proofs.Machine.Stopping

/-!
# What an operation can do to the files

An operation that takes the lock does so after a part that changes nothing. From then on it stops
only with an input or output error, and leaves the files as it found them under the lock, without
the temporary file; or it ends well and has written at most one place, to which the hosts path
leads. Where the path opens a file, this file is what is written, with the permission bits it
had.
-/

namespace HostKit

namespace Files

variable {files after : Files} {path : Text}

/-- A temporary file comes to a place that was free. -/
theorem of_createTemporary {directory : Text} {temporary : Location}
    (h : files.createTemporary directory = .ok (temporary, after)) :
    temporary ≠ [] ∧ files.item? temporary = none ∧
      after = files.insert temporary (.file files.setting.temporaryMode []) := by
  unfold createTemporary at h
  split at h
  · cases h
  obtain ⟨⟨location, item⟩, -, h⟩ := Success.of_bind h
  split at h
  · next heq =>
    obtain ⟨rfl, rfl⟩ := Prod.mk.inj heq
    obtain ⟨rfl, rfl⟩ := Prod.mk.inj (Except.ok.inj h)
    obtain ⟨k, hlocation, hfree⟩ := item?_freeLocation files location
    rw [hlocation]
    exact ⟨by simp, hfree, rfl⟩
  · cases h

/-- A path without links is that of what the path finds. -/
theorem of_canonicalPath {target : Text} (h : files.canonicalPath path = .ok target) :
    ∃ l item, files.find path = .ok (l, item) := by
  unfold canonicalPath at h
  obtain ⟨found, hresolve, h⟩ := Success.of_bind h
  split at h
  · cases h
  split at h
  · exact ⟨_, _, by rw [find, hresolve]; rfl⟩
  · cases h

/-- A file is found at the end of a path that opens its place. -/
theorem Opens.of_find {l : Location} {mode : Nat} {content : Bytes}
    (h : files.find path = .ok (l, .file mode content)) :
    files.Opens path l ∧ files.item? l = some (.file mode content) := by
  unfold find at h
  obtain ⟨found, hresolve, h⟩ := Success.of_bind h
  split at h
  · obtain ⟨rfl, rfl⟩ := Prod.mk.inj (Except.ok.inj h)
    have hitem := (resolve_eq_ok_iff.mp hresolve).2.item?_present
    exact ⟨⟨foundAt_of_some hitem ▸ hresolve, isEnd_iff.mpr (.inr ⟨_, _, hitem⟩)⟩, hitem⟩
  · cases h

/-- What is read is the content of the file that is found. -/
theorem of_read {content : Bytes} (h : files.read path = .ok content) :
    ∃ l mode, files.find path = .ok (l, .file mode content) := by
  unfold read at h
  obtain ⟨⟨l, item⟩, hfind, h⟩ := Success.of_bind h
  split at h
  · next heq =>
    obtain ⟨rfl, rfl⟩ := Prod.mk.inj heq
    obtain rfl := Except.ok.inj h
    exact ⟨l, _, hfind⟩
  · cases h

/-- Where reading fails because nothing is there, nothing is found. -/
theorem find_ne_ok_of_read {e : IoError} (h : files.read path = .error e)
    (hkind : e.kind = .notFound) (found : Location × Item) : files.find path ≠ .ok found := by
  intro hfind
  obtain ⟨l, item⟩ := found
  rw [read, hfind, Success.bind_ok] at h
  split at h
  · cases h
  · obtain rfl := Except.error.inj h
    exact absurd hkind (by decide)

/-- What the path finds, if it finds anything, is a file. -/
def Legible (path : Text) (files : Files) : Prop :=
  ∀ l item, files.find path = .ok (l, item) → ∃ mode content, item = .file mode content

/-- What a success can leave of the files: all as it was, or something written at one place. If
the path opens a file, it is written there, and otherwise at the place that the path opens or
names. -/
inductive Writes (files : Files) (path : Text) (after : Files) : Prop where
  | nowhere (alike : Alike after files)
  | opened (l : Location) (mode : Nat) (content : Bytes) (opens : files.Opens path l)
      (alike : Alike after (files.insert l (.file (fileMode mode (files.item? l)) content)))
  | named (place : Location) (mode : Nat) (content : Bytes)
      (missing : ∀ l, files.Opens path l → files.item? l = none) (names : files.Names path place)
      (alike : Alike after (files.insert place (.file mode content)))

/-- Writing does not change the setting. -/
theorem Writes.setting (h : Writes files path after) : after.setting = files.setting := by
  cases h with
  | nowhere halike => exact halike.setting
  | opened l mode content _ halike => exact halike.setting
  | named place mode content _ _ halike => exact halike.setting

/-- A place that the path neither opens nor names keeps its item. -/
theorem Writes.item?_of_not (hfiles : files.WellFormed) (h : Writes files path after)
    {place : Location} (hopens : ¬files.Opens path place) (hnames : ¬files.Names path place) :
    after.item? place = files.item? place := by
  cases h with
  | nowhere halike => exact halike.item? place
  | opened l mode content hopened halike =>
    have hne : place ≠ l := fun heq => hopens (heq ▸ hopened)
    rw [halike.item?, item?_insert hopened.isEnd.ne_root, if_neg hne]
  | named l mode content _ hnamed halike =>
    have hne : place ≠ l := fun heq => hnames (heq ▸ hnamed)
    rw [halike.item?, item?_insert (hnamed.isPlace hfiles).ne_root, if_neg hne]

/-- A file that the path opens stays one with its permission bits. -/
theorem Writes.exists_file (h : Writes files path after) {l : Location} {mode : Nat}
    {content : Bytes} (hopens : files.Opens path l)
    (hitem : files.item? l = some (.file mode content)) :
    ∃ content, after.item? l = some (.file mode content) := by
  cases h with
  | nowhere halike => exact ⟨content, (halike.item? l).trans hitem⟩
  | opened l' mode' content' hopened halike =>
    obtain rfl := hopens.unique hopened
    refine ⟨content', ?_⟩
    rw [halike.item?, item?_insert hopened.isEnd.ne_root, if_pos rfl, hitem]
    rfl
  | named place mode' content' hmissing => simp [hmissing l hopens] at hitem

end Files

open HostKit.Action Files

namespace HostsFile

variable {machine after : Machine} {path target text : Text} {place temporary : Location}
variable {before : Files} {mode : Nat} {content : Bytes} {γ : Type} {part : Machine → γ}

/-! ## Reading -/

theorem keeps_orIfMissing {α : Type} {default : α} {action : Action α} (h : Keeps part action) :
    Keeps part (orIfMissing default action) := by
  refine h.attempt.bind fun outcome => ?_
  cases outcome with
  | ok a => exact keeps_pure a
  | error failure =>
    dsimp only
    split
    · exact keeps_pure default
    · exact keeps_fail failure

/-- Where a missing file is allowed, the action stops as without. -/
theorem stops_orIfMissing {α : Type} {default : α} {action : Action α}
    (h : Stops Stop.IsIo action) : Stops Stop.IsIo (orIfMissing default action) := by
  intro machine stop after hrun
  rcases runOn_bind_cases hrun with ⟨stop', hstop, hattempt⟩ | ⟨outcome, between, hattempt, hnext⟩
  · obtain rfl := Except.error.inj hstop
    exact (h.attempt machine _ after hattempt).1
  rcases runOn_attempt_cases hattempt with ⟨a, hok, -⟩ | ⟨failure, hok, hfail⟩ | ⟨_, herror, -⟩
  · obtain rfl := Except.ok.inj hok
    cases hnext
  · obtain rfl := Except.ok.inj hok
    have hio := h machine _ between hfail
    dsimp only at hnext
    split at hnext
    · cases hnext
    · obtain ⟨hstop, -⟩ := Prod.mk.inj hnext
      exact Except.error.inj hstop ▸ hio
  · cases herror

/-- A value comes from the action, or is the default after a failure because nothing is there. -/
theorem of_runOn_orIfMissing {α : Type} {default a : α} {action : Action α}
    (hrun : runOn (orIfMissing default action) machine = (.ok a, after)) :
    runOn action machine = (.ok a, after) ∨
      a = default ∧ ∃ failure, failure.ioKind? = some .notFound ∧
        runOn action machine = (.error (.failure failure), after) := by
  obtain ⟨outcome, between, hattempt, hnext⟩ := of_runOn_bind hrun
  rcases runOn_attempt_cases hattempt with ⟨a', hok, haction⟩ | ⟨failure, hok, haction⟩ | ⟨_, h, -⟩
  · obtain rfl := Except.ok.inj hok
    obtain ⟨ha, rfl⟩ := Prod.mk.inj hnext
    exact .inl (Except.ok.inj ha ▸ haction)
  · obtain rfl := Except.ok.inj hok
    dsimp only at hnext
    split at hnext
    · next hkind =>
      obtain ⟨ha, rfl⟩ := Prod.mk.inj hnext
      exact .inr ⟨(Except.ok.inj ha).symm, failure, hkind, haction⟩
    · cases hnext
  · cases h

theorem keeps_readLines (path : Text) : Keeps part (readLines path) := by
  refine Keeps.bind (Keeps.bind (keeps_look _) fun content => ?_) fun text => keeps_pure _
  cases Utf8.decode content with
  | ok text => exact keeps_pure text
  | error e => exact keeps_fail _

theorem stops_readLines (path : Text) : Stops Stop.IsIo (readLines path) := by
  refine Stops.bind (Stops.bind (stops_look Stop.isIo_io) fun content => ?_) fun text =>
    stops_pure _
  cases Utf8.decode content with
  | ok text => exact stops_pure text
  | error e => exact stops_fail (Stop.isIo_io _)

/-- Lines are read from a file. -/
theorem legible_of_runOn_readLines {lines : List Text}
    (hrun : runOn (readLines path) machine = (.ok lines, after)) :
    Legible path machine.files := by
  intro l item hfind
  obtain ⟨_, _, htext, -⟩ := of_runOn_bind hrun
  obtain ⟨content, _, hlook, -⟩ := of_runOn_bind htext
  obtain ⟨l', mode, hfind'⟩ := of_read (of_runOn_look hlook).1
  rw [hfind] at hfind'
  obtain ⟨-, rfl⟩ := Prod.mk.inj (Except.ok.inj hfind')
  exact ⟨mode, content, rfl⟩

/-- If no lines are read because nothing is there, nothing is found. -/
theorem find_ne_ok_of_runOn_readLines {failure : Failure}
    (hkind : failure.ioKind? = some .notFound)
    (hrun : runOn (readLines path) machine = (.error (.failure failure), after))
    (found : Location × Item) : machine.files.find path ≠ .ok found := by
  cases hread : machine.files.read path with
  | error e =>
    rw [runOn_readLines_error hread] at hrun
    obtain ⟨hstop, -⟩ := Prod.mk.inj hrun
    obtain rfl := Stop.failure.inj (Except.error.inj hstop)
    exact find_ne_ok_of_read hread (by simpa [Failure.ioKind?] using hkind) found
  | ok content =>
    cases hdecode : Utf8.decode content with
    | ok text =>
      have hlook : runOn (look (·.read path)) machine = (.ok content, machine) :=
        runOn_look_ok hread
      rw [readLines, readText, runOn_bind, runOn_bind_ok hlook, hdecode] at hrun
      cases hrun
    | error e =>
      rw [runOn_readLines_garbled hread hdecode] at hrun
      obtain ⟨hstop, -⟩ := Prod.mk.inj hrun
      obtain rfl := Stop.failure.inj (Except.error.inj hstop)
      cases hkind

/-- Where lines are read, or none because nothing is there, a path finds nothing but files. -/
theorem legible_of_runOn_readLinesOrEmpty {lines : List Text}
    (hrun : runOn (readLinesOrEmpty path) machine = (.ok lines, after)) :
    Legible path machine.files := by
  rcases of_runOn_orIfMissing hrun with hread | ⟨-, failure, hkind, hread⟩
  · exact legible_of_runOn_readLines hread
  · exact fun l item hfind => absurd hfind (find_ne_ok_of_runOn_readLines hkind hread (l, item))

/-! ## Replacing -/

theorem keeps_targetOf (path : Text) : Keeps part (targetOf path) :=
  keeps_orIfMissing (keeps_look _)

/-- The target of a replacement is a path without links, or the path where there is none. -/
theorem of_runOn_targetOf (hrun : runOn (targetOf path) machine = (.ok target, after)) :
    after = machine ∧ (machine.files.canonicalPath path = .ok target ∨
      target = path ∧ ∃ e, machine.files.canonicalPath path = .error e) := by
  refine ⟨Keeps.after_eq (keeps_targetOf path) hrun, ?_⟩
  rcases of_runOn_orIfMissing hrun with hlook | ⟨rfl, failure, -, hlook⟩
  · exact .inl (of_runOn_look hlook).1
  · cases hpath : machine.files.canonicalPath target with
    | error e => exact .inr ⟨rfl, e, rfl⟩
    | ok path' =>
      have hok : runOn (look (·.canonicalPath target)) machine = (.ok path', machine) :=
        runOn_look_ok hpath
      rw [hok] at hlook
      cases hlook

/-- The temporary file is written, or refused and then nothing is changed. -/
theorem runOn_writeTemporary_cases {outcome : Except Stop Location}
    (hrun : runOn (writeTemporary target text) machine = (outcome, after)) :
    (∃ e, outcome = .error (.failure (.io e)) ∧ after = machine) ∨
      ∃ temporary, outcome = .ok temporary ∧ temporary ≠ [] ∧
        machine.files.item? temporary = none ∧
        HasTemporary machine.files temporary machine.files.setting.temporaryMode
          (Utf8.encode text) after.files := by
  rcases runOn_bind_cases hrun with ⟨stop, rfl, hcreate⟩ | ⟨temporary, between, hcreate, hwrite⟩
  · rcases runOn_change_cases hcreate with ⟨e, -, hstop, rfl⟩ | ⟨_, _, -, hok, -⟩
    · exact .inl ⟨e, hstop, rfl⟩
    · cases hok
  rcases runOn_change_cases hcreate with ⟨e, -, hstop, -⟩ | ⟨temporary', files, hfiles, hok, rfl⟩
  · cases hstop
  obtain rfl := Except.ok.inj hok
  obtain ⟨hroot, hfree, rfl⟩ := of_createTemporary hfiles
  have hempty : HasTemporary machine.files temporary machine.files.setting.temporaryMode []
      (machine.files.insert temporary (.file machine.files.setting.temporaryMode [])) :=
    ⟨rfl, item?_insert hroot _⟩
  rw [runOn_bind_ok (runOn_change_ok rfl), Machine.through_files,
    modifyContent_of_file hempty.item?_self] at hwrite
  obtain ⟨rfl, rfl⟩ := Prod.mk.inj hwrite
  exact .inr ⟨temporary, rfl, hroot, hfree, hempty.insert hroot _ _⟩

/-- Only the temporary file's permission bits change while they are copied. -/
theorem exists_runOn_copyMode (target : Text) (hroot : temporary ≠ [])
    (h : HasTemporary before temporary mode content machine.files) :
    ∃ mode' after, runOn (copyMode temporary target) machine = (.ok (), after) ∧
      HasTemporary before temporary mode' content after.files := by
  cases hfind : machine.files.find target with
  | error e =>
    have hlook : runOn (look (·.find target)) machine = (.error (.failure (.io e)), machine) :=
      runOn_look_error hfind
    refine ⟨mode, machine, ?_, h⟩
    rw [copyMode, runOn_bind_ok (runOn_attempt_failure hlook)]
    rfl
  | ok found =>
    obtain ⟨l, item⟩ := found
    have hlook : runOn (look (·.find target)) machine = (.ok (l, item), machine) :=
      runOn_look_ok hfind
    have hset := h.insert hroot (modeOf item) content
    rw [← setMode_of_file h.item?_self] at hset
    refine ⟨modeOf item, machine.through [machine.files] (machine.files.setMode temporary
      (modeOf item)), ?_, hset⟩
    rw [copyMode, runOn_bind_ok (runOn_attempt_ok hlook), runOn_change_ok rfl]

/-- The temporary file is there in all files that are alike. -/
theorem HasTemporary.of_alike {files files' : Files}
    (h : HasTemporary before temporary mode content files) (halike : Alike files' files) :
    HasTemporary before temporary mode content files' where
  setting := halike.setting.trans h.setting
  item? l := (halike.item? l).trans (h.item? l)

/-- The temporary file is moved, or the content is written in place and the temporary file
discarded. -/
theorem runOn_moveOver_cases {outcome : Except Stop Unit}
    (hrun : runOn (moveOver temporary target text) machine = (outcome, after)) :
    (outcome = .ok () ∧ ∃ files, machine.files.rename temporary target = .ok files) ∨
      ∃ e record, machine.files.rename temporary target = .error e ∧
        runOn (Action.ensuring (writeInPlace target text) (discard temporary))
          (machine.logged .warn record) = (outcome, after) := by
  cases hrename : machine.files.rename temporary target with
  | ok files =>
    have hmove : runOn (change fun files => (files.rename temporary target).map ((), ·)) machine =
        (.ok (), machine.through [machine.files] files) :=
      runOn_change_ok (by simp [hrename, Except.map])
    rw [moveOver, runOn_bind_ok (runOn_attempt_ok hmove)] at hrun
    exact .inl ⟨(Prod.mk.inj hrun).1.symm, files, rfl⟩
  | error e =>
    obtain ⟨warning, hfallback⟩ := exists_runOn_moveOver_fallback text hrename
    exact .inr ⟨e, warning, rfl, hfallback ▸ hrun⟩

/-- A file that is written is one that the path opens. -/
theorem exists_opens_of_runOn_writeFile
    (hrun : runOn (writeFile path content) machine = (.ok (), after)) :
    ∃ l, machine.files.Opens path l := by
  unfold writeFile at hrun
  obtain ⟨l, between, hopen, -⟩ := of_runOn_bind hrun
  rcases runOn_change_cases hopen with ⟨_, -, herror, -⟩ | ⟨l', files, hopened, -, -⟩
  · cases herror
  obtain ⟨⟨l'', files'⟩, hcreate, -⟩ := Success.of_bind hopened
  exact ⟨l'', opens_of_openOrCreate hcreate⟩

section Moved

variable (hroot : temporary ≠ []) (hfree : before.item? temporary = none)
  (h : HasTemporary before temporary mode content machine.files)
include hroot hfree h

/-- If neither moving nor writing in place works, the temporary file is gone and all is as it
was. -/
theorem alike_of_runOn_moveOver_error {stop : Stop}
    (hrun : runOn (moveOver temporary target text) machine = (.error stop, after)) :
    Alike after.files before := by
  rcases runOn_moveOver_cases hrun with ⟨hok, -⟩ | ⟨e, record, -, hplace⟩
  · cases hok
  rcases hwrite : runOn (writeInPlace target text) (machine.logged .warn record) with
    ⟨outcome, between⟩
  rw [runOn_ensuring, hwrite] at hplace
  obtain ⟨rfl, rfl⟩ := Prod.mk.inj hplace
  obtain ⟨-, halike⟩ := unspoilt_writeFile target _ _ _ _ hwrite
  exact (h.of_alike halike).erase hroot hfree

/-- A success puts a file at the place that the target names: the temporary one is moved there, or
its content is written into a file that refuses the move. -/
theorem of_runOn_moveOver (hfiles : before.WellFormed)
    (hrun : runOn (moveOver temporary target text) machine = (.ok (), after)) :
    ∃ place mode' content', before.Names target place ∧
      Alike after.files (before.insert place (.file mode' content')) := by
  have hgrows := (h.gains hfree).grows
  rcases runOn_moveOver_cases hrun with ⟨-, files, hrename⟩ | ⟨e, record, hrename, hplace⟩
  · obtain ⟨place, item, hnames, -, -⟩ := Names.of_rename hfiles hgrows hrename
    have hrefusal : machine.files.refusal? temporary place = none := by
      rw [hnames.rename hfiles hgrows h.item?_self] at hrename
      cases hrefusal : machine.files.refusal? temporary place with
      | none => rfl
      | some e => simp [hrefusal] at hrename
    obtain ⟨files', hmove, halike⟩ :=
      runOn_moveOver machine text hfiles hroot hfree hnames h hrefusal
    obtain rfl := (Prod.mk.inj (hmove.symm.trans hrun)).2
    exact ⟨place, mode, content, hnames, halike⟩
  · -- What can be written in place is opened by the path, so a file there refuses the move.
    obtain ⟨hwrite, -⟩ := Prod.mk.inj hplace
    obtain ⟨l, hopens⟩ := exists_opens_of_runOn_writeFile (Prod.ext hwrite rfl)
    obtain ⟨hnames, hrefusal⟩ :=
      (Opens.of_grows hfiles hgrows hopens).of_rename_error hfiles hgrows h.item?_self hrename
    obtain ⟨⟨mode', old, hitem⟩, -⟩ :=
      (h.refusal?_eq_some_iff hfree hnames.not_directory).mp hrefusal
    obtain ⟨after', hmove, halike⟩ := runOn_moveOver_refused machine text hfiles hroot
      hfree hnames hitem h hrefusal
    obtain rfl := (Prod.mk.inj (hmove.symm.trans hrun)).2
    exact ⟨l, mode', _, hnames, halike⟩

end Moved

/-! ## Whole replacements -/

theorem stops_moveOver (temporary : Location) (target text : Text) :
    Stops Stop.IsIo (moveOver temporary target text) := by
  intro machine stop after hrun
  rcases runOn_moveOver_cases hrun with ⟨hok, -⟩ | ⟨e, record, -, hplace⟩
  · cases hok
  have hwrite : Stops Stop.IsIo (writeInPlace target text) :=
    (stops_change Stop.isIo_io).bind fun _ => stops_change Stop.isIo_io
  exact hwrite.ensuring (discard temporary) _ stop after hplace

theorem sure_copyMode (temporary : Location) (target : Text) :
    Sure (copyMode temporary target) := by
  have hlook : Sure (attempt (look (·.find target))) := by
    refine (stops_look Stop.isIo_io).attempt.mono ?_
    rintro stop ⟨⟨e, rfl⟩, message, hpanic⟩
    cases hpanic
  refine hlook.bind fun found => ?_
  cases found with
  | ok found => exact sure_change
  | error failure => exact stops_pure ()

theorem stops_writeLines (path : Text) (lines : List Text) :
    Stops Stop.IsIo (writeLines path lines) := by
  have hwrite (target : Text) : Stops Stop.IsIo (writeTemporary target (Text.unlines lines)) :=
    (stops_change Stop.isIo_io).bind fun _ => (stops_change Stop.isIo_io).bind fun _ =>
      stops_pure _
  exact (stops_orIfMissing (stops_look Stop.isIo_io)).bind fun target =>
    (hwrite target).bind fun temporary => (sure_copyMode temporary target).stops.bind fun _ =>
      stops_moveOver temporary target _

/-- A replacement ends before anything is changed, or with the move of a temporary file that holds
the lines. -/
theorem runOn_writeLines_cases {lines : List Text} {outcome : Except Stop Unit}
    (hrun : runOn (writeLines path lines) machine = (outcome, after)) :
    (∃ stop, outcome = .error stop ∧ after = machine) ∨
      ∃ target temporary mode copied, (machine.files.canonicalPath path = .ok target ∨
          target = path ∧ ∃ e, machine.files.canonicalPath path = .error e) ∧
        temporary ≠ [] ∧ machine.files.item? temporary = none ∧
        HasTemporary machine.files temporary mode (Utf8.encode (Text.unlines lines)) copied.files ∧
        runOn (moveOver temporary target (Text.unlines lines)) copied = (outcome, after) := by
  rcases runOn_bind_cases hrun with ⟨stop, hstop, htarget⟩ | ⟨target, between, htarget, hrest⟩
  · exact .inl ⟨stop, hstop, Keeps.after_eq (keeps_targetOf path) htarget⟩
  obtain ⟨rfl, hcanonical⟩ := of_runOn_targetOf htarget
  rcases runOn_bind_cases hrest with ⟨stop, hstop, hwrite⟩ | ⟨temporary, written, hwrite, hrest⟩
  · rcases runOn_writeTemporary_cases hwrite with ⟨e, -, rfl⟩ | ⟨_, hok, -⟩
    · exact .inl ⟨stop, hstop, rfl⟩
    · cases hok
  rcases runOn_writeTemporary_cases hwrite with ⟨e, herror, -⟩ | ⟨_, hok, hroot, hfree, htemporary⟩
  · cases herror
  obtain rfl := Except.ok.inj hok
  obtain ⟨mode, copied, hcopy, hcopied⟩ := exists_runOn_copyMode target hroot htemporary
  rw [runOn_bind_ok hcopy] at hrest
  exact .inr ⟨target, temporary, mode, copied, hcanonical, hroot, hfree, hcopied, hrest⟩

/-- Replacing the lines spoils nothing if it fails. -/
theorem alike_of_runOn_writeLines_error {lines : List Text} {stop : Stop}
    (hrun : runOn (writeLines path lines) machine = (.error stop, after)) :
    Alike after.files machine.files := by
  rcases runOn_writeLines_cases hrun with
    ⟨_, -, rfl⟩ | ⟨target, temporary, mode, copied, -, hroot, hfree, hcopied, hmove⟩
  · exact .refl _
  · exact alike_of_runOn_moveOver_error hroot hfree hcopied hmove

/-- Where the path finds no file, a success puts one at the name that the path ends with. -/
theorem of_runOn_writeLines_missing {lines : List Text} (hfiles : machine.files.WellFormed)
    (hmissing : ∀ target, machine.files.canonicalPath path ≠ .ok target)
    (hrun : runOn (writeLines path lines) machine = (.ok (), after)) :
    ∃ place mode content, machine.files.Names path place ∧
      Alike after.files (machine.files.insert place (.file mode content)) := by
  rcases runOn_writeLines_cases hrun with
    ⟨_, hstop, -⟩ | ⟨target, temporary, mode, copied, htarget, hroot, hfree, hcopied, hmove⟩
  · cases hstop
  obtain hcanonical | ⟨rfl, -⟩ := htarget
  · exact absurd hcanonical (hmissing target)
  exact of_runOn_moveOver hroot hfree hcopied hfiles hmove

/-- A replacement of what can be found only as a file writes at most one place. -/
theorem writes_of_runOn_writeLines {lines : List Text} (hfiles : machine.files.WellFormed)
    (hlegible : Legible path machine.files)
    (hrun : runOn (writeLines path lines) machine = (.ok (), after)) :
    Writes machine.files path after.files := by
  -- Links are followed to a file that is there; where there is none, the last name is replaced.
  by_cases hthere : ∃ l, machine.files.Opens path l ∧ machine.files.item? l ≠ none
  · obtain ⟨l, hopens, hitem⟩ := hthere
    obtain ⟨after', hrun', halike, -⟩ := runOn_writeLines machine hfiles hopens
      (.file hitem) (of_runOn_writeLines hfiles hopens hrun) lines
    obtain rfl := (Prod.mk.inj (hrun'.symm.trans hrun)).2
    exact .opened l machine.files.setting.temporaryMode _ hopens halike
  · have hmissing : ∀ l, machine.files.Opens path l → machine.files.item? l = none := by
      intro l hopens
      cases hitem : machine.files.item? l with
      | none => rfl
      | some item => exact absurd ⟨l, hopens, by simp [hitem]⟩ hthere
    have hcanonical : ∀ target, machine.files.canonicalPath path ≠ .ok target := by
      intro target htarget
      obtain ⟨l, item, hfind⟩ := of_canonicalPath htarget
      obtain ⟨mode, content, rfl⟩ := hlegible l item hfind
      obtain ⟨hopens, hitem⟩ := Opens.of_find hfind
      exact absurd (hmissing l hopens) (by simp [hitem])
    obtain ⟨place, mode, content, hnames, halike⟩ :=
      of_runOn_writeLines_missing hfiles hcanonical hrun
    exact .named place mode content hmissing hnames halike

/-! ## What is left alone -/

section Elsewhere

variable (hthrough : ∀ machine passed files, part (Machine.through machine passed files) =
  part machine) (hlogged : ∀ machine level text, part (Machine.logged machine level text) =
  part machine)
include hthrough

theorem keeps_writeTemporary (target text : Text) : Keeps part (writeTemporary target text) :=
  (keeps_change hthrough _).bind fun _ => (keeps_change hthrough _).bind fun _ => keeps_pure _

theorem keeps_copyMode (temporary : Location) (target : Text) :
    Keeps part (copyMode temporary target) := by
  refine (keeps_look _).attempt.bind fun found => ?_
  cases found with
  | ok found => exact keeps_change hthrough _
  | error failure => exact keeps_pure ()

include hlogged

theorem keeps_moveOver (temporary : Location) (target text : Text) :
    Keeps part (moveOver temporary target text) := by
  have hdiscard : Keeps part (discard temporary) := keeps_change hthrough _
  have hwrite : Keeps part (writeInPlace target text) :=
    (keeps_change hthrough _).bind fun _ => keeps_change hthrough _
  have hwarn (warning : Text) : Keeps part (log .warn warning) := fun machine =>
    hlogged machine _ _
  refine (keeps_change hthrough _).attempt.bind fun moved => ?_
  cases moved with
  | ok _ => exact keeps_pure ()
  | error failure =>
    cases failure with
    | io e => exact (hwarn _).bind fun _ => hwrite.ensuring hdiscard
    | _ => exact (keeps_fail _).ensuring hdiscard

/-- A replacement changes the files and the log only. -/
theorem keeps_writeLines (path : Text) (lines : List Text) : Keeps part (writeLines path lines) :=
  (keeps_targetOf path).bind fun target => (keeps_writeTemporary hthrough target _).bind
    fun temporary => (keeps_copyMode hthrough temporary target).bind fun _ =>
      keeps_moveOver hthrough hlogged temporary target _

end Elsewhere

theorem unspoilt_writeLines (path : Text) (lines : List Text) :
    Unspoilt (writeLines path lines) := by
  intro machine stop after hrun
  have hprinted : Keeps Machine.printed (writeLines path lines) :=
    keeps_writeLines (fun _ _ _ => rfl) (fun _ _ _ => rfl) path lines
  exact ⟨hprinted.eq hrun, alike_of_runOn_writeLines_error hrun⟩

/-! ## The part under the lock -/

/-- What is done under the lock: it stops only with an input or output error, spoils nothing when
it does, and otherwise writes at most one place, if the files are as it needs them. -/
structure Rewrites (path : Text) (P : Files → Prop) (action : Action Unit) : Prop where
  stops : Stops Stop.IsIo action
  unspoilt : Unspoilt action
  writes : ∀ {machine after}, machine.files.WellFormed → P machine.files →
    runOn action machine = (.ok (), after) → Writes machine.files path after.files

variable {P : Files → Prop}

/-- A record in the log writes nothing. -/
theorem rewrites_log (path : Text) (level : Level) (record : Text) :
    Rewrites path P (Action.log level record) where
  stops := stops_log level record
  unspoilt := Sure.unspoilt (stops_log level record)
  writes _ _ hrun := by
    rw [runOn_log] at hrun
    obtain ⟨-, rfl⟩ := Prod.mk.inj hrun
    exact .nowhere (.refl _)

theorem rewrites_writeLines (path : Text) (lines : List Text) :
    Rewrites path (Legible path) (writeLines path lines) where
  stops := stops_writeLines path lines
  unspoilt := unspoilt_writeLines path lines
  writes := writes_of_runOn_writeLines

theorem rewrites_appendLine (path line : Text) :
    Rewrites path (fun _ => True) (appendLine path line) where
  stops := (stops_orIfMissing (stops_look Stop.isIo_io)).bind fun _ =>
    (stops_change Stop.isIo_io).bind fun _ => stops_change Stop.isIo_io
  unspoilt := (keeps_orIfMissing (keeps_look _)).bind_unspoilt fun _ =>
    (unspoilt_change _).bind_sure fun _ => sure_change
  writes {machine after} _ _ hrun := by
    have happend := hrun
    unfold appendLine at hrun
    obtain ⟨content, between, hread, hrest⟩ := of_runOn_bind hrun
    obtain rfl : between = machine :=
      Keeps.after_eq (keeps_orIfMissing (keeps_look _)) hread
    obtain ⟨l, opened, hopen, -⟩ := of_runOn_bind hrest
    rcases runOn_change_cases hopen with ⟨_, -, herror, -⟩ | ⟨l', files, hcreate, -, -⟩
    · cases herror
    have hopens := opens_of_openOrCreate hcreate
    obtain ⟨passed, final, hrun', halike⟩ := runOn_appendLine between hopens line
    obtain rfl := (Prod.mk.inj (hrun'.symm.trans happend)).2
    exact .opened l' between.files.setting.newFileMode _ hopens halike

/-- A record in the log makes no difference. -/
theorem Rewrites.log {action : Action Unit} (h : Rewrites path P action) (level : Level)
    (record : Text) : Rewrites path P (action >>= fun _ => Action.log level record) where
  stops := h.stops.bind fun _ => stops_log level record
  unspoilt := h.unspoilt.bind_sure fun _ => stops_log level record
  writes {machine after} hfiles hP hrun := by
    obtain ⟨_, between, haction, hlog⟩ := of_runOn_bind hrun
    rw [runOn_log] at hlog
    obtain ⟨-, rfl⟩ := Prod.mk.inj hlog
    have hwrites : Writes machine.files path between.files := h.writes hfiles hP haction
    exact hwrites

/-- What needs legible files can be done after they have been read. -/
theorem Rewrites.reading {first : Action (List Text)} {next : List Text → Action Unit}
    (hkeeps : ∀ {γ : Type} {part : Machine → γ}, Keeps part first)
    (hstops : Stops Stop.IsIo first)
    (hlegible : ∀ {machine lines after}, runOn first machine = (.ok lines, after) →
      Legible path machine.files)
    (hnext : ∀ lines, Rewrites path (Legible path) (next lines)) :
    Rewrites path (fun _ => True) (first >>= next) where
  stops := hstops.bind fun lines => (hnext lines).stops
  unspoilt := hkeeps.bind_unspoilt fun lines => (hnext lines).unspoilt
  writes {machine after} hfiles _ hrun := by
    obtain ⟨lines, between, hfirst, hrest⟩ := of_runOn_bind hrun
    obtain rfl : between = machine := Keeps.after_eq hkeeps hfirst
    exact (hnext lines).writes hfiles (hlegible hfirst) hrest

end HostsFile

namespace HostRegistry

open HostsFile

variable {registry : HostRegistry} {machine after : Machine} {α γ : Type} {part : Machine → γ}

theorem keeps_contains (registry : HostRegistry) (ip : Text) :
    Keeps part (registry.contains ip) := (keeps_readLines _).bind fun _ => keeps_pure _

theorem keeps_hostname? (registry : HostRegistry) (ip : Text) :
    Keeps part (registry.hostname? ip) := (keeps_readLines _).bind fun _ => keeps_pure _

theorem keeps_entries (registry : HostRegistry) : Keeps part registry.entries :=
  (keeps_readLines _).bind fun _ => keeps_pure _

theorem stops_contains (registry : HostRegistry) (ip : Text) :
    Stops Stop.IsIo (registry.contains ip) := (stops_readLines _).bind fun _ => stops_pure _

theorem stops_hostname? (registry : HostRegistry) (ip : Text) :
    Stops Stop.IsIo (registry.hostname? ip) := (stops_readLines _).bind fun _ => stops_pure _

theorem stops_entries (registry : HostRegistry) : Stops Stop.IsIo registry.entries :=
  (stops_readLines _).bind fun _ => stops_pure _

/-- The action takes the lock after a part that changes nothing, and then rewrites the file. -/
def Locked (registry : HostRegistry) (action : Action Unit) : Prop :=
  ∃ (α : Type) (first : Action α) (rest : α → Action Unit),
    Keeps id first ∧ Stops Stop.IsFailure first ∧
      (∀ a, Rewrites registry.path (fun _ => True) (rest a)) ∧
      action = do
        let a ← first
        lock registry.path
        rest a

theorem locked_add (registry : HostRegistry) (ip hostname : Text) :
    registry.Locked (registry.add ip hostname) :=
  ⟨HostEntry, makeEntry ip hostname, _, keeps_ofExcept _,
    stops_ofExcept fun _ _ => Stop.isFailure_failure _,
    fun entry => (rewrites_appendLine registry.path entry.line).log _ _, rfl⟩

theorem locked_set (registry : HostRegistry) (ip hostname : Text) :
    registry.Locked (registry.set ip hostname) :=
  ⟨HostEntry, makeEntry ip hostname, _, keeps_ofExcept _,
    stops_ofExcept fun _ _ => Stop.isFailure_failure _,
    fun _ => .reading (keeps_orIfMissing (keeps_readLines _))
      (stops_orIfMissing (stops_readLines _)) legible_of_runOn_readLinesOrEmpty
      fun _ => (rewrites_writeLines registry.path _).log _ _, rfl⟩

theorem locked_remove (registry : HostRegistry) (ip : Text) :
    registry.Locked (registry.remove ip) := by
  refine ⟨Location × Item, look (·.find registry.path), _, keeps_look _,
    stops_look fun _ => Stop.isFailure_failure _, fun found =>
    .reading (keeps_readLines _) (stops_readLines _) legible_of_runOn_readLines
      fun lines => ?_, rfl⟩
  dsimp only
  split
  · exact (rewrites_writeLines registry.path _).log _ _
  · exact rewrites_log registry.path _ _

/-- What a locked action comes to: it ends before the lock is taken, or fails under the lock, or
succeeds and has rewritten the file. -/
inductive Ends (registry : HostRegistry) (machine : Machine) (outcome : Except Stop α)
    (after : Machine) : Prop
  | early (unchanged : after = machine)
  | failed (k : Location) (e : IoError) (locks : registry.LocksAt machine.files k)
      (outcome_eq : outcome = .error (.failure (.io e)))
      (printed : after.printed = machine.printed)
      (alike : Alike after.files (machine.files.ensureFile k))
  | done (k : Location) (a : α) (locks : registry.LocksAt machine.files k)
      (outcome_eq : outcome = .ok a)
      (writes : Writes (machine.files.ensureFile k) registry.path after.files)

/-- A locked action ends before the lock is taken, or with the part under the lock. -/
theorem Locked.runOn_cases {action : Action Unit} (h : registry.Locked action)
    {outcome : Except Stop Unit} (hrun : runOn action machine = (outcome, after)) :
    after = machine ∨ ∃ k rest, registry.LocksAt machine.files k ∧
      Rewrites registry.path (fun _ => True) rest ∧
      runOn rest (machine.locked k) = (outcome, after) := by
  obtain ⟨α, first, rest, hkeeps, -, hrest, rfl⟩ := h
  rcases runOn_bind_cases hrun with ⟨stop, -, hfirst⟩ | ⟨a, between, hfirst, hlocked⟩
  · exact .inl (hkeeps.eq hfirst)
  obtain rfl : between = machine := hkeeps.eq hfirst
  rcases runOn_bind_cases hlocked with ⟨stop, -, hlock⟩ | ⟨_, locked, hlock, hrun⟩
  · rcases runOn_change_cases hlock with ⟨e, -, -, rfl⟩ | ⟨_, _, -, hok, -⟩
    · exact .inl rfl
    · cases hok
  obtain ⟨k, hk, rfl⟩ := of_runOn_lock hlock
  exact .inr ⟨k, rest a, hk, hrest a, hrun⟩

/-- A locked action stops only with a failure. -/
theorem Locked.stops {action : Action Unit} (h : registry.Locked action) :
    Stops Stop.IsFailure action := by
  obtain ⟨α, first, rest, -, hfirst, hrest, rfl⟩ := h
  have hlock : Stops Stop.IsIo (lock registry.path) := stops_change Stop.isIo_io
  exact hfirst.bind fun a => (hlock.mono fun _ => Stop.IsIo.isFailure).bind fun _ =>
    (hrest a).stops.mono fun _ => Stop.IsIo.isFailure

/-- A locked action that stops has changed nothing, or nothing since it took the lock. -/
theorem Locked.of_runOn_error {action : Action Unit} (h : registry.Locked action) {stop : Stop}
    (hrun : runOn action machine = (.error stop, after)) :
    after = machine ∨ ∃ k e, registry.LocksAt machine.files k ∧ stop = .failure (.io e) ∧
      after.printed = machine.printed ∧ Alike after.files (machine.files.ensureFile k) := by
  rcases h.runOn_cases hrun with heq | ⟨k, rest, hk, hrest, hrun⟩
  · exact .inl heq
  obtain ⟨e, rfl⟩ := hrest.stops _ _ _ hrun
  obtain ⟨hprinted, halike⟩ := hrest.unspoilt _ _ _ hrun
  exact .inr ⟨k, e, hk, rfl, hprinted, halike⟩

/-- What follows a locked action and only gives an answer makes no difference to how it ends. -/
theorem Locked.ends {action : Action Unit} (h : registry.Locked action)
    (hfiles : machine.files.WellFormed) {answer : α} {outcome : Except Stop α}
    (hrun : runOn (action >>= fun _ => pure answer) machine = (outcome, after)) :
    Ends registry machine outcome after := by
  rcases runOn_bind_cases hrun with ⟨stop, rfl, haction⟩ | ⟨_, between, haction, hanswer⟩
  · rcases h.of_runOn_error haction with heq | ⟨k, e, hk, rfl, hprinted, halike⟩
    · exact .early heq
    · exact .failed k e hk rfl hprinted halike
  · rw [runOn_pure] at hanswer
    obtain ⟨rfl, rfl⟩ := Prod.mk.inj hanswer
    rcases h.runOn_cases haction with heq | ⟨k, rest, hk, hrest, hrun⟩
    · exact .early heq
    · exact .done k answer hk rfl (hrest.writes (hfiles.ensureFile hk) trivial hrun)

end HostRegistry
end HostKit
