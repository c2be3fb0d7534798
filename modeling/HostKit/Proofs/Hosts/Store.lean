import HostKit.Hosts.Store
import HostKit.Proofs.Files.Paths
import HostKit.Proofs.Machine.Stopping
import HostKit.Proofs.Text.Lines
import HostKit.Proofs.Text.Utf8Encoding

/-!
# What the file operations do

Taking the lock makes the lock file if it is missing, reading gives the lines, and appending
closes the last line and adds one at the place that the path opens. A replacement lands on the
file that the path leads to, or on the name that the path ends with if there is no file yet.
All states on the way to it differ from the first one by the temporary file only, whose place
was free.
-/

namespace HostKit

namespace Files

variable {files : Files}

/-- The content of an item, none if it is not a file. -/
def contentOf : Option Item → Bytes
  | some (.file _ content) => content
  | _ => []

/-- The permission bits of a file, or others if the item is not a file. -/
def fileMode (otherwise : Nat) : Option Item → Nat
  | some (.file mode _) => mode
  | _ => otherwise

/-- The place that a replacement of the file behind a path lands on: the file, or the name that
the path ends with if there is no file yet. -/
inductive Lands (files : Files) (path : Text) (l : Location) : Location → Prop where
  | file (item : files.item? l ≠ none) : Lands files path l l
  | name {place : Location} (item : files.item? l = none) (names : files.Names path place) :
      Lands files path l place

/-- What a path opens is what a replacement lands on, or the path names a place that it lands on. -/
theorem Opens.exists_lands (hfiles : files.WellFormed) {path : Text} {l : Location}
    (h : files.Opens path l) : ∃ place, files.Lands path l place := by
  by_cases hitem : files.item? l = none
  · obtain ⟨place, hnames, -⟩ := h.exists_names hfiles
    exact ⟨place, .name hitem hnames⟩
  · exact ⟨l, .file hitem⟩

/-- Making sure of a file changes no content. -/
theorem contentOf_ensureFile {l : Location} (hl : IsEnd (files.item? l)) (l' : Location) :
    contentOf ((files.ensureFile l).item? l') = contentOf (files.item? l') := by
  have hroot : l ≠ [] := hl.ne_root
  unfold ensureFile
  split
  · next hnone =>
    by_cases h : l' = l
    · simp [hroot, h, hnone, contentOf]
    · simp [hroot, h]
  · rfl

/-- A file is there once it was made sure of. -/
theorem exists_item?_ensureFile {l : Location} (hl : IsEnd (files.item? l)) :
    (files.ensureFile l).item? l =
      some (.file (fileMode files.setting.newFileMode (files.item? l))
        (contentOf (files.item? l))) := by
  have hroot : l ≠ [] := hl.ne_root
  rcases isEnd_iff.mp hl with hnone | ⟨mode, content, hfile⟩
  · simp [ensureFile, hnone, hroot, fileMode, contentOf]
  · simp [ensureFile, hfile, fileMode, contentOf]

/-- Making sure of a file changes no other place. -/
theorem item?_ensureFile_of_ne {l l' : Location} (hl : IsEnd (files.item? l)) (h : l' ≠ l) :
    (files.ensureFile l).item? l' = files.item? l' := by
  have hroot : l ≠ [] := hl.ne_root
  unfold ensureFile
  split
  · simp [hroot, h]
  · rfl

/-- Making sure of a file leaves what is there as it is. -/
theorem item?_ensureFile_of_some {l l' : Location} (hl : IsEnd (files.item? l))
    (h : files.item? l' ≠ none) : (files.ensureFile l).item? l' = files.item? l' := by
  by_cases heq : l' = l
  · subst heq
    obtain ⟨item, hitem⟩ := Option.ne_none_iff_exists'.mp h
    simp [ensureFile, hitem]
  · exact item?_ensureFile_of_ne hl heq

end Files

/-- The machine after a lock file is made sure of. -/
def Machine.locked (machine : Machine) (k : Location) : Machine :=
  machine.through [machine.files] (machine.files.ensureFile k)

@[simp] theorem Machine.locked_files (machine : Machine) (k : Location) :
    (machine.locked k).files = machine.files.ensureFile k := rfl

namespace HostsFile

open HostKit.Action Files

variable {machine after : Machine} {path : Text} {l place : Location}

/-! ## The lock -/

/-- The lock is taken where its path opens a place. -/
theorem runOn_lock {k : Location} (h : machine.files.Opens (PathText.lockPath path) k) :
    runOn (lock path) machine = (.ok (), machine.locked k) := by
  unfold lock
  refine runOn_change_ok ?_
  simp [h.openOrCreate]

/-- The lock is refused with the error of opening its file, and nothing is changed. -/
theorem runOn_lock_error {e : IoError}
    (h : machine.files.openOrCreate (PathText.lockPath path) = .error e) :
    runOn (lock path) machine = (.error (.failure (.io e)), machine) := by
  unfold lock
  refine runOn_change_error ?_
  simp [h]

/-- If the lock is taken, its path opens a place. -/
theorem of_runOn_lock (h : runOn (lock path) machine = (.ok (), after)) :
    ∃ k, machine.files.Opens (PathText.lockPath path) k ∧ after = machine.locked k := by
  cases hopen : machine.files.openOrCreate (PathText.lockPath path) with
  | error e => simp [runOn_lock_error hopen] at h
  | ok result =>
    obtain ⟨k, files⟩ := result
    have hk := opens_of_openOrCreate hopen
    rw [runOn_lock hk] at h
    exact ⟨k, hk, (Prod.mk.inj h).2.symm⟩

/-! ## Reading -/

/-- An action that succeeds does so where a missing file is allowed. -/
theorem runOn_orIfMissing_ok {α : Type} {default a : α} {action : Action α}
    (h : runOn action machine = (.ok a, after)) :
    runOn (orIfMissing default action) machine = (.ok a, after) := by
  unfold orIfMissing
  rw [runOn_bind_ok (runOn_attempt_ok h)]
  rfl

/-- Where a missing file is allowed there is a default for it. -/
theorem runOn_orIfMissing_missing {α : Type} {default : α} {action : Action α}
    (h : runOn action machine = (.error (.failure (.io .noEntry)), after)) :
    runOn (orIfMissing default action) machine = (.ok default, after) := by
  unfold orIfMissing
  rw [runOn_bind_ok (runOn_attempt_failure h)]
  rfl

/-- Every other failure stays one. -/
theorem runOn_orIfMissing_failure {α : Type} {default : α} {action : Action α} {failure : Failure}
    (hkind : failure.ioKind? ≠ some .notFound)
    (h : runOn action machine = (.error (.failure failure), after)) :
    runOn (orIfMissing default action) machine = (.error (.failure failure), after) := by
  unfold orIfMissing
  rw [runOn_bind_ok (runOn_attempt_failure h)]
  simp [hkind]

/-- The lines of a file with text are those of the text. -/
theorem runOn_readLines {text : Text} (h : machine.files.read path = .ok (Utf8.encode text)) :
    runOn (readLines path) machine = (.ok (Text.lines text), machine) := by
  have hread : runOn (readText path) machine = (.ok text, machine) := by
    have hlook : runOn (look (·.read path)) machine = (.ok (Utf8.encode text), machine) :=
      runOn_look_ok h
    rw [readText, runOn_bind_ok hlook, Utf8.decode_encode]
    rfl
  rw [readLines, runOn_bind_ok hread]
  rfl

/-- A file that cannot be read has no lines. -/
theorem runOn_readLines_error {e : IoError} (h : machine.files.read path = .error e) :
    runOn (readLines path) machine = (.error (.failure (.io e)), machine) := by
  have hlook : runOn (look (·.read path)) machine = (.error (.failure (.io e)), machine) :=
    runOn_look_error h
  rw [readLines, readText, runOn_bind_error (runOn_bind_error hlook _)]

/-- Bytes that are no text have no lines. -/
theorem runOn_readLines_garbled {content : Bytes} {e : Utf8.Error}
    (h : machine.files.read path = .ok content) (hdecode : Utf8.decode content = .error e) :
    runOn (readLines path) machine = (.error (.failure (.io .notText)), machine) := by
  have hlook : runOn (look (·.read path)) machine = (.ok content, machine) := runOn_look_ok h
  have hread : runOn (readText path) machine = (.error (.failure (.io .notText)), machine) := by
    rw [readText, runOn_bind_ok hlook, hdecode]
    rfl
  rw [readLines, runOn_bind_error hread]

/-- The lines of a file with text, or of a missing one as if it were empty. -/
theorem runOn_readLinesOrEmpty {text : Text} (h : machine.files.Opens path l)
    (htext : contentOf (machine.files.item? l) = Utf8.encode text) :
    runOn (readLinesOrEmpty path) machine = (.ok (Text.lines text), machine) := by
  rcases isEnd_iff.mp h.isEnd with hnone | ⟨mode, content, hfile⟩
  · have hnil : text = [] := by
      apply Utf8.encode_injective
      rw [← htext, hnone]
      rfl
    rw [hnil]
    exact runOn_orIfMissing_missing (runOn_readLines_error (h.read_none hnone))
  · rw [hfile] at htext
    have hread : machine.files.read path = .ok (Utf8.encode text) := htext ▸ h.read hfile
    exact runOn_orIfMissing_ok (runOn_readLines hread)

/-! ## Appending -/

/-- Content with a line put on a line of its own at its end. -/
def withLine (content : Bytes) (line : Text) : Bytes :=
  content ++ ((if lacksNewline content then [10] else []) ++ Utf8.encode (line ++ ['\n']))

/-- The content of a text ends in the middle of a line if the text does. -/
theorem lacksNewline_encode (text : Text) :
    lacksNewline (Utf8.encode text) = true ↔ ¬Text.Closed text := by
  rcases List.eq_nil_or_concat text with rfl | ⟨front, c, rfl⟩
  · simp [Utf8.encode, lacksNewline, Text.Closed]
  · obtain ⟨b, hb, hnewline⟩ := Utf8.getLast?_encodeChar c
    have hlast : (Utf8.encode (front ++ [c])).getLast? = some b := by
      rw [Utf8.encode_append, List.getLast?_append]
      simp [Utf8.encode, hb]
    have hclosed : Text.Closed (front ++ [c]) ↔ b = 10 := by
      rw [hnewline]
      simp [Text.Closed]
    rw [lacksNewline, List.concat_eq_append, hlast, hclosed]
    simp

/-- The content of a text with a line put at its end is the closed text with the line. -/
theorem withLine_encode (text line : Text) :
    withLine (Utf8.encode text) line = Utf8.encode (Text.closed text ++ (line ++ ['\n'])) := by
  have hclosed : Utf8.encode (Text.closed text) =
      Utf8.encode text ++ if lacksNewline (Utf8.encode text) then [10] else [] := by
    rcases Text.closed_eq text with ⟨heq, hclosed⟩ | ⟨heq, hopen⟩
    · have hlacks : ¬lacksNewline (Utf8.encode text) = true := by
        rw [lacksNewline_encode]
        exact fun hopen => hopen hclosed
      rw [heq, if_neg hlacks, List.append_nil]
    · rw [heq, if_pos ((lacksNewline_encode text).mpr hopen), Utf8.encode_append]
      rfl
  rw [withLine, Utf8.encode_append (Text.closed text), hclosed, List.append_assoc]

/-- A line is appended at the place that the path opens. -/
theorem runOn_appendLine (machine : Machine) (h : machine.files.Opens path l) (line : Text) :
    ∃ passed final, runOn (appendLine path line) machine = (.ok (), machine.through passed final) ∧
      Alike final (machine.files.insert l
        (.file (fileMode machine.files.setting.newFileMode (machine.files.item? l))
          (withLine (contentOf (machine.files.item? l)) line))) := by
  have hread : runOn (orIfMissing [] (look (·.read path))) machine =
      (.ok (contentOf (machine.files.item? l)), machine) := by
    rcases isEnd_iff.mp h.isEnd with hnone | ⟨mode, content, hfile⟩
    · rw [hnone]
      exact runOn_orIfMissing_missing (runOn_look_error (h.read_none hnone))
    · rw [hfile]
      exact runOn_orIfMissing_ok (runOn_look_ok (h.read hfile))
  have hitem := exists_item?_ensureFile h.isEnd
  unfold appendLine
  rw [runOn_bind_ok hread]
  simp only []
  rw [runOn_bind_ok (runOn_change_ok h.openOrCreate), runOn_change_ok rfl,
    Machine.through_through]
  refine ⟨_, _, rfl, ?_, fun l' => ?_⟩
  · rw [Machine.through_files, modifyContent_of_file hitem]
    exact (grows_ensureFile h.isEnd).setting
  · have hroot : l ≠ [] := h.isEnd.ne_root
    rw [Machine.through_files, modifyContent_of_file hitem, item?_insert hroot,
      item?_insert hroot]
    split
    · rfl
    · next hne => exact item?_ensureFile_of_ne h.isEnd hne

/-! ## Replacing -/

/-- What a replacement needs of the lengths of paths: the path without links is short enough, and so
is that of a temporary file next to it, or next to the path itself if there is no file yet. -/
structure Fits (files : Files) (path : Text) (l : Location) : Prop where
  length_le : Text.utf8Length (absolutePath l) ≤ maxPath
  hasRoom : files.HasRoom (if files.item? l = none then path else absolutePath l)

/-- Where the file is there, a replacement fits by the path without links alone. -/
theorem fits_iff_of_ne_none {files : Files} (hitem : files.item? l ≠ none) :
    Fits files path l ↔
      Text.utf8Length (absolutePath l) ≤ maxPath ∧ files.HasRoom (absolutePath l) := by
  constructor
  · rintro ⟨hlength, hroom⟩
    exact ⟨hlength, by rwa [if_neg hitem] at hroom⟩
  · rintro ⟨hlength, hroom⟩
    exact ⟨hlength, by rwa [if_neg hitem]⟩

/-- The path that a replacement is moved onto names the place that it lands on, and leads to the
file that is replaced. There is room next to it if the lengths of the paths allow for it. -/
theorem exists_target (hfiles : machine.files.WellFormed) (h : machine.files.Opens path l)
    (hlands : machine.files.Lands path l place)
    (hlength : Text.utf8Length (absolutePath l) ≤ maxPath) :
    ∃ target, runOn (targetOf path) machine = (.ok target, machine) ∧
      machine.files.Names target place ∧ machine.files.Opens target l ∧
      (Fits machine.files path l ↔ machine.files.HasRoom target) := by
  cases hlands with
  | file hitem =>
    obtain ⟨item, hsome⟩ := Option.ne_none_iff_exists'.mp hitem
    have hnames := names_absolutePath hfiles (hfiles.isPlace hitem h.isEnd.ne_root)
      h.isEnd.ne_directory hlength
    refine ⟨absolutePath l, runOn_orIfMissing_ok (runOn_look_ok (h.canonicalPath hsome hlength)),
      hnames, hnames.opens h.isEnd, fun hfits => ?_, fun hroom => ⟨hlength, ?_⟩⟩
    · simpa only [if_neg hitem] using hfits.hasRoom
    · rwa [if_neg hitem]
  | name hnone hnames =>
    refine ⟨path,
      runOn_orIfMissing_missing (runOn_look_error (h.canonicalPath_none hnone hlength)), hnames, h,
      fun hfits => ?_, fun hroom => ⟨hlength, ?_⟩⟩
    · simpa only [if_pos hnone] using hfits.hasRoom
    · rwa [if_pos hnone]

/-- A path without links that is too long is no target. -/
theorem runOn_targetOf_long (h : machine.files.Opens path l)
    (hlength : maxPath < Text.utf8Length (absolutePath l)) :
    runOn (targetOf path) machine = (.error (.failure (.io .nameTooLong)), machine) :=
  runOn_orIfMissing_failure (by decide) (runOn_look_error (h.canonicalPath_long hlength))

/-- The files are as they were, but for a temporary one at a place that was free. -/
structure HasTemporary (before : Files) (temporary : Location) (mode : Nat) (content : Bytes)
    (files : Files) : Prop where
  setting : files.setting = before.setting
  item? : ∀ l, files.item? l =
    if l = temporary then some (.file mode content) else before.item? l

variable {before : Files} {temporary : Location} {mode : Nat} {content : Bytes}

/-- What the temporary file comes to is as it was. -/
theorem HasTemporary.gains {files : Files}
    (h : HasTemporary before temporary mode content files)
    (hfree : before.item? temporary = none) : Gains before files :=
  .of_item? hfree h.setting h.item?

/-- The temporary file can be written and its permission bits can be set. -/
theorem HasTemporary.insert {files : Files} (h : HasTemporary before temporary mode content files)
    (hroot : temporary ≠ []) (mode' : Nat) (content' : Bytes) :
    HasTemporary before temporary mode' content'
      (files.insert temporary (.file mode' content')) where
  setting := h.setting
  item? l := by
    rw [item?_insert hroot, h.item?]
    split <;> rfl

/-- The temporary file is at its place. -/
theorem HasTemporary.item?_self {files : Files}
    (h : HasTemporary before temporary mode content files) :
    files.item? temporary = some (.file mode content) := by
  rw [h.item?, if_pos rfl]

/-- Without the temporary file all is as it was. -/
theorem HasTemporary.erase {files : Files} (h : HasTemporary before temporary mode content files)
    (hroot : temporary ≠ []) (hfree : before.item? temporary = none) :
    Alike (files.erase temporary) before where
  setting := h.setting
  item? l := by
    rw [item?_erase hroot, h.item?]
    by_cases hl : l = temporary
    · simp [hl, hfree]
    · simp [hl]

/-- The move of the temporary file is refused by a file that the setting has refuse, and by nothing
else that a path names. -/
theorem HasTemporary.refusal?_eq_some_iff {files : Files}
    (h : HasTemporary before temporary mode content files)
    (hfree : before.item? temporary = none)
    (hplace : ∀ mode, before.item? place ≠ some (.directory mode)) {e : IoError} :
    files.refusal? temporary place = some e ↔
      (∃ mode content, before.item? place = some (.file mode content)) ∧
        before.setting.moveRefusal? place = some e := by
  by_cases hself : place = temporary
  · subst hself
    simp [refusal?, h.item?_self, hfree]
  · rw [refusal?, h.item?, if_neg hself, h.setting]
    cases hitem : before.item? place with
    | none => simp
    | some item =>
      cases item with
      | file mode content => simp [Ne.symm hself]
      | directory mode => exact absurd hitem (hplace mode)
      | link target => simp

/-- The content is written into a temporary file at a free place, if there is room. -/
theorem runOn_writeTemporary {target : Text} (hfiles : machine.files.WellFormed)
    (hnames : machine.files.Names target place) (hroom : machine.files.HasRoom target)
    (text : Text) :
    ∃ temporary passed files, runOn (writeTemporary target text) machine =
        (.ok temporary, machine.through passed files) ∧
      temporary ≠ [] ∧ machine.files.item? temporary = none ∧
      HasTemporary machine.files temporary machine.files.setting.temporaryMode (Utf8.encode text)
        files ∧
      ∀ state ∈ passed, Gains machine.files state := by
  obtain ⟨temporary, hroot, hfree, hcreate⟩ := hnames.createTemporary hfiles hroom
  let empty := machine.files.insert temporary (.file machine.files.setting.temporaryMode [])
  have hempty : HasTemporary machine.files temporary machine.files.setting.temporaryMode []
      empty := ⟨rfl, item?_insert hroot _⟩
  refine ⟨temporary, [empty, machine.files], _, ?_, hroot, hfree, hempty.insert hroot _ _, ?_⟩
  · rw [writeTemporary, runOn_bind_ok (runOn_change_ok hcreate),
      runOn_bind_ok (runOn_change_ok rfl), Machine.through_through, Machine.through_files,
      modifyContent_of_file hempty.item?_self]
    rfl
  · intro state hstate
    rcases List.mem_cons.mp hstate with rfl | hstate
    · exact hempty.gains hfree
    · rw [List.mem_singleton.mp hstate]
      exact Gains.refl _

/-- The temporary file gets the permission bits of the file that the target leads to, and keeps
its own if there is none. -/
theorem runOn_copyMode (machine : Machine) {target : Text} (hroot : temporary ≠ [])
    (hfree : before.item? temporary = none) (hopens : before.Opens target l)
    (h : HasTemporary before temporary mode content machine.files) :
    ∃ passed files, runOn (copyMode temporary target) machine =
        (.ok (), machine.through passed files) ∧
      HasTemporary before temporary (fileMode mode (before.item? l)) content files ∧
      ∀ state ∈ passed, state = machine.files := by
  have hresolve := (hopens.grows (h.gains hfree).grows).resolve
  have hset : ∀ {l' item}, machine.files.find target = .ok (l', item) →
      runOn (copyMode temporary target) machine = (.ok (), machine.through [machine.files]
        (machine.files.insert temporary (.file (modeOf item) content))) := by
    intro l' item hfind
    have hlook : runOn (look (·.find target)) machine = (.ok (l', item), machine) :=
      runOn_look_ok hfind
    rw [copyMode, runOn_bind_ok (runOn_attempt_ok hlook), runOn_change_ok rfl,
      setMode_of_file h.item?_self]
  rcases isEnd_iff.mp hopens.isEnd with hnone | ⟨mode', content', hfile⟩
  · by_cases htemporary : l = temporary
    · -- The file that is missing is the temporary one now, and keeps its own bits.
      have hitem : machine.files.item? l = some (.file mode content) := by
        rw [htemporary, h.item?_self]
      refine ⟨_, _, hset (find_of_resolve hresolve hitem), ?_, by simp⟩
      simpa [hnone, fileMode, modeOf] using h.insert hroot mode content
    · have hitem : machine.files.item? l = none := by rw [h.item?, if_neg htemporary, hnone]
      have hlook : runOn (look (·.find target)) machine =
          (.error (.failure (.io .noEntry)), machine) :=
        runOn_look_error (find_of_resolve_none hresolve hitem)
      refine ⟨[], machine.files, ?_, by simpa [hnone, fileMode] using h, by simp⟩
      rw [copyMode, runOn_bind_ok (runOn_attempt_failure hlook)]
      rfl
  · have hitem : machine.files.item? l = some (.file mode' content') := by
      rw [(h.gains hfree).kept (by simp [hfile]), hfile]
    refine ⟨_, _, hset (find_of_resolve hresolve hitem), ?_, by simp⟩
    simpa [hfile, fileMode, modeOf] using h.insert hroot mode' content

/-- The temporary file is moved onto the place that the target names, and is where it was no
more. -/
theorem runOn_moveOver (machine : Machine) {target : Text} (text : Text)
    (hfiles : before.WellFormed) (hroot : temporary ≠ [])
    (hfree : before.item? temporary = none) (hnames : before.Names target place)
    (h : HasTemporary before temporary mode content machine.files)
    (hrefusal : machine.files.refusal? temporary place = none) :
    ∃ files, runOn (moveOver temporary target text) machine =
        (.ok (), machine.through [machine.files] files) ∧
      Alike files (before.insert place (.file mode content)) := by
  have hgrows := (h.gains hfree).grows
  have hplace : place ≠ [] := (hnames.isPlace hfiles).ne_root
  have hrename := hnames.rename hfiles hgrows h.item?_self
  have hmove : runOn (change fun files => (files.rename temporary target).map ((), ·)) machine =
      (.ok (), machine.through [machine.files]
        ((machine.files.erase temporary).insert place (.file mode content))) := by
    refine runOn_change_ok ?_
    simp [hrename, hrefusal, Except.map]
  refine ⟨(machine.files.erase temporary).insert place (.file mode content), ?_,
    h.setting, fun l' => ?_⟩
  · rw [moveOver, runOn_bind_ok (runOn_attempt_ok hmove)]
    rfl
  · rw [item?_insert hplace, item?_insert hplace, (h.erase hroot hfree).item?]

/-- Content is written into a file that the path opens, which keeps its permission bits. -/
theorem runOn_writeInPlace (machine : Machine) (text : Text) (h : machine.files.Opens path l)
    (hitem : machine.files.item? l = some (.file mode content)) :
    ∃ passed final, runOn (writeInPlace path text) machine =
        (.ok (), machine.through passed final) ∧
      Alike final (machine.files.insert l (.file mode (Utf8.encode text))) := by
  have hroot : l ≠ [] := h.isEnd.ne_root
  have hsame : machine.files.ensureFile l = machine.files := by simp [ensureFile, hitem]
  have hopened : machine.files.openOrCreate path = .ok (l, machine.files) := by
    rw [h.openOrCreate, hsame]
  let emptied := machine.files.insert l (.file mode [])
  have hempty : emptied.item? l = some (.file mode []) := by simp [emptied, hroot]
  refine ⟨[emptied, machine.files], emptied.insert l (.file mode (Utf8.encode text)), ?_, rfl,
    fun l' => ?_⟩
  · refine (runOn_bind_ok (runOn_change_ok (?_ : _ = Except.ok (l, emptied))) _).trans ?_
    · rw [hopened, Success.bind_ok]
      dsimp only
      rw [modifyContent_of_file hitem]
    · rw [runOn_change_ok rfl, Machine.through_through, Machine.through_files,
        modifyContent_of_file hempty]
      rfl
  · rw [item?_insert hroot, item?_insert hroot, item?_insert hroot]
    split <;> rfl

/-- Where the move fails, a warning is logged and the content is written in place. -/
theorem exists_runOn_moveOver_fallback {target : Text} (text : Text) {e : IoError}
    (h : machine.files.rename temporary target = .error e) :
    ∃ warning, runOn (moveOver temporary target text) machine =
      runOn (ensuring (writeInPlace target text) (discard temporary))
        (machine.logged .warn warning) := by
  have hmove : runOn (change fun files => (files.rename temporary target).map ((), ·)) machine =
      (.error (.failure (.io e)), machine) :=
    runOn_change_error (by simp [h, Except.map])
  rw [moveOver, runOn_bind_ok (runOn_attempt_failure hmove)]
  exact ⟨_, rfl⟩

/-- Where the move is refused by a file that the target names, the content is written into this
file, which keeps its permission bits, and the temporary file is discarded. -/
theorem runOn_moveOver_refused (machine : Machine) (text : Text) {target : Text} {mode' : Nat}
    {old : Bytes} {e : IoError} (hfiles : before.WellFormed) (hroot : temporary ≠ [])
    (hfree : before.item? temporary = none) (hnames : before.Names target place)
    (hitem : before.item? place = some (.file mode' old))
    (h : HasTemporary before temporary mode content machine.files)
    (hrefusal : machine.files.refusal? temporary place = some e) :
    ∃ after, runOn (moveOver temporary target text) machine = (.ok (), after) ∧
      Alike after.files (before.insert place (.file mode' (Utf8.encode text))) := by
  have hgrows := (h.gains hfree).grows
  have hend : IsEnd (before.item? place) := by simp [hitem, IsEnd]
  have hkept : machine.files.item? place = some (.file mode' old) :=
    ((h.gains hfree).kept (by simp [hitem])).trans hitem
  have hrename : machine.files.rename temporary target = .error e := by
    rw [hnames.rename hfiles hgrows h.item?_self, hrefusal]
  obtain ⟨warning, hrun⟩ := exists_runOn_moveOver_fallback text hrename
  obtain ⟨passed, final, hwrite, halike⟩ :=
    runOn_writeInPlace (machine.logged .warn warning) text ((hnames.opens hend).grows hgrows) hkept
  have hne : temporary ≠ place := fun heq => by simp [← heq, hfree] at hitem
  rw [Machine.logged_files] at halike
  refine ⟨((machine.logged .warn warning).through passed final).through [final]
    (final.erase temporary), ?_, halike.setting.trans h.setting, fun l' => ?_⟩
  · rw [hrun, runOn_ensuring, hwrite]
    rfl
  · rw [Machine.through_files, item?_erase hroot, halike.item?, item?_insert hend.ne_root,
      item?_insert hend.ne_root, h.item?]
    by_cases hl : l' = temporary
    · simp [hl, hne, hfree]
    · simp [hl]

/-- The lines of the file are replaced: the new content lands on its place with the permission
bits of the file that it replaces, and nothing else is changed in the end. If no file refuses the
move, files have come on the way at most where nothing was. -/
theorem runOn_writeLines (machine : Machine) (hfiles : machine.files.WellFormed)
    (h : machine.files.Opens path l)
    (hlands : machine.files.Lands path l place)
    (hfits : Fits machine.files path l) (lines : List Text) :
    ∃ after, runOn (writeLines path lines) machine = (.ok (), after) ∧
      Alike after.files (machine.files.insert place
        (.file (fileMode machine.files.setting.temporaryMode (machine.files.item? l))
          (Utf8.encode (Text.unlines lines)))) ∧
      (machine.files.setting.moveRefusal? place = none →
        ∃ passed, after = machine.through passed after.files ∧
          ∀ state ∈ passed, Gains machine.files state) := by
  obtain ⟨target, htarget, hnames, hopens, hroom⟩ :=
    exists_target hfiles h hlands hfits.length_le
  obtain ⟨temporary, written, files, hwrite, hroot, hfree, hwritten, hgains⟩ :=
    runOn_writeTemporary hfiles hnames (hroom.mp hfits) (Text.unlines lines)
  obtain ⟨copied, files', hcopy, htemporary, hcopied⟩ :=
    runOn_copyMode (machine.through written files) hroot hfree hopens hwritten
  have hrun {outcome : Except Stop Unit} {after : Machine}
      (hmove : runOn (moveOver temporary target (Text.unlines lines))
        ((machine.through written files).through copied files') = (outcome, after)) :
      runOn (writeLines path lines) machine = (outcome, after) := by
    rw [writeLines, runOn_bind_ok htarget]
    simp only []
    rw [runOn_bind_ok hwrite, runOn_bind_ok hcopy, hmove]
  cases hrefusal : files'.refusal? temporary place with
  | none =>
    obtain ⟨final, hmove, halike⟩ := runOn_moveOver ((machine.through written files).through copied
      files') (Text.unlines lines) hfiles hroot hfree hnames htemporary hrefusal
    refine ⟨_, hrun hmove, halike, fun _ => ⟨[files'] ++ (copied ++ written), ?_,
      fun state hstate => ?_⟩⟩
    · simp only [Machine.through_through, Machine.through_files]
    · rcases List.mem_append.mp hstate with hmem | hmem
      · rw [List.mem_singleton.mp hmem]
        exact htemporary.gains hfree
      rcases List.mem_append.mp hmem with hmem | hmem
      · rw [hcopied state hmem]
        exact hwritten.gains hfree
      · exact hgains state hmem
  | some e =>
    obtain ⟨⟨mode, old, hitem⟩, hrefused⟩ :=
      (htemporary.refusal?_eq_some_iff hfree hnames.not_directory).mp hrefusal
    obtain ⟨after, hmove, halike⟩ := runOn_moveOver_refused ((machine.through written
      files).through copied files') (Text.unlines lines) hfiles hroot hfree hnames hitem htemporary
      hrefusal
    -- The file that refuses the move is the one that is replaced, so it has the same bits.
    obtain rfl : l = place := hopens.unique (hnames.opens (by simp [hitem, IsEnd]))
    refine ⟨after, hrun hmove, ?_, fun hmovable => by simp [hmovable] at hrefused⟩
    simpa only [hitem, fileMode] using halike

/-- A replacement that does not fit fails before it changes anything. -/
theorem runOn_writeLines_unfit (hfiles : machine.files.WellFormed) (h : machine.files.Opens path l)
    (hunfit : ¬Fits machine.files path l) (lines : List Text) :
    ∃ e, runOn (writeLines path lines) machine = (.error (.failure (.io e)), machine) := by
  by_cases hlength : Text.utf8Length (absolutePath l) ≤ maxPath
  · obtain ⟨place, hlands⟩ := h.exists_lands hfiles
    obtain ⟨target, htarget, hnames, -, hfits⟩ := exists_target hfiles h hlands hlength
    obtain ⟨e, hcreate⟩ := hnames.createTemporary_error hfiles (mt hfits.mpr hunfit)
    refine ⟨e, ?_⟩
    have hwrite : runOn (writeTemporary target (Text.unlines lines)) machine =
        (.error (.failure (.io e)), machine) :=
      runOn_bind_error (runOn_change_error hcreate) _
    rw [writeLines, runOn_bind_ok htarget]
    exact runOn_bind_error hwrite _
  · refine ⟨.nameTooLong, ?_⟩
    rw [writeLines, runOn_bind_error (runOn_targetOf_long h (Nat.lt_of_not_le hlength))]

/-- If the lines of the file are replaced, the replacement fits. -/
theorem of_runOn_writeLines (hfiles : machine.files.WellFormed) (h : machine.files.Opens path l)
    {lines : List Text} (hrun : runOn (writeLines path lines) machine = (.ok (), after)) :
    Fits machine.files path l := by
  refine Classical.byContradiction fun hunfit => ?_
  obtain ⟨e, herror⟩ := runOn_writeLines_unfit hfiles h hunfit lines
  rw [herror] at hrun
  cases hrun

end HostsFile
end HostKit
