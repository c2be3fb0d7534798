import HostKit.Proofs.CommandLine.TextCommands
import HostKit.Proofs.Yaml.ReloadedValues

/-!
# Normalised documents

The word for the command and the path of a file make up the command on that file, which prints the
normal form of the document there. Two things decide whether this form is one that stays as it is. A
mapping of one entry is refused as the only key of another one, and so is a value under a tag; and
the names of tags are written with characters that they are not read with. Nothing else in a
document matters.
-/

namespace HostKit.CommandLine

open HostKit.Action Files Yaml

variable {machine : Machine} {document path text : Text} {words : List Text} {value : Value}

/-! ## The words -/

/-- The words after the name of a command that takes a path: the path alone, which must not be taken
for a flag, or the path behind the end of the flags. -/
inductive PathWords (path : Text) : List Text → Prop where
  | alone (plain : IsPlain path) : PathWords path [path]
  | afterFlags : PathWords path ["--".toList, path]

/-- What the command takes. -/
def yamlLevel : Level where
  flags := commonFlags
  operands := [{ name := "file", kind := .path }]

/-- All words are taken in the end, and the path is the value that has not been looked at. -/
theorem PathWords.exists_takeWords (h : PathWords path words) : ∃ onlyOperands,
    takeWords yamlLevel words .start =
      .ok (⟨[], some ⟨"file".toList, .path, true, [path]⟩, 1, onlyOperands⟩, none) := by
  cases h with
  | alone hplain =>
    have hend : path ≠ "--".toList := hplain '-' []
    refine ⟨false, ?_⟩
    rw [takeWords]
    simp only [if_neg hend, takeWord_of_isPlain hplain]
    rfl
  | afterFlags => exact ⟨true, rfl⟩

/-- The words make up the command for the file. -/
theorem PathWords.parseYaml_eq (h : PathWords path words) (hpath : path ≠ []) :
    parseYaml words = .ok ⟨none, none, .yaml path⟩ := by
  obtain ⟨onlyOperands, htake⟩ := h.exists_takeWords
  have hread : Kind.read .path path = .ok (.text path) := if_neg hpath
  have hreads : [path].mapM (Kind.read .path) = .ok [.text path] := by
    rw [List.mapM_cons, hread]
    rfl
  have hsettle : Progress.settle ⟨[], some ⟨"file".toList, .path, true, [path]⟩, 1, onlyOperands⟩ =
      .ok ⟨[("file".toList, .text path)], none, 1, onlyOperands⟩ := by
    simp only [Progress.settle, hreads]
    rfl
  -- The steps of reading the words, with the level of the command by its name.
  change (takeWords yamlLevel words .start >>= fun taken => taken.1.settle >>= fun progress =>
    (progress.given.require "file" >>= fun file => .ok (.yaml file)) >>= fun command =>
      .ok (invocation progress.given command)) = _
  rw [htake, Success.bind_ok, hsettle, Success.bind_ok]
  rfl

/-! ## The runs -/

/-- Whatever file holds the document, the command on it prints the text and changes nothing else,
under each configuration and also from the words for it. -/
def Normalizes (document text : Text) : Prop :=
  ∀ machine path, machine.files.read path = .ok (Utf8.encode document) →
    (∀ config, runOn ((Command.yaml path).run config) machine =
      (.ok (), { machine with printed := machine.printed ++ Utf8.encode text })) ∧
    ∀ words, PathWords path words → Prints ("yaml".toList :: words) machine (Utf8.encode text)

/-- The normal form of a document is the text of its value. -/
theorem normalizeYaml_eq (hload : load document = .ok value) (hdump : dump value = .ok text) :
    normalizeYaml document = .ok text := by
  rw [normalizeYaml, hload]
  change (dump value).mapError _ = _
  rw [hdump]
  rfl

/-- The command prints the normal form of the document in the file. -/
theorem runOn_yaml (hread : machine.files.read path = .ok (Utf8.encode document))
    (hnormal : normalizeYaml document = .ok text) (config : Config) :
    runOn ((Command.yaml path).run config) machine =
      (.ok (), { machine with printed := machine.printed ++ Utf8.encode text }) := by
  have hdocument : runOn (decodeUtf8 (Utf8.encode document)) machine = (.ok document, machine) := by
    rw [decodeUtf8, Utf8.decode_encode]
    rfl
  have hform : runOn (Action.ofExcept (normalizeYaml document)) machine = (.ok text, machine) := by
    rw [hnormal]
    rfl
  change runOn (TextInput.read (.file path) >>= fun data => decodeUtf8 data >>= fun document =>
    Action.ofExcept (normalizeYaml document) >>= fun normal => printText normal) machine = _
  rw [runOn_bind_ok (runOn_read_file hread), runOn_bind_ok hdocument, runOn_bind_ok hform]
  rfl

/-- A document is normalised to the text of its value. -/
theorem normalizes_of_load (hload : load document = .ok value) (hdump : dump value = .ok text) :
    Normalizes document text := by
  intro machine path hread
  have hrun := runOn_yaml hread (normalizeYaml_eq hload hdump)
  refine ⟨hrun, fun words hwords => ⟨⟨none, none, .yaml path⟩, ?_, hrun {}⟩⟩
  change (parseYaml words >>= fun below => .ok (below.withOuter [])) = _
  rw [hwords.parseYaml_eq (ne_nil_of_read hread)]
  rfl

/-! ## The normal form -/

/-- The value that a document stands for has this text and these tags. -/
def Shows (document text : Text) (tags : List Text) : Prop :=
  (load document >>= dump).toOption = some text ∧
    (load document).toOption.map Value.tags = some tags

/-- A document stands for a value if this can be seen. -/
theorem Shows.exists_value {tags : List Text} (h : Shows document text tags) :
    ∃ value, load document = .ok value ∧ dump value = .ok text ∧ value.tags = tags := by
  obtain ⟨htext, htags⟩ := h
  obtain ⟨value, hload, hdump⟩ := Success.of_bind (Success.toOption_eq_some_iff.mp htext)
  rw [hload] at htags
  exact ⟨value, hload, hdump, Option.some.inj htags⟩

/-- The value of a document has a text exactly if the only key of a mapping is always one that can
be written. The document is normalised to this text, and the text stands for the same value exactly
if the name of every tag is read back. Then the text is normalised to itself. -/
theorem normalization_stable (hload : load document = .ok value) :
    ((∃ text, dump value = .ok text) ↔ value.HasWritableKeys false) ∧
    ∀ text, dump value = .ok text →
      Normalizes document text ∧
      (load text = .ok value ↔ value.AllTags Tag.IsWritable) ∧
      (value.AllTags Tag.IsWritable → Normalizes text text) := by
  have hloaded : value.IsLoaded maxDepth := isLoaded_of_load hload
  refine ⟨exists_dump_iff hloaded, fun text hdump => ?_⟩
  have hreload := load_dump_iff hloaded hdump
  exact ⟨normalizes_of_load hload hdump, hreload, fun htags =>
    normalizes_of_load (hreload.mpr htags) hdump⟩

/-- A float that is no number stands under a tag, and the normal form is read as the same value. -/
theorem normalization_stable_tagged : ∃ value,
    load "{a: !t [.NaN]}" = .ok value ∧ dump value = .ok "a: !t\n- .nan\n" ∧
    load "a: !t\n- .nan\n" = .ok value ∧
    Prints ["yaml".toList, "hosts".toList]
      (.resting (flat (HostRegistry.alone "a: !t\n- .nan\n".toList)))
      (Utf8.encode "a: !t\n- .nan\n".toList) := by
  have hshows : Shows "{a: !t [.NaN]}" "a: !t\n- .nan\n" ["t"] := by
    constructor <;> decide +kernel
  obtain ⟨value, hload, hdump, htags⟩ := hshows.exists_value
  have hwritable : value.AllTags Tag.IsWritable := by
    intro tag htag
    rw [htags] at htag
    obtain rfl := List.mem_singleton.mp htag
    exact ⟨by simp [Tag.IsReadable], by decide, by decide⟩
  have hplain : IsPlain "hosts".toList := by
    intro c rest heq
    cases heq
  obtain ⟨-, hreload, hprints⟩ := (normalization_stable hload).2 _ hdump
  exact ⟨value, hload, hdump, hreload.mpr hwritable,
    (hprints hwritable _ _ (HostRegistry.holds_alone _).read).2 _ (.alone hplain)⟩

/-- Three documents whose values do not come back. The key of the first one cannot be written, the
tag of the second one is written with a comma and cannot be read, and the one of the third loses its
mark. -/
theorem normalization_limits :
    (∃ value, load "? {a: 1}\n: 2\n" = .ok value ∧ ∀ text, dump value ≠ .ok text) ∧
    (∃ value, load "!<!a,b> x\n" = .ok value ∧ dump value = .ok "!a,b x\n" ∧
      ∀ other, load "!a,b x\n" ≠ .ok other) ∧
    ∃ value, load "!<!!!a> x\n" = .ok value ∧ dump value = .ok "!a x\n" ∧
      load "!a x\n" ≠ .ok value := by
  refine ⟨?_, ?_, ?_⟩
  · have hsome : (load "? {a: 1}\n: 2\n").toOption.isSome = true := by decide +kernel
    have hnone : (load "? {a: 1}\n: 2\n" >>= dump).toOption = none := by decide +kernel
    obtain ⟨value, hvalue⟩ := Option.isSome_iff_exists.mp hsome
    have hload := Success.toOption_eq_some_iff.mp hvalue
    refine ⟨value, hload, fun text hdump => ?_⟩
    rw [hload, Success.bind_ok, hdump] at hnone
    cases hnone
  · have hshows : Shows "!<!a,b> x\n" "!a,b x\n" ["a,b"] := by constructor <;> decide +kernel
    have hnone : (load "!a,b x\n").toOption.isNone = true := by decide +kernel
    obtain ⟨value, hload, hdump, -⟩ := hshows.exists_value
    refine ⟨value, hload, hdump, fun other hother => ?_⟩
    rw [hother] at hnone
    cases hnone
  · have hshows : Shows "!<!!!a> x\n" "!a x\n" ["!a"] := by constructor <;> decide +kernel
    have hagain : Shows "!a x\n" "!a x\n" ["a"] := by constructor <;> decide +kernel
    obtain ⟨value, hload, hdump, htags⟩ := hshows.exists_value
    obtain ⟨other, hother, -, hothers⟩ := hagain.exists_value
    refine ⟨value, hload, hdump, fun hsame => ?_⟩
    obtain rfl := Except.ok.inj (hother.symm.trans hsame)
    rw [htags] at hothers
    cases hothers

end HostKit.CommandLine
