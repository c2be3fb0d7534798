import HostKit.CommandLine.Grammar
import HostKit.CommandLine.Run
import HostKit.Proofs.Codec.Texts
import HostKit.Proofs.Hosts.Holding
import HostKit.Proofs.Machine.Running
import HostKit.Proofs.Text.Utf8Encoding

/-!
# Text codecs on the command line

The words for a text codec and a file make up the command on that file, whichever way the path is
given. Encoding prints the text of what the file holds and a line feed, and changes nothing else.
Decoding a file with this output prints just the data, since the line feed is a blank.
-/

namespace HostKit.CommandLine

open HostKit.Action Files

/-! ## The words -/

/-- A word that is no flag: nothing follows a hyphen at its start. -/
def IsPlain (word : Text) : Prop := ∀ c rest, word ≠ '-' :: c :: rest

/-- The words after a command that name a text codec and a file: the path is a word of its own,
which must not be taken for a flag, or it stands behind an equals sign. -/
inductive FileWords (name path : Text) : List Text → Prop where
  | apart (plain : IsPlain path) :
      FileWords name path ["--codec".toList, name, "--file".toList, path]
  | joined : FileWords name path ["--codec".toList, name, "--file=".toList ++ path]

/-- What a text codec takes. -/
def textLevel : Level where
  flags := [codecFlag textCodecs, { name := "file", letter := some 'f', effect := .once .path }] ++
    commonFlags
  operands := [{ name := "text" }]

/-- The words taken up to the flag for the file, which has these values. -/
def Progress.awaiting (name : Text) (values : List Text) : Progress :=
  ⟨[("codec".toList, .text name)], some ⟨"file".toList, .path, true, values⟩, 0, false⟩

/-- All words taken, and the path with them. -/
def Progress.complete (name path : Text) : Progress :=
  ⟨[("codec".toList, .text name), ("file".toList, .text path)], none, 0, false⟩

variable {level : Level} {progress : Progress} {word path name : Text} {words : List Text}
variable {codec : TextCodec}

/-- There are two text codecs. -/
theorem of_mem_textCodecs (h : (name, codec) ∈ textCodecs) :
    name = "base64".toList ∧ codec = .base64 ∨ name = "b64hex".toList ∧ codec = .base64Hex := by
  simpa only [textCodecs, List.mem_cons, Prod.mk.injEq, List.not_mem_nil, or_false] using h

/-- A plain word is a value. -/
theorem takeWord_of_isPlain (h : IsPlain word) :
    progress.takeWord level word = progress.takeValue level word := by
  unfold Progress.takeWord
  split
  · next body => exact absurd rfl (h '-' body)
  · next letter letters _ => exact absurd rfl (h letter letters)
  · rfl

/-- With the path, all words have been taken. -/
theorem settle_awaiting (h : path ≠ []) (name : Text) :
    (Progress.awaiting name [path]).settle = .ok (.complete name path) := by
  have hread : Kind.read .path path = .ok (.text path) := if_neg h
  have hreads : [path].mapM (Kind.read .path) = .ok [.text path] := by
    rw [List.mapM_cons, hread]
    rfl
  simp only [Progress.awaiting, Progress.settle, hreads]
  rfl

/-- The flags with the name of a codec are taken up to the path, or with the path behind the last
of them. -/
theorem takeWords_flags (h : (name, codec) ∈ textCodecs) (path : Text) :
    takeWords textLevel ["--codec".toList, name, "--file".toList, path] .start =
        takeWords textLevel [path] (.awaiting name []) ∧
      takeWords textLevel ["--codec".toList, name, "--file=".toList ++ path] .start =
        (Progress.awaiting name [path]).settle.map fun progress => (progress, none) := by
  rcases of_mem_textCodecs h with ⟨rfl, rfl⟩ | ⟨rfl, rfl⟩
  · exact ⟨rfl, rfl⟩
  · exact ⟨rfl, rfl⟩

/-- All words are taken in the end, whichever way the path is given. -/
theorem FileWords.exists_takeWords (hwords : FileWords name path words)
    (hcodec : (name, codec) ∈ textCodecs) (hpath : path ≠ []) :
    ∃ progress, takeWords textLevel words .start = .ok (progress, none) ∧
      progress.settle = .ok (.complete name path) := by
  obtain ⟨hapart, hjoined⟩ := takeWords_flags hcodec path
  cases hwords with
  | apart hplain =>
    have hend : path ≠ "--".toList := hplain '-' []
    refine ⟨.awaiting name [path], ?_, settle_awaiting hpath name⟩
    rw [hapart, takeWords]
    simp only [if_neg hend, takeWord_of_isPlain hplain]
    rfl
  | joined =>
    refine ⟨.complete name path, ?_, rfl⟩
    rw [hjoined, settle_awaiting hpath]
    rfl

/-- The words make up the command for the codec and the file. -/
theorem FileWords.parseText_eq (hwords : FileWords name path words)
    (hcodec : (name, codec) ∈ textCodecs) (hpath : path ≠ [])
    (make : TextCodec → TextInput → Command) :
    parseText make words = .ok ⟨none, none, make codec (.file path)⟩ := by
  obtain ⟨progress, htake, hsettle⟩ := hwords.exists_takeWords hcodec hpath
  have hgiven : codec? textCodecs (Progress.complete name path).given = some codec := by
    rcases of_mem_textCodecs hcodec with ⟨rfl, rfl⟩ | ⟨rfl, rfl⟩
    · rfl
    · rfl
  -- The steps of reading the words, with the level of a text codec by its name.
  change (takeWords textLevel words .start >>= fun taken => taken.1.settle >>= fun progress =>
    (textInput progress.given >>= fun input =>
      .ok (make ((codec? textCodecs progress.given).getD .base64) input)) >>= fun command =>
        .ok (invocation progress.given command)) = _
  rw [htake, Success.bind_ok, hsettle, Success.bind_ok, hgiven]
  rfl

/-! ## The runs -/

/-- The words make up a command that prints the data on the machine and changes nothing else. -/
def Prints (words : List Text) (machine : Machine) (data : Bytes) : Prop :=
  ∃ invocation, parse machine.environment words = .ok invocation ∧
    runOn invocation.run machine = (.ok (), { machine with printed := machine.printed ++ data })

/-- A path that is read is not empty. -/
theorem ne_nil_of_read {files : Files} {data : Bytes} (h : files.read path = .ok data) :
    path ≠ [] := by
  rintro rfl
  cases h

/-- A file is read as the input of a codec. -/
theorem runOn_read_file {machine : Machine} {data : Bytes}
    (h : machine.files.read path = .ok data) :
    runOn (TextInput.read (.file path)) machine = (.ok data, machine) := by
  change runOn (look (·.read path)) machine = (.ok data, machine)
  exact runOn_look_ok h

/-- Encoding prints the text of the file and a line feed. -/
theorem prints_encode (hcodec : (name, codec) ∈ textCodecs) {machine : Machine} {data : Bytes}
    (hread : machine.files.read path = .ok data) (hwords : FileWords name path words) :
    Prints ("encode".toList :: words) machine (Utf8.encode (codec.encode data ++ ['\n'])) := by
  refine ⟨⟨none, none, .encode codec (.file path)⟩, ?_, ?_⟩
  · change (parseText .encode words >>= fun below => .ok (below.withOuter [])) = _
    rw [hwords.parseText_eq hcodec (ne_nil_of_read hread)]
    rfl
  · exact runOn_bind_ok (runOn_read_file hread) _

/-- Decoding prints the data that the text in the file stands for. -/
theorem prints_decode (hcodec : (name, codec) ∈ textCodecs) {machine : Machine} {data : Bytes}
    {text : Text} (hread : machine.files.read path = .ok (Utf8.encode text))
    (hdecode : codec.decode text = .ok data) (hwords : FileWords name path words) :
    Prints ("decode".toList :: words) machine data := by
  refine ⟨⟨none, none, .decode codec (.file path)⟩, ?_, ?_⟩
  · change (parseText .decode words >>= fun below => .ok (below.withOuter [])) = _
    rw [hwords.parseText_eq hcodec (ne_nil_of_read hread)]
    rfl
  · have htext : runOn (decodeUtf8 (Utf8.encode text)) machine = (.ok text, machine) := by
      rw [decodeUtf8, Utf8.decode_encode]
      rfl
    have hdata : runOn (Action.ofExcept (codec.decode text)) machine = (.ok data, machine) := by
      rw [hdecode]
      rfl
    change runOn (TextInput.read (.file path) >>= fun data => decodeUtf8 data >>= fun text =>
      Action.ofExcept (codec.decode text) >>= fun data => Action.print data) machine = _
    rw [runOn_bind_ok (runOn_read_file hread), runOn_bind_ok htext, runOn_bind_ok hdata]
    rfl

/-- The text of any data is the one by the standard, and it is read as the data also between
blanks. So what encoding a file prints, put into a file, is decoded to what the first file held. -/
theorem textCodec_roundTrip (hcodec : (name, codec) ∈ textCodecs) (data : Bytes) :
    codec.encode data = codec.standardText data ∧
    (∀ before after : Text, (∀ c ∈ before, Text.isBlank c = true) →
      (∀ c ∈ after, Text.isBlank c = true) →
      codec.decode (before ++ codec.encode data ++ after) = .ok data) ∧
    (∀ machine source words, machine.files.read source = .ok data →
      FileWords name source words →
      Prints ("encode".toList :: words) machine (Utf8.encode (codec.encode data ++ ['\n']))) ∧
    ∀ machine copy words,
      machine.files.read copy = .ok (Utf8.encode (codec.encode data ++ ['\n'])) →
      FileWords name copy words → Prints ("decode".toList :: words) machine data := by
  have hdecode (before after : Text) (hbefore : ∀ c ∈ before, Text.isBlank c = true)
      (hafter : ∀ c ∈ after, Text.isBlank c = true) :
      codec.decode (before ++ codec.encode data ++ after) = .ok data :=
    codec.decode_encode data hbefore hafter
  have hline : codec.decode (codec.encode data ++ ['\n']) = .ok data := by
    apply hdecode [] ['\n']
    · intro c hc
      cases hc
    · intro c hc
      rw [List.mem_singleton.mp hc]
      decide
  refine ⟨codec.encode_eq_standardText data, hdecode, ?_, ?_⟩
  · intro machine source words hread hwords
    exact prints_encode hcodec hread hwords
  · intro machine copy words hread hwords
    exact prints_decode hcodec hread hline hwords

/-- A file with a comment is encoded in hexadecimal, and the printed line is decoded from the file
in its place. -/
theorem textCodec_roundTrip_comment :
    ("b64hex".toList, .base64Hex) ∈ textCodecs ∧
    Prints ["encode".toList, "--codec".toList, "b64hex".toList, "--file".toList, "hosts".toList]
      (.resting (flat (HostRegistry.alone "# x".toList)))
      (Utf8.encode (TextCodec.base64Hex.encode (Utf8.encode "# x".toList) ++ ['\n'])) ∧
    Prints ["decode".toList, "--codec".toList, "b64hex".toList, "--file=hosts".toList]
      (.resting (flat (HostRegistry.alone
        (TextCodec.base64Hex.encode (Utf8.encode "# x".toList) ++ ['\n']))))
      (Utf8.encode "# x".toList) := by
  have hcodec : ("b64hex".toList, .base64Hex) ∈ textCodecs := List.mem_of_getElem? (i := 1) rfl
  have hplain : IsPlain "hosts".toList := by
    intro c rest heq
    cases heq
  obtain ⟨-, -, hencode, hdecode⟩ := textCodec_roundTrip hcodec (Utf8.encode "# x".toList)
  exact ⟨hcodec, hencode _ _ _ (HostRegistry.holds_alone _).read (.apart hplain),
    hdecode _ _ _ (HostRegistry.holds_alone _).read .joined⟩

end HostKit.CommandLine
