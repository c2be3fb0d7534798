import HostKit.Config.Basic
import HostKit.Proofs.Toml.DistinctKeys
import Mathlib

/-!
# Settings

A configuration is described by the entries of its document: each key is one of the fields, the
value of a field is that of its key, and a field without a key has its default. The defaults for
remote runs may be given by an array in place of a table, with one item for each field in the order
of the fields; further items are not looked at. The entries are read one after the other, in the
order of their keys, and each sets its own field only, so a document is a configuration exactly if
it is described in this way, and every other document is refused.
-/

namespace HostKit

open Toml (Value Entries)

variable {value : Value} {entries : Entries}

namespace Config

/-! ## Values of fields -/

/-- A field is set to the text that the value is. -/
def SetsText (value : Value) (field : Option Text) : Prop :=
  ∃ text, value = .string text ∧ field = some text

/-- A field is set to the natural number of at most so many bits that the value is. -/
def SetsNumber (bits : Nat) (value : Value) (field : Option Nat) : Prop :=
  ∃ n : Nat, n < 2 ^ bits ∧ value = .integer n ∧ field = some n

/-- A field is set by the value of its key, and keeps what it has if the key is absent. -/
def Carries {Field : Type} (sets : Value → Field → Prop) (value? : Option Value)
    (before after : Field) : Prop :=
  match value? with
  | none => after = before
  | some value => sets value after

@[simp] theorem carries_none {Field : Type} {sets : Value → Field → Prop} {before after : Field} :
    Carries sets none before after ↔ after = before := .rfl

@[simp] theorem carries_some {Field : Type} {sets : Value → Field → Prop} {before after : Field} :
    Carries sets (some value) before after ↔ sets value after := .rfl

/-- No value is accepted by refusing it. -/
theorem refuse_ne_ok {α : Type} (value : Value) (expected : Text) (a : α) :
    (refuse value expected : Except Refusal α) ≠ .ok a := by
  intro h
  obtain ⟨found, -, h⟩ := Success.of_bind h
  cases h

/-- A value is a text exactly if it is a string. -/
theorem textOf_eq_ok_iff {text : Text} : textOf value = .ok text ↔ value = .string text := by
  cases value with
  | string other => simp [textOf]
  | _ => simp [textOf, refuse_ne_ok]

/-- A value is a number up to the limit exactly if it is such an integer. -/
theorem naturalOf_eq_ok_iff {limit : Nat} {name : Text} {n : Nat} :
    naturalOf limit name value = .ok n ↔ n ≤ limit ∧ value = .integer n := by
  cases value with
  | integer i =>
    simp only [naturalOf, Value.integer.injEq]
    by_cases hrange : 0 ≤ i ∧ i ≤ limit
    · rw [if_pos hrange, Except.ok.injEq]
      omega
    · rw [if_neg hrange]
      have hne : ¬(n ≤ limit ∧ i = n) := by omega
      split <;> simp [refuse_ne_ok, hne]
  | _ => simp [naturalOf, refuse_ne_ok]

/-- A port has sixteen bits. -/
theorem portOf_eq_ok_iff {n : Nat} : portOf value = .ok n ↔ n < 2 ^ 16 ∧ value = .integer n := by
  rw [portOf, naturalOf_eq_ok_iff, show Word.largest 16 = 2 ^ 16 - 1 from rfl]
  constructor <;> exact fun ⟨hn, hvalue⟩ => ⟨by omega, hvalue⟩

/-- A number of seconds has sixty-four bits. -/
theorem secondsOf_eq_ok_iff {n : Nat} :
    secondsOf value = .ok n ↔ n < 2 ^ 64 ∧ value = .integer n := by
  rw [secondsOf, naturalOf_eq_ok_iff, show Word.largest 64 = 2 ^ 64 - 1 from rfl]
  constructor <;> exact fun ⟨hn, hvalue⟩ => ⟨by omega, hvalue⟩

/-! ## The defaults for remote runs -/

/-- Entries set the fields for remote runs: each key is one of them, and each field is set by its
key alone. -/
structure SetsSsh (entries : Entries) (before after : SshConfig) : Prop where
  known : ∀ entry ∈ entries, entry.1 ∈ sshFields
  user : Carries SetsText (entries.get? "user") before.user after.user
  port : Carries (SetsNumber 16) (entries.get? "port") before.port after.port
  keyFile : Carries SetsText (entries.get? "key_file") before.keyFile after.keyFile
  connectTimeoutSecs : Carries (SetsNumber 64) (entries.get? "connect_timeout_secs")
    before.connectTimeoutSecs after.connectTimeoutSecs

/-- A key is set if it is one of the fields and its value fits, and nothing else is changed. -/
theorem setSshField_eq_ok_iff {before after : SshConfig} {key : Text} :
    setSshField before key value = .ok after ↔
      key = "user".toList ∧ (∃ t, value = .string t ∧ { before with user := some t } = after) ∨
      key = "port".toList ∧
        (∃ n : Nat, (n < 2 ^ 16 ∧ value = .integer n) ∧ { before with port := some n } = after) ∨
      key = "key_file".toList ∧
        (∃ t, value = .string t ∧ { before with keyFile := some t } = after) ∨
      key = "connect_timeout_secs".toList ∧
        ∃ n : Nat, (n < 2 ^ 64 ∧ value = .integer n) ∧
          { before with connectTimeoutSecs := some n } = after := by
  have hbind {α : Type} {step : Except Refusal α} {next : α → SshConfig} :
      (step >>= fun a => .ok (next a)) = .ok after ↔ ∃ a, step = .ok a ∧ next a = after := by
    cases step <;> simp
  unfold setSshField
  split
  · next hkey => simp [hkey, hbind, textOf_eq_ok_iff]
  split
  · next hkey => simp [hkey, hbind, portOf_eq_ok_iff]
  split
  · next hkey => simp [hkey, hbind, textOf_eq_ok_iff]
  split
  · next hkey => simp [hkey, hbind, secondsOf_eq_ok_iff]
  · next huser hport hkeyFile hseconds =>
    simp only [huser, hport, hkeyFile, hseconds, false_and, or_self, reduceCtorEq]

/-- Without entries nothing is set. -/
theorem setsSsh_nil {before after : SshConfig} : SetsSsh [] before after ↔ before = after := by
  constructor
  · rintro ⟨-, huser, hport, hkeyFile, hseconds⟩
    cases before
    cases after
    exact SshConfig.mk.injEq .. ▸ ⟨huser.symm, hport.symm, hkeyFile.symm, hseconds.symm⟩
  · rintro rfl
    exact ⟨by simp, rfl, rfl, rfl, rfl⟩

/-- An entry sets its field, and the entries after it, which have other keys, the other ones. -/
theorem setsSsh_cons_iff {before after : SshConfig} {key : Text}
    (hkey : key ∉ entries.map Prod.fst) :
    SetsSsh ((key, value) :: entries) before after ↔
      ∃ between, setSshField before key value = .ok between ∧ SetsSsh entries between after := by
  have hnone : entries.get? key = none := Toml.Entries.get?_eq_none_iff.mpr hkey
  constructor
  · rintro ⟨hknown, huser, hport, hkeyFile, hseconds⟩
    rw [Toml.Entries.get?_cons] at huser hport hkeyFile hseconds
    rw [List.forall_mem_cons] at hknown
    obtain ⟨hfield, hknown⟩ := hknown
    simp only [sshFields, List.mem_cons, List.not_mem_nil, or_false] at hfield
    rcases hfield with rfl | rfl | rfl | rfl
    · obtain ⟨text, rfl, hset⟩ := huser
      refine ⟨_, setSshField_eq_ok_iff.mpr (.inl ⟨rfl, text, rfl, rfl⟩), hknown, ?_, hport,
        hkeyFile, hseconds⟩
      rw [hnone]
      exact hset
    · obtain ⟨n, hn, rfl, hset⟩ := hport
      refine ⟨_, setSshField_eq_ok_iff.mpr (.inr (.inl ⟨rfl, n, ⟨hn, rfl⟩, rfl⟩)), hknown, huser,
        ?_, hkeyFile, hseconds⟩
      rw [hnone]
      exact hset
    · obtain ⟨text, rfl, hset⟩ := hkeyFile
      refine ⟨_, setSshField_eq_ok_iff.mpr (.inr (.inr (.inl ⟨rfl, text, rfl, rfl⟩))), hknown,
        huser, hport, ?_, hseconds⟩
      rw [hnone]
      exact hset
    · obtain ⟨n, hn, rfl, hset⟩ := hseconds
      refine ⟨_, setSshField_eq_ok_iff.mpr (.inr (.inr (.inr ⟨rfl, n, ⟨hn, rfl⟩, rfl⟩))), hknown,
        huser, hport, hkeyFile, ?_⟩
      rw [hnone]
      exact hset
  · rintro ⟨between, hset, hknown, huser, hport, hkeyFile, hseconds⟩
    have hall (hfield : key ∈ sshFields) : ∀ entry ∈ (key, value) :: entries, entry.1 ∈ sshFields :=
      List.forall_mem_cons.mpr ⟨hfield, hknown⟩
    rcases setSshField_eq_ok_iff.mp hset with ⟨rfl, text, rfl, rfl⟩ | ⟨rfl, n, ⟨hn, rfl⟩, rfl⟩ |
      ⟨rfl, text, rfl, rfl⟩ | ⟨rfl, n, ⟨hn, rfl⟩, rfl⟩
    · rw [hnone] at huser
      exact ⟨hall (by decide), ⟨text, rfl, huser⟩, hport, hkeyFile, hseconds⟩
    · rw [hnone] at hport
      exact ⟨hall (by decide), huser, ⟨n, hn, rfl, hport⟩, hkeyFile, hseconds⟩
    · rw [hnone] at hkeyFile
      exact ⟨hall (by decide), huser, hport, ⟨text, rfl, hkeyFile⟩, hseconds⟩
    · rw [hnone] at hseconds
      exact ⟨hall (by decide), huser, hport, hkeyFile, ⟨n, hn, rfl, hseconds⟩⟩

/-- Entries whose keys differ, read one after the other, set the fields of their keys. -/
theorem foldlM_setSshField_eq_ok_iff {before after : SshConfig}
    (hkeys : (entries.map Prod.fst).Nodup) :
    entries.foldlM (fun config entry => setSshField config entry.1 entry.2) before = .ok after ↔
      SetsSsh entries before after := by
  induction entries generalizing before with
  | nil =>
    rw [setsSsh_nil]
    exact ⟨Except.ok.inj, congrArg _⟩
  | cons entry rest ih =>
    rw [List.map_cons, List.nodup_cons] at hkeys
    rw [setsSsh_cons_iff hkeys.1, List.foldlM_cons]
    constructor
    · intro h
      obtain ⟨between, hset, hrest⟩ := Success.of_bind h
      exact ⟨between, hset, (ih hkeys.2).mp hrest⟩
    · rintro ⟨between, hset, hrest⟩
      rw [hset, Success.bind_ok, (ih hkeys.2).mpr hrest]

/-- The order of entries whose keys differ does not matter. -/
theorem setsSsh_perm {others : Entries} {before after : SshConfig} (h : entries.Perm others)
    (hkeys : (entries.map Prod.fst).Nodup) :
    SetsSsh entries before after ↔ SetsSsh others before after := by
  have hget := Toml.Entries.get?_perm h hkeys
  constructor
  · rintro ⟨hknown, huser, hport, hkeyFile, hseconds⟩
    simp only [hget] at huser hport hkeyFile hseconds
    exact ⟨fun entry hentry => hknown entry (h.mem_iff.mpr hentry), huser, hport, hkeyFile,
      hseconds⟩
  · rintro ⟨hknown, huser, hport, hkeyFile, hseconds⟩
    simp only [← hget] at huser hport hkeyFile hseconds
    exact ⟨fun entry hentry => hknown entry (h.mem_iff.mp hentry), huser, hport, hkeyFile, hseconds⟩

/-- The defaults for remote runs are given by a table, or by an array that has an item at least for
each field. -/
inductive SetsSshBy : Value → SshConfig → Prop
  | table {origin : Toml.Origin} {entries : Entries} {config : SshConfig}
    (sets : SetsSsh entries {} config) : SetsSshBy (.table origin entries) config
  | array {isOpen : Bool} {items : List Value} {config : SshConfig}
    (length : sshFields.length ≤ items.length) (sets : SetsSsh (sshFields.zip items) {} config) :
    SetsSshBy (.array isOpen items) config

/-- The fields that an array gives by their places differ. -/
theorem nodup_zip_sshFields (items : List Value) :
    ((sshFields.zip items).map Prod.fst).Nodup := by
  rw [List.zip_eq_zip_take_min, List.map_fst_zip (by simp)]
  exact List.Nodup.sublist (List.take_sublist _ _) (by decide)

/-- The entries in the order of their keys are the same ones. -/
theorem sortedEntries_perm (entries : Entries) : (sortedEntries entries).Perm entries :=
  List.mergeSort_perm _ _

/-- A value is read as the defaults for remote runs exactly if it gives them. -/
theorem sshOf_eq_ok_iff {config : SshConfig} (hvalue : value.Distinct) :
    sshOf value = .ok config ↔ SetsSshBy value config := by
  cases value with
  | table origin entries =>
    have hkeys := (Toml.Entries.distinct_of_table hvalue).keys
    have hsorted := (sortedEntries_perm entries).map Prod.fst |>.nodup_iff.mpr hkeys
    rw [sshOf, foldlM_setSshField_eq_ok_iff hsorted,
      setsSsh_perm (sortedEntries_perm entries) hsorted]
    exact ⟨.table, fun | .table sets => sets⟩
  | array isOpen items =>
    have hfold := @foldlM_setSshField_eq_ok_iff _ {} config (nodup_zip_sshFields items)
    rw [sshOf]
    constructor
    · intro h
      obtain ⟨filled, hfilled, h⟩ := Success.of_bind h
      split at h
      · cases h
      · next hlength =>
        obtain rfl := Except.ok.inj h
        exact .array (Nat.le_of_not_lt hlength) (hfold.mp hfilled)
    · rintro ⟨⟩
      next hlength hsets =>
      rw [hfold.mpr hsets, Success.bind_ok, if_neg (Nat.not_lt_of_le hlength)]
  | dateTime text => exact ⟨fun h => (by cases h), fun h => (by cases h)⟩
  | _ => exact ⟨fun h => absurd h (refuse_ne_ok _ _ _), fun h => (by cases h)⟩

/-! ## The configuration -/

/-- Entries set the fields of a configuration: each key is one of them, and each field is set by
its key alone. -/
structure Sets (entries : Entries) (before after : Config) : Prop where
  known : ∀ entry ∈ entries, entry.1 ∈ fields
  hostsFile : Carries (fun value text => value = .string text) (entries.get? "hosts_file")
    before.hostsFile after.hostsFile
  ssh : Carries SetsSshBy (entries.get? "ssh") before.ssh after.ssh

/-- An entry sets its field, and the entries after it, which have other keys, the other one. -/
theorem sets_cons_iff {before after : Config} {key : Text} (hkey : key ∉ entries.map Prod.fst)
    (hvalue : value.Distinct) :
    Sets ((key, value) :: entries) before after ↔
      ∃ between, setField before key value = .ok between ∧ Sets entries between after := by
  have hnone : entries.get? key = none := Toml.Entries.get?_eq_none_iff.mpr hkey
  constructor
  · rintro ⟨hknown, hhosts, hssh⟩
    rw [Toml.Entries.get?_cons] at hhosts hssh
    rw [List.forall_mem_cons] at hknown
    obtain ⟨hfield, hknown⟩ := hknown
    simp only [fields, List.mem_cons, List.not_mem_nil, or_false] at hfield
    rcases hfield with rfl | rfl
    · obtain rfl : value = .string after.hostsFile := hhosts
      refine ⟨{ before with hostsFile := after.hostsFile }, rfl, hknown, ?_, hssh⟩
      rw [hnone]
      rfl
    · have hset : sshOf value = .ok after.ssh := (sshOf_eq_ok_iff hvalue).mpr hssh
      refine ⟨{ before with ssh := after.ssh }, ?_, hknown, hhosts, ?_⟩
      · rw [setField, if_neg (by decide), if_pos rfl, hset, Success.bind_ok]
      · rw [hnone]
        rfl
  · rintro ⟨between, hset, hknown, hhosts, hssh⟩
    unfold setField at hset
    split at hset
    · next hfile =>
      subst hfile
      obtain ⟨text, htext, hset⟩ := Success.of_bind hset
      obtain rfl := textOf_eq_ok_iff.mp htext
      obtain rfl := Except.ok.inj hset
      rw [hnone] at hhosts
      obtain rfl : after.hostsFile = text := hhosts
      exact ⟨List.forall_mem_cons.mpr ⟨List.mem_cons_self, hknown⟩, rfl, hssh⟩
    split at hset
    · next hname =>
      subst hname
      obtain ⟨config, hconfig, hset⟩ := Success.of_bind hset
      obtain rfl := Except.ok.inj hset
      rw [hnone] at hssh
      obtain rfl : after.ssh = config := hssh
      have hfield : "ssh".toList ∈ fields := List.mem_cons_of_mem _ List.mem_cons_self
      exact ⟨List.forall_mem_cons.mpr ⟨hfield, hknown⟩, hhosts,
        (sshOf_eq_ok_iff hvalue).mp hconfig⟩
    · cases hset

/-- Entries whose keys differ, read one after the other, set the fields of their keys. -/
theorem foldlM_setField_eq_ok_iff {before after : Config} (h : entries.Distinct) :
    entries.foldlM (fun config entry => setField config entry.1 entry.2) before = .ok after ↔
      Sets entries before after := by
  induction entries generalizing before with
  | nil =>
    constructor
    · intro h
      obtain rfl : before = after := Except.ok.inj h
      exact ⟨by simp, rfl, rfl⟩
    · rintro ⟨-, hhosts, hssh⟩
      cases before
      cases after
      obtain rfl := hhosts
      obtain rfl := hssh
      rfl
  | cons entry rest ih =>
    obtain ⟨hkeys, hvalues⟩ := h
    rw [List.map_cons, List.nodup_cons] at hkeys
    rw [List.forall_mem_cons] at hvalues
    rw [sets_cons_iff hkeys.1 hvalues.1, List.foldlM_cons]
    constructor
    · intro h
      obtain ⟨between, hset, hrest⟩ := Success.of_bind h
      exact ⟨between, hset, (ih ⟨hkeys.2, hvalues.2⟩).mp hrest⟩
    · rintro ⟨between, hset, hrest⟩
      rw [hset, Success.bind_ok, (ih ⟨hkeys.2, hvalues.2⟩).mpr hrest]

/-- Entries whose keys differ are a configuration exactly if they set its fields. -/
theorem ofTable_eq_ok_iff {config : Config} (h : entries.Distinct) :
    ofTable entries = .ok config ↔ Sets entries {} config := by
  have hperm := sortedEntries_perm entries
  have hkeys := hperm.map Prod.fst |>.nodup_iff.mpr h.keys
  have hsorted : (sortedEntries entries).Distinct :=
    ⟨hkeys, fun entry hentry => h.values entry (hperm.mem_iff.mp hentry)⟩
  have hget := Toml.Entries.get?_perm hperm hkeys
  rw [ofTable, foldlM_setField_eq_ok_iff hsorted]
  constructor
  · rintro ⟨hknown, hhosts, hssh⟩
    simp only [hget] at hhosts hssh
    exact ⟨fun entry hentry => hknown entry (hperm.mem_iff.mpr hentry), hhosts, hssh⟩
  · rintro ⟨hknown, hhosts, hssh⟩
    simp only [← hget] at hhosts hssh
    exact ⟨fun entry hentry => hknown entry (hperm.mem_iff.mp hentry), hhosts, hssh⟩

/-- The keys of a valid document differ at every level, and it either is a configuration or is
refused as none. It is one exactly if each of its keys is a field and each field has the value of
its key, or its default without one; the defaults for remote runs may stand in a table, whose keys are
fields as well, or in an array with an item for each of them. -/
theorem ofToml_carries_settings {document : Text} (h : Toml.parse document = .ok entries) :
    entries.Distinct ∧
      ((∃ config, ofToml document = .ok config) ∨
        ∃ message, ofToml document = .error (.config message)) ∧
      ∀ config, ofToml document = .ok config ↔ Sets entries {} config := by
  have hdistinct := Toml.distinct_of_parse h
  have hread : ofToml document = (ofTable entries).mapError Refusal.toFailure := by
    rw [ofToml, h]
  refine ⟨hdistinct, ?_, fun config => ?_⟩
  · rw [hread]
    cases ofTable entries with
    | ok config => exact .inl ⟨config, rfl⟩
    | error refusal => exact .inr ⟨refusal.message, rfl⟩
  · rw [hread, Success.mapError_eq_ok_iff, ofTable_eq_ok_iff hdistinct]

/-- A port, and a key next to it that is none of the fields. -/
def misspelt : Entries := [("ssh".toList, .table .dotted [("port".toList, .integer 22),
  ("prot".toList, .integer 23)])]

/-- A misspelt key of the table for remote runs is refused, though it stands next to a good one and
both are dotted. -/
theorem ofToml_misspelt :
    Toml.parse "ssh.port = 22\nssh.prot = 23".toList = .ok misspelt ∧
      ∃ message, ofToml "ssh.port = 22\nssh.prot = 23".toList = .error (.config message) := by
  have hparse : Toml.parse "ssh.port = 22\nssh.prot = 23".toList = .ok misspelt := by cbv
  obtain ⟨-, houtcome, hiff⟩ := ofToml_carries_settings hparse
  refine ⟨hparse, houtcome.resolve_left ?_⟩
  rintro ⟨config, hconfig⟩
  obtain ⟨-, -, hssh⟩ := (hiff config).mp hconfig
  obtain ⟨hsets⟩ : SetsSshBy (.table .dotted [("port".toList, .integer 22),
    ("prot".toList, .integer 23)]) config.ssh := hssh
  have hknown := hsets.known ("prot".toList, .integer 23) (by simp)
  revert hknown
  decide

/-- The items of an array that stands for the defaults for remote runs. -/
def listed : List Value :=
  [.string "deploy".toList, .integer 22, .string "key".toList, .integer 5]

/-- An array in the place of the table for remote runs is not refused: its items are the fields by
their places. -/
theorem ofToml_array :
    Toml.parse "ssh = ['deploy', 22, 'key', 5]".toList = .ok [("ssh".toList, .array false listed)] ∧
      ofToml "ssh = ['deploy', 22, 'key', 5]".toList = .ok
        { ssh := ⟨some "deploy".toList, some 22, some "key".toList, some 5⟩ } := by
  have hparse : Toml.parse "ssh = ['deploy', 22, 'key', 5]".toList =
      .ok [("ssh".toList, .array false listed)] := by cbv
  have hdistinct := Toml.distinct_of_parse hparse
  have hsets : SetsSsh (sshFields.zip listed) {}
      ⟨some "deploy".toList, some 22, some "key".toList, some 5⟩ :=
    { known := by decide
      user := ⟨_, rfl, rfl⟩
      port := ⟨22, by decide, rfl, rfl⟩
      keyFile := ⟨_, rfl, rfl⟩
      connectTimeoutSecs := ⟨5, by decide, rfl, rfl⟩ }
  have htable : ofTable [("ssh".toList, .array false listed)] =
      .ok { ssh := ⟨some "deploy".toList, some 22, some "key".toList, some 5⟩ } :=
    (ofTable_eq_ok_iff hdistinct).mpr
      { known := by simp [fields]
        hostsFile := rfl
        ssh := SetsSshBy.array (by decide) hsets }
  exact ⟨hparse, by simp only [ofToml, hparse, htable, Except.mapError]⟩

end Config
end HostKit
