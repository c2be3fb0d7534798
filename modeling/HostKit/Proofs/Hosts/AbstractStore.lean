import HostKit.Proofs.Hosts.Operations

/-!
# The abstract store behind a registry

A registry behaves as a store that is missing or a row of entries. The text of its file stands
for the entries on its lines, and each operation answers as the store does and leaves a text that
stands for the next store: line ends, foreign lines and a last line that is not terminated make
no difference. Where the lock file cannot be opened, no operation changes the store.
-/

namespace HostKit.HostRegistry

open HostKit.Action Files
open HostsFile (Fits)
open Text (lines)

/-- A call of an operation. -/
inductive Request where
  | add (ip hostname : Text)
  | remove (ip : Text)
  | set (ip hostname : Text)
  | contains (ip : Text)
  | nameOf (ip : Text)
  | entries

/-- What an operation returns. -/
inductive Answer where
  | done
  | truth (holds : Bool)
  | name (hostname? : Option Text)
  | entries (entries : List HostEntry)

/-- A call as an action on the registry. -/
def Request.action (registry : HostRegistry) : Request → Action Answer
  | .add ip hostname => do
    registry.add ip hostname
    return .done
  | .remove ip => do
    registry.remove ip
    return .done
  | .set ip hostname => do
    registry.set ip hostname
    return .done
  | .contains ip => return .truth (← registry.contains ip)
  | .nameOf ip => return .name (← registry.hostname? ip)
  | .entries => return .entries (← registry.entries)

/-- The calls made one after the other: how each of them ends, and the entries that are read
after it. -/
def observe (registry : HostRegistry) :
    List Request → Machine → List (Except Stop Answer × Except Stop (List HostEntry))
  | [], _ => []
  | request :: requests, machine =>
    let (outcome, machine) := runOn (request.action registry) machine
    let (seen, machine) := runOn registry.entries machine
    (outcome, seen) :: observe registry requests machine

/-- A store is missing, or a row of entries. -/
abbrev Store := Option (List HostEntry)

namespace Store

/-- The failure of looking into a missing store. -/
def missing : Stop := .failure (.io .noEntry)

/-- The entries of the store. -/
def read : Store → Except Stop (List HostEntry)
  | none => .error missing
  | some entries => .ok entries

/-- A look into the store. -/
def look (store : Store) (answer : List HostEntry → Answer) : Except Stop Answer × Store :=
  (store.read.map answer, store)

/-- A change of the store, unless it is refused. -/
def change (refusal? : Option IoError) (store : Store) (entries : List HostEntry) :
    Except Stop Answer × Store :=
  match refusal? with
  | some e => (.error (.failure (.io e)), store)
  | none => (.ok .done, some entries)

/-- How a call ends on the store, and the store after it. A refusal to change the store comes
after the call is found to be one that can be made. -/
def answer (refusal? : Option IoError) (store : Store) : Request → Except Stop Answer × Store
  | .add ip hostname =>
    match HostEntry.make ip hostname with
    | .error refusal => (.error (.failure refusal.toFailure), store)
    | .ok entry => store.change refusal? (store.getD [] ++ [entry])
  | .remove ip =>
    match store with
    | none => (.error missing, none)
    | some entries => change refusal? store (entries.filter fun entry => entry.ip ≠ ip)
  | .set ip hostname =>
    match HostEntry.make ip hostname with
    | .error refusal => (.error (.failure refusal.toFailure), store)
    | .ok entry =>
      store.change refusal? (((store.getD []).filter fun entry => entry.ip ≠ ip) ++ [entry])
  | .contains ip => store.look fun entries => .truth (entries.any fun entry => entry.ip = ip)
  | .nameOf ip =>
    store.look fun entries =>
      .name ((entries.find? fun entry => entry.ip = ip).map HostEntry.hostname)
  | .entries => store.look .entries

/-- The calls made one after the other on the store, and its entries after each of them. -/
def observe (refusal? : Option IoError) :
    List Request → Store → List (Except Stop Answer × Except Stop (List HostEntry))
  | [], _ => []
  | request :: requests, store =>
    let (outcome, store) := store.answer refusal? request
    (outcome, store.read) :: observe refusal? requests store

/-- The store that a text stands for. -/
def ofText? (text? : Option Text) : Store := text?.map fun text => entriesOf (lines text)

end Store

variable {registry : HostRegistry} {machine : Machine} {files : Files} {l k : Location}
variable {ip hostname text : Text} {text? : Option Text} {refusal? : Option IoError}
variable {store : Store} {entry : HostEntry}

/-- There is room for replacements: the first one fits under the lock, and there is room for the
temporary file of a later one next to the file. -/
structure Roomy (registry : HostRegistry) (files : Files) (l : Location) : Prop where
  fits : ∀ k, registry.LocksAt files k → Fits (files.ensureFile k) registry.path l
  hasRoom : files.HasRoom (absolutePath l)

/-- Once there is a text, there is room as long as only files come and change. -/
theorem Roomy.grows {final : Files} (h : registry.Roomy files l) (hk : registry.LocksAt files k)
    (hgrows : Grows files final) (hfinal : registry.Holds final l (some text)) :
    registry.Roomy final l :=
  have hroom := hgrows.hasRoom_iff.mpr h.hasRoom
  ⟨fun _ hk' => (hfinal.fits_iff hk').mpr ⟨(h.fits k hk).length_le, hroom⟩, hroom⟩

/-- The files hold a text that stands for the store, taking the lock is refused as given, and there
is room for replacements. -/
structure Represents (registry : HostRegistry) (files : Files) (l : Location)
    (refusal? : Option IoError) (store : Store) : Prop where
  lockRefusal?_eq : registry.lockRefusal? files = refusal?
  holds : ∃ text?, registry.Holds files l text? ∧ Store.ofText? text? = store
  roomy : registry.Roomy files l

/-- The lines are read, if there is a file. -/
theorem Holds.runOn_readLines (h : registry.Holds machine.files l text?) :
    runOn (HostsFile.readLines registry.path) machine =
      ((text?.elim (.error Store.missing) fun text => .ok (lines text)), machine) := by
  cases text? with
  | none => exact HostsFile.runOn_readLines_error h.read_none
  | some text => exact HostsFile.runOn_readLines h.read

/-- An operation that works on the lines looks at the store. -/
theorem runOn_look_lines (h : registry.Holds machine.files l text?) {α : Type}
    (f : List Text → α) (g : List HostEntry → α) (hfg : ∀ ls, f ls = g (entriesOf ls)) :
    runOn (do return f (← HostsFile.readLines registry.path)) machine =
      ((Store.ofText? text?).read.map g, machine) := by
  cases text? with
  | none =>
    rw [runOn_bind_error h.runOn_readLines]
    rfl
  | some text =>
    rw [runOn_bind_ok h.runOn_readLines, hfg]
    rfl

/-- A lookup answers as the store does and changes nothing. -/
theorem Represents.step_look (h : registry.Represents machine.files l refusal? store)
    {α : Type} {operation : Action α} {f : List Text → α} {g : List HostEntry → α}
    {wrap : α → Answer} (hfg : ∀ ls, f ls = g (entriesOf ls))
    (hoperation : operation = do return f (← HostsFile.readLines registry.path)) :
    runOn (do return wrap (← operation)) machine =
      ((store.look fun entries => wrap (g entries)).1, machine) := by
  obtain ⟨text?, hholds, rfl⟩ := h.holds
  have hlook := runOn_look_lines hholds f g hfg
  rw [← hoperation] at hlook
  cases hread : (Store.ofText? text?).read with
  | error stop =>
    rw [hread] at hlook
    rw [runOn_bind_error hlook, Store.look, hread]
    rfl
  | ok entries =>
    rw [hread] at hlook
    rw [runOn_bind_ok hlook, Store.look, hread]
    rfl

/-- A change answers as the store does, if the operation succeeds and leaves a text for the new
entries wherever the lock can be taken, and fails with the refusal of the lock elsewhere. -/
theorem Represents.step_change (h : registry.Represents machine.files l refusal? store)
    {operation : Action Unit} {entries : List HostEntry}
    (hrefused : ∀ e, registry.lockRefusal? machine.files = some e →
      runOn operation machine = (.error (.failure (.io e)), machine))
    (hlocked : ∀ k, registry.LocksAt machine.files k → ∃ after text,
      runOn operation machine = (.ok (), after) ∧ registry.Holds after.files l (some text) ∧
        Grows machine.files after.files ∧ entriesOf (lines text) = entries) :
    ∃ after, runOn (do
        operation
        return Answer.done) machine = ((store.change refusal? entries).1, after) ∧
      registry.Represents after.files l refusal? (store.change refusal? entries).2 := by
  cases refusal? with
  | some e => exact ⟨machine, runOn_bind_error (hrefused e h.lockRefusal?_eq) _, h⟩
  | none =>
    obtain ⟨k, hk⟩ := lockRefusal?_eq_none_iff.mp h.lockRefusal?_eq
    obtain ⟨after, text, hrun, hafter, hgrows, hentries⟩ := hlocked k hk
    exact ⟨after, runOn_bind_ok hrun _, lockRefusal?_eq_none_iff.mpr ⟨k, hk.grows hgrows⟩,
      ⟨some text, hafter, congrArg some hentries⟩, h.roomy.grows hk hgrows hafter⟩

/-- An operation that is refused for its arguments or for the missing file answers as the store
does and changes nothing. -/
theorem Represents.step_refused (h : registry.Represents machine.files l refusal? store)
    {operation : Action Unit} {stop : Stop}
    (hrun : runOn operation machine = (.error stop, machine)) :
    ∃ after, runOn (do
        operation
        return Answer.done) machine = (.error stop, after) ∧
      registry.Represents after.files l refusal? store :=
  ⟨machine, runOn_bind_error hrun _, h⟩

/-- Each call ends as on the store, and the text that it leaves stands for the next store. -/
theorem Represents.step (h : registry.Represents machine.files l refusal? store)
    (request : Request) :
    ∃ after, runOn (request.action registry) machine = ((store.answer refusal? request).1, after) ∧
      registry.Represents after.files l refusal? (store.answer refusal? request).2 := by
  obtain ⟨text?, hholds, rfl⟩ := h.holds
  cases request with
  | add ip hostname =>
    cases hentry : HostEntry.make ip hostname with
    | error refusal =>
      simp only [Store.answer, hentry]
      exact h.step_refused (runOn_add_bad hentry)
    | ok entry =>
      simp only [Store.answer, hentry]
      refine h.step_change (fun e => runOn_add_refused hentry) fun k hk => ?_
      obtain ⟨after, hrun, hafter, hgrows⟩ := hholds.runOn_add hentry hk
      refine ⟨after, _, hrun, hafter, hgrows, ?_⟩
      rw [entriesOf_lines_closed_append hentry]
      cases text? <;> rfl
  | remove ip =>
    cases text? with
    | none =>
      have hitem := isText_none.mp hholds.isText
      exact h.step_refused (runOn_remove_missing hholds.opens hitem)
    | some text =>
      refine h.step_change (fun e => runOn_remove_refused hholds) fun k hk => ?_
      obtain ⟨after, hrun, hafter, hgrows⟩ := hholds.runOn_remove hk fun _ => h.roomy.fits k hk
      refine ⟨after, _, hrun, hafter, hgrows, ?_⟩
      split
      · next hkept => rw [← entriesOf_otherLines, hkept]
      · exact entriesOf_lines_unlines ip text
  | set ip hostname =>
    cases hentry : HostEntry.make ip hostname with
    | error refusal =>
      simp only [Store.answer, hentry]
      exact h.step_refused (runOn_set_bad hentry)
    | ok entry =>
      simp only [Store.answer, hentry]
      refine h.step_change (fun e => runOn_set_refused hentry) fun k hk => ?_
      obtain ⟨after, hrun, hafter, hgrows⟩ := hholds.runOn_set hentry hk (h.roomy.fits k hk)
      refine ⟨after, _, hrun, hafter, hgrows, ?_⟩
      rw [entriesOf_lines_unlines_otherLines hentry]
      cases text? <;> rfl
  | contains ip =>
    exact ⟨machine, h.step_look (any_matchesIp ip) rfl, h⟩
  | nameOf ip =>
    exact ⟨machine, h.step_look (fun _ => rfl) rfl, h⟩
  | entries =>
    exact ⟨machine, h.step_look (fun _ => rfl) rfl, h⟩

/-- A comment that ends with a carriage return, and an entry that is not terminated. -/
def mixedText : Text := "# x\r\n10.0.0.1\ta".toList

end HostKit.HostRegistry
