import HostKit.Proofs.Hosts.AbstractStore

/-!
# Edits for different addresses

The names of an address are those in its entries, in the order of the file. An edit adds to the
names of its own address, drops them or replaces them, and leaves those of every other address as
they are, although it appends to the shared file or writes it anew. So the names of an address
after a row of edits depend on the edits for this address alone, and no lookup can tell the order
in which edits for different addresses were made.
-/

namespace HostKit.HostRegistry

open HostKit.Action Files
open Text (lines)

variable {registry : HostRegistry} {machine after after' : Machine} {l k : Location} {text : Text}

/-- The names in the entries for an address, in the order of the entries. -/
def namesOf (ip : Text) (entries : List HostEntry) : List Text :=
  (entries.filter fun entry => entry.ip = ip).map HostEntry.hostname

/-- A call that edits a registry. -/
inductive Edit where
  | add (ip hostname : Text)
  | remove (ip : Text)
  | set (ip hostname : Text)

namespace Edit

/-- The address that an edit is for. -/
def ip : Edit → Text
  | add ip _ => ip
  | remove ip => ip
  | set ip _ => ip

/-- An edit as an action on the registry. -/
def action (registry : HostRegistry) : Edit → Action Unit
  | add ip hostname => registry.add ip hostname
  | remove ip => registry.remove ip
  | set ip hostname => registry.set ip hostname

/-- The entries after an edit. -/
def entries : Edit → List HostEntry → List HostEntry
  | add ip hostname, before => before ++ [⟨ip, hostname⟩]
  | remove ip, before => before.filter fun entry => entry.ip ≠ ip
  | set ip hostname, before => (before.filter fun entry => entry.ip ≠ ip) ++ [⟨ip, hostname⟩]

/-- The names of the address of an edit after it. -/
def names : Edit → List Text → List Text
  | add _ hostname, before => before ++ [hostname]
  | remove _, _ => []
  | set _ hostname, _ => [hostname]

end Edit

/-! ## Names after edits -/

/-- Entries one after the other give their names one after the other. -/
@[simp] theorem namesOf_append (ip : Text) (entries entries' : List HostEntry) :
    namesOf ip (entries ++ entries') = namesOf ip entries ++ namesOf ip entries' := by
  rw [namesOf, List.filter_append, List.map_append]
  rfl

/-- An entry for another address gives no name. -/
theorem namesOf_singleton (ip : Text) (entry : HostEntry) :
    namesOf ip [entry] = if entry.ip = ip then [entry.hostname] else [] := by
  by_cases h : entry.ip = ip <;> simp [namesOf, h]

/-- Without its entries an address has no names, and the others keep theirs. -/
theorem namesOf_filter_ne (ip ip' : Text) (entries : List HostEntry) :
    namesOf ip (entries.filter fun entry => entry.ip ≠ ip') =
      if ip' = ip then [] else namesOf ip entries := by
  rw [namesOf, List.filter_filter]
  by_cases h : ip' = ip
  · rw [if_pos h]
    have hnone : (entries.filter fun entry => decide (entry.ip = ip) && decide (entry.ip ≠ ip')) =
        [] := by
      rw [List.filter_eq_nil_iff]
      intro entry _
      simp [h]
    rw [hnone, List.map_nil]
  · rw [if_neg h, namesOf]
    congr 1
    apply List.filter_congr
    intro entry _
    by_cases hip : entry.ip = ip
    · simp [hip, Ne.symm h]
    · simp [hip]

/-- An edit changes the names of its own address and of no other. -/
theorem namesOf_edit (ip : Text) (edit : Edit) (entries : List HostEntry) :
    namesOf ip (edit.entries entries) =
      if edit.ip = ip then edit.names (namesOf ip entries) else namesOf ip entries := by
  cases edit with
  | add ip' hostname =>
    rw [Edit.entries, namesOf_append, namesOf_singleton]
    by_cases h : ip' = ip <;> simp [Edit.ip, Edit.names, h]
  | remove ip' => exact namesOf_filter_ne ip ip' entries
  | set ip' hostname =>
    rw [Edit.entries, namesOf_append, namesOf_filter_ne, namesOf_singleton]
    by_cases h : ip' = ip <;> simp [Edit.ip, Edit.names, h]

/-- The names of an address after a row of edits depend on the edits for this address alone. -/
theorem namesOf_edits (ip : Text) (edits : List Edit) (entries : List HostEntry) :
    namesOf ip (edits.foldl (fun before edit => edit.entries before) entries) =
      (edits.filter fun edit => edit.ip = ip).foldl (fun before edit => edit.names before)
        (namesOf ip entries) := by
  -- An edit for another address is left out on the right and leaves the start as it is.
  induction edits generalizing entries with
  | nil => rfl
  | cons edit edits ih =>
    rw [List.foldl_cons, ih, namesOf_edit]
    by_cases h : edit.ip = ip <;> simp [h]

/-! ## Edits of a file -/

/-- After a successful edit the registry holds a text with the entries after it. -/
theorem Holds.edit (h : registry.Holds machine.files l (some text)) {edit : Edit}
    (hrun : runOn (edit.action registry) machine = (.ok (), after)) :
    ∃ text', registry.Holds after.files l (some text') ∧
      entriesOf (lines text') = edit.entries (entriesOf (lines text)) := by
  have hcontent := contentOf_of_isText h.isText
  cases edit with
  | add ip hostname =>
    obtain ⟨⟨entry, hentry⟩, k, hk⟩ := of_runOn_add hrun
    obtain ⟨after', hrun', hafter, -⟩ := h.runOn_add hentry hk
    obtain ⟨-, rfl⟩ := Prod.mk.inj (hrun'.symm.trans hrun)
    refine ⟨_, hafter, ?_⟩
    rw [entriesOf_lines_closed_append hentry, (HostEntry.of_make hentry).1]
    rfl
  | remove ip =>
    obtain ⟨k, hk, hfits⟩ := of_runOn_remove h.wellFormed h.opens h.isText hrun
    obtain ⟨after', hrun', hafter, -⟩ := h.runOn_remove hk hfits
    obtain ⟨-, rfl⟩ := Prod.mk.inj (hrun'.symm.trans hrun)
    refine ⟨_, hafter, ?_⟩
    split
    · next hkept => rw [Edit.entries, ← entriesOf_otherLines, hkept]
    · exact entriesOf_lines_unlines ip text
  | set ip hostname =>
    obtain ⟨⟨entry, hentry⟩, k, hk, hfits⟩ := of_runOn_set h.wellFormed h.opens hcontent hrun
    obtain ⟨after', hrun', hafter, -⟩ := h.runOn_set hentry hk hfits
    obtain ⟨-, rfl⟩ := Prod.mk.inj (hrun'.symm.trans hrun)
    refine ⟨_, hafter, ?_⟩
    rw [entriesOf_lines_unlines_otherLines hentry, (HostEntry.of_make hentry).1]
    rfl

/-- After a row of successful edits the registry holds a text with the entries after them. -/
theorem Holds.edits (h : registry.Holds machine.files l (some text)) {edits : List Edit}
    (hrun : runOn (edits.forM fun edit => edit.action registry) machine = (.ok (), after)) :
    ∃ text', registry.Holds after.files l (some text') ∧
      entriesOf (lines text') =
        edits.foldl (fun before edit => edit.entries before) (entriesOf (lines text)) := by
  induction edits generalizing machine text with
  | nil =>
    obtain ⟨-, rfl⟩ := Prod.mk.inj hrun
    exact ⟨text, h, rfl⟩
  | cons edit edits ih =>
    change runOn (edit.action registry >>= fun _ => edits.forM fun edit => edit.action registry)
      machine = (.ok (), after) at hrun
    obtain ⟨_, between, hedit, hlater⟩ := of_runOn_bind hrun
    obtain ⟨text', hbetween, hentries⟩ := h.edit hedit
    obtain ⟨text'', hafter, hentries'⟩ := ih hbetween hlater
    refine ⟨text'', hafter, ?_⟩
    rw [hentries', hentries, List.foldl_cons]

/-- An edit whose arguments can stand on a line. -/
def Edit.IsGood : Edit → Prop
  | .add ip hostname => ∃ entry, HostEntry.make ip hostname = .ok entry
  | .remove _ => True
  | .set ip hostname => ∃ entry, HostEntry.make ip hostname = .ok entry

/-- Good edits succeed one after the other, where the lock can be taken and there is room for
replacements. -/
theorem Holds.exists_edits (h : registry.Holds machine.files l (some text))
    (hk : registry.LocksAt machine.files k) (hroomy : registry.Roomy machine.files l)
    {edits : List Edit} (hgood : ∀ edit ∈ edits, edit.IsGood) :
    ∃ after, runOn (edits.forM fun edit => edit.action registry) machine = (.ok (), after) := by
  induction edits generalizing machine text with
  | nil => exact ⟨machine, rfl⟩
  | cons edit edits ih =>
    have hgoodEdit := hgood edit List.mem_cons_self
    have hedit : ∃ between text', runOn (edit.action registry) machine = (.ok (), between) ∧
        registry.Holds between.files l (some text') ∧ Grows machine.files between.files := by
      cases edit with
      | add ip hostname =>
        obtain ⟨entry, hentry⟩ := hgoodEdit
        obtain ⟨between, hrun, hbetween⟩ := h.runOn_add hentry hk
        exact ⟨between, _, hrun, hbetween⟩
      | remove ip =>
        obtain ⟨between, hrun, hbetween⟩ := h.runOn_remove hk fun _ => hroomy.fits k hk
        exact ⟨between, _, hrun, hbetween⟩
      | set ip hostname =>
        obtain ⟨entry, hentry⟩ := hgoodEdit
        obtain ⟨between, hrun, hbetween⟩ := h.runOn_set hentry hk (hroomy.fits k hk)
        exact ⟨between, _, hrun, hbetween⟩
    obtain ⟨between, text', hrun, hbetween, hgrows⟩ := hedit
    obtain ⟨after, hlater⟩ := ih hbetween (hk.grows hgrows) (hroomy.grows hk hgrows hbetween)
      fun edit hmem => hgood edit (List.mem_cons_of_mem _ hmem)
    exact ⟨after, (runOn_bind_ok hrun _).trans hlater⟩

/-! ## Lookups -/

/-- The names of an address, as the lookups of a registry show them. -/
structure Shows (registry : HostRegistry) (machine : Machine) (ip : Text) (names : List Text) :
    Prop where
  entries : ∃ entries, runOn registry.entries machine = (.ok entries, machine) ∧
    namesOf ip entries = names
  contains : runOn (registry.contains ip) machine = (.ok (decide (names ≠ [])), machine)
  hostname? : runOn (registry.hostname? ip) machine = (.ok names.head?, machine)

/-- There is an entry for an address exactly if it has names. -/
theorem any_entry_eq (ip : Text) (entries : List HostEntry) :
    (entries.any fun entry => decide (entry.ip = ip)) = decide (namesOf ip entries ≠ []) := by
  rw [Bool.eq_iff_iff]
  simp [namesOf, List.filter_eq_nil_iff]

/-- The name in the first entry for an address is the first of its names. -/
theorem find?_entry_eq (ip : Text) (entries : List HostEntry) :
    (entries.find? fun entry => entry.ip = ip).map HostEntry.hostname =
      (namesOf ip entries).head? := by
  rw [namesOf, List.head?_map, List.head?_filter]

/-- The lookups show the names in the text that a registry holds. -/
theorem Holds.shows (h : registry.Holds machine.files l (some text)) (ip : Text) :
    registry.Shows machine ip (namesOf ip (entriesOf (lines text))) where
  entries := ⟨entriesOf (lines text), runOn_look_lines h entriesOf id fun _ => rfl, rfl⟩
  contains := by
    rw [← any_entry_eq]
    exact runOn_look_lines h _ (fun entries => entries.any fun entry => decide (entry.ip = ip))
      (any_matchesIp ip)
  hostname? := by
    rw [← find?_entry_eq]
    exact runOn_look_lines h _ (fun entries =>
      (entries.find? fun entry => entry.ip = ip).map HostEntry.hostname) fun _ => rfl

/-! ## Orders of edits -/

/-- The same edits in another order, in which those for any one address stand as they stood. -/
structure Reordering (edits edits' : List Edit) : Prop where
  perm : edits.Perm edits'
  order : ∀ ip, (edits.filter fun edit => edit.ip = ip) = edits'.filter fun edit => edit.ip = ip

/-- Neighbouring edits for different addresses may change places. -/
theorem Reordering.swap {edit edit' : Edit} (h : edit.ip ≠ edit'.ip) (before later : List Edit) :
    Reordering (before ++ edit :: edit' :: later) (before ++ edit' :: edit :: later) where
  perm := (List.Perm.swap edit' edit later).append_left before
  order ip := by
    rw [List.filter_append, List.filter_append]
    by_cases hip : edit.ip = ip
    · have hip' : edit'.ip ≠ ip := fun hip' => h (hip.trans hip'.symm)
      simp [hip, hip']
    · simp [List.filter_cons, hip]

/-- Two rows of successful edits that differ in the order of edits for different addresses show
the same names of every address. -/
theorem shows_of_reordering {edits edits' : List Edit}
    (hholds : registry.Holds machine.files l (some text)) (hreordering : Reordering edits edits')
    (hrun : runOn (edits.forM fun edit => edit.action registry) machine = (.ok (), after))
    (hrun' : runOn (edits'.forM fun edit => edit.action registry) machine = (.ok (), after'))
    (ip : Text) : ∃ names, registry.Shows after ip names ∧ registry.Shows after' ip names := by
  obtain ⟨text₁, hafter, hentries⟩ := hholds.edits hrun
  obtain ⟨text₂, hafter', hentries'⟩ := hholds.edits hrun'
  have hnames : namesOf ip (entriesOf (lines text₁)) = namesOf ip (entriesOf (lines text₂)) := by
    rw [hentries, hentries', namesOf_edits, namesOf_edits, hreordering.order]
  refine ⟨_, hafter.shows ip, ?_⟩
  rw [hnames]
  exact hafter'.shows ip

/-- Edits for two addresses in turn. -/
def editsInTurn : List Edit :=
  [.set "10.0.0.1".toList "c".toList, .add "10.0.0.2".toList "b".toList,
    .add "10.0.0.1".toList "d".toList]

/-- The same edits with the one for the second address first. -/
def editsOfOtherFirst : List Edit :=
  [.add "10.0.0.2".toList "b".toList, .set "10.0.0.1".toList "c".toList,
    .add "10.0.0.1".toList "d".toList]

/-- On a file with an entry, the two rows show the same names of the first address. -/
theorem shows_editsInTurn :
    plain.Holds (flat (alone mixedText)) plainPlace (some mixedText) ∧
    Reordering editsInTurn editsOfOtherFirst ∧
    ∃ after after',
      runOn (editsInTurn.forM fun edit => edit.action plain)
        (.resting (flat (alone mixedText))) = (.ok (), after) ∧
      runOn (editsOfOtherFirst.forM fun edit => edit.action plain)
        (.resting (flat (alone mixedText))) = (.ok (), after') ∧
      ∃ names, plain.Shows after "10.0.0.1".toList names ∧
        plain.Shows after' "10.0.0.1".toList names := by
  have hholds : plain.Holds (Machine.resting (flat (alone mixedText))).files plainPlace
      (some mixedText) := holds_alone mixedText
  have hlock : plain.LocksAt (Machine.resting (flat (alone mixedText))).files plainLock :=
    locksAt_alone mixedText
  have hreordering : Reordering editsInTurn editsOfOtherFirst :=
    Reordering.swap (by decide) [] _
  have hgood : ∀ edit ∈ editsInTurn, edit.IsGood := by
    intro edit hedit
    simp only [editsInTurn, List.mem_cons, List.not_mem_nil, or_false] at hedit
    rcases hedit with rfl | rfl | rfl <;> exact ⟨_, rfl⟩
  have hgood' : ∀ edit ∈ editsOfOtherFirst, edit.IsGood := by
    intro edit hedit
    exact hgood edit (hreordering.perm.mem_iff.mpr hedit)
  have hroomy : plain.Roomy (flat (alone mixedText)) plainPlace := ⟨fun k => fits_flat, by decide⟩
  obtain ⟨after, hrun⟩ := hholds.exists_edits hlock hroomy hgood
  obtain ⟨after', hrun'⟩ := hholds.exists_edits hlock hroomy hgood'
  exact ⟨hholds, hreordering, after, after', hrun, hrun',
    shows_of_reordering hholds hreordering hrun hrun' _⟩

end HostKit.HostRegistry
