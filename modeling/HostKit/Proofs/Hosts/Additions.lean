import HostKit.Proofs.Hosts.Operations

/-!
# Additions in a row

Additions put bytes at the end of the file and change none that are there, whatever bytes these
are. The first one closes a last row that is left open, and every later one finds the file closed
by the line before it. So the file keeps the rows that it has and gets one more for each addition,
and no row comes in between.
-/

namespace HostKit

namespace HostsFile

/-- The rows of content, which line feeds end. Nothing after the last line feed is no row. -/
def rows : Bytes → List Bytes
  | [] => []
  | b :: rest =>
    if b = 10 then [] :: rows rest
    else
      match rows rest with
      | [] => [[b]]
      | row :: later => (b :: row) :: later

/-- What closes the last row of content: a line feed, unless there is nothing to close. -/
def closing (content : Bytes) : Bytes :=
  if content ≠ [] ∧ content.getLast? ≠ some 10 then [10] else []

/-- The row that an address and a name stand on. -/
def additionRow (addition : Text × Text) : Bytes :=
  Utf8.encode (addition.1 ++ '\t' :: addition.2)

/-! ## Rows -/

/-- A row without line feeds is cut off at the first one. -/
theorem rows_append_newline {row : Bytes} (h : 10 ∉ row) (rest : Bytes) :
    rows (row ++ 10 :: rest) = row :: rows rest := by
  induction row with
  | nil => simp [rows]
  | cons b row ih =>
    have hb : b ≠ 10 := fun hb => h (by simp [hb])
    have hrow : 10 ∉ row := fun hrow => h (by simp [hrow])
    rw [List.cons_append, rows, if_neg hb, ih hrow]

/-- Rows that each have a line feed are the rows of all of them together. -/
theorem rows_flatMap_newline {rows' : List Bytes} (h : ∀ row ∈ rows', 10 ∉ row) :
    rows (rows'.flatMap (· ++ [10])) = rows' := by
  induction rows' with
  | nil => rfl
  | cons row rows' ih =>
    have hrow := h row List.mem_cons_self
    have hlater := ih fun row hmem => h row (List.mem_cons_of_mem _ hmem)
    rw [List.flatMap_cons, List.append_assoc, List.singleton_append,
      rows_append_newline hrow, hlater]

/-- What closes content with more than one byte closes it without the first one. -/
theorem closing_cons (b : UInt8) {rest : Bytes} (h : rest ≠ []) :
    closing (b :: rest) = closing rest := by
  obtain ⟨c, later, rfl⟩ := List.exists_cons_of_ne_nil h
  simp [closing, List.getLast?_cons_cons]

/-- What stands after closed content makes rows of its own. -/
theorem rows_closing_append (content more : Bytes) :
    rows (content ++ (closing content ++ more)) = rows content ++ rows more := by
  induction content with
  | nil => simp [closing, rows]
  | cons b rest ih =>
    by_cases hrest : rest = []
    · subst hrest
      by_cases hb : b = 10 <;> simp [closing, rows, hb]
    · rw [closing_cons b hrest, List.cons_append, rows, rows, ih]
      by_cases hb : b = 10
      · simp [hb]
      · -- The first row goes on in the rest, which has one.
        obtain ⟨row, later, hrows⟩ : ∃ row later, rows rest = row :: later := by
          obtain ⟨c, tail, rfl⟩ := List.exists_cons_of_ne_nil hrest
          unfold rows
          split
          · exact ⟨_, _, rfl⟩
          · split <;> exact ⟨_, _, rfl⟩
        simp [hb, hrows]

/-! ## Lines put at the end -/

/-- A line put at the end closes the content first. -/
theorem withLine_eq (content : Bytes) (line : Text) :
    withLine content line = content ++ (closing content ++ (Utf8.encode line ++ [10])) := by
  have hlacks : lacksNewline content = true ↔ content ≠ [] ∧ content.getLast? ≠ some 10 := by
    rcases List.eq_nil_or_concat content with rfl | ⟨front, b, rfl⟩
    · simp [lacksNewline]
    · simp [lacksNewline]
  have hnewline : Utf8.encode (line ++ ['\n']) = Utf8.encode line ++ [10] := by
    rw [Utf8.encode_append]
    rfl
  simp only [withLine, closing, hlacks, hnewline]

/-- Content with a line put at its end is closed. -/
theorem closing_withLine (content : Bytes) (line : Text) :
    closing (withLine content line) = [] := by
  simp [withLine_eq, closing]

/-- Of lines put at the end one after the other, only the first one closes the content. -/
theorem foldl_withLine (content : Bytes) {lines : List Text} (h : lines ≠ []) :
    lines.foldl withLine content =
      content ++ (closing content ++ (lines.map Utf8.encode).flatMap (· ++ [10])) := by
  induction lines generalizing content with
  | nil => exact absurd rfl h
  | cons line lines ih =>
    rw [List.foldl_cons]
    by_cases hlines : lines = []
    · simp [hlines, withLine_eq]
    · rw [ih _ hlines, closing_withLine, withLine_eq]
      simp

end HostsFile

namespace HostRegistry

open HostKit.Action Files HostsFile

variable {registry : HostRegistry} {machine after : Machine} {l k : Location}
variable {ip hostname : Text} {additions : List (Text × Text)}

/-- Additions one after the other. -/
def addAll (registry : HostRegistry) (additions : List (Text × Text)) : Action Unit :=
  additions.forM fun addition => registry.add addition.1 addition.2

/-- Additions one after the other are the first one and then the others. -/
theorem addAll_cons (registry : HostRegistry) (addition : Text × Text) :
    registry.addAll (addition :: additions) =
      (registry.add addition.1 addition.2 >>= fun _ => registry.addAll additions) := rfl

/-- A successful addition puts its line at the end of the file, and the path goes on opening it. -/
theorem item?_of_runOn_add (h : machine.files.Opens registry.path l)
    (hrun : runOn (registry.add ip hostname) machine = (.ok (), after)) :
    after.files.Opens registry.path l ∧ ∃ mode, after.files.item? l = some (.file mode
      (withLine (contentOf (machine.files.item? l)) (ip ++ '\t' :: hostname))) := by
  obtain ⟨⟨entry, hentry⟩, k, hk⟩ := of_runOn_add hrun
  obtain ⟨rfl, -⟩ := HostEntry.of_make hentry
  obtain ⟨passed, final, hrun', hfinal⟩ := runOn_add hentry hk h
  obtain ⟨-, rfl⟩ := Prod.mk.inj (hrun'.symm.trans hrun)
  have hlocked := grows_ensureFile hk.isEnd
  have hopens := h.grows hlocked
  have hgrows : Grows machine.files final :=
    hlocked.trans ((Grows.insert hopens.isEnd _ _).of_alike hfinal)
  have hitem := hfinal.item? l
  rw [item?_insert hopens.isEnd.ne_root, if_pos rfl] at hitem
  exact ⟨h.grows hgrows, _, hitem⟩

/-- Successful additions put their lines at the end of the file, one after the other. -/
theorem contentOf_of_runOn_addAll (h : machine.files.Opens registry.path l)
    (hrun : runOn (registry.addAll additions) machine = (.ok (), after)) :
    after.files.Opens registry.path l ∧ contentOf (after.files.item? l) =
      (additions.map fun addition => addition.1 ++ '\t' :: addition.2).foldl withLine
        (contentOf (machine.files.item? l)) := by
  induction additions generalizing machine with
  | nil =>
    obtain ⟨-, rfl⟩ := Prod.mk.inj hrun
    exact ⟨h, rfl⟩
  | cons addition additions ih =>
    rw [addAll_cons] at hrun
    obtain ⟨_, between, hadd, hlater⟩ := of_runOn_bind hrun
    obtain ⟨hopens, mode, hitem⟩ := item?_of_runOn_add h hadd
    obtain ⟨hafter, hcontent⟩ := ih hopens hlater
    refine ⟨hafter, ?_⟩
    rw [hcontent, hitem]
    rfl

/-- Good additions succeed one after the other where the lock can be taken. -/
theorem exists_runOn_addAll (h : machine.files.Opens registry.path l)
    (hk : registry.LocksAt machine.files k)
    (hgood : ∀ addition ∈ additions, ∃ entry, HostEntry.make addition.1 addition.2 = .ok entry) :
    ∃ after, runOn (registry.addAll additions) machine = (.ok (), after) := by
  induction additions generalizing machine with
  | nil => exact ⟨machine, rfl⟩
  | cons addition additions ih =>
    obtain ⟨entry, hentry⟩ := hgood addition List.mem_cons_self
    obtain ⟨passed, final, hrun, hfinal⟩ := runOn_add hentry hk h
    have hlocked := grows_ensureFile hk.isEnd
    have hgrows : Grows machine.files final :=
      hlocked.trans ((Grows.insert (h.grows hlocked).isEnd _ _).of_alike hfinal)
    have hopens : ((machine.through passed final).logged .info ("Added " ++ addition.1 ++ " -> "
        ++ addition.2 ++ " to " ++ registry.path)).files.Opens registry.path l := h.grows hgrows
    obtain ⟨after, hlater⟩ := ih hopens (hk.grows hgrows)
      fun addition hmem => hgood addition (List.mem_cons_of_mem _ hmem)
    exact ⟨after, by rw [addAll_cons, runOn_bind_ok hrun, hlater]⟩

/-- A row of an entry that can stand on a line has no line feed. -/
theorem newline_not_mem_additionRow {addition : Text × Text} {entry : HostEntry}
    (h : HostEntry.make addition.1 addition.2 = .ok entry) : 10 ∉ additionRow addition := by
  obtain ⟨rfl, -⟩ := HostEntry.of_make h
  rw [additionRow, Utf8.newline_mem_encode_iff]
  exact HostEntry.newline_not_mem_line h

/-- All successful additions are of entries that can stand on a line. -/
theorem exists_entry_of_runOn_addAll
    (hrun : runOn (registry.addAll additions) machine = (.ok (), after)) :
    ∀ addition ∈ additions, ∃ entry, HostEntry.make addition.1 addition.2 = .ok entry := by
  induction additions generalizing machine with
  | nil => simp
  | cons addition additions ih =>
    rw [addAll_cons] at hrun
    obtain ⟨_, between, hadd, hlater⟩ := of_runOn_bind hrun
    rw [List.forall_mem_cons]
    exact ⟨(of_runOn_add hadd).1, ih hlater⟩

/-- Where the path leads to a file with any bytes, or to nothing yet, one or more successful
additions leave the bytes that are there, then a line feed if these are some and do not end in one,
and then the lines in their order. So the file keeps its rows and gets one more for each addition,
with its address, a tab and its name. -/
theorem read_after_addAll (h : machine.files.Opens registry.path l) (hadditions : additions ≠ [])
    (hrun : runOn (registry.addAll additions) machine = (.ok (), after)) :
    ∃ old new,
      (machine.files.read registry.path = .ok old ∨
        machine.files.read registry.path = .error .noEntry ∧ old = []) ∧
      after.files.read registry.path = .ok new ∧
      new = old ++ ((if old ≠ [] ∧ old.getLast? ≠ some 10 then [10] else []) ++
        additions.flatMap fun addition =>
          Utf8.encode (addition.1 ++ '\t' :: addition.2 ++ ['\n'])) ∧
      rows new = rows old ++ additions.map fun addition =>
        Utf8.encode (addition.1 ++ '\t' :: addition.2) := by
  obtain ⟨hopens, hcontent⟩ := contentOf_of_runOn_addAll h hrun
  have hlines : (additions.map fun addition => addition.1 ++ '\t' :: addition.2) ≠ [] := by
    simpa using hadditions
  rw [foldl_withLine _ hlines, List.map_map] at hcontent
  change _ = _ ++ (_ ++ (additions.map additionRow).flatMap (· ++ [10])) at hcontent
  refine ⟨contentOf (machine.files.item? l), contentOf (after.files.item? l), ?_, ?_, ?_, ?_⟩
  · rcases isEnd_iff.mp h.isEnd with hnone | ⟨mode, content, hfile⟩
    · exact .inr ⟨h.read_none hnone, by rw [hnone]; rfl⟩
    · exact .inl (by rw [h.read hfile, hfile]; rfl)
  · rcases isEnd_iff.mp hopens.isEnd with hnone | ⟨mode, content, hfile⟩
    · -- The lines are there, so the file is.
      obtain ⟨addition, later, rfl⟩ := List.exists_cons_of_ne_nil hadditions
      rw [hnone] at hcontent
      simp [contentOf] at hcontent
    · rw [hopens.read hfile, hfile]
      rfl
  · have hline : ∀ addition : Text × Text,
        Utf8.encode (addition.1 ++ '\t' :: addition.2 ++ ['\n']) =
          additionRow addition ++ [10] := by
      intro addition
      rw [Utf8.encode_append]
      rfl
    rw [hcontent, closing, List.flatMap_map]
    simp only [hline]
  · have hrows : ∀ row ∈ additions.map additionRow, 10 ∉ row := by
      intro row hrow
      obtain ⟨addition, hmem, rfl⟩ := List.mem_map.mp hrow
      obtain ⟨entry, hentry⟩ := exists_entry_of_runOn_addAll hrun addition hmem
      exact newline_not_mem_additionRow hentry
    rw [hcontent, rows_closing_append, rows_flatMap_newline hrows]
    rfl

/-- A file with bytes that are no text and end in a carriage return. -/
def garbled : List (Text × Item) := [("hosts".toList, .file 0o644 [0xff, 13])]

/-- Two additions to the garbled file put in one line feed before the first line. -/
theorem read_after_addAll_garbled :
    ∃ after,
      runOn (plain.addAll [("10.0.0.1".toList, "a".toList), ("::1".toList, "b".toList)])
          (.resting (flat garbled)) = (.ok (), after) ∧
        after.files.read plain.path =
          .ok ([0xff, 13, 10] ++ Utf8.encode "10.0.0.1\ta\n::1\tb\n".toList) := by
  have hend : IsEnd ((flat garbled).item? plainPlace) := isEnd_iff.mpr (.inr ⟨_, _, rfl⟩)
  have hnames : (flat garbled).Names plain.path plainPlace := names_flat (by decide) hend
  have hopens : (Machine.resting (flat garbled)).files.Opens plain.path plainPlace :=
    hnames.opens hend
  have hlock : plain.LocksAt (Machine.resting (flat garbled)).files plainLock :=
    locksAt_flat (isEnd_iff.mpr (.inl rfl))
  have hgood : ∀ addition ∈ [("10.0.0.1".toList, "a".toList), ("::1".toList, "b".toList)],
      ∃ entry, HostEntry.make addition.1 addition.2 = .ok entry := by
    rw [List.forall_mem_cons, List.forall_mem_singleton]
    exact ⟨⟨_, rfl⟩, _, rfl⟩
  obtain ⟨after, hrun⟩ := exists_runOn_addAll hopens hlock hgood
  obtain ⟨old, new, hold, hread, hnew, -⟩ := read_after_addAll hopens (by simp) hrun
  have hbytes : (Machine.resting (flat garbled)).files.read plain.path = .ok [0xff, 13] :=
    hopens.read rfl
  refine ⟨after, hrun, ?_⟩
  rcases hold with hold | ⟨hold, -⟩
  · obtain rfl : old = [0xff, 13] := Except.ok.inj (hold.symm.trans hbytes)
    rw [hread, hnew]
    rfl
  · exact absurd (hold.symm.trans hbytes) (by simp)

end HostRegistry
end HostKit
