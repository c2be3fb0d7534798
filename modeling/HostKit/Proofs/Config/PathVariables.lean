import HostKit.Config.Basic
import HostKit.Success

/-!
# Variables in paths

A path names the variables whose values are put into it. What it expands to depends on the
environment by the values of these variables and by the home directory, which stands for a tilde and
is taken from a variable or from the user database. All other variables may change.
-/

namespace HostKit.Expand

variable {environment other : Environment} {text : Text}

/-- The names of the variables that are looked up for a text, in order, a variable with a default
too. -/
def namesIn (text : Text) : List Text :=
  match text with
  | [] => []
  | '$' :: '\x7b' :: rest =>
    match h : Text.splitFirst? '\x7d' rest with
    | none => namesIn rest
    | some (content, after) =>
      have : after.length < rest.length := splitFirst?_rest_lt h
      (nameAndDefault content).1 :: namesIn after
  | '$' :: '$' :: rest => namesIn rest
  | '$' :: c :: rest =>
    if isNameCharacter c then
      have : (rest.dropWhile isNameCharacter).length ≤ rest.length :=
        (List.dropWhile_sublist isNameCharacter).length_le
      (c :: rest.takeWhile isNameCharacter) :: namesIn (rest.dropWhile isNameCharacter)
    else namesIn (c :: rest)
  | _ :: rest => namesIn rest
  termination_by text.length

/-- A brace that is not closed names nothing. -/
theorem namesIn_open {rest : Text} (h : Text.splitFirst? '\x7d' rest = none) :
    namesIn ('$' :: '\x7b' :: rest) = namesIn rest := by
  rw [namesIn]
  split
  · rfl
  · next hsome => cases h.symm.trans hsome

/-- A brace that is not closed stands for itself. -/
theorem variablesIn_open {rest : Text} (h : Text.splitFirst? '\x7d' rest = none) :
    variablesIn environment ('$' :: '\x7b' :: rest) =
      (do let later ← variablesIn environment rest; .ok ('$' :: '\x7b' :: later)) := by
  rw [variablesIn]
  split
  · rfl
  · next hsome => cases h.symm.trans hsome

/-- Braces have a name in them. -/
theorem namesIn_braces {rest content after : Text}
    (h : Text.splitFirst? '\x7d' rest = some (content, after)) :
    namesIn ('$' :: '\x7b' :: rest) = (nameAndDefault content).1 :: namesIn after := by
  rw [namesIn]
  split
  · next hnone => cases h.symm.trans hnone
  · next hsome =>
    obtain ⟨rfl, rfl⟩ := Prod.mk.inj (Option.some.inj (h.symm.trans hsome))
    rfl

/-- Braces stand for what is looked up by the name in them. -/
theorem variablesIn_braces {rest content after : Text}
    (h : Text.splitFirst? '\x7d' rest = some (content, after)) :
    variablesIn environment ('$' :: '\x7b' :: rest) =
      (do
        let value ← lookup environment (nameAndDefault content).1 (nameAndDefault content).2
        let later ← variablesIn environment after
        .ok (value ++ later)) := by
  rw [variablesIn]
  split
  · next hnone => cases h.symm.trans hnone
  · next hsome =>
    obtain ⟨rfl, rfl⟩ := Prod.mk.inj (Option.some.inj (h.symm.trans hsome))
    rfl

/-- A text without a dollar sign has no variables. -/
theorem variablesIn_of_not_mem (h : '$' ∉ text) : variablesIn environment text = .ok text := by
  induction text with
  | nil => rw [variablesIn]
  | cons c rest ih =>
    have hc : c ≠ '$' := fun hc => h (by simp [hc])
    have hrest : '$' ∉ rest := fun hrest => h (List.mem_cons_of_mem c hrest)
    rw [variablesIn]
    · rw [ih hrest]
      rfl
    all_goals intros; simp_all

/-- What is looked up depends on the value of the variable alone. -/
theorem lookup_congr {name : Text} (h : other.value? name = environment.value? name)
    (default : Option Text) : lookup other name default = lookup environment name default := by
  unfold lookup
  rw [h]

/-- What becomes of the variables in a text depends on their values alone. -/
theorem variablesIn_congr (h : ∀ name ∈ namesIn text, other.value? name = environment.value? name) :
    variablesIn other text = variablesIn environment text := by
  fun_induction variablesIn environment text with
  | case1 => rw [variablesIn]
  | case2 rest hsplit ih =>
    rw [namesIn_open hsplit] at h
    rw [variablesIn_open hsplit, ih h]
  | case3 rest content after hsplit _ name default hname ih =>
    rw [namesIn_braces hsplit, hname, List.forall_mem_cons] at h
    rw [variablesIn_braces hsplit, hname, lookup_congr h.1, ih h.2]
  | case4 rest ih =>
    rw [namesIn] at h
    rw [variablesIn, ih h]
  | case5 c rest hbrace hdollar hc _ ih =>
    rw [namesIn, if_pos hc, List.forall_mem_cons] at h
    · rw [variablesIn, if_pos hc, lookup_congr h.1, ih h.2]
      · exact hbrace
      · exact hdollar
    · exact hbrace
    · exact hdollar
  | case6 c rest hbrace hdollar hc ih =>
    rw [namesIn, if_neg hc] at h
    · rw [variablesIn, if_neg hc, ih h]
      · exact hbrace
      · exact hdollar
    · exact hbrace
    · exact hdollar
  | case7 c rest hbrace hdollar hname ih =>
    rw [namesIn] at h
    · rw [variablesIn, ih h]
      · exact hbrace
      · exact hdollar
      · exact hname
    · exact hbrace
    · exact hdollar
    · exact hname

/-- The variable that the home directory is taken from. -/
def homeVariable : Text := "HOME"

/-- The home directory depends on its variable and on the user database alone. -/
theorem homeOf_congr (h : other.value? homeVariable = environment.value? homeVariable)
    (huser : other.userHome = environment.userHome) : homeOf other = homeOf environment := by
  have hhome : other.value? "HOME" = environment.value? "HOME" := h
  rw [homeOf, homeOf, hhome, huser]

end HostKit.Expand

namespace HostKit.Config

open HostKit.Expand

variable {environment other : Environment} {path : Text}

/-- What a path expands to depends on the variables that it names and on the home directory
alone. -/
theorem expandPath_congr
    (h : ∀ name ∈ homeVariable :: namesIn path, other.value? name = environment.value? name)
    (huser : other.userHome = environment.userHome) :
    expandPath other path = expandPath environment path := by
  obtain ⟨hhome, hnames⟩ := List.forall_mem_cons.mp h
  rw [expandPath, expandPath, Expand.path, Expand.path, homeOf_congr hhome huser,
    variablesIn_congr hnames]

/-- A path without a dollar sign that does not start with a tilde stays as it is. -/
theorem expandPath_of_plain (h : '$' ∉ path) (htilde : path.head? ≠ some '~') :
    expandPath environment path = .ok path := by
  have hsame (home? : Option Text) : Expand.tilde home? path = path := by
    unfold Expand.tilde
    split
    · simp at htilde
    · simp at htilde
    · rfl
  have hnot : ¬(path.head? ≠ some '~' ∧ path.head? = some '~') := fun hboth => htilde hboth.2
  rw [expandPath, Expand.path, variablesIn_of_not_mem h, Success.bind_ok, if_neg hnot, hsame]
  rfl

/-- A path that does not expand is an argument that is refused. -/
theorem of_expandPath_eq_error {failure : Failure}
    (h : expandPath environment path = .error failure) :
    ∃ message, failure = .invalidArgument message := by
  obtain ⟨unset, -, rfl⟩ := Success.of_mapError h
  exact ⟨unset.message, rfl⟩

end HostKit.Config
