/-
# EightBit.Proofs.Command.Arguments -- how to ask for a command

For each command there are arguments that ask for it, whatever its names and options are.  Options
are written in front of the names, and names stand behind `--` when one of them begins with a hyphen
and would be taken for an option.

`ofArguments_runArguments` and `ofArguments_compileArguments` say that the arguments ask for just
that.
-/
import EightBit.Command.Request
import EightBit.Text.Numeral

namespace EightBit

set_option autoImplicit false

namespace Request

/-! ## Arguments for a command -/

/-- Whether a name begins as options do. -/
def beginsWithHyphen (name : String) : Bool :=
  name.toList.head? == some '-'

/-- Names as arguments. -/
def nameArguments (names : List String) : List String :=
  if names.any beginsWithHyphen then "--" :: names else names

/-- A switch as an argument, if it is on. -/
def switchArgument (name : String) (on : Bool) : List String :=
  if on then [name] else []

/-- A limit as arguments, if there is one. -/
def limitArguments : Option Nat → List String
  | some n => ["--max-steps", Numeral.decimal n]
  | none => []

/-- Options as arguments. -/
def optionArguments (o : RunOptions) : List String :=
  switchArgument "--minimal" o.minimal ++ switchArgument "--trace" o.trace
    ++ limitArguments o.maxSteps

def runArguments (o : RunOptions) (path : String) : List String :=
  "run" :: (optionArguments o ++ nameArguments [path])

def compileArguments (path : String) (destination : Option String) : List String :=
  "compile" :: nameArguments (path :: destination.toList)

/-! ## Names -/

theorem ofString_of_not_beginsWithHyphen {name : String} (h : beginsWithHyphen name = false) :
    Argument.ofString name = .name name := by
  unfold beginsWithHyphen at h
  unfold Argument.ofString
  split
  · next chars => simp [chars] at h
  · next chars => simp [chars] at h
  · next chars => simp [chars] at h
  · rfl

theorem addName_of_lt {most : Nat} {found : List String} {name : String} (h : name ≠ "")
    (room : found.length < most) : addName most found name = .ok (found ++ [name]) := by
  have few : ¬ most ≤ found.length := by omega
  simp [addName, h, few]

theorem foldlM_addName {most : Nat} {found new : List String} (h : ∀ name ∈ new, name ≠ "")
    (room : found.length + new.length ≤ most) :
    new.foldlM (addName most) found = .ok (found ++ new) := by
  induction new generalizing found with
  | nil => simp [pure, Except.pure]
  | cons name rest ih =>
    rw [List.length_cons] at room
    rw [List.foldlM_cons, addName_of_lt (h name List.mem_cons_self) (by omega)]
    show rest.foldlM (addName most) (found ++ [name]) = _
    rw [ih (fun name member => h name (List.mem_cons_of_mem _ member))
      (by rw [List.length_append, List.length_singleton]; omega), List.append_assoc,
      List.singleton_append]

theorem names_of_plain {most : Nat} {found new : List String} (h : ∀ name ∈ new, name ≠ "")
    (plain : new.any beginsWithHyphen = false) (room : found.length + new.length ≤ most) :
    names most found new = .ok (found ++ new) := by
  induction new generalizing found with
  | nil => simp [names]
  | cons name rest ih =>
    rw [List.any_cons, Bool.or_eq_false_iff] at plain
    rw [List.length_cons] at room
    simp only [names, ofString_of_not_beginsWithHyphen plain.1,
      addName_of_lt (h name List.mem_cons_self) (show found.length < most by omega)]
    show names most (found ++ [name]) rest = _
    rw [ih (fun name member => h name (List.mem_cons_of_mem _ member)) plain.2
      (by rw [List.length_append, List.length_singleton]; omega), List.append_assoc,
      List.singleton_append]

/-- Names are read back, in either form. -/
theorem names_nameArguments {most : Nat} {new : List String} (h : ∀ name ∈ new, name ≠ "")
    (room : new.length ≤ most) : names most [] (nameArguments new) = .ok new := by
  unfold nameArguments
  split
  · have ends : Argument.ofString "--" = .endOfOptions := rfl
    simp only [names, ends]
    rw [foldlM_addName h (by simpa using room), List.nil_append]
  · next plain =>
    rw [names_of_plain h (by simpa using plain) (by simpa using room), List.nil_append]

theorem ofArguments_compileArguments (e : Environment) {path : String}
    {destination : Option String} (h : path ≠ "") (h' : destination ≠ some "") :
    ofArguments e (compileArguments path destination) = .ok (.compile path destination) := by
  have named : ∀ name ∈ path :: destination.toList, name ≠ "" := by
    intro name member
    rcases List.mem_cons.1 member with rfl | rest
    · exact h
    · rintro rfl
      exact h' (by simpa using rest)
  have few : (path :: destination.toList).length ≤ 2 := by
    cases destination <;> simp
  have command : commandNames.contains "compile" = true := by decide
  simp only [ofArguments, compileArguments, scan, command, if_true, ofCommand, ofCompile,
    names_nameArguments named few]
  cases destination <;> rfl

/-! ## Options -/

/-- A decimal numeral is a count, if the count is one of 64 bits. -/
theorem readCount?_decimal {n : Nat} (h : n < UInt64.size) :
    readCount? (Numeral.decimal n) = some n := by
  have digits : (Numeral.decimal n).toList.all Char.isDigit = true := by
    rw [List.all_eq_true, Numeral.decimal, String.toList_ofList]
    intro c member
    exact Numeral.isDigit_of_mem_digits (by omega) (by omega) member
  have value := Numeral.ofDigitChars_decimal n
  have some_digit : (Numeral.decimal n).toList ≠ [] := by
    rw [Numeral.decimal, String.toList_ofList]
    exact Numeral.digits_ne_nil 10 1 n
  unfold readCount?
  split
  · next rest signed =>
    rw [signed] at digits
    simp at digits
  · simp [some_digit, digits, value, h]

namespace RunArguments

theorem scan_minimal {a : RunArguments} (unset : a.options.minimal = false) (minimal : Bool)
    (rest : List String) :
    scan a (switchArgument "--minimal" minimal ++ rest) =
      scan { a with options := { a.options with minimal } } rest := by
  cases minimal with
  | false =>
    obtain ⟨names, _, trace, maxSteps⟩ := a
    subst unset
    rfl
  | true =>
    have form : Argument.ofString "--minimal" = .long "minimal" none := rfl
    simp only [switchArgument, if_true, List.singleton_append, scan, form, setMinimal, unset]
    rfl

theorem scan_trace {a : RunArguments} (unset : a.options.trace = false) (trace : Bool)
    (rest : List String) :
    scan a (switchArgument "--trace" trace ++ rest) =
      scan { a with options := { a.options with trace } } rest := by
  cases trace with
  | false =>
    obtain ⟨names, minimal, _, maxSteps⟩ := a
    subst unset
    rfl
  | true =>
    have form : Argument.ofString "--trace" = .long "trace" none := rfl
    simp only [switchArgument, if_true, List.singleton_append, scan, form, setTrace, unset]
    rfl

theorem scan_maxSteps {a : RunArguments} (unset : a.options.maxSteps = none)
    {maxSteps : Option Nat} (h : ∀ n ∈ maxSteps, n < UInt64.size) (rest : List String) :
    scan a (limitArguments maxSteps ++ rest) =
      scan { a with options := { a.options with maxSteps } } rest := by
  cases maxSteps with
  | none =>
    obtain ⟨names, minimal, trace, _⟩ := a
    subst unset
    rfl
  | some n =>
    have form : Argument.ofString "--max-steps" = .long "max-steps" none := rfl
    simp only [limitArguments, List.cons_append, List.nil_append, scan, form, setMaxSteps, unset,
      readCount?_decimal (h n rfl)]
    rfl

/-- The options are read back. -/
theorem scan_optionArguments {found : List String} {o : RunOptions}
    (h : ∀ n ∈ o.maxSteps, n < UInt64.size) (rest : List String) :
    scan { names := found } (optionArguments o ++ rest) =
      scan { names := found, options := o } rest := by
  rw [optionArguments, List.append_assoc, List.append_assoc, scan_minimal rfl, scan_trace rfl,
    scan_maxSteps rfl h]

/-- The name is read back, in either form. -/
theorem scan_nameArguments {o : RunOptions} {path : String} (h : path ≠ "") :
    scan { options := o } (nameArguments [path]) = .ok { names := [path], options := o } := by
  have added : addName { options := o } path = .ok { names := [path], options := o } := by
    have room : ([] : List String).length < 1 := by decide
    simp only [addName, Request.addName_of_lt h room]
    rfl
  unfold nameArguments
  split
  · have ends : Argument.ofString "--" = .endOfOptions := rfl
    simp only [scan, ends, List.foldlM_cons, List.foldlM_nil, added]
    rfl
  · next plain =>
    have form : Argument.ofString path = .name path :=
      ofString_of_not_beginsWithHyphen (by simpa using plain)
    unfold scan
    simp only [form, added]
    rfl

end RunArguments

/-- The arguments ask for a run with the options; tracing may also be asked for by the
environment. -/
theorem ofArguments_runArguments (e : Environment) {o : RunOptions} {path : String}
    (h : path ≠ "") (count : ∀ n ∈ o.maxSteps, n < UInt64.size) :
    ofArguments e (runArguments o path) =
      .ok (.run path { o with trace := o.trace || e.trace }) := by
  have command : commandNames.contains "run" = true := by decide
  simp only [ofArguments, runArguments, scan, command, if_true, ofCommand, ofRun,
    RunArguments.scan_optionArguments count, RunArguments.scan_nameArguments h]
  rfl

end Request

end EightBit
