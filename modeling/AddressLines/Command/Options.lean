/-!
# Options

What a run is asked for, and how the arguments of the command line ask for it. One input is needed; each
option may be given once. Short options may be joined, and all that follows `--` is taken as an input.

Reading arguments belongs to the surroundings of a run, which works with the options that come out of it.
-/

namespace AddressLines.Command

structure Options where
  input : String
  output : Option String
  tokens : Bool
  tree : Bool
  verbose : Bool
deriving DecidableEq, Repr

/-- What one argument, or an option with its value, asks for. -/
inductive Item where
  | tokens
  | tree
  | verbose
  | output (path : String)
  | input (path : String)
deriving DecidableEq, Repr

/-- The items of one argument, and whether the output path is still to come in the next one. -/
structure Shape where
  items : List Item
  wantsPath : Bool

/-- A word after two dashes. -/
def longShape? (name : List Char) : Option Shape :=
  match name.span (· != '=') with
  | (word, '=' :: value) =>
    if String.ofList word = "output" then some ⟨[.output (String.ofList value)], false⟩ else none
  | (word, _) =>
    match String.ofList word with
    | "tokens" => some ⟨[.tokens], false⟩
    | "ast" => some ⟨[.tree], false⟩
    | "verbose" => some ⟨[.verbose], false⟩
    | "output" => some ⟨[], true⟩
    | _ => none

/-- Joined letters after one dash. The rest of the letters after `o` is the path. -/
def shortShape? : List Char → Option Shape
  | [] => some ⟨[], false⟩
  | 'v' :: cs => (shortShape? cs).map fun s => ⟨.verbose :: s.items, s.wantsPath⟩
  | ['o'] => some ⟨[], true⟩
  | 'o' :: '=' :: cs => some ⟨[.output (String.ofList cs)], false⟩
  | 'o' :: cs => some ⟨[.output (String.ofList cs)], false⟩
  | _ => none

/-- A single dash is a path like any other. -/
def shape? (arg : String) : Option Shape :=
  match arg.toList with
  | '-' :: '-' :: name => longShape? name
  | '-' :: c :: cs => shortShape? (c :: cs)
  | _ => some ⟨[.input arg], false⟩

/-- Whether an argument can be the value of the option before it. -/
def isValue (arg : String) : Bool :=
  match arg.toList with
  | '-' :: _ :: _ => false
  | _ => true

def items? : List String → Option (List Item)
  | [] => some []
  | arg :: rest =>
    if arg = "--" then some (rest.map .input)
    else
      match shape? arg with
      | none => none
      | some ⟨items, false⟩ => (items? rest).map fun more => items ++ more
      | some ⟨items, true⟩ =>
        match rest with
        | [] => none
        | value :: rest =>
          if isValue value then (items? rest).map fun more => items ++ .output value :: more else none

def Item.output? : Item → Option String
  | output path => some path
  | _ => none

def Item.input? : Item → Option String
  | input path => some path
  | _ => none

/-- Nothing may be given twice, one input must be given, and no path is empty. -/
def Options.ofItems? (items : List Item) : Option Options :=
  let outputs := items.filterMap Item.output?
  match items.filterMap Item.input? with
  | [input] =>
    if input ≠ "" ∧ "" ∉ outputs ∧ outputs.length ≤ 1 ∧
        ∀ item ∈ [Item.tokens, .tree, .verbose], items.count item ≤ 1 then
      some ⟨input, outputs.head?, .tokens ∈ items, .tree ∈ items, .verbose ∈ items⟩
    else none
  | _ => none

def Options.ofArgs? (args : List String) : Option Options :=
  (items? args).bind Options.ofItems?

/-- Arguments that end a run on their own, with a status and a text. -/
structure Ending where
  status : Nat
  text : String
deriving DecidableEq, Repr

/-- A way to read arguments. -/
abbrev ArgumentReader := List String → Except Ending Options

/-- Reads the options above and no others. Wrong arguments end the run with status 2; what is said about
them, and help and version texts, are left to other readers. -/
def Options.ofArgs : ArgumentReader := fun args =>
  match Options.ofArgs? args with
  | some o => .ok o
  | none => .error ⟨2, ""⟩

end AddressLines.Command
