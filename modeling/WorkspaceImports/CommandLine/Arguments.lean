import WorkspaceImports.CommandLine.Word

namespace WorkspaceImports.CommandLine

-- What a switch with a value is given. Two dashes are no value, they leave it empty.
inductive Value
  | unset
  | empty
  | text (text : Text)
deriving DecidableEq, Repr

def Value.ofText (text : Text) : Value :=
  if text = ['-', '-'] then .empty else .text text

-- What is given on the command line. A strategy left empty is none.
structure Arguments where
  owner : Text
  imports : List Text
  workspace : Value
  strategy : Option Strategy
  folders : Value
  verbose : Bool
deriving DecidableEq, Repr

-- Why there are no arguments to go on with: the help is asked for, or they are misused.
inductive Stop
  | help
  | misused (misuse : Misuse)
deriving DecidableEq, Repr

-- What is known of the arguments after some of the words.
structure Given where
  owner : Option Text := none
  imports : Option (List Text) := none
  workspace : Value := .unset
  strategy : Option Strategy := none
  folders : Value := .unset
  verbose : Bool := false
  unrecognized : List Text := []
deriving DecidableEq, Repr

namespace Given

-- The texts of the words that one argument takes. The first two dashes among them only mark
-- that no switch follows.
def values (words : List Word) : List Text := (words.map Word.written).erase ['-', '-']

-- The first plain word with the dashes on both sides of it, and the words after them.
def firstPlain? (run : List Word) : Option (List Word × List Word) :=
  match run.dropWhile (· = .dashes) with
  | [] => none
  | word :: rest =>
      some (run.takeWhile (· = .dashes) ++ word :: rest.takeWhile (· = .dashes),
        rest.dropWhile (· = .dashes))

def leftOver (known : Given) (words : List Word) : Given :=
  { known with unrecognized := known.unrecognized ++ words.map Word.written }

-- The owner and the imports taken from words that stand together. All imports stand together,
-- so words after them are left over.
def place (known : Given) (run : List Word) : Given :=
  match known.owner, known.imports with
  | none, _ =>
      match firstPlain? run with
      | none => known.leftOver run
      | some (words, []) => { known with owner := (values words).head? }
      | some (words, rest) =>
          { known with owner := (values words).head?, imports := some (values rest) }
  | some _, none =>
      if run.any Word.isPlain then { known with imports := some (values run) }
      else known.leftOver run
  | some _, some _ => known.leftOver run

-- A switch with its value, which takes the place of an earlier one.
def set (known : Given) (switch : Switch) (value : Text) : Except Stop Given :=
  match switch with
  | .workspace => .ok { known with workspace := .ofText value }
  | .folders => .ok { known with folders := .ofText value }
  | .strategy =>
      match Value.ofText value with
      | .text name =>
          match Strategy.ofName? name with
          | some strategy => .ok { known with strategy := some strategy }
          | none => .error (.misused (.noStrategy name))
      | _ => .ok { known with strategy := none }
  | .help => .error (.misused (.valueUnwanted .help value))
  | .verbose => .error (.misused (.valueUnwanted .verbose value))

def raise (known : Given) (switch : Switch) : Except Stop Given :=
  match switch with
  | .help => .error .help
  | .verbose => .ok { known with verbose := true }
  | _ => .error (.misused (.valueMissing switch))

-- Behind the letter of the short help switch that letter may stand again, and nothing else.
def behindHelp : Text → Stop
  | ['h'] => .help
  | 'h' :: rest => behindHelp rest
  | value => .misused (.valueUnwanted .help value)

def consume (known : Given) : List Word → Except Stop Given
  | [] => .ok known
  | .unknown written :: rest =>
      consume { known with unrecognized := known.unrecognized ++ [written] } rest
  | .named .help (some (.toLetter letters)) :: _ => .error (behindHelp letters)
  | .named switch (some attached) :: rest =>
      match known.set switch attached.value with
      | .error stop => .error stop
      | .ok known => consume known rest
  | .named switch none :: rest =>
      if switch.takesValue then
        match rest with
        | .plain value :: rest =>
            match known.set switch value with
            | .error stop => .error stop
            | .ok known => consume known rest
        | _ => .error (.misused (.valueMissing switch))
      else
        match known.raise switch with
        | .error stop => .error stop
        | .ok known => consume known rest
  | word :: rest =>
      consume (known.place (word :: rest.takeWhile Word.isBare)) (rest.dropWhile Word.isBare)
termination_by words => words.length
decreasing_by
  all_goals simp only [List.length_cons]
  all_goals try omega
  have hlen := (List.dropWhile_sublist Word.isBare (l := rest)).length_le
  omega

def finish (known : Given) : Except Stop Arguments :=
  match known.owner, known.imports with
  | some owner, some imports =>
      if known.unrecognized = [] then
        .ok {
          owner
          imports
          workspace := known.workspace
          strategy := known.strategy
          folders := known.folders
          verbose := known.verbose }
      else .error (.misused (.unrecognized known.unrecognized))
  | none, some _ => .error (.misused (.missing ["owner".toList]))
  | some _, none => .error (.misused (.missing ["imports".toList]))
  | none, none => .error (.misused (.missing ["owner".toList, "imports".toList]))

end Given

def Arguments.ofTexts (texts : List Text) : Except Stop Arguments :=
  match Word.ofTexts texts with
  | .error misuse => .error (.misused misuse)
  | .ok words =>
      match Given.consume {} words with
      | .error stop => .error stop
      | .ok known => known.finish

end WorkspaceImports.CommandLine
