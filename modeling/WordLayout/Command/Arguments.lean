import WordLayout.Command.Usage

namespace WordLayout.Command

structure Reading where
  given : List (OptionName × String) := []
  pending : Option (OptionName × UsageError) := none
  deriving Inhabited

def splitValue (cs : List Char) : List Char × Option (List Char) :=
  match cs.dropWhile (· != '=') with
  | [] => (cs, none)
  | _ :: value => (cs.takeWhile (· != '='), some value)

def readLong (options : List OptionName) (cs : List Char) : Except UsageError Reading :=
  match cs with
  | [] | '-' :: _ | '=' :: _ => .error (.malformed ("--" ++ String.ofList cs))
  | _ =>
    let (chars, value) := splitValue cs
    let name := String.ofList chars
    match options.find? (·.text == name), value with
    | none, _ => .error (.unknownOption name)
    | some o, some value => .ok { given := [(o, String.ofList value)] }
    | some o, none =>
      if o.isSwitch then .ok { given := [(o, "true")] }
      else .ok { pending := some (o, .missingValue name) }

def testRun : List Char := "test.".toList

def readLetters (options : List OptionName) : List Char → Except UsageError Reading
  | [] => .ok {}
  | c :: rest =>
    if testRun.isPrefixOf (c :: rest) then .ok {}
    else
      match options.find? (·.letter? == some c) with
      | none => .error (.unknownLetter c (String.ofList (c :: rest)))
      | some o =>
        match rest with
        | '=' :: v :: vs => .ok { given := [(o, String.ofList (v :: vs))] }
        | _ =>
          if o.isSwitch then
            (readLetters options rest).map fun r => { r with given := (o, "true") :: r.given }
          else if rest.isEmpty then
            .ok { pending := some (o, .missingLetterValue c (String.ofList [c])) }
          else .ok { given := [(o, String.ofList rest)] }

def readOptions? (options : List OptionName) (argument : String) :
    Option (Except UsageError Reading) :=
  match argument.toList with
  | '-' :: '-' :: cs => some (readLong options cs)
  | '-' :: c :: cs => some (readLetters options (c :: cs))
  | _ => none

def applyOption (s : Settings) (o : OptionName) (value : String) : Except UsageError Settings :=
  (s.set o value).mapError (.badValue value o)

def applyAll (s : Settings) (given : List (OptionName × String)) : Except UsageError Settings :=
  given.foldlM (fun s (o, value) => applyOption s o value) s

def readArguments (options : List OptionName) (s : Settings) :
    List String → Except UsageError (Settings × List String)
  | [] => .ok (s, [])
  | "--" :: rest => .ok (s, rest)
  | a :: rest =>
    match readOptions? options a with
    | none => (readArguments options s rest).map fun (s, words) => (s, a :: words)
    | some (.error e) => .error e
    | some (.ok r) =>
      match applyAll s r.given, r.pending with
      | .error e, _ => .error e
      | .ok s, none => readArguments options s rest
      | .ok s, some (o, missing) =>
        match rest with
        | [] => .error missing
        | value :: rest =>
          match applyOption s o value with
          | .error e => .error e
          | .ok s => readArguments options s rest

def takesNext (argument : String) : Bool :=
  match argument.toList with
  | '-' :: '-' :: cs => !cs.contains '=' && String.ofList cs != OptionName.verbose.text
  | ['-', c] => c.toNat < 0x80 && c != '=' && OptionName.verbose.letter? != some c
  | _ => false

def firstWord? : List String → Option String
  | [] => none
  | "--" :: _ => none
  | a :: rest =>
    if takesNext a then
      match rest with
      | _ :: next :: more => firstWord? (next :: more)
      | _ => none
    else if a.isEmpty || a.startsWith "-" then firstWord? rest
    else some a

def dropWord (word : String) : List String → List String
  | [] => []
  | "--" :: rest => "--" :: rest
  | a :: rest =>
    if takesNext a then
      match rest with
      | [] => [a]
      | value :: more => a :: value :: dropWord word more
    else if a = word then rest
    else a :: dropWord word rest

def chooseTask (arguments : List String) : Except UsageError (Task × List String) :=
  match firstWord? arguments with
  | none => .ok (.program, arguments)
  | some word =>
    match Task.ofWord? word with
    | some task => .ok (task, dropWord word arguments)
    | none => .error (.unknownCommand word)

inductive Request
  | usage (task : Task)
  | version
  | generate (settings : Settings) (input : String)
  | coverage (input : String)
  deriving DecidableEq, Inhabited

def oneInput (words : List String) : Except UsageError String :=
  match words with
  | [input] => .ok input
  | _ => .error (.argumentCount words.length)

def Request.ofArguments (arguments : List String) : Except UsageError (Request × Bool) := do
  let (task, rest) ← chooseTask arguments
  let (settings, words) ← readArguments task.options {} rest
  if settings.help then pure (.usage task, settings.verbose)
  else
    match task with
    | .program => pure (if settings.version then .version else .usage .program, settings.verbose)
    | .generate => pure (.generate settings (← oneInput words), settings.verbose)
    | .coverage => pure (.coverage (← oneInput words), settings.verbose)
    | .help => pure (.usage ((words.head?.bind Task.ofWord?).getD .program), settings.verbose)

end WordLayout.Command
