import WordLayout.Description.Decode
import WordLayout.Description.Placement
import WordLayout.Log
import WordLayout.Yaml.Reader

namespace WordLayout

structure Loaded where
  module : Module
  log : List Log.Entry
  deriving Inhabited

namespace Load

def findLine? (before : List Char) : List Char → Option (List Char × List Char × List Char)
  | [] => none
  | c :: cs =>
    match TypeExpr.after? "line ".toList (c :: cs) with
    | some rest =>
      let digits := rest.takeWhile Text.isAsciiDigit
      match digits, TypeExpr.after? ": ".toList (rest.dropWhile Text.isAsciiDigit) with
      | d :: ds, some behind => some (before.reverse, d :: ds, behind)
      | _, _ => findLine? (c :: before) cs
    | none => findLine? (c :: before) cs

def lineNumber (digits : List Char) : Int :=
  let n : Nat := digits.foldl (fun n c => n * 10 + (c.toNat - 48)) 0
  min n 0x7fffffffffffffff

def ofMessage (message : String) : Located :=
  let cs := Text.trimChars message.toList
  match findLine? [] cs with
  | none => ⟨.stated (String.ofList cs), {}⟩
  | some (before, digits, behind) =>
    ⟨.stated (String.ofList (Text.trimChars (before ++ behind))), ⟨lineNumber digits, 1⟩⟩

def ofYaml (e : Yaml.Error) : Located :=
  ⟨.stated e.problem.text,
    match e.line with
    | some line => ⟨line, 1⟩
    | none => {}⟩

def ofRefusal : Decode.Refusal → Located
  | .located fault => fault
  | .undecodable tag value wanted =>
    ofMessage ("cannot decode " ++ tag ++ " \x60" ++ value ++ "\x60 as a " ++ wanted)
  | .invalidBinary => ofMessage "!!binary value contains invalid base64 data"
  | .tooManyAliases => ofMessage "document contains excessive aliasing"
  | .selfContained anchor => ofMessage ("anchor '" ++ anchor ++ "' value contains itself")
  | .wrongMerge => ofMessage "map merge requires map or sequence of maps as the value"
  | .wrongKey shown => ofMessage ("invalid map key: " ++ shown)
  | .collectionKey => ⟨.brokenOff, {}⟩

def ofMismatches (ms : List Decode.Mismatch) : Located :=
  ofMessage ("\n  ".intercalate (ms.map (·.text)))

def read (source : List UInt8) : Except Located Description := do
  match ← (Yaml.Document.read source).mapError ofYaml with
  | none => throw ⟨.empty, {}⟩
  | some document =>
    let (d, progress) ← ((Decode.description document).run {}).mapError ofRefusal
    match progress.mismatches.reverse with
    | [] => pure d
    | ms => throw (ofMismatches ms)

def loadedEntry (m : Module) (auto : Nat) : Log.Entry :=
  { level := .debug, message := "loaded layout description"
    values :=
      [("module", .text m.name), ("write", .flag m.writable),
        ("definitions", .number m.defs.length), ("auto_offsets", .number auto)] }

end Load

def load (source : List UInt8) : Except SourceError Loaded :=
  match (Load.read source).bind Description.build with
  | .ok (m, auto) => .ok { module := m, log := [Load.loadedEntry m auto] }
  | .error e => .error { fault := e.fault, position := e.position, source }

end WordLayout
