import WordLayout.Shader.Accessors
import WordLayout.Text.Number
import WordLayout.Text.Quoted

namespace WordLayout.Command

inductive OptionName
  | help
  | version
  | verbose
  | target
  | output
  | buffer
  | header
  | maskUnsigned
  | skipUnsupported
  | group
  | binding
  deriving DecidableEq, Inhabited

namespace OptionName

def text : OptionName → String
  | .help => "help"
  | .version => "version"
  | .verbose => "verbose"
  | .target => "target"
  | .output => "output"
  | .buffer => "buffer"
  | .header => "header"
  | .maskUnsigned => "mask-unsigned"
  | .skipUnsupported => "skip-unsupported"
  | .group => "group"
  | .binding => "binding"

def letter? : OptionName → Option Char
  | .help => some 'h'
  | .verbose => some 'v'
  | .target => some 't'
  | .output => some 'o'
  | _ => none

def isSwitch : OptionName → Bool
  | .help | .version | .verbose | .maskUnsigned | .skipUnsupported => true
  | _ => false

def label (o : OptionName) : String :=
  match o.letter? with
  | some c => "-" ++ c.toString ++ ", --" ++ o.text
  | none => "--" ++ o.text

end OptionName

inductive ValueFault
  | notTruth
  | notNumber (fault : Text.NumberFault)
  deriving DecidableEq, Inhabited

def ValueFault.text (value : String) : ValueFault → String
  | .notTruth => "strconv.ParseBool: parsing " ++ Text.quoted value ++ ": invalid syntax"
  | .notNumber fault => "strconv.ParseUint: parsing " ++ Text.quoted value ++ ": " ++ fault.text

structure Settings where
  help : Bool := false
  version : Bool := false
  verbose : Bool := false
  target : String := ""
  output : String := ""
  buffer : String := ""
  header : String := ""
  maskUnsigned : Bool := false
  skipUnsupported : Bool := false
  group : Option UInt32 := none
  binding : Option UInt32 := none
  deriving DecidableEq, Inhabited

namespace Settings

def readTruth (s : String) : Except ValueFault Bool :=
  if ["1", "t", "T", "TRUE", "true", "True"].contains s then .ok true
  else if ["0", "f", "F", "FALSE", "false", "False"].contains s then .ok false
  else .error .notTruth

def readWord (s : String) : Except ValueFault UInt32 :=
  match Text.readUnsigned 32 s with
  | .ok n => .ok (UInt32.ofNat n)
  | .error fault => .error (.notNumber fault)

def set (s : Settings) (o : OptionName) (value : String) : Except ValueFault Settings :=
  match o with
  | .help => (readTruth value).map fun b => { s with help := b }
  | .version => (readTruth value).map fun b => { s with version := b }
  | .verbose => (readTruth value).map fun b => { s with verbose := b }
  | .maskUnsigned => (readTruth value).map fun b => { s with maskUnsigned := b }
  | .skipUnsupported => (readTruth value).map fun b => { s with skipUnsupported := b }
  | .target => .ok { s with target := value }
  | .output => .ok { s with output := value }
  | .buffer => .ok { s with buffer := value }
  | .header => .ok { s with header := value }
  | .group => (readWord value).map fun n => { s with group := some n }
  | .binding => (readWord value).map fun n => { s with binding := some n }

def place (s : Settings) : Option Shader.Binding :=
  if s.group.isSome || s.binding.isSome then some ⟨s.group.getD 0, s.binding.getD 0⟩ else none

def shaderOptions (s : Settings) : Shader.Options :=
  { bufferName := s.buffer, header := s.header, maskUnsigned := s.maskUnsigned
    skipUnsupported := s.skipUnsupported, binding := s.place }

end Settings

end WordLayout.Command
