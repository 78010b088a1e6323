import WordLayout.Command.Settings

namespace WordLayout.Command

def programName : String := "layoutc"

def programVersion : String := "0.1.0-dev"

inductive Task
  | program
  | generate
  | coverage
  | help
  deriving DecidableEq, Inhabited

namespace Task

def ofWord? : String → Option Task
  | "gen" => some .generate
  | "coverage" => some .coverage
  | "help" => some .help
  | _ => none

def options : Task → List OptionName
  | .program => [.help, .version, .verbose]
  | .generate =>
    [.help, .verbose, .target, .output, .buffer, .header, .maskUnsigned, .skipUnsupported, .group,
      .binding]
  | .coverage => [.help, .verbose]
  | .help => [.help, .verbose]

def usage : Task → String
  | .program | .help =>
    "Generate GPU buffer accessors from layout descriptions\n\n" ++
    "Usage:\n  layoutc [command]\n\n" ++
    "Available Commands:\n" ++
    "  coverage    Show how each definition maps onto buffer words\n" ++
    "  gen         Generate accessors for a layout description\n" ++
    "  help        Help about any command\n\n" ++
    "Flags:\n" ++
    "  -h, --help      help for layoutc\n" ++
    "  -v, --verbose   enable debug logging\n" ++
    "      --version   version for layoutc\n\n" ++
    "Use \"layoutc [command] --help\" for more information about a command.\n"
  | .generate =>
    "Generate accessors for a layout description\n\n" ++
    "Usage:\n  layoutc gen [flags] <input.yaml>\n\n" ++
    "Flags:\n" ++
    "      --binding uint32     binding slot; setting it also emits the buffer declaration\n" ++
    "      --buffer string      buffer name (default: module name)\n" ++
    "      --group uint32       bind group or register space of the buffer declaration\n" ++
    "      --header string      comment written at the top of the output (default \"" ++
      Shader.Options.defaultHeader ++ "\")\n" ++
    "  -h, --help               help for gen\n" ++
    "      --mask-unsigned      mask u8 and u16 values before packing\n" ++
    "  -o, --output string      output file (default: stdout)\n" ++
    "      --skip-unsupported   comment out variants with unsupported payloads instead of failing\n"
      ++
    "  -t, --target string      output language: glsl, hlsl or wgsl (default: from -o extension, " ++
      "else glsl)\n\n" ++
    "Global Flags:\n  -v, --verbose   enable debug logging\n"
  | .coverage =>
    "Show how each definition maps onto buffer words\n\n" ++
    "Usage:\n  layoutc coverage <input.yaml> [flags]\n\n" ++
    "Flags:\n  -h, --help   help for coverage\n\n" ++
    "Global Flags:\n  -v, --verbose   enable debug logging\n"

end Task

inductive UsageError
  | unknownCommand (word : String)
  | unknownOption (name : String)
  | unknownLetter (letter : Char) (letters : String)
  | missingValue (name : String)
  | missingLetterValue (letter : Char) (letters : String)
  | malformed (argument : String)
  | badValue (value : String) (option : OptionName) (fault : ValueFault)
  | argumentCount (given : Nat)
  deriving DecidableEq, Inhabited

def quotedLetter (c : Char) : String :=
  let shown :=
    if 0x80 ≤ c.toNat then "\u00c3"
    else if c = '\x27' then "\\'"
    else if c = '\x22' then "\""
    else Text.escaped c
  "'" ++ shown ++ "'"

def UsageError.message : UsageError → String
  | .unknownCommand word =>
    "unknown command " ++ Text.quoted word ++ " for " ++ Text.quoted programName
  | .unknownOption name => "unknown flag: --" ++ name
  | .unknownLetter letter letters =>
    "unknown shorthand flag: " ++ quotedLetter letter ++ " in -" ++ letters
  | .missingValue name => "flag needs an argument: --" ++ name
  | .missingLetterValue letter letters =>
    "flag needs an argument: " ++ quotedLetter letter ++ " in -" ++ letters
  | .malformed argument => "bad flag syntax: " ++ argument
  | .badValue value option fault =>
    "invalid argument " ++ Text.quoted value ++ " for " ++ Text.quoted option.label ++ " flag: " ++
      fault.text value
  | .argumentCount given => "accepts 1 arg(s), received " ++ toString given

end WordLayout.Command
