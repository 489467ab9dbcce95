import WireSchema.Command.Invocation

/-!
Texts that explain the program and its commands.
-/

namespace WireSchema.Command

def programHelp : List String :=
  ["Generate Rust decoders from message schemas",
   "",
   "Usage: wiregen [OPTIONS] <COMMAND>",
   "",
   "Commands:",
   "  generate  Compile every schema in the input directories",
   "  plan      Print the decode plan (or generated source) for one schema",
   "  help      Print this message or the help of the given subcommand(s)",
   "",
   "Options:",
   "  -v, --verbose  Log compiled units and skipped files (overrides RUST_LOG)",
   "  -h, --help     Print help"]

def generateHelp : List String :=
  ["Compile every schema in the input directories",
   "",
   "Usage: wiregen generate [OPTIONS] --module <MODULE> --in <DIR> --out <DIR>",
   "",
   "Options:",
   "  -m, --module <MODULE>       Module name written into every generated file",
   "  -v, --verbose               Log compiled units and skipped files (overrides RUST_LOG)",
   "  -i, --in <DIR>              Directory of schema files (repeatable)",
   "  -o, --out <DIR>             Output directory (created if missing)",
   "      --keep-going            Write the schemas that compile and report the rest",
   "      --runtime-crate <PATH>  Crate path generated code imports runtime items from",
   "  -h, --help                  Print help"]

def planHelp : List String :=
  ["Print the decode plan (or generated source) for one schema",
   "",
   "Usage: wiregen plan [OPTIONS] <INPUT>",
   "",
   "Arguments:",
   "  <INPUT>  Path to the schema file",
   "",
   "Options:",
   "      --source           Print the generated Rust source instead of the plan listing",
   "  -v, --verbose          Log compiled units and skipped files (overrides RUST_LOG)",
   "  -m, --module <MODULE>  Module name used in the source header [default: messages]",
   "  -o, --output <OUTPUT>  Output file path (stdout if not specified)",
   "  -h, --help             Print help"]

def helpHelp : List String :=
  ["Print this message or the help of the given subcommand(s)",
   "",
   "Usage: wiregen help [COMMAND]...",
   "",
   "Arguments:",
   "  [COMMAND]...  Print help for the subcommand(s)"]

def Topic.lines : Topic → List String
  | .program => programHelp
  | .generate => generateHelp
  | .plan => planHelp
  | .help => helpHelp

def Topic.text (topic : Topic) : String :=
  String.join (topic.lines.map fun line => line ++ "\n")

end WireSchema.Command
