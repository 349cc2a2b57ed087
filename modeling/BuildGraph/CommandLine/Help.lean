namespace BuildGraph.CommandLine

/-!
# What the program says about itself
-/

/-- The short explanation of the options. -/
def shortHelpLines : List String :=
  ["Typed build-graph IR and correctly escaped Ninja file synthesis.",
    "",
    "Usage: ninja-synth [OPTIONS]",
    "",
    "Options:",
    "  -f, --file <FILE>          Path to the build plan (YAML, or JSON when the name " ++
      "ends in \x60.json\x60) [default: build.plan.yml]",
    "  -o, --output <FILE>        Where to write the Ninja file; \x60-\x60 writes to " ++
      "standard output [default: build.ninja]",
    "      --platform <PLATFORM>  Platform the generated commands will run on " ++
      "[possible values: linux, darwin, cygwin, windows]",
    "  -v, --verbose              Enable verbose logging output",
    "  -h, --help                 Print help (see more with '--help')",
    "  -V, --version              Print version"]

/-- The detailed explanation of the options. -/
def detailedHelpLines : List String :=
  ["Typed build-graph IR and correctly escaped Ninja file synthesis.",
    "",
    "Usage: ninja-synth [OPTIONS]",
    "",
    "Options:",
    "  -f, --file <FILE>",
    "          Path to the build plan (YAML, or JSON when the name ends in \x60.json\x60)",
    "          ",
    "          [default: build.plan.yml]",
    "",
    "  -o, --output <FILE>",
    "          Where to write the Ninja file; \x60-\x60 writes to standard output",
    "          ",
    "          [default: build.ninja]",
    "",
    "      --platform <PLATFORM>",
    "          Platform the generated commands will run on",
    "",
    "          Possible values:",
    "          - linux:   GNU/Linux and other ELF-based Unix systems",
    "          - darwin:  macOS",
    "          - cygwin:  Cygwin's POSIX layer on Windows",
    "          - windows: Native Windows",
    "",
    "  -v, --verbose",
    "          Enable verbose logging output",
    "",
    "  -h, --help",
    "          Print help (see a summary with '-h')",
    "",
    "  -V, --version",
    "          Print version"]

/-- The explanation of the options, in a short or in a detailed form. -/
def helpText (isDetailed : Bool) : String :=
  String.join ((if isDetailed then detailedHelpLines else shortHelpLines).map (· ++ "\n"))

/-- The name of the program and its version. -/
def versionText : String := "ninja-synth 0.1.0\n"

end BuildGraph.CommandLine
