/-! What the command says about itself. -/

namespace Pedigree.Command

def version : String := "lineage-cli 0.1.0\n"

def brief : String := "\n".intercalate [
  "Command-line interface for the Lineage family tree language",
  "",
  "Usage: lineage [OPTIONS] <INPUT>",
  "",
  "Arguments:",
  "  <INPUT>  Path to the input file",
  "",
  "Options:",
  "  -o, --output <OUTPUT>        Path to the output file; standard output when omitted",
  "  -f, --format <FORMAT>        What to render [default: timeline] " ++
    "[possible values: tree, structure, timeline, generations]",
  "  -c, --config <CONFIG>        Path to configuration file (TOML)",
  "      --log-level <LOG_LEVEL>  Log level (off, error, warn, info, debug, trace) [default: info]",
  "  -h, --help                   Print help (see more with '--help')",
  "  -V, --version                Print version",
  ""]

def full : String := "\n".intercalate [
  "Command-line interface for the Lineage family tree language",
  "",
  "Usage: lineage [OPTIONS] <INPUT>",
  "",
  "Arguments:",
  "  <INPUT>",
  "          Path to the input file",
  "",
  "Options:",
  "  -o, --output <OUTPUT>",
  "          Path to the output file; standard output when omitted",
  "",
  "  -f, --format <FORMAT>",
  "          What to render",
  "",
  "          Possible values:",
  "          - tree:        Graphviz DOT diagram of the family",
  "          - structure:   Graphviz DOT diagram of the parsed statements",
  "          - timeline:    Chronological list of births, weddings and deaths",
  "          - generations: Persons grouped by generation",
  "          ",
  "          [default: timeline]",
  "",
  "  -c, --config <CONFIG>",
  "          Path to configuration file (TOML)",
  "",
  "      --log-level <LOG_LEVEL>",
  "          Log level (off, error, warn, info, debug, trace)",
  "          ",
  "          [default: info]",
  "",
  "  -h, --help",
  "          Print help (see a summary with '-h')",
  "",
  "  -V, --version",
  "          Print version",
  ""]

end Pedigree.Command
