import ProjectAudit.Catalog.Basic
import ProjectAudit.CommandLine.Grammar

/-!
# The command that prints the catalog
-/

namespace ProjectAudit.CommandLine

/-- The layouts of the catalog, by the names that the command line has for them. -/
def layouts : List (Text × Catalog.Layout) :=
  [("yaml", .block), ("json", .json)]

/-- The layout of a given name; the other layout is never asked for by a name that is no choice. -/
def layoutOf (name : Text) : Catalog.Layout :=
  ((layouts.find? fun l => l.1 == name).map (·.2)).getD .block

/-- The command that prints the catalog. -/
def catalogGrammar : Grammar Catalog.Layout where
  program := "catalog"
  flags := [⟨["-h", "--help"], .help⟩,
    ⟨["--format"], .value (layouts.map (·.1)) fun name _ => layoutOf name⟩]
  defaults := .block
  usage := "usage: catalog [-h] [--format \x7byaml,json\x7d]\n"
  explanation := "\nPrint the catalog of built-in culture rules.\n\n" ++
    "options:\n" ++
    "  -h, --help            show this help message and exit\n" ++
    "  --format \x7byaml,json\x7d  Output format (default: yaml).\n"

end ProjectAudit.CommandLine
