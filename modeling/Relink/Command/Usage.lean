import Relink.Command.Flag

namespace Relink.Command

def usage : Scope → Text
  | .program => "usage: tsrewrite [-h] [-V] <command> ...\n"
  | .convert =>
    "usage: tsrewrite convert [-h] [-p PROJECT] [--no-color] [-v | -q]\n" ++
    "                         [-e \x7b.js,.mjs,.cjs\x7d] [-o OUT_DIR] [--strict]\n" ++
    "                         files [files ...]\n"
  | .aliases => "usage: tsrewrite aliases [-h] [-p PROJECT] [--no-color] [-v | -q]\n"

def sharedFlagsHelp : String :=
  "options:\n" ++
  "  -h, --help            show this help message and exit\n" ++
  "  -p PROJECT, --project PROJECT\n" ++
  "                        Path to tsconfig.json (default: tsconfig.json)\n" ++
  "  --no-color            Disable colored output\n" ++
  "  -v, --verbose         Log every rewrite\n" ++
  "  -q, --quiet           Only log errors\n"

def description : Scope → String
  | .program =>
    "Rewrite path aliases and extensionless imports into relative specifiers\n" ++
    "\n" ++
    "positional arguments:\n" ++
    "  <command>\n" ++
    "    convert      Rewrite the specifiers of source files\n" ++
    "    aliases      Show the alias table of a project\n" ++
    "\n" ++
    "options:\n" ++
    "  -h, --help     show this help message and exit\n" ++
    "  -V, --version  show program's version number and exit\n" ++
    "\n" ++
    "Run 'tsrewrite <command> --help' for more information on a command.\n"
  | .convert =>
    "Rewrite aliased and relative specifiers into resolvable relative paths.\n" ++
    "\n" ++
    "positional arguments:\n" ++
    "  files                 Source files to convert\n" ++
    "\n" ++
    sharedFlagsHelp ++
    "  -e \x7b.js,.mjs,.cjs\x7d, --ext \x7b.js,.mjs,.cjs\x7d\n" ++
    "                        Extension for resolved specifiers (default: .js)\n" ++
    "  -o OUT_DIR, --out-dir OUT_DIR\n" ++
    "                        Write converted files here, mirroring their project-\n" ++
    "                        relative paths\n" ++
    "  --strict              Exit with status 1 if any specifier could not be\n" ++
    "                        resolved\n" ++
    "\n" ++
    "Example: tsrewrite convert src/app/main.ts -p tsconfig.json\n"
  | .aliases =>
    "Print every alias prefix and the directory it resolves to.\n" ++
    "\n" ++
    sharedFlagsHelp ++
    "\n" ++
    "Example: tsrewrite aliases -p tsconfig.json\n"

def help (scope : Scope) : Text := usage scope ++ "\n" ++ description scope

def versionLine : Text := "tsrewrite 1.0.0\n"

end Relink.Command
