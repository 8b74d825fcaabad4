import ModuleLoader.Text.Quoted

/-!
# Flags

* `Flag` : the flags of the command line with their short and long spellings;
* `Flag.all` : all of them in the order in which they are listed;
* `Flag.display` : a flag as complaints name it;
* `usage`, `help` : how the command line is described.
-/

namespace ModuleLoader.CommandLine

inductive Flag where
  | help
  | libraryPath
  | require
  | verbose
  deriving DecidableEq, Repr

namespace Flag

def all : List Flag := [.help, .libraryPath, .require, .verbose]

def letter : Flag → Char
  | .help => 'h'
  | .libraryPath => 'I'
  | .require => 'r'
  | .verbose => 'v'

def short (flag : Flag) : List Char := ['-', flag.letter]

def long : Flag → List Char
  | .help => "--help".toList
  | .libraryPath => "--lib-path".toList
  | .require => "--require".toList
  | .verbose => "--verbose".toList

def takesValue : Flag → Bool
  | .libraryPath | .require => true
  | .help | .verbose => false

def ofLetter? (c : Char) : Option Flag := all.find? (fun flag => flag.letter == c)

def display (flag : Flag) : String := String.ofList (flag.short ++ ['/'] ++ flag.long)

end Flag

def programName : String := "loadpath"

def usage : String := "usage: " ++ programName ++ " [-h] [-I DIR] [-r NAME] [-v] [file]\n"

def help : String :=
  usage ++ "\n" ++ "Run a loadpath (.lps) script.\n" ++ "\n" ++
    "positional arguments:\n" ++
    "  file                  Path to .lps script\n" ++ "\n" ++
    "options:\n" ++
    "  -h, --help            show this help message and exit\n" ++
    "  -I DIR, --lib-path DIR\n" ++
    "                        Module search directory (repeatable; replaces the\n" ++
    "                        default search path)\n" ++
    "  -r NAME, --require NAME\n" ++
    "                        Require a module before running the script\n" ++
    "                        (repeatable)\n" ++
    "  -v, --verbose         Log module resolution\n"

end ModuleLoader.CommandLine
