/-!
What the command prints about itself.
-/

namespace Reckon.CommandLine

def programName : String := "arithexpr"

def versionText : String := "arithexpr 0.1.0\n"

def usage : String :=
  "usage: arithexpr [-h] [-f FILE] [--ast | --tokens] [--max-depth MAX_DEPTH]\n" ++
  "                 [-v] [--version]\n" ++
  "                 [expression]\n"

def help : String :=
  usage ++
  "\n" ++
  "Parse and evaluate arithmetic expressions\n" ++
  "\n" ++
  "positional arguments:\n" ++
  "  expression            Expression to evaluate (omit to start the prompt)\n" ++
  "\n" ++
  "options:\n" ++
  "  -h, --help            show this help message and exit\n" ++
  "  -f FILE, --file FILE  Read the expression from a file\n" ++
  "  --ast                 Print the parsed tree instead of the value\n" ++
  "  --tokens              Print the token list instead of the value\n" ++
  "  --max-depth MAX_DEPTH\n" ++
  "                        Maximum nesting depth accepted by the parser\n" ++
  "  -v, --verbose         Enable debug logging\n" ++
  "  --version             show program's version number and exit\n" ++
  "\n" ++
  "Examples:\n" ++
  "    arithexpr \"2 + 3 * 4\"        # Evaluate an expression\n" ++
  "    arithexpr --ast \"2^3^2\"      # Show the parsed tree\n" ++
  "    arithexpr --tokens \"1.5*2\"   # Show the token list\n" ++
  "    arithexpr -f input.txt       # Evaluate the contents of a file\n" ++
  "    arithexpr                    # Start the interactive prompt\n" ++
  "        \n"

/-- A mistake in the use of the command, after a reminder of how to use it. -/
def usageError (message : String) : String :=
  usage ++ programName ++ ": error: " ++ message ++ "\n"

end Reckon.CommandLine
