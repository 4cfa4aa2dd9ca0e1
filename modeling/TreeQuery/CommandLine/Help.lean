import TreeQuery.CommandLine.Options

/-!
# Help

The texts that explain how to call the program.
-/

namespace TreeQuery.CommandLine

def programName : Text := "domquery".toList

def versionText : Text := programName ++ " 0.1.0\n".toList

/-- The forms of a call. -/
def usage : Text :=
  ("usage: domquery [-h] [--selector SELECTOR] [--xpath SELECTOR]\n" ++
    "                [--format \x7bhtml,text\x7d] [--first] [--verbose] [--version]\n" ++
    "                [path]\n").toList

/-- The whole explanation. -/
def help : Text := usage ++
  ("\n" ++
    "Compile CSS selectors to XPath and query HTML or XML documents with them.\n" ++
    "\n" ++
    "positional arguments:\n" ++
    "  path                  HTML or XML file to query, or '-' to read from stdin\n" ++
    "\n" ++
    "options:\n" ++
    "  -h, --help            show this help message and exit\n" ++
    "  --selector SELECTOR   CSS selector for choosing nodes (defaults to the\n" ++
    "                        document root)\n" ++
    "  --xpath SELECTOR      Print the XPath expression compiled from SELECTOR and\n" ++
    "                        exit\n" ++
    "  --format \x7bhtml,text\x7d  Output format (default: html)\n" ++
    "  --first               Only output the first matching node\n" ++
    "  --verbose             Log compiled selectors and evaluated expressions to\n" ++
    "                        stderr\n" ++
    "  --version             show program's version number and exit\n" ++
    "\n" ++
    "Examples:\n" ++
    "  domquery --xpath 'div > a:first'\n" ++
    "  domquery page.html --selector 'ul li:even' --format text\n" ++
    "  curl -s https://example.com | domquery - --selector 'a[href^=\"https\"]'\n" ++
    "\n" ++
    "If you don't have the 'domquery' command available, use:\n" ++
    "  python -m domquery ...\n").toList

end TreeQuery.CommandLine
