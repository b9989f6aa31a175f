/-! The texts that the command prints about itself. -/
namespace ServerScript.Command

def versionText : String := "asp-run 0.3.0\n"

def usageText : String := "Usage: asp-run [OPTIONS] <FILE>..."

def optionLines : List (String × String) :=
  [("-X, --method <METHOD>", "Request method seen by the script [default: GET]"),
    ("-q, --query <KEY=VALUE>", "Query string parameter"),
    ("    --form <KEY=VALUE>", "Form field"),
    ("    --cookie <KEY=VALUE>", "Request cookie"),
    ("    --timeout <SECONDS>", "Script timeout in seconds"),
    ("    --max-call-depth <MAX_CALL_DEPTH>", "Maximum depth of nested procedure calls"),
    ("    --option-base <OPTION_BASE>", "Lower bound of declared arrays"),
    ("    --root-dir <ROOT_DIR>", "Directory Server.MapPath resolves against"),
    ("    --log-level <LOG_LEVEL>", "Log filter, in `RUST_LOG` syntax"),
    ("    --log-format <LOG_FORMAT>", "Log output format [possible values: text, json]"),
    ("-g, --global <GLOBAL>",
      "Document declaring Application_OnStart, Session_OnStart and Application_OnEnd"),
    ("-P <PARALLEL_THRESHOLD>",
      "Number of documents to run before switching to parallel execution [default: 10]"),
    ("    --json", "Report each request as a JSON line instead of printing raw output"),
    ("-h, --help", "Print help"),
    ("-V, --version", "Print version")]

def helpText : String :=
  "Runs pre-parsed server pages as requests against one shared host.\n\n" ++
    usageText ++ "\n\n" ++
    "Arguments:\n  <FILE>...  Parsed documents to run, `-` for stdin\n\n" ++
    "Options:\n" ++
    "".intercalate (optionLines.map fun (option, purpose) =>
      "  " ++ option ++ "\n          " ++ purpose ++ "\n") ++
    "\n# Examples:\n\n" ++
    "## Render one parsed page:\nasp-run page.json\n\n" ++
    "## Render with query parameters and application events:\n" ++
    "asp-run --global global.json --query id=7 page.json\n\n" ++
    "## Read the document from stdin:\nasp-run - < page.json\n"

end ServerScript.Command
