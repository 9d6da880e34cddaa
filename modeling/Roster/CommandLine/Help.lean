-- The pages that explain the command line.

namespace Roster.CommandLine

inductive Page
  | program
  | demo
  | info
  | help
deriving DecidableEq, Repr

def versionText : String := "user-storage 0.1.0\n"

def configHelp : String :=
  "      --config <CONFIG>        TOML config file; environment variables are used when omitted\n"

def backendHelp : String :=
  "      --backend <BACKEND>      Backend to use, overriding the config\n"

def basePathHelp : String :=
  "      --base-path <BASE_PATH>  Base path for the file backend, overriding the config\n"

def helpHelp : String := "  -h, --help                   Print help\n"

def Page.text : Page → String
  | .program =>
    "Save and load users through a pluggable storage backend\n\n"
      ++ "Usage: user-storage [OPTIONS] <COMMAND>\n\n"
      ++ "Commands:\n"
      ++ "  demo  Save a user, then load it back by email\n"
      ++ "  info  Print the backend name and status\n"
      ++ "  help  Print this message or the help of the given subcommand(s)\n\n"
      ++ "Options:\n" ++ configHelp ++ backendHelp ++ basePathHelp ++ helpHelp
      ++ "  -V, --version                Print version\n"
  | .demo =>
    "Save a user, then load it back by email\n\n"
      ++ "Usage: user-storage demo [OPTIONS] --email <EMAIL> --name <NAME>\n\n"
      ++ "Options:\n" ++ configHelp
      ++ "      --email <EMAIL>          \n"
      ++ backendHelp
      ++ "      --name <NAME>            \n"
      ++ "      --age <AGE>              [default: 0]\n"
      ++ basePathHelp ++ helpHelp
  | .info =>
    "Print the backend name and status\n\n"
      ++ "Usage: user-storage info [OPTIONS]\n\n"
      ++ "Options:\n" ++ configHelp ++ backendHelp ++ basePathHelp ++ helpHelp
  | .help =>
    "Print this message or the help of the given subcommand(s)\n\n"
      ++ "Usage: user-storage help [COMMAND]...\n\n"
      ++ "Arguments:\n"
      ++ "  [COMMAND]...  Print help for the subcommand(s)\n"

end Roster.CommandLine
