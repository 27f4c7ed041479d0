set_option autoImplicit false

/-! # What the program says about itself -/

namespace SiteConf.Command

def programName : String := "servgen"

/-- The answer to a question for the version. -/
def versionText : String :=
  programName ++ " 0.3.0\n"

def helpText : String :=
  "servgen: compile one configuration literal into web-server configuration dialects\n"
    ++ "\n"
    ++ "Usage: servgen [OPTIONS] --template <TEMPLATE> <CONFIG>\n"
    ++ "\n"
    ++ "Arguments:\n"
    ++ "  <CONFIG>  Configuration source to compile\n"
    ++ "\n"
    ++ "Options:\n"
    ++ "  -t, --template <TEMPLATE>  Dialect template that renders the configuration\n"
    ++ "  -D, --define <NAME>        Conditions to enable (comma-separated or repeated)\n"
    ++ "  -s, --set <KEY=VALUE>      Placeholder value for `@@KEY@@`;"
    ++ " integers are substituted as numbers\n"
    ++ "  -p, --placeholders <FILE>  JSON or YAML file with placeholder values."
    ++ " `--set` entries win\n"
    ++ "  -o, --output <OUTPUT>      Output file; stdout when absent or `-`\n"
    ++ "  -v, --verbose...           Increase logging verbosity (`-v`, `-vv`, `-vvv`)\n"
    ++ "  -h, --help                 Print help\n"
    ++ "  -V, --version              Print version\n"

end SiteConf.Command
