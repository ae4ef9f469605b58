/-!
# The configuration to start from

A configuration that says what holds without one, for users to change.
-/

namespace SafetyLint
namespace Command

/-- The lines of the configuration to start from. -/
def templateLines : List String :=
  [
    "# powerten configuration",
    "# Every section is optional; omitted values use the defaults shown here.",
    "",
    "[analyzer]",
    "# Glob patterns of AST dumps to skip",
    "exclude = [\"**/vendor/**\"]",
    "respect_gitignore = true",
    "",
    "[rules]",
    "enabled = [\"rule_1\", \"rule_2\", \"rule_3\", \"rule_4\", \"rule_5\", \"rule_6\", "
      ++ "\"rule_7\", \"rule_9\", \"rule_10\"]",
    "except = []",
    "",
    "# [severity]",
    "# rule_7 = \"warning\"",
    "",
    "[loops]",
    "max_iterations = 1000",
    "",
    "[allocation]",
    "init_methods = [\"__construct\", \"initialize\", \"init\", \"setup\", \"boot\", \"register\"]",
    "# resource_functions = [\"fopen\", \"curl_init\", ...]",
    "container_methods = [\"add\", \"push\", \"append\", \"insert\", \"put\", \"set\"]",
    "container_types = [\"SplDoublyLinkedList\", \"SplStack\", \"SplQueue\", \"ArrayObject\"]",
    "",
    "[function_length]",
    "max_lines = 60",
    "include_comments = true",
    "include_blank_lines = true",
    "",
    "[assertions]",
    "minimum = 2",
    "exception_functions = [\"trigger_error\", \"throw\"]",
    "",
    "[data_scope]",
    "max_class_properties = 10",
    "# Whole-name patterns; `*` is the only wildcard",
    "allowed_public_properties = [\"id\", \"name\", \"created_at\", \"updated_at\"]",
    "allowed_globals = [\"_GET\", \"_POST\", \"_SESSION\", \"_COOKIE\", \"_SERVER\", \"_ENV\", "
      ++ "\"_FILES\", \"_REQUEST\"]",
    "max_lines_to_first_use = 10",
    "",
    "[return_values]",
    "allow_fluent_chains = true",
    "",
    "[dereferences]",
    "max = 1",
    "",
    "[diagnostics]",
    "suppression_functions = [\"error_reporting\", \"ini_set\", \"set_error_handler\"]",
    "",
    "[diagnostics.required_directives]",
    "strict_types = 1"
  ]

/-- The configuration to start from. -/
def template : String := String.join (templateLines.map fun l => l ++ "\n")

end Command
end SafetyLint
