/-!
Settings files to start from.
-/

set_option autoImplicit false

namespace CodeOutline.Command

structure Template where
  name : String
  description : String
  content : String
deriving Repr

namespace Template

private def lines (ls : List String) : String := String.join (ls.map (· ++ "\n"))

private def excluded : List String :=
  ["excluded_paths:", "  - \"**/vendor/**\"", "  - \"**/node_modules/**\""]

private def full : Template where
  name := "default"
  description := "Every setting with its default, documented"
  content := lines ([
    "# outliner workspace configuration",
    "#",
    "# Every key is optional; the values below are the defaults unless noted.",
    "",
    "# Marker prepended to readonly / final members in outline labels.",
    "readonly_character: \"®\"",
    "",
    "# Marker prepended to abstract members in outline labels.",
    "abstract_character: \"Ⓐ\"",
    "",
    "# Refresh the outline on save even when the editor reports errors.",
    "update_on_error: true",
    "",
    "# Restrict the analyzers in use. Empty means all of:",
    "# php, java, javascript, python, cfamily, openhab, css, less, rapid",
    "allowed_providers: []",
    "",
    "# Per-language settings, keyed by language id.",
    "languages:",
    "  php:",
    "    # full: App\\Foo   suffix: Foo: App   none: Foo",
    "    namespace_position: full",
    "  typescript:",
    "    namespace_position: full",
    "    # Keyword used when generating namespaced TypeScript: namespace | module",
    "    default_namespace_type: namespace",
    "",
    "# Extra file name patterns mapped to a language id, checked before the",
    "# built-in extension table.",
    "file_associations: []",
    "#  - pattern: \"*.inc\"",
    "#    language: php",
    "",
    "# Paths skipped when outlining a directory."] ++ excluded)

private def minimal : Template where
  name := "minimal"
  description := "Only the commonly changed settings"
  content := lines (["# outliner workspace configuration (minimal)", "update_on_error: true"] ++
    excluded)

def all : List Template := [full, minimal]

def find? (name : String) : Option Template := all.find? (·.name == name)

end Template

end CodeOutline.Command
