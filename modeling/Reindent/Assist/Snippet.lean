/-!
# Snippets

The fixed completions that an editor offers.
-/

namespace Reindent
namespace Assist

inductive SnippetKind where
  | function
  | snippet
  deriving DecidableEq, Repr

/-- A completion: the label it is listed under and the text it puts in. -/
structure Snippet where
  label : String
  kind : SnippetKind
  insertText : String
  documentation : String
  deriving DecidableEq, Repr

/-- The completions, in the order in which they are offered. -/
def snippets : List Snippet :=
  [{ label := "defMeta"
     kind := .function
     insertText := String.join
      ["defMeta(\x7b\n",
        "\tname: \"$\x7b1:name\x7d\",\n",
        "\tdocument: \x7b\n",
        "\t\ttitle: \"$\x7b2:title\x7d\",\n",
        "\t\tdescription: \"$\x7b3:description\x7d\",\n",
        "\t\tkeywords: \"$\x7b4:keywords\x7d\"\n",
        "\t\x7d,\n",
        "\tpermissions: \x7b\n",
        "\t\tintent: \"$\x7b5:intent\x7d\",\n",
        "\t\tlevel: $\x7b6:0\x7d\n",
        "\t\x7d\n",
        "\x7d)"]
     documentation := "Define metadata for a Fubelt page" },
    { label := "script"
      kind := .snippet
      insertText := "<script>\n\t$0\n</script>"
      documentation := "Add a script block" }]

end Assist
end Reindent
