import MdxPages.Convert.Session
import MdxPages.Frontmatter
import MdxPages.Tree.Normal

/-!
# Convert/Assembly — the root of a produced file

Frontmatter first, then the imports, then the content, its stray phrasing wrapped in paragraphs.
The frontmatter is the options of the page, overwritten in place by the metadata of its directives.
Imports of images come after all others.
-/

namespace MdxPages.Convert

/-- The line that imports a component. -/
def importLine (name path : String) : String :=
  "import " ++ name ++ " from '" ++ path ++ "';"

/-- Imports with those of images last, each group in its order. -/
def orderedImports (imports : Entries String) : Entries String :=
  imports.filter (fun (_, path) => !Path.isImage path) ++
    imports.filter fun (_, path) => Path.isImage path

/-- The frontmatter block, if there is any text for it. -/
def frontmatterBlock (pageOptions metadata : Entries Value) : List Node :=
  let text := Frontmatter.text (pageOptions.merge metadata)
  if text.isEmpty then [] else [.yaml text]

/-- The import block, if anything is imported. -/
def importBlock (imports : Entries String) : List Node :=
  if imports.isEmpty then []
  else
    [.imports (Text.join "\n" ((orderedImports imports).map fun (name, path) =>
      importLine name path))]

/-- The root of a file with the given options, state and content. -/
def assemble (pageOptions : Entries Value) (file : FileState) (content : List Node) : Node :=
  .root (Node.wrapInlineRuns
    (frontmatterBlock pageOptions file.metadata ++ importBlock file.imports ++ content))

end MdxPages.Convert
