import WorkspaceImports.Configuration
import WorkspaceImports.Uri.Basic

namespace WorkspaceImports.Uri

def readText : Option Json → Except (List Issue) Text
  | none => .error [⟨.missing, ["text".toList]⟩]
  | some (.text text) => .ok text
  | some (.brokenText letters) => .ok (letters.map Letter.lenient)
  | some _ => .error [⟨.notAText, ["text".toList]⟩]

def readScheme : Option Json → Except (List Issue) Scheme
  | none => .error [⟨.missing, ["scheme".toList]⟩]
  | some (.brokenText _) => .error [⟨.brokenText, ["scheme".toList]⟩]
  | some (.text name) =>
      match Scheme.ofName? name with
      | some scheme => .ok scheme
      | none => .error [⟨.notAmong (Scheme.all.map Scheme.name), ["scheme".toList]⟩]
  | some _ => .error [⟨.notAmong (Scheme.all.map Scheme.name), ["scheme".toList]⟩]

def readSegments : Option Json → Except (List Issue) (List Text)
  | none => .ok []
  | some (.array items) => Configuration.readItems Configuration.text? "segments".toList items
  | some _ => .error [⟨.notAList, ["segments".toList]⟩]

def issuesOf {α : Type} : Except (List Issue) α → List Issue
  | .ok _ => []
  | .error issues => issues

def kind : Text := "Uri".toList

-- The URI that an object describes by its parts, which are taken as they are.
def ofMembers (members : List (Text × Json)) : Except Invalid Uri :=
  let text := readText (Json.member? "text".toList members)
  let scheme := readScheme (Json.member? "scheme".toList members)
  let segments := readSegments (Json.member? "segments".toList members)
  match text, scheme, segments with
  | .ok text, .ok scheme, .ok segments => .ok ⟨text, scheme, segments⟩
  | _, _, _ => .error ⟨kind, issuesOf text ++ issuesOf scheme ++ issuesOf segments⟩

end WorkspaceImports.Uri
