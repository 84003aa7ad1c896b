import WorkspaceImports.Path
import WorkspaceImports.Text.Percent

namespace WorkspaceImports

-- What a URI refers to: a file by its path, a resource of the workspace by the way to it from
-- the workspace root, or something that is not known here.
inductive Scheme
  | file
  | workspace
  | unknown
deriving DecidableEq, Repr

-- A URI taken apart. One that is built by hand may have parts that do not fit its text.
structure Uri where
  text : Text
  scheme : Scheme
  segments : List Text
deriving DecidableEq, Repr

namespace Scheme

def name : Scheme → Text
  | file => "file".toList
  | workspace => "platform-resource".toList
  | unknown => "unknown".toList

def all : List Scheme := [file, workspace, unknown]

def ofName? (name : Text) : Option Scheme := all.find? (·.name = name)

def opening : Scheme → Text
  | file => "file:".toList
  | workspace => "platform:/resource".toList
  | unknown => []

-- The word after a workspace URI's opening slash has to be the whole first segment.
def ofText (text : Text) : Scheme :=
  if text = workspace.opening ∨ (workspace.opening ++ ['/']).isPrefixOf text then workspace
  else if file.opening.isPrefixOf text then file
  else unknown

end Scheme

namespace Uri

def isLetter (c : Char) : Bool := ('A' ≤ c && c ≤ 'Z') || ('a' ≤ c && c ≤ 'z')

def isSchemeChar (c : Char) : Bool :=
  isLetter c || ('0' ≤ c && c ≤ '9') || c == '+' || c == '.' || c == '-'

def afterScheme? : Text → Option Text
  | [] => none
  | c :: rest =>
      if isLetter c then
        match rest.dropWhile isSchemeChar with
        | ':' :: rest => some rest
        | _ => none
      else none

-- The path of a URI: its text without the scheme and without an authority, which two slashes
-- announce and the next slash ends.
def pathPart (text : Text) : Text :=
  match afterScheme? text with
  | none => text
  | some ('/' :: '/' :: rest) => rest.dropWhile (· ≠ '/')
  | some rest => rest

-- The path that a text's segments are taken from. A workspace URI keeps the word "resource".
def segmentPath (text : Text) : Text :=
  match Scheme.ofText text with
  | .workspace => text.drop "platform:".toList.length
  | _ => pathPart text

def parse (text : Text) : Uri :=
  ⟨text, Scheme.ofText text, Text.segments '/' (segmentPath text)⟩

-- The segments of the folder that the URI's file is in, without the word "resource" of a
-- workspace URI.
def folderSegments (uri : Uri) : List Text :=
  match uri.scheme with
  | .workspace => uri.segments.tail.dropLast
  | _ => uri.segments.dropLast

-- The project that the URI's file is in. There has to be a file below the project.
def project? (uri : Uri) : Option Text :=
  match uri.scheme, uri.segments with
  | .workspace, _ :: project :: _ :: _ => some project
  | _, _ => none

def localPath? (uri : Uri) : Option Path :=
  match uri.scheme, Percent.decode (pathPart uri.text) with
  | .file, c :: rest => some (Path.ofText (c :: rest))
  | _, _ => none

-- The text that a scheme and a list of segments are best written as.
def write (scheme : Scheme) (segments : List Text) : Text :=
  (match scheme with
    | .file => "file:/".toList
    | .workspace => "platform:/".toList
    | .unknown => "/".toList) ++ Text.join '/' segments

def canonical (text : Text) : Text := write (parse text).scheme (parse text).segments

end Uri

namespace Wording

-- A wording is taken apart like a text. Where its parts begin and end is a matter of ASCII
-- characters, and those are shown as they are.

def scheme (wording : Wording) : Scheme := Scheme.ofText wording.shown

-- The end of a wording that is shown as an end of what it is shown as.
def ending (part : Text → Text) (wording : Wording) : Wording :=
  wording.drop (wording.length - (part wording.shown).length)

def segments (wording : Wording) : List Wording :=
  Text.segments (.char '/') (wording.ending Uri.segmentPath)

def project? (wording : Wording) : Option Wording :=
  match wording.scheme, wording.segments with
  | .workspace, _ :: project :: _ :: _ => some project
  | _, _ => none

def localPath? (wording : Wording) : Option Path :=
  match wording.scheme, Percent.decodeWording (wording.ending Uri.pathPart) with
  | .file, letter :: rest => some (Path.ofWording (letter :: rest))
  | _, _ => none

end Wording

end WorkspaceImports
