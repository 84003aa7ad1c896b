import WorkspaceImports.Disk.Find
import WorkspaceImports.Json.Basic
import WorkspaceImports.Log
import WorkspaceImports.Uri.Basic

namespace WorkspaceImports

-- What a check says about a resource: a value that means yes or no, or that it failed. A check is
-- any caller's, and this is what counts of it here: each value it gives has a truth value, and each
-- failure has a text, so neither to judge the one nor to tell of the other can fail.
inductive Answer
  | value (value : Json)
  | failure (reason : Text)

def Answer.holds : Answer → Bool
  | .value json => json.holds
  | .failure _ => false

structure Reply where
  answer : Answer
  log : List Event

-- Tells of a URI's wording whether the resource is there. The reply is a matter of the wording
-- alone: a check that changes its mind between two questions is none of these.
abbrev Check := Wording → Reply

-- A value found by asking a check: the wordings it was asked about, in order, and the log.
structure Inquiry (α : Type) where
  value : α
  asked : List Wording
  log : List Event

namespace Inquiry

variable {α β : Type}

def pure (value : α) : Inquiry α := ⟨value, [], []⟩

-- One inquiry after another, which may depend on what the first one found.
def andThen (first : Inquiry α) (next : α → Inquiry β) : Inquiry β :=
  let second := next first.value
  ⟨second.value, first.asked ++ second.asked, first.log ++ second.log⟩

def map (f : α → β) (inquiry : Inquiry α) : Inquiry β :=
  ⟨f inquiry.value, inquiry.asked, inquiry.log⟩

def logging (event : Event) (inquiry : Inquiry α) : Inquiry α :=
  { inquiry with log := event :: inquiry.log }

end Inquiry

-- Asks the check about one wording. A check that fails says no and is logged.
def Check.ask (check : Check) (wording : Wording) : Inquiry Bool :=
  let reply := check wording
  match reply.answer with
  | .value value => ⟨value.holds, [wording], reply.log⟩
  | .failure reason => ⟨false, [wording], reply.log ++ [.checkFailed wording reason]⟩

-- Whether a file is there. A path that the system refuses to look at leads to none.
def Disk.holdsFile (disk : Disk) (wording : Wording) : Option Path → Inquiry Bool
  | none => .pure false
  | some path =>
      match disk.exists? path with
      | .ok found => .pure found
      | .error failure => ⟨false, [], [.checkFailed wording failure.message]⟩

-- Whether what a URI refers to is there. A file is looked for on the disk, a resource of the
-- workspace is left to the check, and nothing else is anywhere.
def Uri.isThere (disk : Disk) (check : Check) (uri : Uri) : Inquiry Bool :=
  match uri.scheme with
  | .file => disk.holdsFile uri.text uri.localPath?
  | .workspace => check.ask uri.text
  | .unknown => .pure false

-- The same for a URI that is not taken apart yet.
def Wording.isThere (disk : Disk) (check : Check) (wording : Wording) : Inquiry Bool :=
  match wording.scheme with
  | .file => disk.holdsFile wording wording.localPath?
  | .workspace => check.ask wording
  | .unknown => .pure false

end WorkspaceImports
