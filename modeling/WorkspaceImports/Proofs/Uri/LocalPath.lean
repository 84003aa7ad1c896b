import WorkspaceImports.Proofs.Text.Escape
import WorkspaceImports.Proofs.Uri.Canonical

namespace WorkspaceImports.Uri

-- What is written between two slashes and the next one is no part of the path.
theorem pathPart_authority {authority path : Text} (hauthority : '/' ∉ authority)
    (hroot : path.head? = some '/') : pathPart ("file://".toList ++ authority ++ path) = path := by
  have hafter : afterScheme? ("file://".toList ++ authority ++ path) =
      some ('/' :: '/' :: (authority ++ path)) := rfl
  obtain ⟨rest, rfl⟩ := List.head?_eq_some_iff.mp hroot
  have hdrop : ∀ c ∈ authority, decide (c ≠ '/') = true := by
    intro c hc
    simpa using fun he : c = '/' => hauthority (he ▸ hc)
  rw [pathPart, hafter]
  exact (List.dropWhile_append_of_pos hdrop).trans rfl

-- A URI of the file that a path leads to: its segments are the path's, each of them encoded.
structure Denotes (uri : Uri) (path : Text) : Prop where
  scheme : uri.scheme = .file
  segments : uri.segments = (Text.segments '/' path).map Percent.encode
  localPath : uri.localPath? = some (Path.ofText path)

theorem localPath?_parse_file (rest : Text) :
    (parse (Scheme.file.opening ++ rest)).localPath? =
      match Percent.decode (pathPart (Scheme.file.opening ++ rest)) with
      | [] => none
      | c :: more => some (Path.ofText (c :: more)) := by
  rw [parse, localPath?, Scheme.ofText_file]
  cases Percent.decode (pathPart (Scheme.file.opening ++ rest)) <;> rfl

theorem segments_parse_file (rest : Text) :
    (parse (Scheme.file.opening ++ rest)).segments =
      Text.segments '/' (pathPart (Scheme.file.opening ++ rest)) := by
  rw [parse, segmentPath, Scheme.ofText_file]

theorem denotes_of_pathPart {rest path : Text} (hne : path ≠ [])
    (hpath : pathPart (Scheme.file.opening ++ rest) = Percent.encode path) :
    (parse (Scheme.file.opening ++ rest)).Denotes path where
  scheme := Scheme.ofText_file rest
  segments := by rw [segments_parse_file, hpath, Percent.segments_encode]
  localPath := by
    obtain ⟨c, more, rfl⟩ := List.exists_cons_of_ne_nil hne
    rw [localPath?_parse_file, hpath, Percent.decode_encode]

-- The URI that a path with a root is written as leads back to the path, behind any authority, and
-- without one if the path does not start with two slashes.
theorem parse_denotes {path : Text} (hroot : path.head? = some '/') :
    (∀ authority : Text, '/' ∉ authority →
      (parse ("file://".toList ++ authority ++ Percent.encode path)).Denotes path) ∧
    (path[1]? ≠ some '/' → (parse ("file:".toList ++ Percent.encode path)).Denotes path) := by
  obtain ⟨rest, rfl⟩ := List.head?_eq_some_iff.mp hroot
  constructor
  · intro authority hauthority
    exact denotes_of_pathPart (List.cons_ne_nil _ _) (pathPart_authority hauthority rfl)
  · intro hone
    have hrest : (Percent.encode rest).head? ≠ some '/' := by
      intro hhead
      refine hone ?_
      rw [List.getElem?_cons_succ, ← List.head?_eq_getElem?]
      exact Percent.head?_encode_slash hhead
    exact denotes_of_pathPart (List.cons_ne_nil _ _) (pathPart_file hrest)

-- A percent sign is escaped and so is each byte of a letter beyond the ASCII ones.
theorem parse_denotes_escaped :
    let path := "/a b/%41ü/😀#.proto".toList
    let escaped := "/a%20b/%2541%C3%BC/%F0%9F%98%80%23.proto".toList
    (parse ("file://host:80".toList ++ escaped)).Denotes path ∧
    (parse ("file:".toList ++ escaped)).Denotes path := by
  intro path escaped
  have hescaped : Percent.encode path = escaped := by decide +kernel
  have hroot : path.head? = some '/' := by decide
  obtain ⟨hauthority, hone⟩ := parse_denotes hroot
  rw [hescaped] at hauthority hone
  exact ⟨hauthority "host:80".toList (by decide), hone (by decide)⟩

-- A file's URI says the same whether its path is decoded as a whole and taken apart or its
-- segments are decoded one by one.
theorem localPath?_names (rest : Text) :
    let uri := parse (Scheme.file.opening ++ rest)
    let pieces := uri.segments.flatMap fun segment => Text.segments '/' (Percent.decode segment)
    Text.segments '/' (Percent.decode (pathPart uri.text)) = pieces ∧
    match uri.localPath? with
    | some path => path.names = pieces.filter (· ≠ ['.'])
    | none => uri.segments = [] := by
  intro uri pieces
  have hsegments : uri.segments = Text.segments '/' (pathPart uri.text) := segments_parse_file rest
  have hpieces : Text.segments '/' (Percent.decode (pathPart uri.text)) = pieces := by
    rw [Percent.segments_decode, ← hsegments]
  have hlocal : uri.localPath? = match Percent.decode (pathPart uri.text) with
      | [] => none
      | c :: more => some (Path.ofText (c :: more)) := localPath?_parse_file rest
  refine ⟨hpieces, ?_⟩
  rw [hlocal]
  cases hdecode : Percent.decode (pathPart uri.text) with
  | nil =>
      rw [hsegments, Percent.decode_eq_nil_iff.mp hdecode]
      rfl
  | cons c more =>
      rw [← hpieces, hdecode]
      rfl

end WorkspaceImports.Uri
