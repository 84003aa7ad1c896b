import Mathlib.Data.List.Find
import WorkspaceImports.Proofs.Disk.Tower
import WorkspaceImports.Proofs.Import.Candidate
import WorkspaceImports.Proofs.Import.FailedCheck
import WorkspaceImports.Proofs.Workspace.Wording
import WorkspaceImports.Resolver

namespace WorkspaceImports

open Disk (IsName Fits)

def Disk.hasFile (disk : Disk) (place : Location) : Bool :=
  match disk.at? place with
  | some (.file _) => true
  | _ => false

-- Whether a file is at a place and the system takes the path to it.
def Disk.offers (disk : Disk) (place : Location) : Bool :=
  disk.hasFile place && decide (Fits place)

theorem Disk.offers_iff {disk : Disk} {place : Location} :
    disk.offers place = true ↔ Fits place ∧ ∃ content, disk.at? place = some (.file content) := by
  have hfile : disk.hasFile place = true ↔ ∃ content, disk.at? place = some (.file content) := by
    unfold hasFile
    cases hentry : disk.at? place with
    | none => simp
    | some entry => cases entry <;> simp
  rw [offers, Bool.and_eq_true, decide_eq_true_iff, hfile, and_comm]

-- A resource is there just where a file is at its place and the system takes the path.
theorem Workspace.holdsWording_plain {workspace : Workspace} {disk : Disk}
    (hlinks : disk.Unlinked) (hroot : workspace.Rooted) {wording word : Wording}
    {segments : List Text} (hscheme : wording.scheme = .workspace)
    (hsegments : wording.segments = word :: segments.map .text) (hne : segments ≠ [])
    (h : ∀ segment ∈ segments, Uri.Plain segment) :
    (workspace.holdsWording disk wording).value = .ok true ↔
      disk.offers (workspace.root.names ++ segments) = true := by
  have hparts : ∀ segment ∈ segments.map Wording.text, segment ≠ [] ∧ .char '/' ∉ segment :=
    List.forall_mem_map.mpr fun segment hmem =>
      ⟨Wording.text_ne_nil_iff.mpr (h segment hmem).ne_nil, by simpa using (h segment hmem).noSlash⟩
  have hpercent : ∀ segment ∈ segments.map Wording.text, .char '%' ∉ segment :=
    List.forall_mem_map.mpr fun segment hmem => by simpa using (h segment hmem).noPercent
  have hdots : [.char '.', .char '.'] ∉ segments.map Wording.text := by
    intro hmem
    obtain ⟨segment, hmem, heq⟩ := List.mem_map.mp hmem
    exact (h segment hmem).ne_dots (Wording.text_injective heq)
  have hnodot : namesOf (segments.map .text) = segments := by
    rw [namesOf_text]
    exact List.filter_eq_self.mpr fun segment hmem => by simpa using (h segment hmem).ne_dot
  have hnames : ∀ name ∈ workspace.root.names ++ segments, IsName name :=
    List.forall_mem_append.mpr ⟨hroot.names, fun name hmem => (h name hmem).toIsName⟩
  rw [holdsWording_undecoded hlinks hroot hscheme hsegments (by simpa using hne) hparts hpercent
    hdots, hnodot, if_pos fun name hmem => (h name hmem).noNull, Disk.offers_iff]
  exact Disk.isFile?_names_iff hlinks hnames

namespace Import

-- The owner's folder, or the folders with each of the folder names in the place of the source
-- folder.
def bases (strategy : Strategy) (names : List Text) (project : Text) (inner : List Text) :
    List (List Text) :=
  match strategy, inner with
  | .singleFolder, _ => [project :: inner]
  | .multiFolder, [] => []
  | .multiFolder, _ :: rest => names.map fun name => project :: name :: rest

-- A folder before the first segment that equals the import's first one.
def cut (written : Text) (base : List Text) : List Text :=
  base.takeWhile (some · ≠ (Text.segments '/' written).head?)

-- The folders that an import is looked for in, each up to where the import's own path takes over.
def folders (strategy : Strategy) (names : List Text) (written project : Text)
    (inner : List Text) : List (List Text) :=
  (bases strategy names project inner).map (cut written)

-- The place of an import as seen from a folder, and its URI.
def placeFrom (workspace : Workspace) (written : Text) (folder : List Text) : Location :=
  workspace.root.names ++ (folder ++ Text.segments '/' written)

def uriFrom (written : Text) (folder : List Text) : Text :=
  "platform:/resource".toList ++ folder.flatMap ('/' :: ·) ++ '/' :: written

-- The candidate for an import as seen from a folder of texts.
def candidateFrom (written : Text) (base : List Text) : Wording :=
  let written := Wording.text written
  candidate written (Text.segments (.char '/') written).head? (base.map .text)

theorem kept_text (written : Text) (base : List Text) :
    kept (.text written) (base.map .text) = (cut written base).map .text := by
  rw [kept, cut, List.takeWhile_map, Text.segments_text, List.head?_map]
  congr 2
  funext segment
  refine decide_eq_decide.mpr (not_congr ?_)
  rw [← Option.map_some, (Option.map_injective Wording.text_injective).eq_iff]

theorem candidateFrom_eq (written : Text) (base : List Text) :
    candidateFrom written base = .text (uriFrom written (cut written base)) := by
  let way := (cut written base).flatMap ('/' :: ·)
  have hway : (kept (.text written) (base.map .text)).flatMap (.char '/' :: ·) =
      Wording.text way := by
    rw [kept_text]
    simp [way, Wording.text, List.map_flatMap, List.flatMap_map]
  calc candidateFrom written base
    _ = Wording.text Scheme.workspace.opening ++
        (kept (.text written) (base.map .text)).flatMap (.char '/' :: ·) ++
          .char '/' :: Wording.text written := rfl
    _ = Wording.text Scheme.workspace.opening ++ Wording.text way ++
          Wording.text ('/' :: written) := by rw [hway, Wording.text_cons]
    _ = Wording.text (Scheme.workspace.opening ++ way ++ '/' :: written) := by
      rw [← Wording.text_append, ← Wording.text_append]

theorem candidates_text {strategy : Strategy} {names : List Text} {owner : Uri} {project : Text}
    {inner : List Text} (hinner : innerSegments owner.segments = project :: inner)
    (written : Text) :
    candidates ⟨strategy, names.map .text⟩ owner (.text written) =
      (bases strategy names project inner).map (candidateFrom written) := by
  cases strategy with
  | singleFolder =>
      simp only [candidates, hinner]
      rfl
  | multiFolder =>
      cases inner with
      | nil => simp [candidates, bases, hinner, sourceFolder]
      | cons next rest =>
          simp [candidates, bases, candidateFrom, hinner, sourceFolder]

section Lookup

variable {workspace : Workspace} {disk : Disk} {written : Text}

section Plain

variable (hlinks : disk.Unlinked) (hroot : workspace.Rooted)
  (hne : Text.segments '/' written ≠ [])
  (hwritten : ∀ segment ∈ Text.segments '/' written, Uri.Plain segment)

include hlinks hroot hne hwritten

-- So the check says yes about a candidate where its file is.
theorem accepts_candidateFrom {base : List Text} (hbase : ∀ name ∈ base, Uri.Plain name) :
    (workspace.check disk).accepts (candidateFrom written base) =
      disk.offers (placeFrom workspace written (cut written base)) := by
  have hcut : ∀ name ∈ cut written base, Uri.Plain name :=
    fun name hmem => hbase name ((List.takeWhile_prefix _).subset hmem)
  have hway : wayTo (.text written) (base.map .text) =
      (cut written base ++ Text.segments '/' written).map .text := by
    rw [wayTo_of_names, kept_text, Text.segments_text, List.map_append]
    rw [kept_text]
    exact List.forall_mem_map.mpr fun name hmem =>
      ⟨Wording.text_ne_nil_iff.mpr (hcut name hmem).ne_nil, by simpa using (hcut name hmem).noSlash⟩
  obtain ⟨hscheme, hsegments⟩ := reads_candidate (.text written) (base.map .text)
  rw [hway] at hsegments
  rw [Bool.eq_iff_iff, Workspace.accepts_check, decide_eq_true_iff, candidateFrom,
    Workspace.holdsWording_plain hlinks hroot hscheme hsegments (by simp [hne])
      (List.forall_mem_append.mpr ⟨hcut, hwritten⟩), placeFrom]

theorem resolve_lookup (strategy : Strategy) {names : List Text} {owner : Uri} {project : Text}
    {inner : List Text} (hinner : innerSegments owner.segments = project :: inner)
    (howner : ∀ segment ∈ project :: inner, Uri.Plain segment)
    (hrelative : isAbsolute (.text written) = false) (hnames : ∀ name ∈ names, Uri.Plain name) :
    (resolve disk (workspace.check disk) ⟨strategy, names.map .text⟩ owner (.text written)).value =
      ((folders strategy names written project inner).find?
        fun folder => disk.offers (placeFrom workspace written folder)).map
          fun folder => .text (uriFrom written folder) := by
  have hbases : ∀ base ∈ bases strategy names project inner, ∀ name ∈ base, Uri.Plain name := by
    intro base hmem
    cases strategy with
    | singleFolder => exact List.mem_singleton.mp hmem ▸ howner
    | multiFolder =>
        cases inner with
        | nil => cases hmem
        | cons next rest =>
            obtain ⟨name, hname, rfl⟩ := List.mem_map.mp hmem
            obtain ⟨hproject, hnext⟩ := List.forall_mem_cons.mp howner
            exact List.forall_mem_cons.mpr ⟨hproject, List.forall_mem_cons.mpr
              ⟨hnames name hname, (List.forall_mem_cons.mp hnext).2⟩⟩
  have haccepts : ∀ base ∈ bases strategy names project inner,
      ((workspace.check disk).accepts ∘ candidateFrom written) base =
        ((fun folder => disk.offers (placeFrom workspace written folder)) ∘ cut written) base :=
    fun base hmem => accepts_candidateFrom hlinks hroot hne hwritten (hbases base hmem)
  rw [(resolve_spec disk _ _ owner _ hrelative).1, candidates_text hinner, folders, List.find?_map,
    List.find?_map, List.find?_congr haccepts, Option.map_map]
  exact congrArg (Option.map · _) (funext fun base => candidateFrom_eq written base)

end Plain

-- On a disk without links, where segments and names are plain, an import is resolved to the first
-- of the folders that it is at. For that the system has to take the path to its file.
theorem resolve_finds_first_file (hlinks : disk.Unlinked) (hhere : ∀ name ∈ disk.here, IsName name)
    {root : Path} (hroot : Workspace.ofRoot disk root = .ok workspace)
    {project file : Text} {inner : List Text}
    (howner : ∀ segment ∈ project :: (inner ++ [file]), Uri.Plain segment)
    (hrelative : isAbsolute (.text written) = false) (hne : Text.segments '/' written ≠ [])
    (hwritten : ∀ segment ∈ Text.segments '/' written, Uri.Plain segment)
    (strategy : Strategy) {names : List Text} (hnames : ∀ name ∈ names, Uri.Plain name) :
    let owner := Uri.parse
      ("platform:/resource/".toList ++ Text.join '/' (project :: (inner ++ [file])))
    let found := (Resolver.mk (workspace.check disk)
      (.fixed ⟨strategy, names.map .text⟩)).resolve disk owner (.text written)
    found.value = .ok (((folders strategy names written project inner).find?
      fun folder => disk.offers (placeFrom workspace written folder)).map
        fun folder => .text (uriFrom written folder)) ∧
    (strategy = .multiFolder → inner = [] → found.value = .ok none) := by
  intro owner found
  have hrooted := Workspace.rooted_of_ofRoot hlinks hhere hroot
  have hsegments : owner.segments = "resource".toList :: project :: (inner ++ [file]) := by
    have htext : "platform:/resource/".toList = Scheme.workspace.opening ++ ['/'] := rfl
    simp only [owner, htext, List.append_assoc, List.singleton_append, Uri.parse_workspace,
      Text.segments_join _ (fun segment hmem => (howner segment hmem).ne_nil)
        fun segment hmem => (howner segment hmem).noSlash]
  have hinner : innerSegments owner.segments = project :: inner := by
    rw [hsegments, innerSegments_eq, List.tail_cons, List.dropLast_cons_of_ne_nil (by simp),
      List.dropLast_concat]
  have hfolder : ∀ segment ∈ project :: inner, Uri.Plain segment := by
    intro segment hmem
    rcases List.mem_cons.mp hmem with rfl | hmem
    · exact howner _ List.mem_cons_self
    · exact howner segment (by simp [hmem])
  have hlookup := resolve_lookup hlinks hrooted hne hwritten strategy hinner hfolder hrelative
    hnames
  have hvalue := Resolver.resolve_fixed (workspace.check disk) ⟨strategy, names.map .text⟩ disk
    owner (.text written)
  rw [hlookup] at hvalue
  refine ⟨hvalue, ?_⟩
  intro hmulti hnil
  rw [hvalue, hmulti, hnil]
  rfl

end Lookup

-- Files of one name in two of three folders.
private def twoFolders : Disk :=
  .tower ["ws".toList] ["ws".toList, "p".toList] [
    ("gen".toList, .folder [("c.proto".toList, .file [])]),
    ("old".toList, .folder [("b.proto".toList, .file [])]),
    ("src".toList, .folder [("b.proto".toList, .file [])])]

theorem resolve_in_third_folder :
    let owner := Uri.parse "platform:/resource/p/old/a.proto".toList
    let workspace : Workspace := ⟨⟨.root, ["ws".toList]⟩⟩
    let names := ["gen".toList, "lib".toList, "src".toList]
    Workspace.ofRoot twoFolders (Path.ofText ".".toList) = .ok workspace ∧
    ((Resolver.mk (workspace.check twoFolders) (.fixed ⟨.multiFolder, names.map .text⟩)).resolve
      twoFolders owner (.text "b.proto".toList)).value =
        .ok (some (.text "platform:/resource/p/src/b.proto".toList)) := by
  intro owner workspace names
  have hlinks : twoFolders.Unlinked :=
    Disk.tower_unlinked
      (Node.unlinked_folder (by simp [Node.unlinked_folder, Node.unlinked_file])) _ _
  have hhere : ∀ name ∈ twoFolders.here, IsName name := by
    intro name hmem
    obtain rfl := List.mem_singleton.mp hmem
    exact ⟨by decide, by decide, by decide, by decide⟩
  have hroot : Workspace.ofRoot twoFolders (Path.ofText ".".toList) = .ok workspace := by
    decide +kernel
  have howner : ∀ segment ∈ "p".toList :: (["old".toList] ++ ["a.proto".toList]),
      Uri.Plain segment := by decide +kernel
  have hwritten : ∀ segment ∈ Text.segments '/' "b.proto".toList, Uri.Plain segment := by
    decide +kernel
  have hnames : ∀ name ∈ names, Uri.Plain name := by decide +kernel
  obtain ⟨hfound, -⟩ := resolve_finds_first_file hlinks hhere hroot howner (by decide +kernel)
    (by decide +kernel) hwritten .multiFolder hnames
  have hspelled : "platform:/resource/".toList ++ Text.join '/'
      ("p".toList :: (["old".toList] ++ ["a.proto".toList])) =
        "platform:/resource/p/old/a.proto".toList := by decide +kernel
  rw [hspelled] at hfound
  refine ⟨hroot, hfound.trans ?_⟩
  decide +kernel

-- A file below more folders than a path may name.
private def deepNames : List Text := List.replicate 18 (List.replicate 250 'a')

private def deepDisk : Disk :=
  .tower [] (["ws".toList, "p".toList] ++ deepNames) [("x.proto".toList, .file [])]

private def deepImport : Text := Text.join '/' (deepNames ++ ["x.proto".toList])

-- The system does not take the path to such a file, so the check fails where the file is.
theorem resolve_misses_deep_file :
    let owner := Uri.parse "platform:/resource/p/o.proto".toList
    let workspace : Workspace := ⟨⟨.root, ["ws".toList]⟩⟩
    deepDisk.Unlinked ∧
    Workspace.ofRoot deepDisk (Path.ofText "/ws".toList) = .ok workspace ∧
    isAbsolute (.text deepImport) = false ∧
    Text.segments '/' deepImport = deepNames ++ ["x.proto".toList] ∧
    (∀ segment ∈ Text.segments '/' deepImport, Uri.Plain segment) ∧
    ((folders .singleFolder [] deepImport "p".toList []).find? fun folder =>
      deepDisk.hasFile (placeFrom workspace deepImport folder)) = some ["p".toList] ∧
    ((Resolver.mk (workspace.check deepDisk) (.fixed .standard)).resolve deepDisk owner
      (.text deepImport)).value = .ok none := by
  intro owner workspace
  have hlinks : deepDisk.Unlinked :=
    Disk.tower_unlinked (Node.unlinked_folder (by simp [Node.unlinked_file])) _ _
  have hhere : ∀ name ∈ deepDisk.here, IsName name := by simp [deepDisk]
  have hroot : Workspace.ofRoot deepDisk (Path.ofText "/ws".toList) = .ok workspace := by
    rw [Workspace.ofRoot_unlinked hlinks hhere]
    rfl
  have hplain : ∀ segment ∈ deepNames ++ ["x.proto".toList], Uri.Plain segment := by
    intro segment hmem
    rcases List.mem_append.mp hmem with hmem | hmem
    · obtain rfl := (List.mem_replicate.mp hmem).2
      decide +kernel
    · obtain rfl := List.mem_singleton.mp hmem
      decide +kernel
  have hrelative : isAbsolute (.text deepImport) = false := by decide +kernel
  have hsegments : Text.segments '/' deepImport = deepNames ++ ["x.proto".toList] :=
    Text.segments_join _ (fun segment hmem => (hplain segment hmem).ne_nil)
      fun segment hmem => (hplain segment hmem).noSlash
  have hwritten : ∀ segment ∈ Text.segments '/' deepImport, Uri.Plain segment := by
    rwa [hsegments]
  have hfolders : folders .singleFolder [] deepImport "p".toList [] = [["p".toList]] := by
    have hfirst : some "p".toList ≠ (Text.segments '/' deepImport).head? := by
      rw [hsegments]
      decide +kernel
    rw [folders, bases, List.map_singleton, cut,
      List.takeWhile_cons_of_pos (by simpa using hfirst)]
    rfl
  have hplace : placeFrom workspace deepImport ["p".toList] =
      (["ws".toList, "p".toList] ++ deepNames) ++ ["x.proto".toList] := by
    rw [placeFrom, hsegments]
    rfl
  have hfile : deepDisk.hasFile (placeFrom workspace deepImport ["p".toList]) = true := by
    rw [hplace, Disk.hasFile, deepDisk, Disk.tower_at?]
    rfl
  have hrefused : ¬Fits (placeFrom workspace deepImport ["p".toList]) := by
    rw [hplace]
    decide +kernel
  have hinner : innerSegments owner.segments = ["p".toList] := by decide +kernel
  have howner : ∀ segment ∈ ["p".toList], Uri.Plain segment := by decide +kernel
  have hnames : ∀ name ∈ ([] : List Text), Uri.Plain name := by simp
  have hlookup := resolve_lookup hlinks (Workspace.rooted_of_ofRoot hlinks hhere hroot)
    (by simp [hsegments]) hwritten .singleFolder hinner howner hrelative hnames
  have hoffers : deepDisk.offers (placeFrom workspace deepImport ["p".toList]) = false := by
    rw [Disk.offers, decide_eq_false hrefused, Bool.and_false]
  rw [hfolders, List.find?_singleton, hoffers] at hlookup
  rw [hfolders, List.find?_singleton, hfile]
  refine ⟨hlinks, hroot, hrelative, hsegments, hwritten, rfl, ?_⟩
  rw [Resolver.resolve_fixed]
  exact congrArg Except.ok hlookup

end Import

end WorkspaceImports
