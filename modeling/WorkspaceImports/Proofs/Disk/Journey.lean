import WorkspaceImports.Proofs.Disk.Walk

namespace WorkspaceImports.Disk

-- A piece of a path that the system looks for in the folder it has come to.
structure Sought (disk : Disk) (place : Location) (piece : Text) : Prop where
  folder : disk.isFolder place = true
  ne_nil : piece ≠ []
  ne_dot : piece ≠ ['.']
  ne_dots : piece ≠ ['.', '.']
  size_le : Utf8.size piece ≤ nameLimit

-- One step along the pieces of a path, with the number of links that it passes.
inductive Step (disk : Disk) (place : Location) : List Text → Nat → Location → List Text → Prop
  | stay {piece : Text} {rest : List Text} (hfolder : disk.isFolder place = true)
      (hpiece : piece = [] ∨ piece = ['.']) : Step disk place (piece :: rest) 0 place rest
  | up {rest : List Text} (hfolder : disk.isFolder place = true) :
      Step disk place (['.', '.'] :: rest) 0 place.dropLast rest
  | enter {piece : Text} {rest : List Text} {entry : Entry} (hsought : disk.Sought place piece)
      (hentry : disk.at? (place ++ [piece]) = some entry) (hlink : ∀ target, entry ≠ .link target) :
      Step disk place (piece :: rest) 0 (place ++ [piece]) rest
  | follow {piece target : Text} {rest : List Text} (hsought : disk.Sought place piece)
      (hentry : disk.at? (place ++ [piece]) = some (.link target)) :
      Step disk place (piece :: rest) 1 (linkStart place target) (target.splitOn '/' ++ rest)

-- Where no step is left: the place that the way leads to, or why it leads nowhere.
inductive Ends (disk : Disk) (place : Location) : List Text → Except Refusal Location → Prop
  | arrived : Ends disk place [] (.ok place)
  | notAFolder {piece : Text} {rest : List Text} (hfolder : disk.isFolder place = false) :
      Ends disk place (piece :: rest) (.error .notAFolder)
  | nameTooLong {piece : Text} {rest : List Text} (hfolder : disk.isFolder place = true)
      (hsize : nameLimit < Utf8.size piece) :
      Ends disk place (piece :: rest) (.error .nameTooLong)
  | notFound {piece : Text} {rest : List Text} (hsought : disk.Sought place piece)
      (hentry : disk.at? (place ++ [piece]) = none) :
      Ends disk place (piece :: rest) (.error .notFound)

-- Any number of steps, with the links of all of them.
inductive Journey (disk : Disk) : Location → List Text → Nat → Location → List Text → Prop
  | here {place : Location} {pieces : List Text} : Journey disk place pieces 0 place pieces
  | step {place reached found : Location} {pieces rest left : List Text} {links more : Nat}
      (hstep : disk.Step place pieces links reached rest)
      (h : Journey disk reached rest more found left) :
      Journey disk place pieces (links + more) found left

-- What is said of a way: how it ends, or that it passes more links than it may.
inductive Answers (disk : Disk) (budget : Nat) (place : Location) (pieces : List Text) :
    Except Refusal Location → Prop
  | ends {links : Nat} {found : Location} {left : List Text} {outcome : Except Refusal Location}
      (hlinks : links ≤ budget) (hjourney : disk.Journey place pieces links found left)
      (hends : disk.Ends found left outcome) : Answers disk budget place pieces outcome
  | linkLoop {links : Nat} {found : Location} {left : List Text} (hlinks : budget < links)
      (hjourney : disk.Journey place pieces links found left) :
      Answers disk budget place pieces (.error .linkLoop)

variable {disk : Disk} {place reached found : Location} {pieces rest left : List Text}
  {links budget : Nat} {outcome : Except Refusal Location}

theorem exists_step_or_ends (disk : Disk) (place : Location) (pieces : List Text) :
    (∃ links reached rest, disk.Step place pieces links reached rest) ∨
      ∃ outcome, disk.Ends place pieces outcome := by
  cases pieces with
  | nil => exact Or.inr ⟨_, .arrived⟩
  | cons piece rest =>
      by_cases hfolder : disk.isFolder place = true
      case neg => exact Or.inr ⟨_, .notAFolder (by simpa using hfolder)⟩
      by_cases hpiece : piece = [] ∨ piece = ['.']
      case pos => exact Or.inl ⟨_, _, _, .stay hfolder hpiece⟩
      by_cases hdots : piece = ['.', '.']
      case pos =>
        subst hdots
        exact Or.inl ⟨_, _, _, .up hfolder⟩
      by_cases hsize : Utf8.size piece ≤ nameLimit
      case neg => exact Or.inr ⟨_, .nameTooLong hfolder (by omega)⟩
      rw [not_or] at hpiece
      have hsought : disk.Sought place piece := ⟨hfolder, hpiece.1, hpiece.2, hdots, hsize⟩
      cases hentry : disk.at? (place ++ [piece]) with
      | none => exact Or.inr ⟨_, .notFound hsought hentry⟩
      | some entry =>
          cases entry with
          | link target => exact Or.inl ⟨_, _, _, .follow hsought hentry⟩
          | file content => exact Or.inl ⟨_, _, _, .enter hsought hentry (by simp)⟩
          | folder => exact Or.inl ⟨_, _, _, .enter hsought hentry (by simp)⟩

section Go

variable {follow : Location → Text → List Text → Except Obstacle Location}

theorem go_sought {piece : Text} (hsought : disk.Sought place piece) :
    go disk follow place (piece :: rest) =
      match disk.at? (place ++ [piece]) with
      | none => .error (if rest = [] then .absent (place ++ [piece]) else .refused .notFound)
      | some (.link target) => follow place target rest
      | some _ => go disk follow (place ++ [piece]) rest := by
  have hshort : ¬nameLimit < Utf8.size piece := Nat.not_lt.mpr hsought.size_le
  cases hentry : disk.at? (place ++ [piece]) with
  | none =>
      simp [go, hsought.folder, hsought.ne_nil, hsought.ne_dot, hsought.ne_dots, hshort, hentry]
  | some entry =>
      cases entry <;>
        simp [go, hsought.folder, hsought.ne_nil, hsought.ne_dot, hsought.ne_dots, hshort, hentry]

theorem go_step (h : disk.Step place pieces 0 reached rest) :
    go disk follow place pieces = go disk follow reached rest := by
  cases h with
  | stay hfolder hpiece => simp [go, hfolder, hpiece]
  | up hfolder => simp [go, hfolder]
  | @enter piece _ entry hsought hentry hlink =>
      rw [go_sought hsought, hentry]
      cases entry with
      | link target => exact absurd rfl (hlink target)
      | file content => rfl
      | folder => rfl

theorem go_follow {piece target : Text} (hsought : disk.Sought place piece)
    (hentry : disk.at? (place ++ [piece]) = some (.link target)) :
    go disk follow place (piece :: rest) = follow place target rest := by
  rw [go_sought hsought, hentry]

theorem go_ends (h : disk.Ends place pieces outcome) :
    (go disk follow place pieces).mapError Obstacle.refusal = outcome := by
  cases h with
  | arrived => rfl
  | notAFolder hfolder =>
      simp only [go, hfolder, Bool.not_false, if_true]
      rfl
  | @nameTooLong piece rest hfolder hsize =>
      have hlong {short : Text} (hshort : Utf8.size short ≤ nameLimit) : piece ≠ short := by
        rintro rfl
        omega
      simp only [go, hfolder, hlong (show Utf8.size [] ≤ nameLimit by decide),
        hlong (show Utf8.size ['.'] ≤ nameLimit by decide),
        hlong (show Utf8.size ['.', '.'] ≤ nameLimit by decide), hsize, or_self, Bool.not_true,
        Bool.false_eq_true, if_false, if_true]
      rfl
  | @notFound piece rest hsought hentry =>
      rw [go_sought hsought, hentry]
      by_cases hrest : rest = []
      · simp only [hrest, if_true]
        rfl
      · simp only [hrest, if_false]
        rfl

end Go

section Travel

theorem travel_step (h : disk.Step place pieces 0 reached rest) :
    travel disk budget place pieces = travel disk budget reached rest := by
  cases budget <;> exact go_step h

theorem travel_follow (h : disk.Step place pieces 1 reached rest) :
    travel disk (budget + 1) place pieces = travel disk budget reached rest := by
  cases h with
  | follow hsought hentry => exact go_follow hsought hentry

theorem travel_no_budget (h : disk.Step place pieces 1 reached rest) :
    travel disk 0 place pieces = .error (.refused .linkLoop) := by
  cases h with
  | follow hsought hentry => exact go_follow hsought hentry

theorem Step.links_cases (h : disk.Step place pieces links reached rest) :
    links = 0 ∨ links = 1 := by
  cases h with
  | follow => exact Or.inr rfl
  | _ => exact Or.inl rfl

-- A way may be taken up from any place on it, with the links that are left.
theorem travel_journey (h : disk.Journey place pieces links found left) :
    travel disk (links + budget) place pieces = travel disk budget found left := by
  induction h with
  | here => rw [Nat.zero_add]
  | @step _ _ _ _ _ _ links more hstep _ ih =>
      rcases hstep.links_cases with rfl | rfl
      · rw [Nat.zero_add, travel_step hstep, ih]
      · rw [show 1 + more + budget = more + budget + 1 by omega, travel_follow hstep, ih]

theorem travel_linkLoop (h : disk.Journey place pieces links found left) (hlinks : budget < links) :
    travel disk budget place pieces = .error (.refused .linkLoop) := by
  induction h generalizing budget with
  | here => omega
  | @step _ _ _ _ _ _ links more hstep _ ih =>
      rcases hstep.links_cases with rfl | rfl
      · rw [travel_step hstep, ih (by omega)]
      cases budget with
      | zero => exact travel_no_budget hstep
      | succ budget => rw [travel_follow hstep, ih (by omega)]

theorem Answers.step (hstep : disk.Step place pieces links reached rest)
    (h : disk.Answers budget reached rest outcome) :
    disk.Answers (links + budget) place pieces outcome := by
  cases h with
  | ends hlinks hjourney hends => exact .ends (by omega) (.step hstep hjourney) hends
  | linkLoop hlinks hjourney => exact .linkLoop (by omega) (.step hstep hjourney)

theorem Step.rest_eq {piece : Text} (h : disk.Step place (piece :: rest) 0 reached left) :
    left = rest := by
  cases h <;> rfl

-- Without a link the pieces become fewer, so that only links are left to be looked at.
theorem answers_of_follow (hfollow : ∀ {place pieces reached rest},
      disk.Step place pieces 1 reached rest → disk.Answers budget place pieces
        ((travel disk budget place pieces).mapError Obstacle.refusal)) (place : Location)
    (pieces : List Text) : disk.Answers budget place pieces
      ((travel disk budget place pieces).mapError Obstacle.refusal) := by
  induction pieces generalizing place with
  | nil => cases budget <;> exact .ends (Nat.zero_le _) .here .arrived
  | cons piece rest ih =>
      rcases exists_step_or_ends disk place (piece :: rest) with
        ⟨links, reached, left, hstep⟩ | ⟨outcome, hends⟩
      · rcases hstep.links_cases with rfl | rfl
        · have hrest := hstep.rest_eq
          subst hrest
          rw [travel_step hstep]
          simpa using (ih reached).step hstep
        · exact hfollow hstep
      · have houtcome : (travel disk budget place (piece :: rest)).mapError Obstacle.refusal =
            outcome := by
          cases budget <;> exact go_ends hends
        rw [houtcome]
        exact .ends (Nat.zero_le _) .here hends

-- A link takes one from the budget.
theorem travel_answers (disk : Disk) (budget : Nat) (place : Location) (pieces : List Text) :
    disk.Answers budget place pieces
      ((travel disk budget place pieces).mapError Obstacle.refusal) := by
  induction budget generalizing place pieces with
  | zero =>
      refine answers_of_follow (fun hstep => ?_) place pieces
      rw [travel_no_budget hstep]
      exact .linkLoop Nat.zero_lt_one (.step hstep .here)
  | succ budget ih =>
      refine answers_of_follow (fun hstep => ?_) place pieces
      rw [travel_follow hstep, Nat.add_comm]
      exact (ih _ _).step hstep

theorem travel_eq_iff : (travel disk budget place pieces).mapError Obstacle.refusal = outcome ↔
    disk.Answers budget place pieces outcome := by
  constructor
  · rintro rfl
    exact travel_answers disk budget place pieces
  · rintro (⟨hlinks, hjourney, hends⟩ | ⟨hlinks, hjourney⟩)
    · obtain ⟨spare, rfl⟩ := Nat.exists_eq_add_of_le hlinks
      rw [travel_journey hjourney]
      cases spare <;> exact go_ends hends
    · rw [travel_linkLoop hjourney hlinks]
      rfl

end Travel

-- What the system says of a path.
inductive Stat (disk : Disk) (path : Path) : Except Refusal Entry → Prop
  | tooLong (h : pathLimit ≤ Utf8.size path.text) : Stat disk path (.error .nameTooLong)
  | refused {refusal : Refusal} (hsize : Utf8.size path.text < pathLimit)
      (h : disk.Answers linkLimit (disk.start path) path.names (.error refusal)) :
      Stat disk path (.error refusal)
  | stands {place : Location} {entry : Entry} (hsize : Utf8.size path.text < pathLimit)
      (h : disk.Answers linkLimit (disk.start path) path.names (.ok place))
      (hentry : disk.at? place = some entry) : Stat disk path (.ok entry)
  | missing {place : Location} (hsize : Utf8.size path.text < pathLimit)
      (h : disk.Answers linkLimit (disk.start path) path.names (.ok place))
      (hentry : disk.at? place = none) : Stat disk path (.error .notFound)

theorem find_of_size {path : Path} (hsize : Utf8.size path.text < pathLimit) :
    disk.find path = ((travel disk linkLimit (disk.start path) path.names).mapError
      Obstacle.refusal).bind disk.see := by
  rw [find, locate, if_neg (by omega)]
  cases travel disk linkLimit (disk.start path) path.names <;> rfl

theorem find_eq_iff {path : Path} {answer : Except Refusal Entry} :
    disk.find path = answer ↔ disk.Stat path answer := by
  constructor
  · rintro rfl
    by_cases hsize : pathLimit ≤ Utf8.size path.text
    · rw [find, locate, if_pos hsize]
      exact .tooLong hsize
    rw [Nat.not_le] at hsize
    have hanswers := travel_answers disk linkLimit (disk.start path) path.names
    rw [find_of_size hsize]
    cases houtcome : (travel disk linkLimit (disk.start path) path.names).mapError
        Obstacle.refusal with
    | error refusal => exact .refused hsize (houtcome ▸ hanswers)
    | ok place =>
        rw [houtcome] at hanswers
        change disk.Stat path (disk.see place)
        unfold see
        cases hentry : disk.at? place with
        | none => exact .missing hsize hanswers hentry
        | some entry => exact .stands hsize hanswers hentry
  · rintro (hsize | ⟨hsize, hanswers⟩ | ⟨hsize, hanswers, hentry⟩ | ⟨hsize, hanswers, hentry⟩)
    · rw [find, locate, if_pos hsize]
      rfl
    · rw [find_of_size hsize, travel_eq_iff.mpr hanswers]
      rfl
    · rw [find_of_size hsize, travel_eq_iff.mpr hanswers]
      simp [Except.bind, see, hentry]
    · rw [find_of_size hsize, travel_eq_iff.mpr hanswers]
      simp [Except.bind, see, hentry]

end WorkspaceImports.Disk
